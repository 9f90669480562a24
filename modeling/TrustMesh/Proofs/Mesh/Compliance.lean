import TrustMesh.Proofs.Mesh.Inquiry

/-!
# Compliance queries

A compliance query is an inquiry: every peer that hears it answers and asks its whole
frontier. Where queries are deduplicated a peer hears one only once, and otherwise no
peer ignores one.
-/

namespace TrustMesh

open Std

/-- The graph with which a member answers a query of a peer: its roles and the link to the peer. -/
def Member.answerGraph (m : Member) (framework : Framework) (sender : PeerId) : Graph :=
  (Graph.single m.id (framework.grantedRoles m.oracle).toList).addEdge m.id sender
    m.settings.linkLabel

namespace Deployment

variable {d : Deployment} {a m : Member} {e : Engine}

/-- The member of a peer. -/
def memberAt (d : Deployment) (a : Member) (peer : PeerId) : Member :=
  (d.members.find? (·.id = peer)).getD a

theorem memberAt_id (mem : m ∈ d.members) : d.memberAt a m.id = m := by
  unfold memberAt
  cases found : d.members.find? (·.id = m.id) with
  | none => exact (by simpa using List.find?_eq_none.1 found m mem : False).elim
  | some other =>
    exact eq_of_id_eq (List.mem_of_find?_eq_some found) mem
      (by simpa using List.find?_some found)

/-- The member that starts a query asks all its neighbours. -/
theorem packets_startCompliance (mem : a ∈ d.members) (serves : e.Serves a) (id : MessageId)
    (framework : Framework) :
    packets (e.startCompliance (d.surroundings a) id framework).offered =
      ↑((d.frontier ⟨[], a.id⟩).map fun q =>
        (⟨a.id, q, id, [a.id], .complianceRequest framework⟩ : Packet)) := by
  have own : e.primary = a.id := by rw [Engine.primary, serves.identity]; rfl
  simp only [Engine.startCompliance, own]
  rw [surroundings, floodTargets_eq_frontier (s := ⟨[], a.id⟩) mem serves rfl (by simp [Stop.path])
    (by simp)]
  exact packets_address fun q asked => (mem_frontier.1 asked).1

/-- A member answers a query and asks its whole frontier. -/
theorem packets_answerQuery (mem : m ∈ d.members) (serves : e.Serves m) {v : Visit}
    (here : v.peer = m.id) (linked : d.Linked v.before.peer v.peer) (id : MessageId)
    (framework : Framework) :
    packets (e.answerQuery (d.surroundings m) v.before.peer
        ⟨id, v.before.path, .complianceRequest framework⟩ framework).offered =
      {⟨v.peer, v.before.peer, id, v.before.path,
        .complianceResponse (m.answerGraph framework v.before.peer)⟩} +
      ↑((d.frontier v.stop).map fun q =>
        (⟨v.peer, q, id, v.path, .complianceRequest framework⟩ : Packet)) := by
  have own : e.primary = m.id := by rw [Engine.primary, serves.identity]; rfl
  have back : ∀ q ∈ [v.before.peer], d.Linked m.id q := by simpa [← here] using linked.symm
  have onward : ∀ q ∈ d.frontier v.stop, d.Linked m.id q := fun q asked =>
    here ▸ (mem_frontier.1 asked).1
  have path : ∀ q, q ∈ v.stop.path ↔ q ∈ v.before.path ∨ q = m.id := by simp [Visit.path, here]
  simp only [Engine.answerQuery, Engine.pass, surroundings, own, serves.settings]
  rw [packets_append, floodTargets_eq_frontier mem serves here path (by simp [Stop.path]),
    packets_address back, packets_address onward, Visit.path, here]
  rfl

/-- Whether a query is new to an engine. -/
theorem admitQuery_fst (e : Engine) (id : MessageId) :
    (e.admitQuery id).1 = !(e.settings.complianceDedup && e.seen.contains id) := by
  unfold Engine.admitQuery
  cases e.settings.complianceDedup with
  | true => exact e.seen.mark_fst id
  | false => rfl

theorem admitQuery_serves (serves : e.Serves m) (id : MessageId) : (e.admitQuery id).2.Serves m :=
  ⟨(e.admitQuery_keeps id).identity.trans serves.identity,
    (e.admitQuery_keeps id).settings.trans serves.settings⟩

/-- A member is asked over a route that does not pass it: it answers the query if that is new to it
and does nothing otherwise. -/
theorem onComplianceRequest_of_trail (first : a ∈ d.members) (mem : m ∈ d.members)
    (serves : e.Serves m) {v : Visit} (here : v.peer = m.id) (trail : d.Trail a.id v.path)
    (id : MessageId) (framework : Framework) :
    e.onComplianceRequest (d.surroundings m) (some v.before.peer)
        ⟨id, v.before.path, .complianceRequest framework⟩ framework =
      if (e.admitQuery id).1 then
        (e.admitQuery id).2.answerQuery (d.surroundings m) v.before.peer
          ⟨id, v.before.path, .complianceRequest framework⟩ framework
      else (e.admitQuery id).2.drop .duplicate := by
  have unpassed : ((⟨id, v.before.path, .complianceRequest framework⟩ : Message).hasLoop ||
      e.onRoute ⟨id, v.before.path, .complianceRequest framework⟩) = false :=
    unpassed_of_trail first mem serves here trail rfl
  simp only [Engine.onComplianceRequest, unpassed, Bool.false_eq_true, if_false]
  cases (e.admitQuery id).1 with
  | true => rfl
  | false => rfl

/-- The plan of a query, which peers hear only once if it is deduplicated. -/
def compliancePlan (d : Deployment) (a : Member) (dedup : Bool) : Plan d where
  origin := a.id
  spread := d.frontier
  linked _ _ mem := (mem_frontier.1 mem).1
  onward _ _ mem := (mem_frontier.1 mem).2
  distinct := d.nodup_frontier
  answers _ := true
  once := dedup = true
  thorough := dedup = false

/-- A compliance query is an inquiry where all members deduplicate or none does. -/
def complianceInquiry (d : Deployment) {a : Member} (first : a ∈ d.members) {dedup : Bool}
    (alike : ∀ m ∈ d.members, m.settings.complianceDedup = dedup) (id : MessageId)
    (framework : Framework) : Inquiry d where
  origin := a
  member := first
  id := id
  exchange := .comply framework
  plan := d.compliancePlan a dedup
  begins := rfl
  request := .complianceRequest framework
  reply v := .complianceResponse ((d.memberAt a v.peer).answerGraph framework v.before.peer)
  sort := Event.isCompliance id
  settled once thorough := by cases once.symm.trans thorough
  asks := rfl
  replies _ := rfl
  own _ := Event.id_of_isCompliance
  tells {e s sender v event} told := by
    have body := told
    simp only [Engine.handle, Survey.answer, Engine.onComplianceResponse] at body
    split at body
    · cases body
      exact decide_eq_true rfl
    · cases body
    · cases body
  opens {e} serves := by
    rw [Plan.map_children]
    exact packets_startCompliance first serves id framework
  hears {m e v} mem serves here allowed unseen := by
    have admitted : (e.admitQuery id).1 = true := by
      rw [admitQuery_fst, serves.settings, alike m mem]
      cases dedup with
      | true => rw [unseen nofun]; rfl
      | false => rfl
    have handled := onComplianceRequest_of_trail first mem serves here allowed.trail id framework
    rw [if_pos admitted] at handled
    have linked := (trail_concat_iff.1 allowed.trail).2.1
    have answered := packets_answerQuery mem (admitQuery_serves serves id) here linked id framework
    rw [← handled] at answered
    rw [Survey.offers, Plan.map_children]
    simpa [Engine.handle, Survey.asking, Survey.answering, Survey.answer, compliancePlan, here,
      memberAt_id mem] using answered
  ignores {m e v} mem serves here allowed marks seen := by
    have refused : (e.admitQuery id).1 = false := by
      rw [admitQuery_fst, serves.settings, alike m mem, seen, Bool.eq_true_of_not_eq_false marks]
      rfl
    have handled := onComplianceRequest_of_trail first mem serves here allowed.trail id framework
    rw [refused] at handled
    exact congrArg Step.offered handled
  quiet := Engine.onComplianceRequest_quiet
  remembers {m e v} mem serves here allowed marks := by
    obtain ⟨value, stored⟩ := e.seen.exists_mark_eq_put id
    have marked : (e.admitQuery id).2.seen = (e.seen.mark id).2 := by
      rw [Engine.admitQuery, serves.settings, alike m mem, Bool.eq_true_of_not_eq_false marks]
      rfl
    have handled := onComplianceRequest_of_trail first mem serves here allowed.trail id framework
    refine ⟨value, ?_⟩
    rw [← stored, ← marked]
    refine congrArg SeenCache.entries ((congrArg (·.engine.seen) handled).trans ?_)
    split <;> rfl

end Deployment

end TrustMesh
