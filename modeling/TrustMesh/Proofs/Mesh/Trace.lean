import TrustMesh.Proofs.Mesh.Inquiry
import TrustMesh.Proofs.Mesh.Legibility

/-!
# Traces

The search for a peer is an inquiry: a peer next to the target asks the target alone,
any other asks its whole frontier, and nobody but the target answers.
-/

namespace TrustMesh

open Std

namespace Deployment

variable {d : Deployment} {a t m : Member} {target : PeerId}

/-- An identifier of a member that is linked is the one that the member uses. -/
theorem eq_id_of_linked (there : t ∈ d.members) (named : t.identity.contains target = true)
    {p : PeerId} (linked : d.Linked p target) : target = t.id :=
  (contains_linked_iff there linked).1 named

/-- Whom a peer asks for a target that belongs to a member. -/
def traceSpread (d : Deployment) (t : Member) (target : PeerId) (s : Stop) : List PeerId :=
  if t.id ∈ s.path then []
  else if target ∈ d.neighbours s.peer then [target]
  else d.frontier s

/-- Passing a search on goes to the target alone if it is linked, and to the frontier otherwise. -/
theorem packets_onward (mem : m ∈ d.members) {e : Engine} (serves : e.Serves m) {s : Stop}
    (here : s.peer = m.id) (onward : t.id ∉ s.path) (target : PeerId) {message : Message}
    (request : Message) (path : ∀ q, q ∈ s.path ↔ q ∈ message.route ∨ q = m.id) :
    packets (match (d.directory m.id).resolve target with
      | some link => [⟨link, request⟩]
      | none => Engine.address (d.directory m.id)
          (e.floodTargets (d.directory m.id) message none) request) =
      ↑((d.traceSpread t target s).map fun q => (⟨m.id, q, request⟩ : Packet)) := by
  rw [traceSpread, if_neg onward, here]
  by_cases near : target ∈ d.neighbours m.id
  · rw [resolve_of_linked (mem_neighbours.1 near), if_pos near]
    rfl
  · rw [resolve_directory, if_neg near, if_neg near]
    rw [floodTargets_eq_frontier mem serves here path (by simp)]
    exact packets_address fun q asked => here ▸ (mem_frontier.1 asked).1

/-- The member that starts a search asks as the plan says. -/
theorem packets_startTrace (mem : m ∈ d.members) (apart : m.id ≠ t.id)
    {e : Engine} (serves : e.Serves m) (id : MessageId) :
    packets (e.startTrace (d.surroundings m) id target).offered =
      ↑((d.traceSpread t target ⟨[], m.id⟩).map fun q =>
        (⟨m.id, q, id, [m.id], .traceRequest target⟩ : Packet)) := by
  have own : e.primary = m.id := by rw [Engine.primary, serves.identity]; rfl
  rw [Engine.startTrace, own]
  refine packets_onward mem serves rfl ?_ target _ ?_
  · simpa [Stop.path] using apart.symm
  · simp [Stop.path]

/-- A member that remembers nothing of a search and is asked for the target answers if it is the
target, and passes the search on otherwise. -/
theorem packets_onTraceRequest (first : a ∈ d.members) (there : t ∈ d.members)
    (named : t.identity.contains target = true) (mem : m ∈ d.members)
    {e : Engine} (serves : e.Serves m) {v : Visit} (here : v.peer = m.id)
    (spread : v.peer ∈ d.traceSpread t target v.before) (trail : d.Trail a.id v.path)
    {id : MessageId} (unseen : e.seen.contains id = false) :
    packets (e.onTraceRequest (d.surroundings m)
        ⟨id, v.before.path, .traceRequest target⟩ target).offered =
      (if v.peer = t.id then {⟨v.peer, v.before.peer, id, v.before.path,
        .traceResponse target (.single target [])⟩} else 0) +
      ↑((d.traceSpread t target v.stop).map fun q =>
        (⟨v.peer, q, id, v.path, .traceRequest target⟩ : Packet)) := by
  have linked : d.Linked v.before.peer m.id := here ▸ (trail_concat_iff.1 trail).2.1
  have unpassed : ((⟨id, v.before.path, .traceRequest target⟩ : Message).hasLoop ||
      e.onRoute ⟨id, v.before.path, .traceRequest target⟩) = false :=
    unpassed_of_trail first mem serves here trail rfl
  have fresh : (e.seen.mark id).1 = true := by rw [SeenCache.mark_fst, unseen]; rfl
  have contains : e.identity.contains target = true ↔ m = t := by
    rw [serves.identity]
    exact contains_iff mem there named
  have marked : ({ e with seen := (e.seen.mark id).2 } : Engine).Serves m :=
    ⟨serves.identity, serves.settings⟩
  have own : e.primary = m.id := by rw [Engine.primary, serves.identity]; rfl
  simp only [Engine.onTraceRequest, unpassed, fresh, Bool.not_true, Bool.false_eq_true, if_false]
  by_cases found : m = t
  · have quiet : d.traceSpread t target v.stop = [] := by
      rw [traceSpread, if_pos]
      simp [Visit.path, here, found]
    have previous : (⟨id, v.before.path, .traceRequest target⟩ : Message).previousHop? =
        some v.before.peer :=
      List.getLast?_concat ..
    have back : ∀ q ∈ [v.before.peer], d.Linked m.id q := by simpa using linked.symm
    rw [if_pos (contains.2 found), previous, if_pos (found ▸ here), quiet, here]
    exact packets_address back
  · have onward : t.id ∉ v.stop.path := by
      have before : t.id ∉ v.before.path := by
        intro passed
        simp [traceSpread, passed] at spread
      have other : t.id ≠ m.id := fun same => found (eq_of_id_eq mem there same.symm)
      simp [Visit.path, before, here, other]
    have path : ∀ q, q ∈ v.stop.path ↔
        q ∈ (⟨id, v.before.path, .traceRequest target⟩ : Message).route ∨ q = m.id := by
      simp [Visit.path, here]
    have asked := packets_onward mem marked here onward target
      ⟨id, v.before.path ++ [m.id], .traceRequest target⟩ path
    have silent : v.peer ≠ t.id := fun same => onward (same ▸ by simp [Visit.path])
    rw [if_neg (contains.not.2 found), if_neg silent, zero_add, Visit.path, here, ← asked]
    simp only [surroundings, Message.extended, Engine.primary, serves.identity]
    cases (d.directory m.id).resolve target with
    | some link => rfl
    | none => rfl

/-- The plan of a search from one member for another. If `once` holds, no peer passes it on twice. -/
def tracePlan (d : Deployment) (a : Member) {t : Member} {target : PeerId} (there : t ∈ d.members)
    (named : t.identity.contains target = true) (once : Prop) : Plan d where
  origin := a.id
  spread := d.traceSpread t target
  linked s q mem := by
    unfold traceSpread at mem
    split at mem
    · cases mem
    · split at mem
      · rename_i near
        cases List.mem_singleton.1 mem
        exact mem_neighbours.1 near
      · exact (mem_frontier.1 mem).1
  onward s q mem := by
    unfold traceSpread at mem
    split at mem
    · cases mem
    · rename_i unpassed
      split at mem
      · rename_i near
        cases List.mem_singleton.1 mem
        rwa [eq_id_of_linked there named (mem_neighbours.1 near)]
      · exact (mem_frontier.1 mem).2
  distinct s := by
    unfold traceSpread
    split
    · exact List.nodup_nil
    · split
      · exact List.nodup_singleton _
      · exact d.nodup_frontier s
  answers v := v.peer = t.id
  once := once
  thorough := False

/-- Asking again is ignored, and remembered anew. -/
theorem onTraceRequest_of_seen {e : Engine} {s : Surroundings} {message : Message}
    (straight : (message.hasLoop || e.onRoute message) = false) :
    (e.seen.contains message.id = true → (e.onTraceRequest s message target).offered = []) ∧
      ∃ value, (e.onTraceRequest s message target).engine.seen.entries =
        e.seen.entries.put message.id value := by
  obtain ⟨value, stored⟩ := e.seen.exists_mark_eq_put message.id
  have fresh := e.seen.mark_fst message.id
  constructor
  · intro seen
    rw [seen] at fresh
    simp only [Engine.onTraceRequest, straight, fresh, Bool.false_eq_true, if_false]
    rfl
  · refine ⟨value, ?_⟩
    simp only [Engine.onTraceRequest, straight, Bool.false_eq_true, if_false]
    repeat' split
    all_goals exact stored

/-- The search of a member for another one is an inquiry. -/
def traceInquiry (d : Deployment) {a t : Member} {target : PeerId} (first : a ∈ d.members)
    (there : t ∈ d.members) (named : t.identity.contains target = true) (apart : a ≠ t)
    (id : MessageId) (once : Prop) : Inquiry d where
  origin := a
  member := first
  id := id
  exchange := .trace target
  plan := d.tracePlan a there named once
  begins := rfl
  request := .traceRequest target
  reply _ := .traceResponse target (.single target [])
  sort := Event.isRoute id
  settled _ thorough := thorough
  asks := rfl
  replies _ := rfl
  own _ := Event.id_of_isRoute
  tells {e s sender v event} told := by
    have body := told
    simp only [Engine.handle, Survey.answer, Engine.onTraceResponse] at body
    split at body
    · cases body
      exact decide_eq_true rfl
    · cases body
    · cases body
  opens {e} serves := by
    have differ : a.id ≠ t.id := fun same => apart (eq_of_id_eq first there same)
    rw [Plan.map_children]
    exact packets_startTrace first differ serves id
  hears {m e v} mem serves here allowed unseen := by
    rw [Survey.offers, Plan.map_children]
    have asked := packets_onTraceRequest first there named mem serves here allowed.spread
      allowed.trail (unseen fun no => no)
    simpa [Engine.handle, Survey.asking, Survey.answering, Survey.answer, tracePlan] using asked
  ignores {m e v} mem serves here allowed _ seen :=
    (onTraceRequest_of_seen (unpassed_of_trail first mem serves here allowed.trail rfl)).1 seen
  quiet := Engine.onTraceRequest_quiet
  remembers {m e v} mem serves here allowed _ :=
    (onTraceRequest_of_seen (unpassed_of_trail first mem serves here allowed.trail rfl)).2

/-- A search spreads until it gets to its target. -/
theorem traceSpread_leads {s : Stop} {q : PeerId} (there : t ∈ d.members)
    (named : t.identity.contains target = true) (unpassed : t.id ∉ s.path)
    (linked : d.Linked s.peer q) (onward : q ∉ s.path) :
    q ∈ d.traceSpread t target s ∨ t.id ∈ d.traceSpread t target s := by
  rw [traceSpread, if_neg unpassed]
  split
  · rename_i near
    exact .inr (by simp [eq_id_of_linked there named (mem_neighbours.1 near)])
  · exact .inl (mem_frontier.2 ⟨linked, onward⟩)

/-- The answers to a search are the times that its target was reached. -/
theorem card_filter_answers (a : Member) (there : t ∈ d.members)
    (named : t.identity.contains target = true) (once : Prop) (f : Flood) :
    (f.heard.filter ((d.tracePlan a there named once).answers · = true)).card =
      f.reached.count t.id := by
  rw [Flood.reached, Multiset.count_map]
  simp [tracePlan, eq_comm]

/-- Whatever the order in which nodes handle frames, when no frame is in flight a search has found
its target if links join it to the node that searches, once or more often, and has not found it
otherwise. It has found it once if every node can remember all exchanges. -/
theorem trace_delivery {d : Deployment} {ids : Nat → MessageId} {h : History} {n : Network}
    {a t : Member} {target : PeerId} {id : MessageId} (runs : d.Runs ids h n)
    (distinct : h.startedIds.Nodup) (silent : n.Silent) (first : a ∈ d.members)
    (there : t ∈ d.members) (apart : a ≠ t) (named : t.identity.contains target = true)
    (started : h.Started a.id id (.trace target)) :
    (d.Joined a.id t.id → 1 ≤ (h.emitted a.id).countP (Event.isRoute id) ∧
      ((∀ m ∈ d.members, h.startedIds.length ≤ m.settings.seenCapacity) →
        (h.emitted a.id).countP (Event.isRoute id) = 1)) ∧
    (¬ d.Joined a.id t.id → (h.emitted a.id).countP (Event.isRoute id) = 0) := by
  obtain ⟨s, reaches, -⟩ := runs.reaches
  have legible := reaches.legible distinct started trivial
  have ended : ∀ once : Prop,
      (once → ∀ m ∈ d.members, h.startedIds.length ≤ m.settings.seenCapacity) →
      ∃ f : Flood, f.Orderly (d.tracePlan a there named once) ∧ f.asked = 0 ∧
        (h.emitted a.id).countP (Event.isRoute id) = f.reached.count t.id := by
    intro once room
    obtain ⟨f, settles⟩ := Inquiry.exists_settles
      (I := d.traceInquiry first there named apart id once)
      runs silent ⟨legible, distinct, room⟩ started
    exact ⟨f, settles.orderly, settles.asked,
      settles.emitted.trans (card_filter_answers a there named once f)⟩
  obtain ⟨f, orderly, asked, count⟩ := ended False False.elim
  have found : d.Joined a.id t.id → t.id ∈ f.reached := by
    intro joined
    refine (orderly.reached_of_joined asked (fun s unpassed q linked onward => ?_) joined).resolve_left
      fun same => apart (eq_of_id_eq first there same.symm)
    exact traceSpread_leads there named unpassed linked onward
  refine ⟨fun joined => ⟨?_, fun room => ?_⟩, fun parted => ?_⟩
  · rw [count]
    exact Multiset.one_le_count_iff_mem.2 (found joined)
  · obtain ⟨f', orderly', -, count'⟩ := ended True fun _ => room
    have atMost := Multiset.nodup_iff_count_le_one.1 (orderly'.once trivial) t.id
    have atLeast := Multiset.one_le_count_iff_mem.2 (found joined)
    omega
  · rw [count, Multiset.count_eq_zero]
    exact fun mem => parted (orderly.joined_of_reached mem)

/-- One of two linked members finds the other one. -/
theorem trace_delivery_pair :
    (((pair false).trial (fun _ => .zero) ⟨"A"⟩ (.trace ⟨"B"⟩) 9).1.emitted ⟨"A"⟩).countP
      (Event.isRoute .zero) = 1 := by
  have runs := (pair false).runs_trial (fun _ => .zero) ⟨"A"⟩ (.trace ⟨"B"⟩) 9 (by decide +kernel)
  generalize tried : (pair false).trial (fun _ => .zero) ⟨"A"⟩ (.trace ⟨"B"⟩) 9 = r at runs ⊢
  obtain ⟨distinct, silent, started, room⟩ : r.1.startedIds.Nodup ∧ r.2.Silent ∧
      r.1.Started (Member.plain ⟨"A"⟩ false).id .zero (.trace ⟨"B"⟩) ∧
      ∀ m ∈ (pair false).members, r.1.startedIds.length ≤ m.settings.seenCapacity := by
    subst tried
    decide +kernel
  have apart : Member.plain ⟨"A"⟩ false ≠ .plain ⟨"B"⟩ false := fun same =>
    absurd (congrArg Member.id same) (by decide)
  have named : (Member.plain ⟨"B"⟩ false).identity.contains ⟨"B"⟩ = true := by decide
  have joined : (pair false).Joined ⟨"A"⟩ ⟨"B"⟩ := .single (.inl (by simp [pair]))
  have delivery := trace_delivery runs distinct silent (by simp [pair]) (by simp [pair]) apart
    named started
  exact (delivery.1 joined).2 room

end Deployment

end TrustMesh
