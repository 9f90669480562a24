import TrustMesh.Proofs.Mesh.Accounting

/-!
# Searches and queries end

The requests of traces and compliance queries go along routes that repeat no peer, and
answers come back along them. So the load of a request is what it can cost while there are
members that its route has not passed (`fan`), and the load of an answer is how far it is
from the origin of its route. Both pay for what a message leads to, and `query_floods_end`
follows: no frames are handled without end, whatever is forgotten on the way.

The memory of a node is no part of the argument, and neither are identifiers: exchanges may
share them.
-/

namespace TrustMesh

open Std

/-- What a request can cost among so many peers while its route may pass so many more of them. -/
def fan (peers : Nat) : Nat → Nat
  | 0 => 0
  | room + 1 => (peers + 1) * (1 + peers + fan peers room)

/-- Whether an exchange asks for answers, as traces and compliance queries do. -/
def Exchange.asks : Exchange → Bool
  | .gossip .. => false
  | _ => true

/-- The messages of an exchange that asks are no gossips. -/
theorem Exchange.Admits.ne_gossip {exchange : Exchange} {kind : MessageKind}
    (admits : exchange.Admits kind) (asks : exchange.asks = true) : kind ≠ .gossip := by
  rintro rfl
  cases exchange with
  | trace target => exact admits
  | gossip members content => cases asks
  | comply framework => exact admits

/-- Few items that cost little each cost little. -/
theorem sum_le_of_each {α : Type} {items : List α} {cost : α → Nat} {count unit : Nat}
    (few : items.length ≤ count) (each : ∀ x ∈ items, cost x ≤ unit) :
    (items.map cost).sum ≤ count * unit := by
  refine (List.sum_le_card_nsmul _ unit fun y there => ?_).trans ?_
  · obtain ⟨x, mem, rfl⟩ := List.mem_map.1 there
    exact each x mem
  · rw [List.length_map, smul_eq_mul]
    exact Nat.mul_le_mul_right unit few

namespace Deployment

variable {d : Deployment} {h : History} {s : Scene} {m : Member} {k : Packet}

/-- The load of a request or an answer. -/
def load (d : Deployment) (k : Packet) : Nat :=
  if k.message.body.kind.isRequest then
    fan d.members.length (d.members.length - k.message.route.length)
  else k.message.route.idxOf k.far

theorem load_congr {l : Packet} (same : k.Resembles l) : d.load k = d.load l := by
  obtain ⟨-, far, -, route, kind⟩ := same
  rw [load, load, kind, route, far]

theorem load_of_request (asks : k.message.body.kind.isRequest = true) :
    d.load k = fan d.members.length (d.members.length - k.message.route.length) := if_pos asks

theorem load_of_answer (answers : k.message.body.kind.isAnswer = true) :
    d.load k = k.message.route.idxOf k.far := by
  refine if_neg fun asks => ?_
  rw [MessageKind.isAnswer_of_isRequest asks] at answers
  cases answers

/-- Different peers that are members are at most as many as there are members. -/
theorem length_le_of_known {peers : List PeerId} (simple : peers.Nodup)
    (known : ∀ q ∈ peers, ∃ m ∈ d.members, m.id = q) : peers.length ≤ d.members.length := by
  have within : peers ⊆ d.members.map Member.id := fun q there =>
    let ⟨m, mem, own⟩ := known q there
    List.mem_map.2 ⟨m, mem, own⟩
  simpa using (simple.subperm within).length_le

theorem length_connected_le (d : Deployment) (p : PeerId) :
    (d.directory p).connected.length ≤ d.members.length :=
  length_le_of_known (nodup_connected d p) fun _ there => (mem_connected.1 there).member

/-- Where a request goes on, its route leaves room for one more peer. -/
theorem Course.length_lt (course : d.Course k) (mem : m ∈ d.members) {e : Engine}
    (serves : e.Serves m) (asks : k.message.body.kind.isRequest = true)
    (unpassed : e.Unpassed k.message) : k.message.route.length < d.members.length := by
  have longer : (k.message.route ++ [m.id]).Nodup := by
    rw [← List.concat_eq_append, List.nodup_concat]
    exact ⟨not_mem_route_of_unpassed mem serves unpassed,
      course.simple (MessageKind.ne_gossip_of_isRequest asks)⟩
  simpa using length_le_of_known longer (course.known_concat mem)

/-- What a request leads to costs no more than the request. -/
theorem cost_le_of_request (course : d.Course k) (mem : m ∈ d.members) {e : Engine}
    (serves : e.Serves m) (asks : k.message.body.kind.isRequest = true) :
    ((e.handle (d.surroundings m) (some k.near) k.message).offered.map fun o =>
      d.load o.packet + 1).sum ≤ d.load k := by
  cases offered : (e.handle (d.surroundings m) (some k.near) k.message).offered with
  | nil => exact Nat.zero_le _
  | cons first others =>
    rw [← offered]
    have passes : ∀ o ∈ (e.handle (d.surroundings m) (some k.near) k.message).offered,
        e.Passes (d.surroundings m) (some k.near) k.message o := fun o => Engine.handle_passes
    have answers := MessageKind.isAnswer_of_isRequest asks
    have unpassed : e.Unpassed k.message := by
      cases passes first (by simp [offered]) with
      | onward _ unpassed => exact unpassed
      | answer _ unpassed => exact unpassed
      | back back => rw [answers] at back; cases back
      | spread gossip => rw [gossip] at asks; cases asks
    have short := course.length_lt mem serves asks unpassed
    obtain ⟨room, left⟩ : ∃ room, d.members.length - k.message.route.length = room + 1 :=
      ⟨d.members.length - k.message.route.length - 1, by omega⟩
    rw [load_of_request asks, left, fan]
    have few : (e.handle (d.surroundings m) (some k.near) k.message).offered.length ≤
      (d.directory m.id).connected.length + 1 := Engine.length_offered_of_request asks
    refine sum_le_of_each (few.trans (Nat.succ_le_succ (length_connected_le d m.id)))
      fun o offer => ?_
    cases passes o offer with
    | onward _ _ longer _ =>
      have request : o.packet.message.body.kind.isRequest = true := by
        rw [Dispatch.packet, longer]
        exact asks
      have length : o.packet.message.route.length = k.message.route.length + 1 := by
        rw [Dispatch.packet, longer]
        exact List.length_append ..
      rw [load_of_request request, length,
        show d.members.length - (k.message.route.length + 1) = room by omega]
      omega
    | answer _ _ replies route _ =>
      have near : o.packet.message.route.idxOf o.packet.far ≤ o.packet.message.route.length :=
        List.idxOf_le_length
      rw [load_of_answer replies]
      rw [show o.packet.message.route = _ from route] at near ⊢
      omega
    | back back => rw [answers] at back; cases back
    | spread gossip => rw [gossip] at asks; cases asks

/-- What an answer leads to costs no more than the answer. -/
theorem cost_le_of_answer (course : d.Course k) (mem : m ∈ d.members) {e : Engine}
    (serves : e.Serves m) (arrived : k.far = m.id)
    (answers : k.message.body.kind.isAnswer = true) :
    ((e.handle (d.surroundings m) (some k.near) k.message).offered.map fun o =>
      d.load o.packet + 1).sum ≤ d.load k := by
  have simple := course.simple (MessageKind.ne_gossip_of_isAnswer answers)
  have once : (e.handle (d.surroundings m) (some k.near) k.message).offered.length ≤ 1 :=
    Engine.length_offered_of_answer answers
  refine (sum_le_of_each once fun o offer => ?_).trans (Nat.one_mul _).le
  obtain ⟨same, forward⟩ := (Engine.handle_passes offer).back_of_isAnswer answers
  rw [serves.identity] at forward
  obtain ⟨front, rest, whole, -, passed⟩ := course.returns mem arrived answers forward
  have same : o.packet.message = k.message := same
  have passed : o.packet.far ∈ front := passed
  rw [load_of_answer (same ▸ answers), load_of_answer answers, same, arrived]
  rw [whole] at simple ⊢
  have apart : m.id ∉ front := fun there =>
    (List.nodup_append.1 simple).2.2 _ there _ (by simp) rfl
  rw [List.idxOf_append_of_mem passed, List.idxOf_append_of_notMem apart, List.idxOf_cons_self]
  exact List.idxOf_lt_length_of_mem passed

/-- The first messages of an exchange that asks cost no more than a request that has passed no peer. -/
theorem cost_le_of_start (mem : m ∈ d.members) {e : Engine} {id : MessageId} {exchange : Exchange}
    (asks : exchange.asks = true) :
    ((e.start (d.surroundings m) id exchange).offered.map fun o => d.load o.packet + 1).sum ≤
      fan d.members.length d.members.length := by
  obtain ⟨others, more⟩ : ∃ others, d.members.length = others + 1 :=
    Nat.exists_eq_add_one_of_ne_zero (List.ne_nil_of_mem mem ∘ List.eq_nil_of_length_eq_zero)
  have few : (e.start (d.surroundings m) id exchange).offered.length ≤ d.members.length + 1 := by
    refine (Engine.length_start_le fun members content same => ?_).trans
      (Nat.succ_le_succ (length_connected_le d m.id))
    rw [same] at asks
    cases asks
  rw [show fan d.members.length d.members.length =
    (d.members.length + 1) * (1 + d.members.length + fan d.members.length others) by
      conv_lhs => rw [more, fan, ← more]]
  refine sum_le_of_each few fun o offer => ?_
  obtain ⟨-, route, carried, -⟩ := Engine.start_offers offer
  have request : o.packet.message.body.kind.isRequest = true := by
    rcases o.message.body.kind.sorts with request | answer | gossip
    · exact request
    · rw [(Engine.start_opens offer).1] at answer
      cases answer
    · exact absurd gossip (carried.admits.ne_gossip asks)
  have length : o.packet.message.route.length = 1 := congrArg List.length route
  rw [load_of_request request, length, show d.members.length - 1 = others by omega]
  omega

/-- The tariff of exchanges that ask. -/
def questions (d : Deployment) : Tariff d where
  Regime h := ∀ peer id exchange, h.Started peer id exchange → exchange.asks = true
  load := d.load
  spare _ := 0
  fund := 0
  price := fan d.members.length d.members.length
  earlier asks peer id exchange started := asks peer id exchange (started.mono _)
  congr := load_congr
  opens _ := le_rfl
  starts reaches mem call asks := by
    subst call
    have own := asks _ _ _ (History.started_concat _ rfl rfl)
    rw [Nat.add_zero, Nat.zero_add]
    exact cost_le_of_start mem own
  handles _ _ reaches mem there arrived call asks := by
    subst call
    have ledger := reaches.ledger
    have course := reaches.course _ there
    rw [Nat.add_zero, Nat.zero_add]
    rcases MessageKind.sorts _ with request | answer | gossip
    · exact cost_le_of_request course mem (ledger.serves mem) request
    · exact cost_le_of_answer course mem (ledger.serves mem) arrived answer
    · obtain ⟨_, _, started, -, admits, -⟩ := ledger.exchanges _ there
      exact absurd gossip (admits.ne_gossip (asks _ _ _ started))

/-- So many frames are sent at most for each exchange, where all of them ask. -/
theorem Runs.sent_le_of_asks {ids : Nat → MessageId} {n : Network} (runs : d.Runs ids h n)
    (asks : ∀ peer id exchange, h.Started peer id exchange → exchange.asks = true) :
    h.sent ≤ fan d.members.length d.members.length * h.startedIds.length := by
  obtain ⟨s, reaches, -⟩ := runs.reaches
  have paid := Tariff.sent_le (t := d.questions) reaches asks
  simp only [questions] at paid
  omega

/-- Traces and compliance queries end: no more frames are handled than were sent, so many are sent
for each of them at most, and frames are not handled without end. -/
theorem query_floods_end {ids : Nat → MessageId} {n : Network} (runs : d.Runs ids h n)
    (asks : ∀ peer id exchange, h.Started peer id exchange → exchange.asks = true) :
    h.handled ≤ h.sent ∧
      h.sent ≤ fan d.members.length d.members.length * h.startedIds.length ∧
      IsEmpty n.Endless := by
  have bounded : ∀ k next, k.Relays → d.Runs ids (h ++ k) next →
      (h ++ k).sent ≤ fan d.members.length d.members.length * h.startedIds.length := by
    intro k next relays runs
    have paid := runs.sent_le_of_asks fun peer id exchange started =>
      asks peer id exchange (relays.started started)
    rwa [relays.startedIds] at paid
  exact ⟨runs.handled_le_sent, runs.sent_le_of_asks asks, isEmpty_endless runs bounded⟩

/-- A trace from one of two linked peers to the other ends after two frames. -/
theorem query_floods_end_pair :
    let n := (pair false).trial (fun _ => .zero) ⟨"A"⟩ (.trace ⟨"B"⟩) 9
    (pair false).Runs (fun _ => .zero) n.1 n.2 ∧
      (∀ peer id exchange, n.1.Started peer id exchange → exchange.asks = true) ∧
      n.1.sent = 2 ∧ IsEmpty n.2.Endless := by
  have runs := runs_trial (pair false) (fun _ => .zero) ⟨"A"⟩ (.trace ⟨"B"⟩) 9 (by decide +kernel)
  have asks : ∀ peer id exchange,
      History.Started ((pair false).trial (fun _ => .zero) ⟨"A"⟩ (.trace ⟨"B"⟩) 9).1
        peer id exchange → exchange.asks = true := by
    rintro peer id exchange ⟨deed, there, -, began⟩
    have all : ∀ deed ∈ ((pair false).trial (fun _ => .zero) ⟨"A"⟩ (.trace ⟨"B"⟩) 9).1,
        (deed.started?.all (·.2.asks)) = true := by decide +kernel
    have own := all deed there
    rwa [began] at own
  exact ⟨runs, asks, by decide +kernel, (query_floods_end runs asks).2.2⟩

end Deployment

end TrustMesh
