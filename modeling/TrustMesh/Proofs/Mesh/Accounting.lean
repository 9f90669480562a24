import Mathlib
import TrustMesh.Proofs.Mesh.Course
import TrustMesh.Proofs.Mesh.Reflection

/-!
# Frames sent and frames handled

Every frame that a node handles was sent to it, so a run handles no more frames than it
sends (`Deployment.Runs.handled_le_sent`). How many it sends is settled on scenes: if every
message in flight has a load that pays for the messages it leads to, and every exchange that
is started costs at most some price, then a run costs the price of each exchange that it
starts (`Tariff.sent_le`). `Network.Endless` is a run that handles frames without end;
there is none where the frames that can be sent are bounded (`isEmpty_endless`).
-/

namespace TrustMesh

open Std

namespace History

/-- The peers that handled the frames, in order. -/
def takers (h : History) : List PeerId := (h.filter (·.command.isDelivery)).map (·.peer)

/-- The peers that frames were sent to, in order. -/
def addressees (h : History) : List PeerId := (h.flatMap (·.offered)).map (·.link.far)

/-- How many frames were handled. -/
def handled (h : History) : Nat := h.countP (·.command.isDelivery)

/-- How many frames were sent. -/
def sent (h : History) : Nat := (h.flatMap (·.offered)).length

@[simp] theorem takers_append (h k : History) : takers (h ++ k) = takers h ++ takers k := by
  simp [takers]

@[simp] theorem addressees_append (h k : History) :
    addressees (h ++ k) = addressees h ++ addressees k := by
  rw [addressees, List.flatMap_append, List.map_append]
  rfl

@[simp] theorem handled_append (h k : History) : handled (h ++ k) = handled h + handled k :=
  List.countP_append ..

@[simp] theorem sent_append (h k : History) : sent (h ++ k) = sent h + sent k := by
  rw [sent, List.flatMap_append, List.length_append]
  rfl

theorem length_takers (h : History) : h.takers.length = h.handled := by
  rw [takers, List.length_map, handled, List.countP_eq_length_filter]

theorem length_addressees (h : History) : h.addressees.length = h.sent := List.length_map ..

/-- A history in which frames are handled and nothing else is done. -/
def Relays (h : History) : Prop := ∀ d ∈ h, d.command.isDelivery = true

theorem started_of_delivery {d : Deed} (delivers : d.command.isDelivery = true) :
    d.started? = none := by
  unfold Deed.started?
  split
  · rename_i same
    rw [same] at delivers
    cases delivers
  · rfl

/-- Handling frames starts nothing. -/
theorem Relays.startedIds {h k : History} (relays : k.Relays) :
    startedIds (h ++ k) = h.startedIds := by
  have none : History.startedIds k = [] := by
    refine List.filterMap_eq_nil_iff.2 fun d there => ?_
    rw [started_of_delivery (relays d there)]
    rfl
  rw [startedIds_append, none, List.append_nil]

theorem Relays.started {h k : History} (relays : k.Relays) {peer : PeerId} {id : MessageId}
    {exchange : Exchange} (started : Started (h ++ k) peer id exchange) :
    h.Started peer id exchange := by
  rcases started_append.1 started with before | ⟨d, there, -, began⟩
  · exact before
  · rw [started_of_delivery (relays d there)] at began
    cases began

theorem Relays.handled {h : History} (relays : h.Relays) : h.handled = h.length :=
  List.countP_eq_length.2 relays

end History

/-! ## Inboxes -/

namespace Network

variable {n next : Network} {peer : PeerId}

/-- How many frames wait in the inbox of a peer. -/
def awaiting (n : Network) (peer : PeerId) : Nat :=
  match n.nodes.get? peer with
  | some node => node.inbox.countP Command.isDelivery
  | none => 0

theorem awaiting_setNode (n : Network) (other peer : PeerId) (node : RelayNode) :
    (n.setNode other node).awaiting peer =
      if peer = other then node.inbox.countP Command.isDelivery else n.awaiting peer := by
  unfold awaiting setNode
  rw [OrderedMap.get?_insert]
  by_cases own : peer = other
  · simp [own]
  · simp [own]

theorem awaiting_congr (nodes : next.nodes = n.nodes) : next.awaiting peer = n.awaiting peer := by
  rw [awaiting, awaiting, nodes]

theorem awaiting_of_get? {node : RelayNode} (found : n.nodes.get? peer = some node) :
    n.awaiting peer = node.inbox.countP Command.isDelivery := by
  rw [awaiting, found]

/-- A command that is put into an inbox waits there. -/
theorem awaiting_submit {other : PeerId} {command : Command}
    (taken : n.submit other command = .ok next) :
    next.awaiting peer =
      n.awaiting peer + if peer = other ∧ command.isDelivery = true then 1 else 0 := by
  unfold submit at taken
  split at taken
  · cases taken
  · rename_i node found
    split at taken
    · rename_i after accepted
      cases taken
      unfold RelayNode.submit at accepted
      split at accepted
      · cases accepted
        rw [awaiting_congr (Deployment.nodes_enqueue ..), awaiting_setNode]
        by_cases own : peer = other
        · subst own
          rw [if_pos rfl, awaiting_of_get? found, List.countP_append, List.countP_singleton]
          simp
        · simp [own]
      · cases accepted
    · cases taken

/-- A frame that is routed may wait at the far end of its link from then on. -/
theorem awaiting_route_le {directory : Directory} {o : Dispatch} :
    (n.route directory o).awaiting peer ≤ n.awaiting peer + if o.link.far = peer then 1 else 0 := by
  unfold route post
  split
  · split
    · rename_i next taken
      rw [awaiting_submit taken]
      by_cases own : peer = o.link.far
      · simp [own, Command.isDelivery]
      · simp [own, Ne.symm own]
    · exact Nat.le_add_right ..
  · exact Nat.le_add_right ..

theorem awaiting_routeAll_le {directory : Directory} {offered : List Dispatch} :
    (offered.foldl (route directory) n).awaiting peer ≤
      n.awaiting peer + (offered.map (·.link.far)).count peer := by
  induction offered generalizing n with
  | nil => simp
  | cons o rest ih =>
    have first : (n.route directory o).awaiting peer ≤
      n.awaiting peer + if o.link.far = peer then 1 else 0 := awaiting_route_le
    have later := ih (n := n.route directory o)
    rw [List.foldl_cons, List.map_cons, List.count_cons]
    by_cases own : o.link.far = peer <;> simp [own] at first ⊢ <;> omega

/-- The commands of an inbox may be taken in any order. -/
theorem awaiting_promote (position : Nat) (other : PeerId) :
    (n.promote other position).awaiting peer = n.awaiting peer := by
  unfold Network.promote
  split
  · rename_i node found
    rw [awaiting_setNode]
    by_cases own : peer = other
    · rw [if_pos own, own, awaiting_of_get? found]
      unfold RelayNode.promote
      split
      · rename_i command there
        obtain ⟨bound, rfl⟩ := List.getElem?_eq_some_iff.1 there
        exact (List.getElem_cons_eraseIdx_perm bound).countP_eq _
      · rfl
    · rw [if_neg own]
  · rfl

theorem awaiting_collect (other : PeerId) :
    (n.collect other).2.awaiting peer = n.awaiting peer := by
  unfold Network.collect
  split
  · rfl
  · rename_i node found
    have emptied : (n.setNode other node.collect.2).awaiting peer = n.awaiting peer := by
      rw [awaiting_setNode]
      by_cases own : peer = other
      · rw [if_pos own, own, awaiting_of_get? found]
        rfl
      · rw [if_neg own]
    simp only
    split
    · rw [awaiting_congr (Deployment.nodes_enqueue ..)]
      exact emptied
    · exact emptied

/-- What a node leaves in its inbox when it does a command. -/
theorem inbox_act {node : RelayNode} (directory : Directory) (id : MessageId) {command : Command}
    {rest : List Command} (inbox : node.inbox = command :: rest) :
    (node.act directory id).node.inbox = rest ∨ (node.act directory id).node.inbox = [] := by
  unfold RelayNode.act
  rw [inbox]
  cases command with
  | deliver sender frame =>
    simp only [RelayNode.execute]
    split
    · refine .inl ?_
      unfold RelayNode.emit
      split <;> rfl
    · exact .inl rfl
  | start ticket exchange => exact .inl rfl
  | shutdown => exact .inr rfl

/-- A frame that is handled leaves the inbox, and the frames that are sent may join others. -/
theorem awaiting_act_le {deed : Deed} {other : PeerId} (done : n.deed? other = some deed) :
    (History.takers [deed]).count peer + (n.act other).awaiting peer ≤
      n.awaiting peer + (History.addressees [deed]).count peer := by
  simp only [deed?, Option.bind_eq_bind, Option.bind_eq_some_iff, Option.pure_def] at done
  obtain ⟨node, found, command, first, told⟩ := done
  cases told
  obtain ⟨rest, inbox⟩ := List.head?_eq_some_iff.1 first
  have left := inbox_act (n.directory other node.neighbours) (n.ids n.started) inbox
  simp only [act, found]
  refine (Nat.add_le_add_left awaiting_routeAll_le _).trans ?_
  rw [← Nat.add_assoc]
  refine Nat.add_le_add ?_ (by simp [History.addressees])
  change _ + (n.setNode other _).awaiting peer ≤ _
  rw [awaiting_setNode]
  have fewer : (node.act (n.directory other node.neighbours) (n.ids n.started)).node.inbox.countP
      Command.isDelivery ≤ rest.countP Command.isDelivery := by
    rcases left with same | empty
    · rw [same]
    · rw [empty]
      exact Nat.zero_le _
  by_cases own : peer = other
  · subst own
    rw [if_pos rfl, awaiting_of_get? found, inbox, List.countP_cons]
    by_cases delivery : command.isDelivery = true <;> simp [History.takers, delivery] <;> omega
  · rw [if_neg own]
    by_cases delivery : command.isDelivery = true <;>
      simp [History.takers, delivery, Ne.symm own]

/-- Every frame that a peer handled or that waits for it was sent to it or waited for it before. -/
theorem Runs.awaiting_le {h : History} (runs : n.Runs h next) (peer : PeerId) :
    h.takers.count peer + next.awaiting peer ≤ n.awaiting peer + h.addressees.count peer := by
  induction runs with
  | refl => simp [History.takers, History.addressees]
  | step prior step ih =>
    cases step with
    | start taken =>
      unfold Network.start at taken
      split at taken
      · rename_i after submitted
        cases taken
        have same : after.awaiting peer = _ := awaiting_submit submitted
        simp only [Command.isDelivery, Bool.false_eq_true, and_false, if_false] at same
        change _ + after.awaiting peer ≤ _
        rw [List.append_nil, same]
        exact ih
      · cases taken
    | collect => simpa [awaiting_collect] using ih
    | @act other position deed busy done =>
      have act : (History.takers [deed]).count peer + _ ≤ _ := awaiting_act_le done
      rw [awaiting_promote] at act
      simp only [History.takers_append, History.addressees_append, List.count_append]
      omega
    | reschedule =>
      rw [List.append_nil]
      exact ih

/-- Runs that meet are one run. -/
theorem Runs.trans {first middle last : Network} {h k : History} (before : first.Runs h middle)
    (after : middle.Runs k last) : first.Runs (h ++ k) last := by
  induction after with
  | refl => simpa using before
  | step prior step ih => simpa using ih.step step

/-- Frames are handled one after the other without end, and nothing else is done: applications may
take events, and what they start waits. -/
structure Endless (n : Network) where
  networkAt : Nat → Network
  deedAt : Nat → Deed
  begins : networkAt 0 = n
  relays : ∀ i, (deedAt i).command.isDelivery = true
  step : ∀ i, (networkAt i).Runs [deedAt i] (networkAt (i + 1))

/-- Where a frame can always be handled in such a way that the same holds again, frames can be handled
without end. -/
theorem nonempty_endless (Lasts : Network → Prop) (lasts : Lasts n)
    (goes : ∀ n, Lasts n → ∃ deed next, deed.command.isDelivery = true ∧ n.Runs [deed] next ∧
      Lasts next) : Nonempty n.Endless := by
  choose deed next delivers runs keeps using goes
  let stage : Nat → { n // Lasts n } := fun i =>
    Nat.rec ⟨n, lasts⟩ (fun _ now => ⟨next now.1 now.2, keeps now.1 now.2⟩) i
  exact ⟨⟨fun i => (stage i).1, fun i => deed (stage i).1 (stage i).2, rfl,
    fun i => delivers (stage i).1 (stage i).2, fun i => runs (stage i).1 (stage i).2⟩⟩

/-- The first deeds of a run without end are a run. -/
theorem Endless.runs (endless : n.Endless) (i : Nat) :
    n.Runs ((List.range i).map endless.deedAt) (endless.networkAt i) := by
  induction i with
  | zero =>
    rw [endless.begins]
    exact .refl
  | succ i ih =>
    rw [List.range_succ, List.map_append]
    exact ih.trans (endless.step i)

end Network

namespace Deployment

variable {d : Deployment} {ids : Nat → MessageId} {n : Network} {h : History}

/-- A run that goes on is a run. -/
theorem Runs.trans {next : Network} {k : History} (runs : d.Runs ids h n) (later : n.Runs k next) :
    d.Runs ids (h ++ k) next := by
  obtain ⟨first, assembled, runs⟩ := runs
  exact ⟨first, assembled, runs.trans later⟩

/-- No frame waits before anything has happened. -/
theorem awaiting_of_assemble (assembled : d.assemble ids = .ok n) (peer : PeerId) :
    n.awaiting peer = 0 := by
  obtain ⟨s, -, reflects⟩ := exists_opening assembled
  obtain ⟨spawned, -⟩ := spawned_of_foldlM d.pairwise_id_ne assembled
  unfold Network.awaiting
  split
  · rename_i node found
    obtain ⟨m, mem, rfl⟩ := reflects.member peer node found
    rw [(spawned m mem).1] at found
    cases found
    rfl
  · rfl

/-- No more frames are handled than were sent. -/
theorem Runs.handled_le_sent (runs : d.Runs ids h n) : h.handled ≤ h.sent := by
  obtain ⟨first, assembled, runs⟩ := runs
  have each : (h.takers : Multiset PeerId) ≤ h.addressees := by
    refine Multiset.le_iff_count.2 fun peer => ?_
    have sound := runs.awaiting_le peer
    rw [awaiting_of_assemble assembled] at sound
    simp only [Multiset.coe_count]
    omega
  have fewer := Multiset.card_le_card each
  rwa [Multiset.coe_card, Multiset.coe_card, History.length_takers, History.length_addressees]
    at fewer

/-- Where a bound holds of the frames that are sent while frames are handled, handling ends. -/
theorem isEmpty_endless {bound : Nat} (runs : d.Runs ids h n)
    (bounded : ∀ k next, k.Relays → d.Runs ids (h ++ k) next → (h ++ k).sent ≤ bound) :
    IsEmpty n.Endless := by
  refine ⟨fun endless => ?_⟩
  have later := runs.trans (endless.runs (bound + 1))
  have relays : History.Relays ((List.range (bound + 1)).map endless.deedAt) := by
    intro deed there
    obtain ⟨i, -, rfl⟩ := List.mem_map.1 there
    exact endless.relays i
  have sent := bounded _ _ relays later
  have handled := later.handled_le_sent
  rw [History.handled_append, relays.handled, List.length_map, List.length_range] at handled
  omega

/-! ## What messages cost -/

/-- Loads that pay for what messages lead to. In the histories of a regime, the load of a message in
flight covers the messages that it leads to, one frame for each of them and their loads; what a
scene has to spare makes up for the difference. An exchange that is started costs the price. -/
structure Tariff (d : Deployment) where
  Regime : History → Prop
  load : Packet → Nat
  spare : Scene → Nat
  fund : Nat
  price : Nat
  earlier : ∀ {h : History} {deed : Deed}, Regime (h ++ [deed]) → Regime h
  congr : ∀ {k l : Packet}, k.Resembles l → load k = load l
  opens : ∀ {s : Scene}, s.Opening d → spare s ≤ fund
  starts : ∀ {h : History} {s : Scene} {m : Member} {ticket : Nat} {id : MessageId}
    {exchange : Exchange} {step : Step Started}, d.Reaches h s → m ∈ d.members →
    (s.engine m.id).start (d.surroundings m) id exchange = step →
    Regime (h ++ [⟨m.id, .start ticket exchange, id, step.offered, none⟩]) →
    (step.offered.map fun o => load o.packet + 1).sum +
      spare (s.after m.id step.engine s.flight step.offered) ≤ spare s + price
  handles : ∀ {h : History} {s : Scene} {m : Member} {k : Packet} (rest : Multiset Packet)
    {step : Step Outcome}, d.Reaches h s → m ∈ d.members → k ∈ s.flight → k.far = m.id →
    (s.engine m.id).handle (d.surroundings m) (some k.near) k.message = step → Regime h →
    (step.offered.map fun o => load o.packet + 1).sum +
      spare (s.after m.id step.engine rest step.offered) ≤ spare s + load k

namespace Tariff

variable {t : Tariff d} {s : Scene}

/-- Messages that arrive have the loads of those that were offered. -/
theorem load_arrivals (t : Tariff d) (offered : List Dispatch) :
    ((arrivals offered).map t.load).sum + offered.length ≤
      (offered.map fun o => t.load o.packet + 1).sum := by
  induction offered with
  | nil => simp [arrivals]
  | cons o rest ih =>
    rw [List.map_cons, List.sum_cons, List.length_cons]
    cases arrives : o.arrival? with
    | none =>
      have lost : arrivals (o :: rest) = arrivals rest := by
        rw [arrivals, List.filterMap_cons_none arrives]
        rfl
      rw [lost]
      omega
    | some k =>
      have there : arrivals (o :: rest) = k ::ₘ arrivals rest := by
        rw [arrivals, List.filterMap_cons_some arrives]
        rfl
      rw [there, Multiset.map_cons, Multiset.sum_cons,
        t.congr (Dispatch.resembles_of_arrival arrives)]
      omega

/-- The frames that were sent and the loads of the messages in flight are paid for by the exchanges
that were started. -/
theorem sent_le (reaches : d.Reaches h s) (regime : t.Regime h) :
    h.sent + (s.flight.map t.load).sum + t.spare s ≤ t.fund + t.price * h.startedIds.length := by
  induction reaches with
  | opening opening =>
    have spare := t.opens opening
    simpa [opening.flight, History.sent, History.startedIds] using spare
  | @advance h s next deed prior advance ih =>
    have before := ih (t.earlier regime)
    cases advance with
    | @start m mem ticket id exchange step call =>
      have paid := t.starts prior mem call regime
      have arriving := t.load_arrivals step.offered
      have more : (h ++ [(⟨m.id, .start ticket exchange, id, step.offered, none⟩ : Deed)]).startedIds
          = h.startedIds ++ [id] := by
        rw [History.startedIds_append]
        rfl
      rw [History.sent_append, more, List.length_append, List.length_singleton, Nat.mul_succ]
      simp only [Scene.after, Multiset.map_add, Multiset.sum_add] at paid ⊢
      simp only [History.sent, List.flatMap_singleton] at before ⊢
      omega
    | @handle m mem k rest taken arrived id frame read step call =>
      have there : k ∈ s.flight := taken ▸ Multiset.mem_cons_self ..
      have paid := t.handles rest prior mem there arrived call (t.earlier regime)
      have arriving := t.load_arrivals step.offered
      have same : (h ++ [(⟨m.id, .deliver (some k.near) frame, id, step.offered,
          step.result.event?⟩ : Deed)]).startedIds = h.startedIds := by
        rw [History.startedIds_append]
        exact List.append_nil _
      rw [taken, Multiset.map_cons, Multiset.sum_cons] at before
      rw [History.sent_append, same]
      simp only [Scene.after, Multiset.map_add, Multiset.sum_add] at paid ⊢
      simp only [History.sent, List.flatMap_singleton] at before ⊢
      omega
    | idle idle =>
      rw [History.sent_append, History.startedIds_idle h idle]
      simpa [History.sent, idle.offered] using before

end Tariff

end Deployment

end TrustMesh
