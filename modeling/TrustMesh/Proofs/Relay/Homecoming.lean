import TrustMesh.Proofs.Message.RoundTrip
import TrustMesh.Proofs.Relay.Discipline
import TrustMesh.Proofs.Relay.ReturnPath

/-!
# The way home

An answer that is handed to a peer of its route goes to an earlier peer of the route, and so
on until it is where the route began. Which peers it skips depends on which of them happen
to be linked; that it comes home, and after how many hops at most, does not
(`Lane.answers_come_home`).

What the engines on the way remember plays no part in it.
-/

namespace TrustMesh

namespace ReturnHop

variable {identity : Identity} {directory : Directory} {route : List PeerId} {i : Nat}

/-- At the first entry of a route, a response is taken in. -/
theorem ofRoute_of_first (here : 0 < route.length) (own : identity.contains route[0] = true) :
    ofRoute route identity directory = .deliver := by
  obtain ⟨origin, rest, rfl⟩ := List.exists_cons_of_length_pos here
  exact ofRoute_of_origin own

/-- At a later entry, a response goes to an entry before it. -/
theorem ofRoute_of_index (here : i < route.length) (later : 0 < i)
    (own : ∀ j (there : j < route.length), identity.contains route[j] = true ↔ j = i)
    (reached : (directory.resolve route[i - 1]).isSome) :
    ∃ j, ∃ earlier : j < i, ∃ link, directory.resolve route[j] = some link ∧
      ofRoute route identity directory = .forward link := by
  obtain ⟨n, rfl⟩ := Nat.exists_eq_succ_of_ne_zero (Nat.ne_of_gt later)
  have earlier : route.take n ++ [route[n]] = route.take (n + 1) := List.take_append_getElem ..
  have whole : route.take n ++ [route[n]] ++ route[n + 1] :: route.drop (n + 2) = route := by
    rw [earlier, ← List.drop_eq_getElem_cons here, List.take_append_drop]
  have index : ∀ hop ∈ route.take n ++ [route[n]], ∃ j, ∃ _ : j < n + 1, route[j] = hop := by
    intro hop mem
    obtain ⟨j, within, same⟩ := List.mem_take_iff_getElem.1 (earlier ▸ mem)
    exact ⟨j, by omega, same⟩
  have foreign : ∀ hop ∈ route.take n ++ [route[n]], identity.contains hop = false := by
    intro hop mem
    obtain ⟨j, before, rfl⟩ := index hop mem
    exact Bool.eq_false_iff.2 fun contained => by
      have := (own j (by omega)).1 contained
      omega
  have scanned : ∃ hop ∈ route.take n ++ [route[n]], ∃ link, directory.resolve hop = some link ∧
      ofRoute (route.take n ++ [route[n]] ++ route[n + 1] :: route.drop (n + 2)) identity directory =
        .forward link := ofRoute_of_later ((own _ here).2 rfl) foreign reached
  obtain ⟨hop, mem, link, resolved, forward⟩ := scanned
  obtain ⟨j, before, rfl⟩ := index hop mem
  exact ⟨j, before, link, resolved, whole ▸ forward⟩

end ReturnHop

/-- Peers on a route, each with its identity and its directory: of the entries of the route a peer knows
its own as itself, and it reaches the one before. A channel between two of them leads to the peer that
it is resolved for and takes every frame. -/
structure Lane (route : List PeerId) (identity : PeerId → Identity)
    (directory : PeerId → Directory) : Prop where
  simple : route.Nodup
  own : ∀ p ∈ route, ∀ q ∈ route, (identity p).contains q = true ↔ q = p
  linked : ∀ i (later : i + 1 < route.length), ((directory route[i + 1]).resolve route[i]).isSome
  leads : ∀ p ∈ route, ∀ q ∈ route, ∀ link, (directory p).resolve q = some link →
    link.far = q ∧ ∀ frame, (directory p).accepts link frame = true

/-- What every engine of a peer does with a frame, whatever it remembers, whoever sent the frame and
whatever credentials the peer holds. -/
def AtPeer (identity : PeerId → Identity) (directory : PeerId → Directory) (p : PeerId)
    (frame : Frame) (does : Step Outcome → Prop) : Prop :=
  ∀ (e : Engine) (s : Surroundings) (sender : Option PeerId), e.identity = identity p →
    s.directory = directory p → does (e.handleFrame s sender frame)

/-- The way of an answer whose frame is handed to a peer: it is taken in, with an event, or goes on to
one further peer and nothing else happens. The number counts the hops. -/
inductive Homeward (identity : PeerId → Identity) (directory : PeerId → Directory) (m : Message) :
    Frame → PeerId → PeerId → Nat → Prop where
  | arrived {frame : Frame} {p : PeerId}
      (takes : AtPeer identity directory p frame fun step => step.offered = [] ∧
        ∃ event, event.id = m.id ∧ step.result.event? = some event) :
      Homeward identity directory m frame p p 0
  | onward {frame : Frame} {p origin : PeerId} {link : Link} {hops : Nat}
      (passes : AtPeer identity directory p frame fun step => step.offered = [⟨link, m⟩] ∧
        step.result.recipients = [link.far] ∧ step.result.event? = none)
      (rest : Homeward identity directory m m.encode link.far origin hops) :
      Homeward identity directory m frame p origin (hops + 1)

namespace Lane

variable {route : List PeerId} {identity : PeerId → Identity} {directory : PeerId → Directory}
  {frame : Frame} {m : Message}

/-- On a lane, a peer knows an entry as itself if it stands at the place of the peer. -/
theorem own_iff (lane : Lane route identity directory) {i j : Nat} (here : i < route.length)
    (there : j < route.length) : (identity route[i]).contains route[j] = true ↔ j = i := by
  rw [lane.own _ (List.getElem_mem here) _ (List.getElem_mem there)]
  exact lane.simple.getElem_inj_iff

/-- An answer that was read is read again from its own frame. -/
theorem decode_encode_of_answer (read : Message.decode frame = .ok m)
    (answers : m.body.isAnswer = true) : Message.decode m.encode = .ok m := by
  have proper := (Message.proper_of_decode read).1
  obtain ⟨id, route, body⟩ := m
  cases body with
  | traceResponse target graph => exact Body.lucid_traceResponse target proper id route
  | complianceResponse graph => exact Body.lucid_complianceResponse proper id route
  | _ => cases answers

/-- The peer that began the route takes an answer in. -/
theorem arrived (lane : Lane route identity directory) (read : Message.decode frame = .ok m)
    (answers : m.body.isAnswer = true) (along : m.route = route) (here : 0 < route.length) :
    Homeward identity directory m frame route[0] route[0] 0 := by
  refine .arrived fun e s sender self near => ?_
  have deliver : ReturnHop.ofRoute m.route e.identity s.directory = .deliver := by
    rw [along, self]
    exact ReturnHop.ofRoute_of_first here ((lane.own_iff here here).2 rfl)
  simp only [Engine.handleFrame, read]
  obtain ⟨nothing, -, event, told⟩ : (e.handle s sender m).offered = [] ∧ _ :=
    Engine.handle_of_deliver answers deliver
  exact ⟨nothing, event, Engine.handle_event told, told⟩

/-- Any other peer of the route passes an answer on to an earlier one. -/
theorem onward (lane : Lane route identity directory) (read : Message.decode frame = .ok m)
    (answers : m.body.isAnswer = true) (along : m.route = route) {i : Nat}
    (here : i + 1 < route.length) : ∃ j, ∃ earlier : j < i + 1, ∀ origin hops,
      Homeward identity directory m m.encode route[j] origin hops →
        Homeward identity directory m frame route[i + 1] origin (hops + 1) := by
  obtain ⟨j, earlier, link, resolved, forward⟩ := ReturnHop.ofRoute_of_index here (Nat.succ_pos i)
    (fun j there => lane.own_iff here there) (lane.linked i here)
  obtain ⟨far, taken⟩ := lane.leads _ (List.getElem_mem here) _ (List.getElem_mem _) link resolved
  refine ⟨j, earlier, fun origin hops rest => .onward (fun e s sender self near => ?_) (far ▸ rest)⟩
  have forward : ReturnHop.ofRoute m.route e.identity s.directory = .forward link := by
    rw [along, self, near]
    exact forward
  simp only [Engine.handleFrame, read]
  obtain ⟨sent, -, quiet⟩ : (e.handle s sender m).offered = [⟨link, m⟩] ∧ _ :=
    Engine.handle_of_forward answers forward
  refine ⟨sent, ?_, quiet⟩
  rw [(e.handle_treats s sender m).recipients, sent]
  simp [Directory.recipients, near, taken]

/-- From any peer of its route, an answer comes home within as many hops as the peer is behind the
origin. -/
theorem homeward (lane : Lane route identity directory) (read : Message.decode frame = .ok m)
    (answers : m.body.isAnswer = true) (along : m.route = route) (i : Nat)
    (here : i < route.length) :
    ∃ hops ≤ i, Homeward identity directory m frame route[i] route[0] hops := by
  induction i using Nat.strongRecOn generalizing frame with
  | ind i ih =>
    cases i with
    | zero => exact ⟨0, Nat.le_refl 0, lane.arrived read answers along here⟩
    | succ i =>
      obtain ⟨j, earlier, further⟩ := lane.onward read answers along here
      have reread := decode_encode_of_answer read answers
      obtain ⟨hops, few, rest⟩ := ih j earlier reread (Nat.lt_trans earlier here)
      exact ⟨hops + 1, by omega, further _ _ rest⟩

/-- A response always moves closer to where its request began: a node on the route sends it to an entry
before its own, if it reaches the one right before, and the node that began the route takes it in. Hence
a response that is handed to any peer of the route, with each linked to the one before, is taken in at
the first after no more hops than the peer is behind it, whatever other peers are linked. -/
theorem answers_come_home (route : List PeerId) :
    (∀ i (here : i < route.length) (own : Identity) (near : Directory),
      (∀ j (there : j < route.length), own.contains route[j] = true ↔ j = i) →
        (i = 0 → ReturnHop.ofRoute route own near = .deliver) ∧
        (0 < i → (near.resolve route[i - 1]).isSome → ∃ j, ∃ earlier : j < i, ∃ link,
          near.resolve route[j] = some link ∧ ReturnHop.ofRoute route own near = .forward link)) ∧
    (∀ (identity : PeerId → Identity) (directory : PeerId → Directory) (frame : Frame)
      (m : Message), Lane route identity directory → Message.decode frame = .ok m →
        m.body.isAnswer = true → m.route = route → ∀ i (here : i < route.length),
          ∃ hops ≤ i, Homeward identity directory m frame route[i] route[0] hops) := by
  refine ⟨fun i here own near alone => ⟨?_, fun later reached => ?_⟩, ?_⟩
  · rintro rfl
    exact ReturnHop.ofRoute_of_first here ((alone 0 here).2 rfl)
  · exact ReturnHop.ofRoute_of_index here later alone reached
  · exact fun identity directory frame m lane read answers along i here =>
      lane.homeward read answers along i here

/-- An answer that is handed to the last of four peers in a row comes home, though the last one is
linked to the second as well. -/
theorem answers_come_home_shortcut :
    let route : List PeerId := [⟨"A"⟩, ⟨"B"⟩, ⟨"C"⟩, ⟨"D"⟩]
    let linked : PeerId → List PeerId
      | ⟨"A"⟩ => [⟨"B"⟩]
      | ⟨"B"⟩ => [⟨"A"⟩, ⟨"C"⟩, ⟨"D"⟩]
      | ⟨"C"⟩ => [⟨"B"⟩, ⟨"D"⟩]
      | _ => [⟨"B"⟩, ⟨"C"⟩]
    let identity : PeerId → Identity := fun p => .ofPeers p []
    let directory : PeerId → Directory := fun p => .ofPeers p (.ofList (linked p)) .empty
    let m : Message := ⟨.zero, route, .traceResponse ⟨"E"⟩ (.single ⟨"E"⟩ [])⟩
    ReturnHop.ofRoute route (identity ⟨"A"⟩) (directory ⟨"A"⟩) = .deliver ∧
      ∃ hops ≤ 3, Homeward identity directory m m.encode ⟨"D"⟩ ⟨"A"⟩ hops := by
  intro route linked identity directory m
  have lane : Lane route identity directory := by
    refine ⟨by decide, by decide, ?_, ?_⟩
    · rintro (_ | _ | _ | i) later
      · rfl
      · rfl
      · rfl
      · exact absurd later (by simp [route])
    · intro p _ q _ link resolved
      exact ⟨(Directory.faithful_ofPeers ..).leads q link resolved,
        Directory.accepts_ofPeers resolved⟩
  have read : Message.decode m.encode = .ok m :=
    Body.lucid_traceResponse _ (Graph.Built.sound (.addLabels _ _ .empty)) ..
  have home := answers_come_home route
  exact ⟨(home.1 0 (by decide) _ _ (by decide)).1 rfl,
    home.2 identity directory m.encode m lane read rfl rfl 3 (by decide)⟩

end Lane

end TrustMesh
