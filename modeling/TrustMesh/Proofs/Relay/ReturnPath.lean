import Mathlib.Data.Set.Basic
import Mathlib.Order.Nat
import TrustMesh.Relay.ReturnPath

/-!
# Where a response goes

A route breaks behind an entry that a node reaches if there is a next entry and the node
does not reach that one. A response goes to the entry before the first break of its route
(`forwards_iff`). It goes nowhere if the route does not break, that is, if all entries out
of reach come before all entries within reach (`breaks_eq_empty_iff`).

At a peer on its route, a response goes to an entry that stands before the peer, as long
as the peer reaches the entry right before it. Which of the earlier entries that is does
not matter to those who rely on the response coming back.
-/

namespace TrustMesh

namespace ReturnHop

/-! ## Breaks of a route -/

section Breaks

variable {reached : PeerId → Prop} {hop next : PeerId} {route rest : List PeerId} {i : Nat}

/-- The places where a route breaks: the entry there is reached, and there is a next one that is
not. -/
def breaks (reached : PeerId → Prop) (route : List PeerId) : Set Nat :=
  {i | ∃ hop next, (route[i]? = some hop ∧ reached hop) ∧ route[i + 1]? = some next ∧ ¬ reached next}

@[simp] theorem breaks_nil : breaks reached [] = ∅ := by simp [breaks]

@[simp] theorem breaks_singleton : breaks reached [hop] = ∅ := by simp [breaks]

@[simp] theorem zero_mem_breaks :
    0 ∈ breaks reached (hop :: next :: rest) ↔ reached hop ∧ ¬ reached next := by
  simp [breaks]

@[simp] theorem succ_mem_breaks :
    i + 1 ∈ breaks reached (hop :: rest) ↔ i ∈ breaks reached rest := by
  simp [breaks]

/-- Where a route breaks there is an entry, and it is reached. -/
theorem exists_reached_of_mem_breaks (broken : i ∈ breaks reached route) :
    ∃ hop, route[i]? = some hop ∧ reached hop := by
  obtain ⟨hop, -, entry, -⟩ := broken
  exact ⟨hop, entry⟩

/-- A route breaks between an entry that is reached and one that is not. -/
theorem length_mem_breaks {front : List PeerId} (near : reached hop) (far : ¬ reached next) :
    front.length ∈ breaks reached (front ++ [hop] ++ next :: rest) := by
  simp [breaks, near, far]

/-- If a route does not break, neither does what follows its first entry. -/
theorem breaks_eq_empty_of_cons (unbroken : breaks reached (hop :: rest) = ∅) :
    breaks reached rest = ∅ := by
  rw [Set.eq_empty_iff_forall_notMem] at unbroken ⊢
  exact fun i broken => unbroken (i + 1) (succ_mem_breaks.2 broken)

/-- A route that breaks has a first break. -/
theorem exists_isLeast_breaks (broken : i ∈ breaks reached route) :
    ∃ first ≤ i, IsLeast (breaks reached route) first := by
  classical
  have least := Set.Nonempty.isLeast_natFind ⟨i, broken⟩
  exact ⟨_, least.2 broken, least⟩

/-- A route that does not break at once first breaks where the rest of it does. -/
theorem isLeast_breaks_of_succ (first : IsLeast (breaks reached (hop :: rest)) (i + 1)) :
    IsLeast (breaks reached rest) i := by
  refine ⟨succ_mem_breaks.1 first.1, fun j broken => ?_⟩
  exact Nat.le_of_succ_le_succ (first.2 (succ_mem_breaks.2 broken))

/-- A route does not break if and only if all entries out of reach come before all within reach. -/
theorem breaks_eq_empty_iff : breaks reached route = ∅ ↔
    ∃ front back, route = front ++ back ∧ (∀ hop ∈ front, ¬ reached hop) ∧
      ∀ hop ∈ back, reached hop := by
  constructor
  · intro unbroken
    induction route with
    | nil => exact ⟨[], [], rfl, by simp, by simp⟩
    | cons hop rest ih =>
      obtain ⟨front, back, rfl, out, within⟩ := ih (breaks_eq_empty_of_cons unbroken)
      by_cases near : reached hop
      · -- An entry within reach is followed by one within reach, so none out of reach is left.
        cases front with
        | nil => exact ⟨[], hop :: back, rfl, by simp, by simpa [near] using within⟩
        | cons next front =>
          have broken : 0 ∈ breaks reached (hop :: (next :: front ++ back)) :=
            zero_mem_breaks.2 ⟨near, out next (by simp)⟩
          exact absurd broken (Set.eq_empty_iff_forall_notMem.1 unbroken 0)
      · exact ⟨hop :: front, back, rfl, by simpa [near] using out, within⟩
  · rintro ⟨front, back, rfl, out, within⟩
    refine Set.eq_empty_iff_forall_notMem.2 fun i ⟨hop, next, ⟨here, near⟩, there, far⟩ => ?_
    have behind : front.length ≤ i := by
      by_contra before
      rw [List.getElem?_append_left (by omega)] at here
      exact out hop (List.mem_of_getElem? here) near
    rw [List.getElem?_append_right (by omega)] at there
    exact far (within next (List.mem_of_getElem? there))

end Breaks

/-! ## The scan of a route -/

section Scan

variable {usable? : PeerId → Option Link} {hop next : PeerId} {route rest : List PeerId} {i : Nat}
  {link : Link}

/-- A scan carries along no more than the channel to the entry before: it looks at a pair of entries
at a time. -/
theorem beforeBreak?_cons_cons : beforeBreak? usable? none (hop :: next :: rest) =
    if (usable? hop).isSome ∧ ¬ (usable? next).isSome then usable? hop
    else beforeBreak? usable? none (next :: rest) := by
  cases near : usable? hop <;> cases far : usable? next <;> simp [beforeBreak?, near, far]

/-- The scan of a route that does not break finds nothing. -/
theorem beforeBreak?_of_unbroken
    (unbroken : breaks (fun hop => (usable? hop).isSome) route = ∅) :
    beforeBreak? usable? none route = none := by
  induction route with
  | nil => rfl
  | cons hop rest ih =>
    cases rest with
    | nil => cases near : usable? hop <;> simp [beforeBreak?, near]
    | cons next rest =>
      have start := Set.eq_empty_iff_forall_notMem.1 unbroken 0
      rw [beforeBreak?_cons_cons, if_neg (mt zero_mem_breaks.2 start)]
      exact ih (breaks_eq_empty_of_cons unbroken)

/-- The scan of a route that breaks ends at the entry before the first break. -/
theorem beforeBreak?_of_isLeast
    (first : IsLeast (breaks (fun hop => (usable? hop).isSome) route) i) :
    beforeBreak? usable? none route = route[i]?.bind usable? := by
  induction route generalizing i with
  | nil => exact absurd first.1 (by simp)
  | cons hop rest ih =>
    cases rest with
    | nil => exact absurd first.1 (by simp)
    | cons next rest =>
      rw [beforeBreak?_cons_cons]
      split
      · rename_i here
        obtain rfl : i = 0 := Nat.le_zero.1 (first.2 (zero_mem_breaks.2 here))
        rfl
      · rename_i later
        cases i with
        | zero => exact absurd (zero_mem_breaks.1 first.1) later
        | succ i => exact ih (isLeast_breaks_of_succ first)

/-- A scan finds the channel to the entry before the first break. -/
theorem beforeBreak?_eq_some_iff : beforeBreak? usable? none route = some link ↔
    ∃ i, IsLeast (breaks (fun hop => (usable? hop).isSome) route) i ∧
      ∃ hop, route[i]? = some hop ∧ usable? hop = some link := by
  simp only [← Option.bind_eq_some_iff]
  constructor
  · intro scan
    rcases Set.eq_empty_or_nonempty (breaks (fun hop => (usable? hop).isSome) route) with
      unbroken | ⟨i, broken⟩
    · rw [beforeBreak?_of_unbroken unbroken] at scan
      cases scan
    · obtain ⟨first, -, least⟩ := exists_isLeast_breaks broken
      exact ⟨first, least, (beforeBreak?_of_isLeast least).symm.trans scan⟩
  · rintro ⟨i, least, found⟩
    exact (beforeBreak?_of_isLeast least).trans found

/-- A scan finds nothing in just the routes that do not break. -/
theorem beforeBreak?_eq_none_iff : beforeBreak? usable? none route = none ↔
    breaks (fun hop => (usable? hop).isSome) route = ∅ := by
  refine ⟨fun nothing => Set.eq_empty_iff_forall_notMem.2 fun i broken => ?_,
    beforeBreak?_of_unbroken⟩
  obtain ⟨first, -, least⟩ := exists_isLeast_breaks broken
  obtain ⟨hop, there, near⟩ := exists_reached_of_mem_breaks least.1
  obtain ⟨link, usable⟩ := Option.isSome_iff_exists.1 near
  have found : beforeBreak? usable? none route = some link :=
    beforeBreak?_eq_some_iff.2 ⟨first, least, hop, there, usable⟩
  rw [nothing] at found
  cases found

end Scan

/-! ## What a node does with a response -/

variable {identity : Identity} {directory : Directory} {route : List PeerId} {hop : PeerId}
  {link : Link}

/-- Whether a route begins at a node: whether its first entry is an identifier of the node. -/
def BeginsAt (identity : Identity) (route : List PeerId) : Prop :=
  ∃ origin, route.head? = some origin ∧ identity.contains origin = true

/-- Whether a node reaches an entry of a route: it is another peer, and there is a channel to it. -/
def Reaches (identity : Identity) (directory : Directory) (hop : PeerId) : Prop :=
  identity.contains hop = false ∧ (directory.resolve hop).isSome

theorem usable?_eq_some_iff : usable? identity directory hop = some link ↔
    identity.contains hop = false ∧ directory.resolve hop = some link := by
  cases own : identity.contains hop <;> simp [usable?, own]

/-- The entries that a scan can use are those that the node reaches. -/
theorem isSome_usable? : (fun hop => ((usable? identity directory hop).isSome : Prop)) =
    Reaches identity directory := by
  funext hop
  cases own : identity.contains hop <;> simp [usable?, Reaches, own]

/-- The peer that began a route takes in its responses. -/
theorem ofRoute_of_beginsAt (begins : BeginsAt identity route) :
    ofRoute route identity directory = .deliver := by
  obtain ⟨origin, first, own⟩ := begins
  obtain ⟨rest, rfl⟩ := List.head?_eq_some_iff.1 first
  simp [ofRoute, own]

/-- Any other peer goes by the scan of the route. -/
theorem ofRoute_of_not_beginsAt (away : ¬ BeginsAt identity route) :
    ofRoute route identity directory =
      (beforeBreak? (usable? identity directory) none route).elim .deadEnd .forward := by
  cases route with
  | nil => rfl
  | cons origin rest =>
    have foreign : identity.contains origin = false :=
      Bool.eq_false_iff.2 fun own => away ⟨origin, rfl, own⟩
    cases scan : beforeBreak? (usable? identity directory) none (origin :: rest) <;>
      simp [ofRoute, foreign, scan]

/-- A response is taken in where its route begins. -/
theorem delivers_iff : ofRoute route identity directory = .deliver ↔ BeginsAt identity route := by
  refine ⟨fun deliver => ?_, ofRoute_of_beginsAt⟩
  by_contra away
  rw [ofRoute_of_not_beginsAt away] at deliver
  cases scan : beforeBreak? (usable? identity directory) none route <;> simp [scan] at deliver

/-- Elsewhere, a response is forwarded to the entry before the first break of its route. -/
theorem forwards_iff : ofRoute route identity directory = .forward link ↔
    ¬ BeginsAt identity route ∧ ∃ i, IsLeast (breaks (Reaches identity directory) route) i ∧
      ∃ hop, route[i]? = some hop ∧ directory.resolve hop = some link := by
  by_cases begins : BeginsAt identity route
  · simp [ofRoute_of_beginsAt begins, begins]
  have scanned : ofRoute route identity directory = .forward link ↔
      beforeBreak? (usable? identity directory) none route = some link := by
    rw [ofRoute_of_not_beginsAt begins]
    cases beforeBreak? (usable? identity directory) none route <;> simp
  rw [scanned, beforeBreak?_eq_some_iff, isSome_usable?, and_iff_right begins]
  refine exists_congr fun i => and_congr_right fun least => exists_congr fun hop =>
    and_congr_right fun there => ?_
  -- The entry before a break is another peer, so all that matters is whether it is resolved.
  obtain ⟨other, same, foreign, -⟩ := exists_reached_of_mem_breaks least.1
  cases there.symm.trans same
  rw [usable?_eq_some_iff, and_iff_right foreign]

/-- Elsewhere, a response goes nowhere if its route does not break. -/
theorem endsDead_iff : ofRoute route identity directory = .deadEnd ↔
    ¬ BeginsAt identity route ∧ breaks (Reaches identity directory) route = ∅ := by
  by_cases begins : BeginsAt identity route
  · simp [ofRoute_of_beginsAt begins, begins]
  have scanned : ofRoute route identity directory = .deadEnd ↔
      beforeBreak? (usable? identity directory) none route = none := by
    rw [ofRoute_of_not_beginsAt begins]
    cases beforeBreak? (usable? identity directory) none route <;> simp
  rw [scanned, beforeBreak?_eq_none_iff, isSome_usable?, and_iff_right begins]

/-- A response is taken in if and only if its route begins with an identifier of the node. Otherwise
it goes to the entry at the least index at which the route breaks, over the channel that this entry is
resolved to; it goes nowhere if and only if there is no such index, that is, if the route is made of
entries out of reach and, behind them, entries within reach. -/
theorem goes_before_first_break (route : List PeerId) (identity : Identity) (directory : Directory) :
    (ofRoute route identity directory = .deliver ↔ BeginsAt identity route) ∧
    (∀ link, ofRoute route identity directory = .forward link ↔
      ¬ BeginsAt identity route ∧ ∃ i, IsLeast (breaks (Reaches identity directory) route) i ∧
        ∃ hop, route[i]? = some hop ∧ directory.resolve hop = some link) ∧
    (ofRoute route identity directory = .deadEnd ↔
      ¬ BeginsAt identity route ∧ breaks (Reaches identity directory) route = ∅) ∧
    (breaks (Reaches identity directory) route = ∅ ↔ ∃ front back, route = front ++ back ∧
      (∀ hop ∈ front, ¬ Reaches identity directory hop) ∧
        ∀ hop ∈ back, Reaches identity directory hop) :=
  ⟨delivers_iff, fun _ => forwards_iff, endsDead_iff, breaks_eq_empty_iff⟩

-- The route breaks behind `D` and again behind the second `B`.
example : ofRoute [⟨"A"⟩, ⟨"B"⟩, ⟨"D"⟩, ⟨"did:sov:C"⟩, ⟨"B"⟩, ⟨"E"⟩] (.ofPeers ⟨"C"⟩ [])
    (.ofPeers ⟨"C"⟩ (.ofList [⟨"B"⟩, ⟨"D"⟩]) .empty) = .forward ⟨⟨"C"⟩, ⟨"D"⟩⟩ := by
  decide

/-! ## At a peer on the route -/

/-- The peer that is the first entry of a route takes in its responses. -/
theorem ofRoute_of_origin {origin : PeerId} {rest : List PeerId}
    (own : identity.contains origin = true) :
    ofRoute (origin :: rest) identity directory = .deliver :=
  ofRoute_of_beginsAt ⟨origin, rfl, own⟩

/-- A peer behind the origin of a route sends a response to an entry before its own. -/
theorem ofRoute_of_later {own previous : PeerId} {front rest : List PeerId}
    (here : identity.contains own = true)
    (foreign : ∀ hop ∈ front ++ [previous], identity.contains hop = false)
    (reached : (directory.resolve previous).isSome) :
    ∃ hop ∈ front ++ [previous], ∃ link, directory.resolve hop = some link ∧
      ofRoute (front ++ [previous] ++ own :: rest) identity directory = .forward link := by
  have broken : front.length ∈
      breaks (Reaches identity directory) (front ++ [previous] ++ own :: rest) :=
    length_mem_breaks ⟨foreign previous (by simp), reached⟩ (by simp [Reaches, here])
  obtain ⟨i, early, least⟩ := exists_isLeast_breaks broken
  obtain ⟨hop, there, near⟩ := exists_reached_of_mem_breaks least.1
  obtain ⟨link, resolved⟩ := Option.isSome_iff_exists.1 near.2
  have away : ¬ BeginsAt identity (front ++ [previous] ++ own :: rest) := by
    rintro ⟨origin, first, mine⟩
    have other := foreign origin (by cases front <;> simp_all)
    simp [mine] at other
  have before : hop ∈ front ++ [previous] := by
    rw [List.getElem?_append_left (by simp; omega)] at there
    exact List.mem_of_getElem? there
  exact ⟨hop, before, link, resolved, forwards_iff.2 ⟨away, i, least, hop, there, resolved⟩⟩

end ReturnHop

end TrustMesh
