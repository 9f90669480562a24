import TrustMesh.Proofs.Json.Outline

/-!
# Values with other numbers

A value that can be read from its text is read as the value with the numbers that its
numerals stand for (`Json.reread_eq_renumbered`), and there is room for the containers that
it opens (`Json.depth_le_of_readable`). So it is read as it was only if each of its numbers
is (`Json.exact_of_renumbered`).
-/

namespace TrustMesh

open Std

/-- The number that the text of a number is read as; the number itself if that is out of range. -/
def Number.again (n : Number) : Number :=
  match n.reread with
  | .number m => m
  | _ => n

theorem Number.reread_eq_again {n : Number} (readable : n.reread.readable = true) :
    n.reread = .number n.again := by
  have shape := outline_reread readable
  unfold again
  cases found : n.reread with
  | number m => rfl
  | _ =>
    rw [found] at shape
    cases shape

/-- A container that can be read leaves room for itself. -/
theorem Term.lt_of_atDepth_readable {depth : Nat} {t : Term}
    (readable : (atDepth depth t).readable = true) : depth < maximalDepth := by
  unfold atDepth at readable
  split at readable
  · assumption
  · split at readable <;> cases readable

namespace Json

mutual

/-- The value with the numbers that its numerals are read as. -/
def renumbered : Json → Json
  | .number n => .number n.again
  | .array items => .array (itemsRenumbered items)
  | .object members => .object (membersRenumbered members)
  | v => v

/-- The items of a list with the numbers that their numerals are read as. -/
def itemsRenumbered : List Json → List Json
  | [] => []
  | item :: rest => item.renumbered :: itemsRenumbered rest

/-- The members of an object with the numbers that their numerals are read as. -/
def membersRenumbered : List (String × Json) → List (String × Json)
  | [] => []
  | (key, value) :: rest => (key, value.renumbered) :: membersRenumbered rest

end

theorem itemsRenumbered_eq_map (items : List Json) :
    itemsRenumbered items = items.map renumbered := by
  induction items with
  | nil => rfl
  | cons item rest ih => rw [itemsRenumbered, ih, List.map_cons]

theorem membersRenumbered_eq_map (members : List (String × Json)) :
    membersRenumbered members = members.map fun m => (m.1, m.2.renumbered) := by
  induction members with
  | nil => rfl
  | cons member rest ih => rw [membersRenumbered, ih, List.map_cons]

/-! ## What is read -/

mutual

/-- A value that can be read from its text is read with the numbers that its numerals stand for. -/
theorem reread_eq_renumbered : ∀ (v : Json) (depth : Nat), (reread depth v).readable = true →
    reread depth v = .ofJson v.renumbered
  | .null, _, _ => rfl
  | .bool _, _, _ => rfl
  | .number _, _, readable => Number.reread_eq_again readable
  | .text _, _, _ => rfl
  | .array items, depth, readable => by
    have placed : reread depth (.array items) = .array (rereadItems (depth + 1) items) :=
      Term.atDepth_of_readable readable
    rw [placed] at readable ⊢
    exact congrArg Term.array (rereadItems_eq_renumbered items (depth + 1) readable)
  | .object members, depth, readable => by
    have placed : reread depth (.object members) = .object (rereadMembers (depth + 1) members) :=
      Term.atDepth_of_readable readable
    rw [placed] at readable ⊢
    exact congrArg Term.object (rereadMembers_eq_renumbered members (depth + 1) readable)

theorem rereadItems_eq_renumbered : ∀ (items : List Json) (depth : Nat),
    Term.itemsReadable (rereadItems depth items) = true →
    rereadItems depth items = Term.itemsOfJson (itemsRenumbered items)
  | [], _, _ => rfl
  | item :: rest, depth, readable => by
    obtain ⟨first, later⟩ := Bool.and_eq_true_iff.1 readable
    rw [rereadItems, reread_eq_renumbered item depth first,
      rereadItems_eq_renumbered rest depth later]
    rfl

theorem rereadMembers_eq_renumbered : ∀ (members : List (String × Json)) (depth : Nat),
    Term.membersReadable (rereadMembers depth members) = true →
    rereadMembers depth members = Term.membersOfJson (membersRenumbered members)
  | [], _, _ => rfl
  | (key, value) :: rest, depth, readable => by
    obtain ⟨own, later⟩ := Bool.and_eq_true_iff.1 readable
    rw [rereadMembers, reread_eq_renumbered value depth (Bool.and_eq_true_iff.1 own).2,
      rereadMembers_eq_renumbered rest depth later]
    rfl

end

mutual

/-- There is room for the containers of a value that can be read. -/
theorem depth_le_of_readable : ∀ (v : Json) (depth : Nat), depth ≤ maximalDepth →
    (reread depth v).readable = true → depth + v.depth ≤ maximalDepth
  | .null, _, room, _ => room
  | .bool _, _, room, _ => room
  | .number _, _, room, _ => room
  | .text _, _, room, _ => room
  | .array items, depth, _, readable => by
    have room : depth < maximalDepth := Term.lt_of_atDepth_readable readable
    rw [reread, Term.atDepth_of_lt room] at readable
    have inner := itemsDepth_le_of_readable items (depth + 1) room readable
    rw [Json.depth]
    omega
  | .object members, depth, _, readable => by
    have room : depth < maximalDepth := Term.lt_of_atDepth_readable readable
    rw [reread, Term.atDepth_of_lt room] at readable
    have inner := membersDepth_le_of_readable members (depth + 1) room readable
    rw [Json.depth]
    omega

theorem itemsDepth_le_of_readable : ∀ (items : List Json) (depth : Nat), depth ≤ maximalDepth →
    Term.itemsReadable (rereadItems depth items) = true →
    depth + itemsDepth items ≤ maximalDepth
  | [], _, room, _ => room
  | item :: rest, depth, room, readable => by
    obtain ⟨first, later⟩ := Bool.and_eq_true_iff.1 readable
    have own := depth_le_of_readable item depth room first
    have others := itemsDepth_le_of_readable rest depth room later
    rw [itemsDepth]
    omega

theorem membersDepth_le_of_readable : ∀ (members : List (String × Json)) (depth : Nat),
    depth ≤ maximalDepth → Term.membersReadable (rereadMembers depth members) = true →
    depth + membersDepth members ≤ maximalDepth
  | [], _, room, _ => room
  | (_, value) :: rest, depth, room, readable => by
    obtain ⟨own, later⟩ := Bool.and_eq_true_iff.1 readable
    have first := depth_le_of_readable value depth room (Bool.and_eq_true_iff.1 own).2
    have others := membersDepth_le_of_readable rest depth room later
    rw [membersDepth]
    omega

end

/-! ## What is kept -/

mutual

/-- Other numbers leave a value canonical. -/
theorem Canonical.renumbered : ∀ {v : Json}, v.Canonical → v.renumbered.Canonical
  | .null, _ => trivial
  | .bool _, _ => trivial
  | .number _, _ => trivial
  | .text _, _ => trivial
  | .array items, canonical => itemsCanonical_renumbered items canonical
  | .object members, canonical => by
    refine ⟨?_, membersCanonical_renumbered members canonical.2⟩
    rw [membersRenumbered_eq_map, KeysIncrease, List.pairwise_map]
    exact canonical.1

theorem itemsCanonical_renumbered : ∀ items : List Json, ItemsCanonical items →
    ItemsCanonical (itemsRenumbered items)
  | [], _ => trivial
  | _ :: rest, canonical => ⟨canonical.1.renumbered, itemsCanonical_renumbered rest canonical.2⟩

theorem membersCanonical_renumbered : ∀ members : List (String × Json), MembersCanonical members →
    MembersCanonical (membersRenumbered members)
  | [], _ => trivial
  | (_, _) :: rest, canonical =>
    ⟨canonical.1.renumbered, membersCanonical_renumbered rest canonical.2⟩

end

mutual

/-- A value that is read from its text as it was has numbers that are. -/
theorem exact_of_reread : ∀ (v : Json) (depth : Nat), reread depth v = .ofJson v → v.Exact
  | .null, _, _ => trivial
  | .bool _, _, _ => trivial
  | .number _, _, same => same
  | .text _, _, _ => trivial
  | .array items, depth, same => by
    have readable : (reread depth (.array items)).readable = true :=
      same ▸ readable_ofJson (.array items)
    rw [reread, Term.atDepth_of_readable readable] at same
    exact itemsExact_of_reread items (depth + 1) (Term.array.inj same)
  | .object members, depth, same => by
    have readable : (reread depth (.object members)).readable = true :=
      same ▸ readable_ofJson (.object members)
    rw [reread, Term.atDepth_of_readable readable] at same
    exact membersExact_of_reread members (depth + 1) (Term.object.inj same)

theorem itemsExact_of_reread : ∀ (items : List Json) (depth : Nat),
    rereadItems depth items = Term.itemsOfJson items → ItemsExact items
  | [], _, _ => trivial
  | item :: rest, depth, same => by
    obtain ⟨first, later⟩ := List.cons_eq_cons.1 same
    exact ⟨exact_of_reread item depth first, itemsExact_of_reread rest depth later⟩

theorem membersExact_of_reread : ∀ (members : List (String × Json)) (depth : Nat),
    rereadMembers depth members = Term.membersOfJson members → MembersExact members
  | [], _, _ => trivial
  | (_, value) :: rest, depth, same => by
    obtain ⟨first, later⟩ := List.cons_eq_cons.1 same
    exact ⟨exact_of_reread value depth (Prod.ext_iff.1 first).2,
      membersExact_of_reread rest depth later⟩

end

/-- A value that can be read and has the numbers that its numerals stand for is read back exactly. -/
theorem exact_of_renumbered {v : Json} {depth : Nat} (readable : (reread depth v).readable = true)
    (same : v.renumbered = v) : v.Exact := by
  have read := v.reread_eq_renumbered depth readable
  rw [same] at read
  exact v.exact_of_reread depth read

end Json

end TrustMesh
