import TrustMesh.Proofs.Collection.OrderedMap
import TrustMesh.Proofs.Json.Reading

/-!
# Values that survive their texts

A value whose numbers are read back as they were and that is not nested too deeply is read
from its text as it is (`Json.reread_eq_ofJson`). As a term it is free of faults, and the
value of that term is the value itself if its objects are canonical (`Json.toJson_ofJson`).
The value of any term is canonical, and it nests no deeper than the text that the term was
taken from (`Term.depth_read_le`).
-/

namespace TrustMesh

open Std

/-- Members that stand in key order are those of their object. -/
theorem Json.ofMembers_eq {members : List (String × Json)} (increasing : KeysIncrease members) :
    Json.ofMembers members = .object members := by
  rw [Json.ofMembers, OrderedMap.entries_ofList increasing]

namespace Json

/-! ## Properties of all parts -/

mutual

/-- Every number of the value is read back from its own text. -/
def Exact : Json → Prop
  | .number n => n.reread = .number n
  | .array items => ItemsExact items
  | .object members => MembersExact members
  | _ => True

/-- Every number of the values of a list is read back from its own text. -/
def ItemsExact : List Json → Prop
  | [] => True
  | item :: rest => item.Exact ∧ ItemsExact rest

/-- Every number of the values of the members is read back from its own text. -/
def MembersExact : List (String × Json) → Prop
  | [] => True
  | (_, value) :: rest => value.Exact ∧ MembersExact rest

end

theorem membersExact_iff {members : List (String × Json)} :
    MembersExact members ↔ ∀ m ∈ members, m.2.Exact := by
  induction members with
  | nil => simp [MembersExact]
  | cons member rest ih => rw [MembersExact, ih, List.forall_mem_cons]

theorem membersExact_append {members more : List (String × Json)} :
    MembersExact (members ++ more) ↔ MembersExact members ∧ MembersExact more := by
  simp only [membersExact_iff, List.forall_mem_append]

theorem membersCanonical_iff {members : List (String × Json)} :
    MembersCanonical members ↔ ∀ m ∈ members, m.2.Canonical := by
  induction members with
  | nil => simp [MembersCanonical]
  | cons member rest ih => rw [MembersCanonical, ih, List.forall_mem_cons]

theorem itemsExact_map {α : Type} {write : α → Json} {items : List α}
    (each : ∀ a ∈ items, (write a).Exact) : ItemsExact (items.map write) := by
  induction items with
  | nil => trivial
  | cons a rest ih =>
    obtain ⟨first, rest⟩ := List.forall_mem_cons.1 each
    exact ⟨first, ih rest⟩

theorem itemsDepth_le_iff {items : List Json} {depth : Nat} :
    itemsDepth items ≤ depth ↔ ∀ v ∈ items, v.depth ≤ depth := by
  induction items with
  | nil => simp [itemsDepth]
  | cons item rest ih => rw [itemsDepth, Nat.max_le, ih, List.forall_mem_cons]

theorem membersDepth_le_iff {members : List (String × Json)} {depth : Nat} :
    membersDepth members ≤ depth ↔ ∀ m ∈ members, m.2.depth ≤ depth := by
  induction members with
  | nil => simp [membersDepth]
  | cons member rest ih => rw [membersDepth, Nat.max_le, ih, List.forall_mem_cons]

theorem itemsDepth_texts (texts : List String) : itemsDepth (texts.map .text) = 0 := by
  induction texts with
  | nil => rfl
  | cons text rest ih => rw [List.map_cons, itemsDepth, ih]; rfl

theorem itemsDepth_map_le {α : Type} {write : α → Json} {items : List α} {depth : Nat}
    (each : ∀ a ∈ items, (write a).depth ≤ depth) : itemsDepth (items.map write) ≤ depth :=
  itemsDepth_le_iff.2 (List.forall_mem_map.2 each)

theorem membersDepth_append (members more : List (String × Json)) :
    membersDepth (members ++ more) = max (membersDepth members) (membersDepth more) := by
  induction members with
  | nil => simp [membersDepth]
  | cons member rest ih => rw [List.cons_append, membersDepth, ih, membersDepth, Nat.max_assoc]

/-! ## Values as terms -/

theorem itemsOfJson_eq_map (items : List Json) : Term.itemsOfJson items = items.map .ofJson := by
  induction items with
  | nil => rfl
  | cons item rest ih => rw [Term.itemsOfJson, ih, List.map_cons]

mutual

/-- A value whose numbers are read back and that is not nested too deeply is read as it is. -/
theorem reread_eq_ofJson : ∀ (v : Json) (depth : Nat), v.Exact → depth + v.depth ≤ maximalDepth →
    reread depth v = .ofJson v
  | .null, _, _, _ => rfl
  | .bool _, _, _, _ => rfl
  | .number _, _, kept, _ => kept
  | .text _, _, _, _ => rfl
  | .array items, depth, kept, shallow => by
    simp only [Json.depth] at shallow
    rw [reread, Term.atDepth_of_lt (by omega),
      rereadItems_eq_ofJson items (depth + 1) kept (by omega)]
    rfl
  | .object members, depth, kept, shallow => by
    simp only [Json.depth] at shallow
    rw [reread, Term.atDepth_of_lt (by omega),
      rereadMembers_eq_ofJson members (depth + 1) kept (by omega)]
    rfl

theorem rereadItems_eq_ofJson : ∀ (items : List Json) (depth : Nat), ItemsExact items →
    depth + itemsDepth items ≤ maximalDepth → rereadItems depth items = Term.itemsOfJson items
  | [], _, _, _ => rfl
  | item :: rest, depth, kept, shallow => by
    simp only [itemsDepth] at shallow
    rw [rereadItems, Term.itemsOfJson, reread_eq_ofJson item depth kept.1 (by omega),
      rereadItems_eq_ofJson rest depth kept.2 (by omega)]

theorem rereadMembers_eq_ofJson : ∀ (members : List (String × Json)) (depth : Nat),
    MembersExact members → depth + membersDepth members ≤ maximalDepth →
    rereadMembers depth members = Term.membersOfJson members
  | [], _, _, _ => rfl
  | (key, value) :: rest, depth, kept, shallow => by
    simp only [membersDepth] at shallow
    rw [rereadMembers, Term.membersOfJson, reread_eq_ofJson value depth kept.1 (by omega),
      rereadMembers_eq_ofJson rest depth kept.2 (by omega)]

end

mutual

/-- A value has no faults. -/
theorem readable_ofJson : ∀ v : Json, (Term.ofJson v).readable = true
  | .null => rfl
  | .bool _ => rfl
  | .number _ => rfl
  | .text _ => rfl
  | .array items => itemsReadable_ofJson items
  | .object members => membersReadable_ofJson members

theorem itemsReadable_ofJson : ∀ items : List Json, Term.itemsReadable (Term.itemsOfJson items) = true
  | [] => rfl
  | item :: rest => by
    rw [Term.itemsOfJson, Term.itemsReadable, readable_ofJson item, itemsReadable_ofJson rest]
    rfl

theorem membersReadable_ofJson : ∀ members : List (String × Json),
    Term.membersReadable (Term.membersOfJson members) = true
  | [] => rfl
  | (_, value) :: rest => by
    rw [Term.membersOfJson, Term.membersReadable, readable_ofJson value, membersReadable_ofJson rest]
    rfl

end

mutual

/-- A value can be skipped. -/
theorem wellFormed_ofJson : ∀ v : Json, (Term.ofJson v).wellFormed = true
  | .null => rfl
  | .bool _ => rfl
  | .number _ => rfl
  | .text _ => rfl
  | .array items => itemsWellFormed_ofJson items
  | .object members => membersWellFormed_ofJson members

theorem itemsWellFormed_ofJson : ∀ items : List Json,
    Term.itemsWellFormed (Term.itemsOfJson items) = true
  | [] => rfl
  | item :: rest => by
    rw [Term.itemsOfJson, Term.itemsWellFormed, wellFormed_ofJson item, itemsWellFormed_ofJson rest]
    rfl

theorem membersWellFormed_ofJson : ∀ members : List (String × Json),
    Term.membersWellFormed (Term.membersOfJson members) = true
  | [] => rfl
  | (_, value) :: rest => by
    rw [Term.membersOfJson, Term.membersWellFormed, wellFormed_ofJson value,
      membersWellFormed_ofJson rest]
    rfl

end

mutual

/-- A canonical value is the value of its term. -/
theorem toJson_ofJson : ∀ v : Json, v.Canonical → (Term.ofJson v).toJson = v
  | .null, _ => rfl
  | .bool _, _ => rfl
  | .number _, _ => rfl
  | .text _, _ => rfl
  | .array items, canonical => by
    rw [Term.ofJson, Term.toJson, itemsToJson_ofJson items canonical]
  | .object members, canonical => by
    rw [Term.ofJson, Term.toJson, membersToJson_ofJson members canonical.2,
      ofMembers_eq canonical.1]

theorem itemsToJson_ofJson : ∀ items : List Json, ItemsCanonical items →
    Term.itemsToJson (Term.itemsOfJson items) = items
  | [], _ => rfl
  | item :: rest, canonical => by
    rw [Term.itemsOfJson, Term.itemsToJson, toJson_ofJson item canonical.1,
      itemsToJson_ofJson rest canonical.2]

theorem membersToJson_ofJson : ∀ members : List (String × Json), MembersCanonical members →
    Term.membersToJson (Term.membersOfJson members) = members
  | [], _ => rfl
  | (key, value) :: rest, canonical => by
    rw [Term.membersOfJson, Term.membersToJson, toJson_ofJson value canonical.1,
      membersToJson_ofJson rest canonical.2]

end

end Json

namespace Term

mutual

/-- The value of a term is canonical. -/
theorem canonical_toJson : ∀ t : Term, t.toJson.Canonical
  | .null => trivial
  | .bool _ => trivial
  | .number _ => trivial
  | .text _ => trivial
  | .array items => itemsCanonical_toJson items
  | .object members => by
    refine ⟨OrderedMap.increasing _, Json.membersCanonical_iff.2 fun m there => ?_⟩
    exact membersCanonical_toJson members m (OrderedMap.mem_entries_ofList there)
  | .unreadable => trivial
  | .broken => trivial

theorem itemsCanonical_toJson : ∀ items : List Term, Json.ItemsCanonical (itemsToJson items)
  | [] => trivial
  | item :: rest => ⟨canonical_toJson item, itemsCanonical_toJson rest⟩

theorem membersCanonical_toJson : ∀ members : List (Term × Term),
    ∀ m ∈ membersToJson members, m.2.Canonical
  | [] => by simp [membersToJson]
  | (key, value) :: rest => by
    have others := membersCanonical_toJson rest
    cases key with
    | text key =>
      rw [membersToJson]
      exact List.forall_mem_cons.2 ⟨canonical_toJson value, others⟩
    | _ => exact others

end

/-! ## Depth -/

mutual

/-- How many containers of a term are open at the deepest place. -/
def depth : Term → Nat
  | .array items => 1 + itemsDepth items
  | .object members => 1 + membersDepth members
  | _ => 0

/-- The greatest depth in a list of terms. -/
def itemsDepth : List Term → Nat
  | [] => 0
  | item :: rest => max item.depth (itemsDepth rest)

/-- The greatest depth in the values of the members. -/
def membersDepth : List (Term × Term) → Nat
  | [] => 0
  | (_, value) :: rest => max value.depth (membersDepth rest)

end

theorem depth_le_itemsDepth {items : List Term} {item : Term} (there : item ∈ items) :
    item.depth ≤ itemsDepth items := by
  induction items with
  | nil => cases there
  | cons first rest ih =>
    rw [itemsDepth]
    rcases List.mem_cons.1 there with rfl | later
    · exact Nat.le_max_left ..
    · exact Nat.le_trans (ih later) (Nat.le_max_right ..)

theorem depth_le_membersDepth {members : List (Term × Term)} {member : Term × Term}
    (there : member ∈ members) : member.2.depth ≤ membersDepth members := by
  induction members with
  | nil => cases there
  | cons first rest ih =>
    rw [membersDepth]
    rcases List.mem_cons.1 there with rfl | later
    · exact Nat.le_max_left ..
    · exact Nat.le_trans (ih later) (Nat.le_max_right ..)

theorem membersDepth_le {members : List (Term × Term)} {depth : Nat}
    (each : ∀ m ∈ members, m.2.depth ≤ depth) : membersDepth members ≤ depth := by
  induction members with
  | nil => exact Nat.zero_le _
  | cons member rest ih =>
    obtain ⟨own, later⟩ := List.forall_mem_cons.1 each
    exact Nat.max_le.2 ⟨own, ih later⟩

mutual

/-- The value of a term nests no deeper than the term. -/
theorem depth_toJson_le : ∀ t : Term, t.toJson.depth ≤ t.depth
  | .null => Nat.le_refl _
  | .bool _ => Nat.le_refl _
  | .number _ => Nat.le_refl _
  | .text _ => Nat.le_refl _
  | .array items => Nat.add_le_add_left (itemsDepth_toJson_le items) 1
  | .object members => by
    refine Nat.add_le_add_left (Json.membersDepth_le_iff.2 fun m there => ?_) 1
    exact membersDepth_toJson_le members m (OrderedMap.mem_entries_ofList there)
  | .unreadable => Nat.le_refl _
  | .broken => Nat.le_refl _

theorem itemsDepth_toJson_le : ∀ items : List Term, Json.itemsDepth (itemsToJson items) ≤
    itemsDepth items
  | [] => Nat.le_refl _
  | item :: rest => by
    have first := depth_toJson_le item
    have others := itemsDepth_toJson_le rest
    rw [itemsToJson, Json.itemsDepth, itemsDepth]
    omega

theorem membersDepth_toJson_le : ∀ members : List (Term × Term),
    ∀ m ∈ membersToJson members, m.2.depth ≤ membersDepth members
  | [] => by simp [membersToJson]
  | (key, value) :: rest => by
    have own := depth_toJson_le value
    have others : ∀ m ∈ membersToJson rest, m.2.depth ≤ membersDepth ((key, value) :: rest) :=
      fun m there => Nat.le_trans (membersDepth_toJson_le rest m there) (Nat.le_max_right ..)
    cases key with
    | text key =>
      rw [membersToJson]
      exact List.forall_mem_cons.2 ⟨Nat.le_trans own (Nat.le_max_left ..), others⟩
    | _ => exact others

end

theorem depth_readString (cs : List Char) : (readString cs).term.depth = 0 := by
  unfold readString
  split
  · rfl
  · split <;> rfl

theorem depth_ofNumber? (n : Option Number) : (ofNumber? n).depth = 0 := by
  cases n <;> rfl

theorem depth_readExponent (negative : Bool) (s : Significand) (fraction : Bool) (cs : List Char) :
    (readExponent negative s fraction cs).term.depth = 0 := by
  unfold readExponent
  repeat' split
  all_goals first | rfl | exact depth_ofNumber? _

theorem depth_readNumber (negative : Bool) (cs : List Char) :
    (readNumber negative cs).term.depth = 0 := by
  unfold readNumber
  repeat' split
  all_goals first | rfl | exact depth_readExponent ..

/-- A container at its place leaves room for itself, or it cannot be read. -/
theorem depth_atDepth_le {depth : Nat} (inner : Nat) {term : Term} (whole : term.depth = 1 + inner)
    (within : inner ≤ maximalDepth - (depth + 1)) :
    (atDepth depth term).depth ≤ maximalDepth - depth := by
  unfold atDepth
  split
  · omega
  · split <;> exact Nat.zero_le _

/-- What is read where so many containers are open leaves room for them. -/
theorem depth_readValue_le (steps depth : Nat) (cs : List Char) :
    (readValue steps depth cs).term.depth ≤ maximalDepth - depth ∧
      itemsDepth (readItems steps depth cs).1 ≤ maximalDepth - depth ∧
      membersDepth (readMembers steps depth cs).1 ≤ maximalDepth - depth := by
  induction steps generalizing depth cs with
  | zero => simp [readValue, readItems, readMembers, Term.depth, itemsDepth, membersDepth]
  | succ steps ih =>
    refine ⟨?_, ?_, ?_⟩
    · unfold readValue
      split
      all_goals try exact Nat.zero_le _
      · rw [depth_readString]
        exact Nat.zero_le _
      · rw [depth_readNumber]
        exact Nat.zero_le _
      · split
        · exact depth_atDepth_le 0 rfl (Nat.zero_le _)
        · exact depth_atDepth_le _ rfl (ih ..).2.1
      · split
        · exact depth_atDepth_le 0 rfl (Nat.zero_le _)
        · exact depth_atDepth_le _ rfl (ih ..).2.2
      · split
        · rw [depth_readNumber]
          exact Nat.zero_le _
        · exact Nat.zero_le _
    · have own := (ih depth cs).1
      unfold readItems
      split
      · rename_i item read
        rw [read] at own
        simpa [itemsDepth] using own
      · rename_i item rest read
        rw [read] at own
        split
        · simpa [itemsDepth] using own
        · rename_i others _
          exact Nat.max_le.2 ⟨own, (ih depth others).2.1⟩
        · simpa [itemsDepth, Term.depth] using own
    · unfold readMembers
      split
      · split
        · simp [membersDepth, Term.depth]
        · split
          · rename_i text _
            have own := (ih depth text).1
            split
            · rename_i value read
              rw [read] at own
              simpa [membersDepth] using own
            · rename_i value after read
              rw [read] at own
              split
              · simpa [membersDepth] using own
              · rename_i others _
                exact Nat.max_le.2 ⟨own, (ih depth others).2.2⟩
              · simpa [membersDepth, Term.depth] using own
          · simp [membersDepth, Term.depth]
      · simp [membersDepth, Term.depth]

/-- A text that is taken apart nests no deeper than texts may. -/
theorem depth_read_le (cs : List Char) : (read cs).term.depth ≤ maximalDepth := by
  have within := (depth_readValue_le (2 * cs.length + 1) 0 cs).1
  unfold read
  split
  · rename_i value
    rw [value] at within
    exact within
  · rename_i value
    rw [value] at within
    exact within

end Term

end TrustMesh
