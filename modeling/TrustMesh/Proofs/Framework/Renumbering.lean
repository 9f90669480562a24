import TrustMesh.Proofs.Framework.Codec
import TrustMesh.Proofs.Json.Renumbering

/-!
# Frameworks with other numbers

A framework that is relayed is read with the numbers that its numerals stand for. They stand
only among members that are not interpreted, so the framework with other numbers is written
as the value with other numbers (`Framework.toJson_renumbered`), and it is as proper as it
was (`Framework.Proper.renumbered`).
-/

namespace TrustMesh

open Std

/-- The entry with the numbers that its numerals are read as. -/
def LedgerEntry.renumbered (e : LedgerEntry) : LedgerEntry :=
  { e with extra := e.extra.mapValues Json.renumbered }

/-- The participant with the numbers that its numerals are read as. -/
def Participant.renumbered (p : Participant) : Participant :=
  { p with extra := p.extra.mapValues Json.renumbered }

/-- The condition with the numbers that its numerals are read as. -/
def Condition.renumbered : Condition → Condition
  | .unrecognized members => .unrecognized (members.mapValues Json.renumbered)
  | c => c

/-- The requirement with the numbers that its numerals are read as. -/
def Requirement.renumbered : Requirement → Requirement
  | .all conditions => .all (conditions.map Condition.renumbered)
  | .any conditions => .any (conditions.map Condition.renumbered)

/-- The rule with the numbers that its numerals are read as. -/
def Rule.renumbered (r : Rule) : Rule := { r with requirement := r.requirement.renumbered }

/-- The framework with the numbers that its numerals are read as. -/
def Framework.renumbered (f : Framework) : Framework where
  schemas := f.schemas.map LedgerEntry.renumbered
  credDefs := f.credDefs.map LedgerEntry.renumbered
  participants := f.participants.map Participant.renumbered
  roles := f.roles
  permissions := f.permissions.map Rule.renumbered
  extra := f.extra.mapValues Json.renumbered

theorem membersRenumbered_optional (key : String) (value : Option String) :
    Json.membersRenumbered (optionalMember key value) = optionalMember key value := by
  cases value <;> rfl

theorem Json.membersRenumbered_append (members more : List (String × Json)) :
    membersRenumbered (members ++ more) = membersRenumbered members ++ membersRenumbered more := by
  simp only [membersRenumbered_eq_map, List.map_append]

theorem Json.membersRenumbered_entries (extra : OrderedMap String Json) :
    membersRenumbered extra.entries = (extra.mapValues renumbered).entries :=
  membersRenumbered_eq_map _

/-- A list is written with other numbers if each of its items is. -/
theorem Json.map_renumbered {α : Type} {write : α → Json} {change : α → α}
    (each : ∀ a, (write (change a)) = (write a).renumbered) (items : List α) :
    (items.map change).map write = itemsRenumbered (items.map write) := by
  have same : write ∘ change = Json.renumbered ∘ write := funext each
  rw [itemsRenumbered_eq_map, List.map_map, List.map_map, same]

theorem Json.itemsRenumbered_texts (texts : List String) :
    itemsRenumbered (texts.map .text) = texts.map .text := by
  rw [itemsRenumbered_eq_map, List.map_map]
  rfl

theorem Uninterpreted.renumbered {fields : List String} {extra : OrderedMap String Json}
    (own : Uninterpreted fields extra) :
    Uninterpreted fields (extra.mapValues Json.renumbered) := by
  intro m there
  obtain ⟨member, own', rfl⟩ := List.mem_map.1 there
  exact ⟨(own member own').1, (own member own').2.renumbered⟩

theorem LedgerEntry.toJson_renumbered (e : LedgerEntry) :
    e.renumbered.toJson = e.toJson.renumbered := by
  simp only [toJson, renumbered, Json.renumbered, Json.membersRenumbered, List.cons_append,
    Json.membersRenumbered_append, membersRenumbered_optional, Json.membersRenumbered_entries]

theorem Participant.toJson_renumbered (p : Participant) :
    p.renumbered.toJson = p.toJson.renumbered := by
  simp only [toJson, renumbered, Json.renumbered, Json.membersRenumbered, List.cons_append,
    Json.membersRenumbered_append, membersRenumbered_optional, Json.membersRenumbered_entries]

namespace Condition

theorem members_renumbered (c : Condition) :
    c.renumbered.members = c.members.mapValues Json.renumbered := by
  cases c with
  | schema reference issuer =>
    simp only [members, renumbered, OrderedMap.mapValues_ofList, List.map_cons,
      ← Json.membersRenumbered_eq_map, membersRenumbered_optional, Json.renumbered]
  | identity participant => simp [members, renumbered, OrderedMap.mapValues_ofList, Json.renumbered]
  | credDef definition => simp [members, renumbered, OrderedMap.mapValues_ofList, Json.renumbered]
  | unrecognized members => rfl

theorem toJson_renumbered (c : Condition) : c.renumbered.toJson = c.toJson.renumbered := by
  rw [toJson, members_renumbered, toJson, Json.renumbered, Json.membersRenumbered_entries]

/-- Other numbers state the same condition. -/
theorem ofMembers_renumbered (members : OrderedMap String Json) :
    ofMembers (members.mapValues Json.renumbered) = (ofMembers members).renumbered := by
  have texts : ∀ key, nonEmptyText? key (members.mapValues Json.renumbered) =
      nonEmptyText? key members := by
    intro key
    rw [nonEmptyText?, nonEmptyText?, OrderedMap.get?_mapValues]
    cases members.get? key with
    | none => rfl
    | some value => cases value <;> rfl
  have keys : ∀ key, (members.mapValues Json.renumbered).contains key = members.contains key := by
    intro key
    rw [OrderedMap.contains, OrderedMap.contains, OrderedMap.get?_mapValues, Option.isSome_map]
  simp only [ofMembers, texts, keys]
  repeat' split
  all_goals rfl

theorem Settled.renumbered {c : Condition} (settled : c.Settled) : c.renumbered.Settled := by
  constructor
  · rw [members_renumbered, ofMembers_renumbered, settled.stated]
  · intro m there
    rw [members_renumbered] at there
    obtain ⟨member, own, rfl⟩ := List.mem_map.1 there
    exact (settled.canonical member own).renumbered

end Condition

namespace Requirement

theorem toJson_renumbered (r : Requirement) : r.renumbered.toJson = r.toJson.renumbered := by
  have conditions := Json.map_renumbered Condition.toJson_renumbered
  cases r <;>
    simp only [renumbered, toJson, conditions, Json.renumbered, Json.membersRenumbered]

theorem Settled.renumbered {r : Requirement} (settled : r.Settled) : r.renumbered.Settled := by
  have same : r.renumbered.conditions = r.conditions.map Condition.renumbered := by cases r <;> rfl
  rw [Settled, same]
  exact List.forall_mem_map.2 fun c there => (settled c there).renumbered

end Requirement

theorem Rule.toJson_renumbered (r : Rule) : r.renumbered.toJson = r.toJson.renumbered := by
  simp only [toJson, renumbered, r.requirement.toJson_renumbered, Json.renumbered,
    Json.membersRenumbered, Json.itemsRenumbered_texts]

namespace Framework

theorem credDefsMember_renumbered (credDefs : List LedgerEntry) :
    credDefsMember (credDefs.map LedgerEntry.renumbered) =
      Json.membersRenumbered (credDefsMember credDefs) := by
  unfold credDefsMember
  rw [List.isEmpty_map, Json.map_renumbered LedgerEntry.toJson_renumbered]
  cases credDefs.isEmpty <;> rfl

theorem toJson_renumbered (f : Framework) : f.renumbered.toJson = f.toJson.renumbered := by
  simp only [toJson, renumbered, credDefsMember_renumbered, Json.renumbered,
    Json.membersRenumbered_append, Json.membersRenumbered, Json.membersRenumbered_entries,
    Json.itemsRenumbered_texts, Json.map_renumbered LedgerEntry.toJson_renumbered,
    Json.map_renumbered Participant.toJson_renumbered, Json.map_renumbered Rule.toJson_renumbered]

theorem Proper.renumbered {f : Framework} (proper : f.Proper) : f.renumbered.Proper where
  schemas := List.forall_mem_map.2 fun e there => (proper.schemas e there).renumbered
  credDefs := List.forall_mem_map.2 fun e there => (proper.credDefs e there).renumbered
  participants := List.forall_mem_map.2 fun p there => (proper.participants p there).renumbered
  permissions := List.forall_mem_map.2 fun r there => (proper.permissions r there).renumbered
  extra := proper.extra.renumbered

end Framework

end TrustMesh
