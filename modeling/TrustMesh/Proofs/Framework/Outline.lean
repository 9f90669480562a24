import TrustMesh.Framework.Evaluation
import TrustMesh.Proofs.Framework.Codec
import TrustMesh.Proofs.Json.Outline

/-!
# What rules look at

A framework that goes from peer to peer in frames may change: a number among the members
that are not interpreted may be read as another one. Rules look at no such member. What
they look at is the outline of the framework (`Framework.outline`): it decides what is
granted (`Framework.grantedRoles_outline`), and it is the same after the framework was
written and read (`Framework.outline_of_reread`).

The requests of a framework are therefore answered alike by all peers that they reach.
-/

namespace TrustMesh

open Std

/-- The entry without the members that are not interpreted. -/
def LedgerEntry.outline (e : LedgerEntry) : LedgerEntry := { e with extra := .empty }

/-- The participant without the members that are not interpreted. -/
def Participant.outline (p : Participant) : Participant := { p with extra := .empty }

/-- The condition, without its members if it is not recognised. -/
def Condition.outline : Condition → Condition
  | .unrecognized _ => .unrecognized .empty
  | c => c

/-- The requirement with the outlines of its conditions. -/
def Requirement.outline : Requirement → Requirement
  | .all conditions => .all (conditions.map Condition.outline)
  | .any conditions => .any (conditions.map Condition.outline)

/-- The rule with the outline of its requirement. -/
def Rule.outline (r : Rule) : Rule := { r with requirement := r.requirement.outline }

/-- The part of a framework that its rules look at. -/
def Framework.outline (f : Framework) : Framework where
  schemas := f.schemas.map LedgerEntry.outline
  credDefs := f.credDefs.map LedgerEntry.outline
  participants := f.participants.map Participant.outline
  roles := f.roles
  permissions := f.permissions.map Rule.outline
  extra := .empty

/-! ## Evaluation -/

namespace Framework

@[simp] theorem names_outline (f : Framework) : f.outline.names = f.names := by
  have entries : LedgerEntry.reference ∘ LedgerEntry.outline = LedgerEntry.reference := rfl
  have participants : Participant.references ∘ Participant.outline = Participant.references := rfl
  simp only [names, outline, List.flatMap_map, ← Function.comp_def, entries, participants]

variable (names : Names) (oracle : Oracle)

theorem question?_outline (c : Condition) : c.outline.question? names = c.question? names := by
  cases c <;> rfl

theorem ofConditions_outline (decisive : Bool) (conditions : List Condition) :
    Verdict.ofConditions names oracle decisive (conditions.map Condition.outline) =
      Verdict.ofConditions names oracle decisive conditions := by
  induction conditions with
  | nil => rfl
  | cons c rest ih =>
    have holds : c.outline.holds names oracle = c.holds names oracle := by
      rw [Condition.holds, question?_outline, Condition.holds]
    simp only [List.map_cons, Verdict.ofConditions, holds, question?_outline, ih]

theorem verdict_outline (r : Requirement) :
    r.outline.verdict names oracle = r.verdict names oracle := by
  cases r with
  | all conditions => exact ofConditions_outline names oracle false conditions
  | any conditions => exact ofConditions_outline names oracle true conditions

theorem evaluateFrom_outline (index : Nat) (rules : List Rule) :
    evaluateFrom names oracle index (rules.map Rule.outline) =
      evaluateFrom names oracle index rules := by
  induction rules generalizing index with
  | nil => rfl
  | cons rule rest ih =>
    simp only [List.map_cons, evaluateFrom, Rule.outline, verdict_outline, ih]

/-- The evaluation of a framework looks at its outline only. -/
@[simp] theorem evaluate_outline (f : Framework) : f.outline.evaluate oracle = f.evaluate oracle := by
  rw [evaluate, names_outline]
  exact evaluateFrom_outline f.names oracle 0 f.permissions

/-- What a framework grants is decided by its outline. -/
@[simp] theorem grantedRoles_outline (f : Framework) :
    f.outline.grantedRoles oracle = f.grantedRoles oracle := by
  rw [grantedRoles, evaluate_outline, grantedRoles]

end Framework

/-! ## Conditions -/

/-- The string of a value that is one. -/
def Json.text? : Json → Option String
  | .text value => some value
  | _ => none

theorem Term.text?_toJson_outline (t : Term) : t.outline.toJson.text? = t.toJson.text? := by
  cases t <;> rfl

/-- The members of an object keep their keys and their strings in its outline. -/
theorem Term.membersToJson_outline (members : List (Term × Term)) :
    (membersToJson (membersOutline members)).map (fun m => (m.1, m.2.text?)) =
      (membersToJson members).map fun m => (m.1, m.2.text?) := by
  induction members with
  | nil => rfl
  | cons member rest ih =>
    obtain ⟨key, value⟩ := member
    cases key with
    | text key =>
      simp only [membersOutline, membersToJson, List.map_cons, ih, value.text?_toJson_outline]
    | _ => exact ih

theorem nonEmptyText?_eq (key : String) (members : OrderedMap String Json) :
    nonEmptyText? key members =
      ((members.mapValues Json.text?).get? key).join.filter (· ≠ "") := by
  rw [OrderedMap.get?_mapValues, nonEmptyText?]
  cases members.get? key with
  | none => rfl
  | some value =>
    cases value with
    | text value =>
      by_cases blank : value = ""
      · simp [Json.text?, blank, Option.filter]
      · simp [Json.text?, blank, Option.filter]
    | _ => rfl

namespace Condition

/-- Which condition members state depends on their keys and their strings. -/
theorem outline_ofMembers {members others : OrderedMap String Json}
    (same : members.mapValues Json.text? = others.mapValues Json.text?) :
    (ofMembers members).outline = (ofMembers others).outline := by
  have texts : ∀ key, nonEmptyText? key members = nonEmptyText? key others := fun key => by
    rw [nonEmptyText?_eq, nonEmptyText?_eq, same]
  have keys : ∀ key, members.contains key = others.contains key := fun key => by
    have found := congrArg (fun m => (m.get? key).isSome) same
    simp only [OrderedMap.get?_mapValues, Option.isSome_map] at found
    exact found
  simp only [ofMembers, texts, keys]
  repeat' split
  all_goals rfl

theorem coarse_decode : Decode.Coarse decode outline := by
  intro t c decoded
  cases t with
  | object members =>
    rw [decode] at decoded
    split at decoded
    · rename_i readable
      cases decoded
      have readable' : (Term.object (Term.membersOutline members)).readable = true :=
        (Term.object members).readable_outline.trans readable
      rw [Term.outline, decode, if_pos readable']
      refine congrArg Except.ok (outline_ofMembers ?_)
      rw [OrderedMap.mapValues_ofList, OrderedMap.mapValues_ofList, Term.membersToJson_outline]
    · cases decoded
  | _ => cases decoded

end Condition

/-! ## Reading -/

section Reading

variable (source : Source)

theorem LedgerEntry.coarse_decode : Decode.Coarse (record.decode source) outline := by
  refine Record.coarse (fun f mem => ?_) fun add collects key t a b same => ?_
  · simp only [record, List.mem_cons, List.not_mem_nil, or_false] at mem
    rcases mem with rfl | rfl
    · exact Field.coarse_required Decode.coarse_text (by simp +contextual [outline])
    · exact Field.coarse_withDefault Decode.coarse_text.optional (by simp +contextual [outline])
  · cases collects
    exact same

theorem Participant.coarse_decode : Decode.Coarse (record.decode source) outline := by
  refine Record.coarse (fun f mem => ?_) fun add collects key t a b same => ?_
  · simp only [record, List.mem_cons, List.not_mem_nil, or_false] at mem
    rcases mem with rfl | rfl | rfl
    · exact Field.coarse_required Decode.coarse_text (by simp +contextual [outline])
    · exact Field.coarse_withDefault Decode.coarse_text.optional (by simp +contextual [outline])
    · exact Field.coarse_withDefault Decode.coarse_text.optional (by simp +contextual [outline])
  · cases collects
    exact same

theorem Requirement.coarse_decode : Decode.Coarse (decode source) outline := by
  refine Decode.Coarse.variant fun kind t r decoded => ?_
  obtain ⟨conditions, found, rfl⟩ := Except.eq_ok_of_map decoded
  obtain ⟨others, found', seen⟩ := Condition.coarse_decode.list.exists_outline found
  rw [decodeKind, found']
  refine congrArg Except.ok ?_
  split
  · exact congrArg Requirement.all seen
  · exact congrArg Requirement.any seen

theorem Rule.coarse_decode : Decode.Coarse (record.decode source) outline := by
  refine Record.coarse (fun f mem => ?_) fun add collects => nomatch collects
  simp only [record, List.mem_cons, List.not_mem_nil, or_false] at mem
  rcases mem with rfl | rfl
  · exact Field.coarse_required Decode.coarse_text.list (by simp +contextual [outline])
  · exact Field.coarse_required (Requirement.coarse_decode source) (by simp +contextual [outline])

theorem Framework.coarse_decode : Decode.Coarse (decode source) outline := by
  refine Record.coarse (fun f mem => ?_) fun add collects key t a b same => ?_
  · simp only [record, List.mem_cons, List.not_mem_nil, or_false] at mem
    rcases mem with rfl | rfl | rfl | rfl | rfl
    · exact Field.coarse_required (LedgerEntry.coarse_decode source).list
        (by simp +contextual [outline])
    · exact Field.coarse_withDefault (LedgerEntry.coarse_decode source).list
        (by simp +contextual [outline])
    · exact Field.coarse_required (Participant.coarse_decode source).list
        (by simp +contextual [outline])
    · exact Field.coarse_required Decode.coarse_text.list (by simp +contextual [outline])
    · exact Field.coarse_required (Rule.coarse_decode source).list (by simp +contextual [outline])
  · cases collects
    exact same

end Reading

/-- A proper framework keeps its outline when it is written and read. -/
theorem Framework.outline_of_reread {f g : Framework} (proper : f.Proper) {depth : Nat}
    (readable : (f.toJson.reread depth).readable = true)
    (read : decode .buffer (f.toJson.reread depth) = .ok g) : g.outline = f.outline :=
  (coarse_decode .buffer).view_eq (f.toJson.outline_reread depth readable) read (decode_ofJson proper)

end TrustMesh
