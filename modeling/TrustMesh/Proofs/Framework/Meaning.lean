import TrustMesh.Framework.Evaluation
import TrustMesh.Proofs.Collection.OrderedMap

/-!
# What permission rules mean

The meaning of a rule is stated without tables and without an order of evaluation: which
entry a reference stands for (`StandsFor`), which question a condition asks
(`Condition.Asks`), when it is met (`Condition.Met`), and when a requirement is
(`Requirement.Met`). The evaluation of a framework decides every rule according to its
meaning, and asks the questions of the conditions up to the first that decides, and no
other (`Framework.evaluate_meaning`).
-/

namespace TrustMesh

/-! ## References -/

/-- What a reference stands for among entries that carry references: the identifier of the last entry
that carries it; itself if none does. -/
def StandsFor {α : Type} (Carries : α → String → Prop) (id : α → String) (entries : List α)
    (reference target : String) : Prop :=
  (∃ before e after, entries = before ++ e :: after ∧ Carries e reference ∧
    (∀ later ∈ after, ¬ Carries later reference) ∧ target = id e) ∨
  (∀ e ∈ entries, ¬ Carries e reference) ∧ target = reference

/-- An entry is referred to by its name. -/
def LedgerEntry.Carries (e : LedgerEntry) (reference : String) : Prop := e.name = some reference

/-- A participant is referred to by its identifier or by its name. -/
def Participant.Carries (p : Participant) (reference : String) : Prop :=
  p.id = reference ∨ p.name = some reference

/-- What is left of an identifier after its last colon; all of it if it has none. -/
def Segment (id short : String) : Prop :=
  ':' ∉ short.toList ∧ (id = short ∨ ∃ front : String, id = front ++ ":" ++ short)

section References

variable {α : Type} {Carries : α → String → Prop} {id : α → String}
  {references : α → List (String × String)} {entries : List α} {reference target : String}

/-- Either some member of a list is the last with a property, or none has it. -/
theorem exists_last_or_forall_not (P : α → Prop) (items : List α) :
    (∃ before a after, items = before ++ a :: after ∧ P a ∧ ∀ later ∈ after, ¬ P later) ∨
      ∀ a ∈ items, ¬ P a := by
  induction items with
  | nil => exact .inr (by simp)
  | cons a rest ih =>
    rcases ih with ⟨before, b, after, rfl, holds, last⟩ | free
    · exact .inl ⟨a :: before, b, after, rfl, holds, last⟩
    · by_cases holds : P a
      · exact .inl ⟨[], a, rest, rfl, holds, free⟩
      · exact .inr (List.forall_mem_cons.2 ⟨holds, free⟩)

variable (table : ∀ e reference, (OrderedMap.ofList (references e)).get? reference =
  open Classical in if Carries e reference then some (id e) else none)

include table

theorem get?_of_forall_not_carries (free : ∀ e ∈ entries, ¬ Carries e reference) :
    (OrderedMap.ofList (entries.flatMap references)).get? reference = none := by
  induction entries with
  | nil => rfl
  | cons e rest ih =>
    obtain ⟨own, free⟩ := List.forall_mem_cons.1 free
    rw [List.flatMap_cons, OrderedMap.get?_ofList_append, ih free, table, if_neg own]
    rfl

/-- The table of all references of the entries gives what a reference stands for. -/
theorem standsFor_iff : StandsFor Carries id entries reference target ↔
    ((OrderedMap.ofList (entries.flatMap references)).get? reference).getD reference = target := by
  have sound : ∀ target, StandsFor Carries id entries reference target →
      ((OrderedMap.ofList (entries.flatMap references)).get? reference).getD reference = target := by
    rintro target (⟨before, e, after, rfl, carries, last, rfl⟩ | ⟨free, rfl⟩)
    · rw [List.flatMap_append, List.flatMap_cons, OrderedMap.get?_ofList_append,
        OrderedMap.get?_ofList_append, get?_of_forall_not_carries table last, table, if_pos carries,
        Option.none_or, Option.some_or, Option.getD_some]
    · rw [get?_of_forall_not_carries table free, Option.getD_none]
  refine ⟨sound target, ?_⟩
  rintro rfl
  -- A reference stands for something, and by soundness for nothing but what the table gives.
  have some : ∃ target, StandsFor Carries id entries reference target := by
    rcases exists_last_or_forall_not (Carries · reference) entries with
      ⟨before, e, after, split, carries, last⟩ | free
    · exact ⟨id e, .inl ⟨before, e, after, split, carries, last, rfl⟩⟩
    · exact ⟨reference, .inr ⟨free, rfl⟩⟩
  obtain ⟨target, stands⟩ := some
  rwa [sound target stands]

end References

theorem LedgerEntry.get?_reference (e : LedgerEntry) (reference : String) :
    (OrderedMap.ofList e.reference).get? reference =
      open Classical in if e.Carries reference then some e.id else none := by
  unfold LedgerEntry.reference Carries
  cases e.name with
  | none => simp [OrderedMap.ofList]
  | some name => simp [OrderedMap.ofList, eq_comm]

theorem Participant.get?_references (p : Participant) (reference : String) :
    (OrderedMap.ofList p.references).get? reference =
      open Classical in if p.Carries reference then some p.id else none := by
  unfold Participant.references Carries
  cases p.name with
  | none => simp [OrderedMap.ofList, eq_comm]
  | some name =>
    by_cases named : reference = name
    · simp [OrderedMap.ofList, named]
    · simp [OrderedMap.ofList, named, eq_comm]

namespace Framework

variable {f : Framework} {reference target : String}

theorem schema_eq_iff : f.names.schema reference = target ↔
    StandsFor LedgerEntry.Carries LedgerEntry.id f.schemas reference target :=
  (standsFor_iff LedgerEntry.get?_reference).symm

theorem credDef_eq_iff : f.names.credDef reference = target ↔
    StandsFor LedgerEntry.Carries LedgerEntry.id f.credDefs reference target :=
  (standsFor_iff LedgerEntry.get?_reference).symm

theorem participant_eq_iff : f.names.participant reference = target ↔
    StandsFor Participant.Carries Participant.id f.participants reference target :=
  (standsFor_iff Participant.get?_references).symm

/-- A name takes over the identifier of a participant that comes before. -/
example : Names.participant (names ⟨[], [], [.named "A" "ministry", .named "B" "A"], [], [], .empty⟩)
    "A" = "B" := by decide

end Framework

/-! ## Segments -/

theorem takeWhile_append_of_not_mem {short : List Char} (plain : ':' ∉ short) (rest : List Char) :
    (short ++ rest).takeWhile (· ≠ ':') = short ++ rest.takeWhile (· ≠ ':') := by
  refine List.takeWhile_append_of_pos fun c there => decide_eq_true ?_
  rintro rfl
  exact plain there

theorem afterLastColon_of_not_mem {short : List Char} (plain : ':' ∉ short) :
    afterLastColon short = short := by
  have whole := takeWhile_append_of_not_mem (mt List.mem_reverse.1 plain) []
  rw [List.append_nil, List.takeWhile_nil, List.append_nil] at whole
  rw [afterLastColon, whole, List.reverse_reverse]

theorem afterLastColon_append (front : List Char) {short : List Char} (plain : ':' ∉ short) :
    afterLastColon (front ++ ':' :: short) = short := by
  rw [afterLastColon, List.reverse_append, List.reverse_cons, List.append_assoc,
    takeWhile_append_of_not_mem (mt List.mem_reverse.1 plain)]
  simp

theorem exists_eq_append_afterLastColon (cs : List Char) :
    cs = afterLastColon cs ∨ ∃ front, cs = front ++ ':' :: afterLastColon cs := by
  have whole : cs = (cs.reverse.dropWhile (· ≠ ':')).reverse ++ afterLastColon cs := by
    rw [afterLastColon, ← List.reverse_append, List.takeWhile_append_dropWhile, List.reverse_reverse]
  have stop := List.head?_dropWhile_not (· ≠ ':') cs.reverse
  cases dropped : cs.reverse.dropWhile (· ≠ ':') with
  | nil =>
    rw [dropped] at whole
    exact .inl whole
  | cons c rest =>
    rw [dropped] at whole stop
    have colon : c = ':' := by simpa using stop
    refine .inr ⟨rest.reverse, ?_⟩
    rwa [List.reverse_cons, List.append_assoc, List.singleton_append, colon] at whole

theorem colon_not_mem_afterLastColon (cs : List Char) : ':' ∉ afterLastColon cs := by
  intro there
  have passed := List.all_eq_true.1 List.all_takeWhile _ (List.mem_reverse.1 there)
  simp at passed

theorem withoutNamespace_eq_iff {id short : String} :
    withoutNamespace id = short ↔ Segment id short := by
  constructor
  · rintro rfl
    refine ⟨by simpa [withoutNamespace] using colon_not_mem_afterLastColon id.toList, ?_⟩
    rcases exists_eq_append_afterLastColon id.toList with whole | ⟨front, whole⟩
    · exact .inl (String.toList_inj.1 (by simpa [withoutNamespace] using whole))
    · exact .inr ⟨String.ofList front, String.toList_inj.1 (by simpa [withoutNamespace] using whole)⟩
  · rintro ⟨plain, rfl | ⟨front, rfl⟩⟩
    · rw [withoutNamespace, afterLastColon_of_not_mem plain, String.ofList_toList]
    · have parts : (front ++ ":" ++ short).toList = front.toList ++ ':' :: short.toList := by simp
      rw [withoutNamespace, parts, afterLastColon_append _ plain, String.ofList_toList]

/-! ## Conditions -/

/-- The question that a condition asks. A condition that is not recognised, or a schema condition
without an issuer, asks none. -/
inductive Condition.Asks (f : Framework) : Condition → Question → Prop where
  | schema {reference issuer id peer short : String} :
    StandsFor LedgerEntry.Carries LedgerEntry.id f.schemas reference id →
    StandsFor Participant.Carries Participant.id f.participants issuer peer → Segment peer short →
    Asks f (.schema reference (some issuer)) (.schema id short)
  | identity {reference peer short : String} :
    StandsFor Participant.Carries Participant.id f.participants reference peer →
    Segment peer short → Asks f (.identity reference) (.identity short)
  | credDef {reference id : String} :
    StandsFor LedgerEntry.Carries LedgerEntry.id f.credDefs reference id →
    Asks f (.credDef reference) (.credDef id)

/-- A condition is met if it asks a question that the oracle affirms. -/
def Condition.Met (f : Framework) (oracle : Oracle) (c : Condition) : Prop :=
  ∃ question, c.Asks f question ∧ oracle question = .ok true

namespace Requirement

variable (f : Framework) (oracle : Oracle)

/-- A requirement is met if all of its conditions are, or if any is. -/
def Met : Requirement → Prop
  | .all conditions => ∀ c ∈ conditions, c.Met f oracle
  | .any conditions => ∃ c ∈ conditions, c.Met f oracle

/-- The condition decides: one that is not met if all are needed, one that is met if any is enough. -/
def Decides : Requirement → Condition → Prop
  | .all _, c => ¬ c.Met f oracle
  | .any _, c => c.Met f oracle

/-- The position, counted from one, of the first condition that decides; the number of the
conditions if none does. -/
def DecidedAt (r : Requirement) (position : Nat) : Prop :=
  (∃ before c after, r.conditions = before ++ c :: after ∧ r.Decides f oracle c ∧
    (∀ earlier ∈ before, ¬ r.Decides f oracle earlier) ∧ position = before.length + 1) ∨
  (∀ c ∈ r.conditions, ¬ r.Decides f oracle c) ∧ position = r.conditions.length

end Requirement

/-- The decision on the rule at a position is what the rule means. -/
structure Decision.Right (f : Framework) (oracle : Oracle) (rule : Rule) (index : Nat)
    (d : Decision) : Prop where
  index : d.index = index
  roles : d.roles = rule.grant
  granted : d.granted = true ↔ rule.requirement.Met f oracle
  evaluated : rule.requirement.DecidedAt f oracle d.evaluated

section Conditions

variable {f : Framework} {oracle : Oracle} {c : Condition} {question : Question}

theorem Condition.question?_eq_some_iff :
    c.question? f.names = some question ↔ c.Asks f question := by
  constructor
  · intro asked
    cases c with
    | schema reference issuer =>
      cases issuer with
      | none => cases asked
      | some issuer =>
        cases asked
        exact .schema (Framework.schema_eq_iff.1 rfl) (Framework.participant_eq_iff.1 rfl)
          (withoutNamespace_eq_iff.1 rfl)
    | identity reference =>
      cases asked
      exact .identity (Framework.participant_eq_iff.1 rfl) (withoutNamespace_eq_iff.1 rfl)
    | credDef reference =>
      cases asked
      exact .credDef (Framework.credDef_eq_iff.1 rfl)
    | unrecognized members => cases asked
  · intro asks
    cases asks with
    | schema entry issuer short =>
      rw [question?, Framework.schema_eq_iff.2 entry, Framework.participant_eq_iff.2 issuer,
        withoutNamespace_eq_iff.2 short]
    | identity peer short =>
      rw [question?, Framework.participant_eq_iff.2 peer, withoutNamespace_eq_iff.2 short]
    | credDef entry => rw [question?, Framework.credDef_eq_iff.2 entry]

theorem Oracle.affirms_iff : oracle.affirms question = true ↔ oracle question = .ok true := by
  unfold affirms
  cases oracle question with
  | ok held => simp
  | error fault => simp

theorem Condition.holds_iff : c.holds f.names oracle = true ↔ c.Met f oracle := by
  unfold holds Met
  simp only [← question?_eq_some_iff, ← Oracle.affirms_iff]
  cases c.question? f.names with
  | none => simp
  | some question => simp

end Conditions

/-! ## Evaluation -/

namespace Verdict

variable (names : Framework.Names) (oracle : Oracle) (decisive : Bool)

theorem met_ofConditions (conditions : List Condition) :
    (ofConditions names oracle decisive conditions).met = decisive ↔
      ∃ c ∈ conditions, c.holds names oracle = decisive := by
  induction conditions with
  | nil => simp [ofConditions]
  | cons c rest ih =>
    rw [List.exists_mem_cons_iff, ofConditions]
    split
    · rename_i decides
      simp [decides]
    · rename_i passed
      simp [passed, ih]

theorem evaluated_ofConditions (conditions : List Condition) :
    (∃ before c after, conditions = before ++ c :: after ∧ c.holds names oracle = decisive ∧
      (∀ earlier ∈ before, ¬ earlier.holds names oracle = decisive) ∧
        (ofConditions names oracle decisive conditions).evaluated = before.length + 1) ∨
    (∀ c ∈ conditions, ¬ c.holds names oracle = decisive) ∧
      (ofConditions names oracle decisive conditions).evaluated = conditions.length := by
  induction conditions with
  | nil => exact .inr ⟨by simp, rfl⟩
  | cons c rest ih =>
    by_cases decides : c.holds names oracle = decisive
    · exact .inl ⟨[], c, rest, rfl, decides, by simp, by simp [ofConditions, decides]⟩
    · have later : (ofConditions names oracle decisive (c :: rest)).evaluated =
          (ofConditions names oracle decisive rest).evaluated + 1 := by
        simp [ofConditions, decides]
      rw [later, List.length_cons]
      rcases ih with ⟨before, d, after, rfl, holds, free, position⟩ | ⟨free, position⟩
      · exact .inl ⟨c :: before, d, after, rfl, holds, List.forall_mem_cons.2 ⟨decides, free⟩,
          congrArg (· + 1) position⟩
      · exact .inr ⟨List.forall_mem_cons.2 ⟨decides, free⟩, congrArg (· + 1) position⟩

theorem asked_ofConditions (conditions : List Condition) :
    (ofConditions names oracle decisive conditions).asked =
      (conditions.take (ofConditions names oracle decisive conditions).evaluated).filterMap
        (·.question? names) := by
  have first (c : Condition) (rest : List Condition) :
      (c :: rest).filterMap (·.question? names) =
        (c.question? names).toList ++ rest.filterMap (·.question? names) := by
    rw [List.filterMap_cons]
    cases c.question? names <;> rfl
  induction conditions with
  | nil => rfl
  | cons c rest ih =>
    rw [ofConditions]
    split
    · rw [List.take_succ_cons, first, List.take_zero, List.filterMap_nil, List.append_nil]
    · rw [List.take_succ_cons, first, ← ih]

end Verdict

namespace Requirement

variable (f : Framework) (oracle : Oracle) (r : Requirement)

/-- The outcome of a condition that decides. -/
def decisive : Requirement → Bool
  | .all _ => false
  | .any _ => true

theorem verdict_eq (names : Framework.Names) :
    r.verdict names oracle = .ofConditions names oracle r.decisive r.conditions := by
  cases r <;> rfl

theorem decides_iff {c : Condition} :
    r.Decides f oracle c ↔ c.holds f.names oracle = r.decisive := by
  cases r with
  | all conditions => rw [Decides, ← Condition.holds_iff, Bool.not_eq_true, decisive]
  | any conditions => exact Condition.holds_iff.symm

/-- A requirement is met if and only if the verdict says so. -/
theorem met_verdict : (r.verdict f.names oracle).met = true ↔ r.Met f oracle := by
  have decided := Verdict.met_ofConditions f.names oracle r.decisive r.conditions
  rw [← r.verdict_eq oracle f.names] at decided
  cases r with
  | all conditions =>
    rw [← not_iff_not, Bool.not_eq_true]
    refine decided.trans ?_
    simp only [Met, ← Condition.holds_iff, Requirement.conditions, decisive, not_forall,
      Bool.not_eq_true, exists_prop]
  | any conditions =>
    refine decided.trans ?_
    simp only [Met, ← Condition.holds_iff, Requirement.conditions, decisive]

/-- The verdict counts the conditions up to the first that decides. -/
theorem decidedAt_verdict : r.DecidedAt f oracle (r.verdict f.names oracle).evaluated := by
  have position := Verdict.evaluated_ofConditions f.names oracle r.decisive r.conditions
  rw [← r.verdict_eq oracle f.names] at position
  simpa only [DecidedAt, decides_iff] using position

/-- The verdict asks the questions of the conditions that it counts. -/
theorem asked_verdict (names : Framework.Names) : (r.verdict names oracle).asked =
    (r.conditions.take (r.verdict names oracle).evaluated).filterMap (·.question? names) := by
  rw [verdict_eq]
  exact Verdict.asked_ofConditions ..

end Requirement

/-- A role is collected if and only if some decision grants it. -/
theorem Decision.mem_collect {decisions : List Decision} {role : String} :
    role ∈ collect decisions ↔ ∃ d ∈ decisions, d.granted = true ∧ role ∈ d.roles := by
  rw [collect, OrderedSet.mem_ofList]
  simp [OrderedSet.mem_def, and_assoc]

namespace Framework

variable (f : Framework) (oracle : Oracle)

theorem decisions_evaluateFrom (index : Nat) (rules : List Rule) :
    List.Forall₂ (fun (p : Rule × Nat) d => Decision.Right f oracle p.1 p.2 d)
      (rules.zipIdx index) (evaluateFrom f.names oracle index rules).decisions := by
  induction rules generalizing index with
  | nil => exact .nil
  | cons rule rest ih =>
    refine .cons ⟨rfl, rfl, ?_, ?_⟩ (ih (index + 1))
    · exact rule.requirement.met_verdict f oracle
    · exact rule.requirement.decidedAt_verdict f oracle

theorem asked_evaluateFrom (names : Names) (index : Nat) (rules : List Rule) :
    (evaluateFrom names oracle index rules).asked =
      (rules.zip (evaluateFrom names oracle index rules).decisions).flatMap fun (rule, d) =>
        (rule.requirement.conditions.take d.evaluated).filterMap (·.question? names) := by
  induction rules generalizing index with
  | nil => rfl
  | cons rule rest ih =>
    rw [evaluateFrom, List.zip_cons_cons, List.flatMap_cons, ← ih]
    exact congrArg (· ++ _) (rule.requirement.asked_verdict oracle names)

/-- A role is granted if and only if some rule that is met grants it. -/
theorem mem_grantedRoles {role : String} : role ∈ f.grantedRoles oracle ↔
    ∃ rule ∈ f.permissions, rule.requirement.Met f oracle ∧ role ∈ rule.grant := by
  rw [grantedRoles, Decision.mem_collect, evaluate]
  generalize 0 = index
  induction f.permissions generalizing index with
  | nil => simp [evaluateFrom]
  | cons rule rest ih =>
    rw [evaluateFrom, List.exists_mem_cons_iff, List.exists_mem_cons_iff, ih,
      rule.requirement.met_verdict f oracle]

/-- Every rule is decided, in order, according to its meaning. The questions that are asked over the
whole framework are, rule by rule, those of the conditions up to the first that decides, one for each
that has a question. The roles that are granted are those of the rules that are met. -/
theorem evaluate_meaning :
    List.Forall₂ (fun (p : Rule × Nat) d => Decision.Right f oracle p.1 p.2 d)
      f.permissions.zipIdx (f.evaluate oracle).decisions ∧
    (∀ (c : Condition) question, c.question? f.names = some question ↔ c.Asks f question) ∧
    (f.evaluate oracle).asked =
      ((f.permissions.zip (f.evaluate oracle).decisions).flatMap fun (rule, d) =>
        (rule.requirement.conditions.take d.evaluated).filterMap (·.question? f.names)) ∧
    ∀ role, role ∈ f.grantedRoles oracle ↔
      ∃ rule ∈ f.permissions, rule.requirement.Met f oracle ∧ role ∈ rule.grant :=
  ⟨f.decisions_evaluateFrom oracle 0 f.permissions, fun _ _ => Condition.question?_eq_some_iff,
    asked_evaluateFrom oracle f.names 0 f.permissions, fun _ => f.mem_grantedRoles oracle⟩

end Framework

end TrustMesh
