import TrustMesh.Framework.Holdings
import TrustMesh.Proofs.Framework.Meaning

/-!
# Granting is monotone

A framework grants no fewer roles when some of its rules are relaxed, so that any of their
conditions is enough where all were needed, and when the oracle affirms no fewer questions
(`Framework.granting_is_monotone`). The two evaluations may put different questions and stop
at different conditions; what carries over is that a rule is met.

Only rules with a condition can be relaxed: one without conditions is granted if all of them
are needed, and denied if any of them is.
-/

namespace TrustMesh

/-! ## Oracles that affirm no less -/

namespace Oracle

/-- All that an oracle affirms, another one affirms as well, whatever it makes of other questions. -/
def Within (oracle other : Oracle) : Prop :=
  ∀ question, oracle question = .ok true → other question = .ok true

/-- All that an oracle answers, another one answers in the same way, wherever else it fails. -/
def Mends (oracle mended : Oracle) : Prop :=
  ∀ question held, oracle question = .ok held → mended question = .ok held

variable {oracle mended : Oracle}

theorem Within.refl (oracle : Oracle) : oracle.Within oracle := fun _ yes => yes

theorem Mends.within (mends : oracle.Mends mended) : oracle.Within mended :=
  fun question yes => mends question true yes

/-- A script that fails on fewer identifiers is mended. -/
theorem mends_scripted (held : List Question) {failing failing' : OrderedSet String}
    (fewer : ∀ id ∈ failing', id ∈ failing) :
    (scripted held failing).Mends (scripted held failing') := by
  intro question answer answered
  unfold scripted at answered ⊢
  cases failed : question.mentions.find? (· ∈ failing) with
  | some id =>
    rw [failed] at answered
    cases answered
  | none =>
    have works : question.mentions.find? (· ∈ failing') = none := by
      rw [List.find?_eq_none] at failed ⊢
      intro id mentioned
      have known := failed id mentioned
      rw [decide_eq_true_iff] at known ⊢
      exact mt (fewer id) known
    rw [failed] at answered
    rwa [works]

end Oracle

namespace Holdings

variable {h h' : Holdings}

/-- Whatever is held by one peer is held by another one. -/
structure Within (h h' : Holdings) : Prop where
  identities : h.identities ⊆ h'.identities
  schemaCredentials : h.schemaCredentials ⊆ h'.schemaCredentials
  credDefs : h.credDefs ⊆ h'.credDefs

theorem Within.oracle (within : h.Within h') : h.oracle.Within h'.oracle := by
  have any {α : Type} {p : α → Bool} {few more : List α} (sub : few ⊆ more)
      (yes : few.any p = true) : more.any p = true := by
    obtain ⟨a, there, holds⟩ := List.any_eq_true.1 yes
    exact List.any_eq_true.2 ⟨a, sub there, holds⟩
  have affirms : ∀ question, h.affirms question = true → h'.affirms question = true := by
    intro question yes
    cases question with
    | schema schema issuer => exact any within.schemaCredentials yes
    | identity peer => exact any within.identities yes
    | credDef credDef => exact any within.credDefs yes
  intro question yes
  exact congrArg _ (affirms question (Except.ok.inj yes))

end Holdings

/-! ## Relaxed frameworks -/

/-- A requirement is relaxed if any of its conditions is enough where all were needed. -/
inductive Requirement.Relaxes : Requirement → Requirement → Prop where
  | refl (r : Requirement) : Relaxes r r
  | any {conditions : List Condition} (some : conditions ≠ []) :
    Relaxes (.all conditions) (.any conditions)

/-- A rule that is relaxed grants the same roles. -/
structure Rule.Relaxes (rule relaxed : Rule) : Prop where
  grant : relaxed.grant = rule.grant
  requirement : rule.requirement.Relaxes relaxed.requirement

/-- In a framework that is relaxed some rules are, and nothing else is changed. -/
structure Framework.Relaxes (f relaxed : Framework) : Prop where
  schemas : relaxed.schemas = f.schemas
  credDefs : relaxed.credDefs = f.credDefs
  participants : relaxed.participants = f.participants
  roles : relaxed.roles = f.roles
  permissions : List.Forall₂ Rule.Relaxes f.permissions relaxed.permissions
  extra : relaxed.extra = f.extra

/-- A later decision on the same rule grants what the earlier one granted. -/
structure Decision.UpheldBy (d later : Decision) : Prop where
  index : later.index = d.index
  roles : later.roles = d.roles
  granted : d.granted = true → later.granted = true

section Relaxes

variable {f f' : Framework} {oracle oracle' : Oracle} {r r' : Requirement} {c : Condition}

theorem Framework.Relaxes.refl (f : Framework) : f.Relaxes f where
  schemas := rfl
  credDefs := rfl
  participants := rfl
  roles := rfl
  permissions := List.forall₂_same.2 fun _ _ => ⟨rfl, .refl _⟩
  extra := rfl

/-- References stand for the same in a framework that is relaxed. -/
theorem Framework.Relaxes.names_eq (relaxes : f.Relaxes f') : f'.names = f.names := by
  rw [names, names, relaxes.schemas, relaxes.credDefs, relaxes.participants]

theorem Framework.Relaxes.met_condition (relaxes : f.Relaxes f') (within : oracle.Within oracle')
    (met : c.Met f oracle) : c.Met f' oracle' := by
  obtain ⟨question, asks, yes⟩ := met
  refine ⟨question, ?_, within question yes⟩
  rw [← Condition.question?_eq_some_iff] at asks ⊢
  rwa [relaxes.names_eq]

/-- A requirement that is relaxed is met, if every condition that was met still is. -/
theorem Requirement.Relaxes.met (relaxes : r.Relaxes r')
    (kept : ∀ c : Condition, c.Met f oracle → c.Met f' oracle') (met : r.Met f oracle) :
    r'.Met f' oracle' := by
  cases relaxes with
  | refl =>
    cases r with
    | all conditions => exact fun c there => kept c (met c there)
    | any conditions =>
      obtain ⟨c, there, holds⟩ := met
      exact ⟨c, there, kept c holds⟩
  | any some =>
    obtain ⟨c, there⟩ := List.exists_mem_of_ne_nil _ some
    exact ⟨c, there, kept c (met c there)⟩

/-- Without conditions all of them are met, but not any. -/
example : (Requirement.all []).Met f oracle ∧ ¬ (Requirement.any []).Met f oracle := by
  simp [Requirement.Met]

namespace Framework

/-- Rule by rule, what was granted is granted still. -/
theorem upheld_evaluateFrom (relaxes : f.Relaxes f') (within : oracle.Within oracle') (index : Nat)
    {rules rules' : List Rule} (relaxed : List.Forall₂ Rule.Relaxes rules rules') :
    List.Forall₂ Decision.UpheldBy (evaluateFrom f.names oracle index rules).decisions
      (evaluateFrom f'.names oracle' index rules').decisions := by
  induction relaxed generalizing index with
  | nil => exact .nil
  | @cons rule rule' _ _ first _ ih =>
    refine .cons ⟨rfl, first.grant, fun granted => ?_⟩ (ih (index + 1))
    have met : rule.requirement.Met f oracle := (rule.requirement.met_verdict f oracle).1 granted
    have kept : rule'.requirement.Met f' oracle' :=
      first.requirement.met (fun _ => relaxes.met_condition within) met
    exact (rule'.requirement.met_verdict f' oracle').2 kept

end Framework

/-- No role is lost if all decisions are upheld. -/
theorem Decision.mem_collect_of_upheld {decisions later : List Decision} {role : String}
    (upheld : List.Forall₂ UpheldBy decisions later) (there : role ∈ collect decisions) :
    role ∈ collect later := by
  rw [mem_collect] at there ⊢
  induction upheld with
  | nil => exact there
  | cons first _ ih =>
    rw [List.exists_mem_cons_iff] at there ⊢
    rcases there with ⟨granted, named⟩ | there
    · exact .inl ⟨first.granted granted, first.roles ▸ named⟩
    · exact .inr (ih there)

end Relaxes

namespace Framework

/-- If a framework is relaxed, and an oracle affirms no fewer questions, then every rule that was granted
is granted still, and so is every role. In particular no role is lost to a peer that acquires something,
by the repair of an oracle that failed on some questions, or because any of the conditions of a rule is
enough now. -/
theorem granting_is_monotone :
    (∀ (f f' : Framework) (oracle oracle' : Oracle), f.Relaxes f' → oracle.Within oracle' →
      List.Forall₂ Decision.UpheldBy (f.evaluate oracle).decisions (f'.evaluate oracle').decisions ∧
        ∀ role ∈ f.grantedRoles oracle, role ∈ f'.grantedRoles oracle') ∧
    (∀ (f : Framework) (h h' : Holdings), h.Within h' →
      ∀ role ∈ f.grantedRoles h.oracle, role ∈ f.grantedRoles h'.oracle) ∧
    (∀ (f : Framework) (oracle mended : Oracle), oracle.Mends mended →
      ∀ role ∈ f.grantedRoles oracle, role ∈ f.grantedRoles mended) ∧
    ∀ (f f' : Framework) (oracle : Oracle), f.Relaxes f' →
      ∀ role ∈ f.grantedRoles oracle, role ∈ f'.grantedRoles oracle := by
  have upheld : ∀ (f f' : Framework) (oracle oracle' : Oracle), f.Relaxes f' → oracle.Within oracle' →
      List.Forall₂ Decision.UpheldBy (f.evaluate oracle).decisions (f'.evaluate oracle').decisions :=
    fun _ _ _ _ relaxes within => upheld_evaluateFrom relaxes within 0 relaxes.permissions
  have granted : ∀ (f f' : Framework) (oracle oracle' : Oracle), f.Relaxes f' →
      oracle.Within oracle' → ∀ role ∈ f.grantedRoles oracle, role ∈ f'.grantedRoles oracle' :=
    fun f f' oracle oracle' relaxes within _ =>
      Decision.mem_collect_of_upheld (upheld f f' oracle oracle' relaxes within)
  refine ⟨fun f f' oracle oracle' relaxes within => ?_, fun f h h' within => ?_,
    fun f oracle mended mends => ?_, fun f f' oracle relaxes => ?_⟩
  · exact ⟨upheld f f' oracle oracle' relaxes within, granted f f' oracle oracle' relaxes within⟩
  · exact granted f f h.oracle h'.oracle (.refl f) within.oracle
  · exact granted f f oracle mended (.refl f) mends.within
  · exact granted f f' oracle oracle relaxes (.refl oracle)

/-- Two rules are relaxed, and an oracle that failed on the permit denies it now. The auditor stays,
though the rule is decided by its first condition where it took both, and the trader comes in. The
strict framework keeps the auditor when the failure is mended, and when the permit is acquired. -/
theorem granting_is_monotone_permit :
    let strict : Framework := ⟨[], [], [.named "did:sov:A" "ministry"], ["trader", "auditor"],
      [⟨.ofList ["trader"], .all [.credDef "licence", .credDef "permit"]⟩,
        ⟨.ofList ["auditor"], .all [.credDef "licence", .identity "ministry"]⟩], .empty⟩
    let relaxed : Framework := { strict with permissions :=
      [⟨.ofList ["trader"], .any [.credDef "licence", .credDef "permit"]⟩,
        ⟨.ofList ["auditor"], .any [.credDef "licence", .identity "ministry"]⟩] }
    let failing := Oracle.scripted [.credDef "licence", .identity "A"] (.singleton "permit")
    let mended := Oracle.scripted [.credDef "licence", .identity "A"] .empty
    let h : Holdings := ⟨["did:sov:A"], [], ["licence"]⟩
    let h' : Holdings := ⟨["did:sov:A"], [], ["permit", "licence"]⟩
    (strict.Relaxes relaxed ∧ failing.Within mended ∧ failing.Mends mended ∧ h.Within h') ∧
      (strict.grantedRoles failing).toList = ["auditor"] ∧ "auditor" ∈ relaxed.grantedRoles mended ∧
      (relaxed.grantedRoles mended).toList = ["auditor", "trader"] ∧
      "auditor" ∈ strict.grantedRoles mended ∧ "auditor" ∈ strict.grantedRoles h'.oracle := by
  intro strict relaxed failing mended h h'
  have relaxes : strict.Relaxes relaxed :=
    ⟨rfl, rfl, rfl, rfl, .cons ⟨rfl, .any nofun⟩ (.cons ⟨rfl, .any nofun⟩ .nil), rfl⟩
  have mends : failing.Mends mended := Oracle.mends_scripted _ fun _ there => (nomatch there)
  have acquired : h.Within h' := ⟨by simp [h, h'], by simp [h, h'], by simp [h, h']⟩
  obtain ⟨law, holdings, repaired, -⟩ := granting_is_monotone
  obtain ⟨-, kept⟩ := law strict relaxed failing mended relaxes mends.within
  refine ⟨⟨relaxes, mends.within, mends, acquired⟩, by decide +kernel,
    kept "auditor" (by decide +kernel), by decide +kernel, ?_, ?_⟩
  · exact repaired strict failing mended mends "auditor" (by decide +kernel)
  · exact holdings strict h h' acquired "auditor" (by decide +kernel)

end Framework

end TrustMesh
