import Mathlib.Algebra.Order.Group.Multiset
import Mathlib.Data.Set.Card
import TrustMesh.Proofs.Mesh.Deployment

/-!
# Floods

A question spreads over links. A peer that hears it asks some of its neighbours in turn,
handing on the route that the question took, and may send an answer back. What is in
flight is a multiset, and any of it may come next.

A `Plan` fixes whom a peer asks and who answers. The invariant `Flood.Orderly` is kept by
every step, and what holds once nobody is left to be asked follows from it: whoever is
joined to the origin was reached (`Orderly.reached_of_joined`), and a flood in which no
peer ignores the question went over every simple path (`Orderly.mem_heard_of_trail`).

Nothing here depends on what is asked.
-/

namespace TrustMesh

/-- A peer, with the route by which something got there. The route ends before the peer. -/
structure Stop where
  route : List PeerId
  peer : PeerId
deriving DecidableEq

/-- The route up to and including the peer. -/
def Stop.path (s : Stop) : List PeerId := s.route ++ [s.peer]

/-- A peer is asked by the peer of a stop. -/
structure Visit where
  before : Stop
  peer : PeerId
deriving DecidableEq

namespace Visit

/-- The stop at the peer that is asked. -/
def stop (v : Visit) : Stop := ⟨v.before.path, v.peer⟩

/-- The route up to and including the peer that is asked. -/
def path (v : Visit) : List PeerId := v.before.path ++ [v.peer]

@[simp] theorem path_stop (v : Visit) : v.stop.path = v.path := rfl

@[simp] theorem peer_stop (v : Visit) : v.stop.peer = v.peer := rfl

theorem eq_of_path_eq {v w : Visit} (same : v.path = w.path) : v = w := by
  obtain ⟨⟨route, near⟩, far⟩ := v
  obtain ⟨⟨route', near'⟩, far'⟩ := w
  simp only [path, Stop.path] at same
  obtain ⟨whole, last⟩ := List.append_inj' same rfl
  obtain ⟨front, next⟩ := List.append_inj' whole rfl
  cases front
  cases next
  cases last
  rfl

theorem eq_of_stop_eq {v w : Visit} (same : v.stop = w.stop) : v = w :=
  eq_of_path_eq (congrArg Stop.path same)

/-- Every path over at least one link is that of a visit. -/
theorem exists_path_eq {path : List PeerId} (long : 2 ≤ path.length) :
    ∃ v : Visit, v.path = path := by
  rcases List.eq_nil_or_concat path with rfl | ⟨front, far, rfl⟩
  · simp at long
  · rcases List.eq_nil_or_concat front with rfl | ⟨route, near, rfl⟩
    · simp at long
    · exact ⟨⟨⟨route, near⟩, far⟩, by simp [path, Stop.path]⟩

end Visit

/-- Whom a peer asks when it was asked itself, and which peers answer. In a flood that spreads `once`
no peer hears the question again; in one that is `thorough` no peer ignores it. -/
structure Plan (d : Deployment) where
  origin : PeerId
  spread : Stop → List PeerId
  linked : ∀ s, ∀ q ∈ spread s, d.Linked s.peer q
  onward : ∀ s, ∀ q ∈ spread s, q ∉ s.path
  distinct : ∀ s, (spread s).Nodup
  answers : Visit → Bool
  once : Prop
  thorough : Prop

/-- The state of a flood: who is being asked, who heard the question, the answers on their way back,
and those that came home. -/
structure Flood where
  asked : Multiset Visit
  heard : Multiset Visit
  back : Multiset Visit
  home : Multiset Visit

/-- The peers that heard the question. -/
def Flood.reached (f : Flood) : Multiset PeerId := f.heard.map (·.peer)

namespace Plan

variable {d : Deployment}

/-- The stop at which a flood begins. -/
def root (p : Plan d) : Stop := ⟨[], p.origin⟩

/-- All peers that are asked from a stop. -/
def children (p : Plan d) (s : Stop) : Multiset Visit :=
  ↑((p.spread s).map fun peer => (⟨s, peer⟩ : Visit))

/-- A flood that has just begun. -/
def opening (p : Plan d) : Flood := ⟨p.children p.root, 0, 0, 0⟩

/-- A visit that a flood of the plan can make. -/
structure Allows (p : Plan d) (v : Visit) : Prop where
  spread : v.peer ∈ p.spread v.before
  trail : d.Trail p.origin v.path

/-- One step of a flood: a peer hears the question, a peer that heard it before ignores it, or an
answer comes home. -/
inductive Step (p : Plan d) : Flood → Flood → Prop where
  | hear {f : Flood} {v : Visit} {rest : Multiset Visit} (taken : f.asked = v ::ₘ rest)
      (fresh : p.once → v.peer ∉ f.reached) :
      Step p f ⟨rest + p.children v.stop, v ::ₘ f.heard,
        if p.answers v then v ::ₘ f.back else f.back, f.home⟩
  | ignore {f : Flood} {v : Visit} {rest : Multiset Visit} (taken : f.asked = v ::ₘ rest)
      (careless : ¬ p.thorough) (known : v.peer ∈ f.reached) :
      Step p f { f with asked := rest }
  | deliver {f : Flood} {v : Visit} {rest : Multiset Visit} (taken : f.back = v ::ₘ rest) :
      Step p f { f with back := rest, home := v ::ₘ f.home }

/-- A flood in this state is reached from the beginning. -/
inductive Reaches (p : Plan d) : Flood → Prop where
  | opening : Reaches p p.opening
  | step {f next : Flood} (prior : Reaches p f) (step : p.Step f next) : Reaches p next

theorem mem_children {p : Plan d} {s : Stop} {v : Visit} :
    v ∈ p.children s ↔ v.before = s ∧ v.peer ∈ p.spread s := by
  simp only [children, Multiset.mem_coe, List.mem_map]
  constructor
  · rintro ⟨peer, mem, rfl⟩
    exact ⟨rfl, mem⟩
  · rintro ⟨rfl, mem⟩
    exact ⟨v.peer, mem, rfl⟩

theorem map_children {α : Type} (p : Plan d) (s : Stop) (f : Visit → α) :
    (p.children s).map f = ↑((p.spread s).map fun peer => f ⟨s, peer⟩) := by
  rw [children, Multiset.map_coe, List.map_map]
  rfl

theorem nodup_children (p : Plan d) (s : Stop) : (p.children s).Nodup :=
  Multiset.coe_nodup.2 ((p.distinct s).map fun _ _ same => (Visit.mk.inj same).2)

end Plan

/-- A visit does not lead back to the origin. -/
theorem Visit.peer_ne_of_trail {d : Deployment} {v : Visit} {origin : PeerId}
    (trail : d.Trail origin v.path) : v.peer ≠ origin := by
  rintro rfl
  obtain ⟨before, -, onward⟩ := Deployment.trail_concat_iff.1 trail
  exact onward (List.mem_of_mem_head? before.begins)

namespace Flood

open Deployment

variable {d : Deployment}

/-- The flood got to a stop: it began there or a peer heard the question there. -/
def Visits (p : Plan d) (f : Flood) (s : Stop) : Prop := s = p.root ∨ ∃ v ∈ f.heard, v.stop = s

/-- What every step of a flood keeps. -/
structure Orderly (p : Plan d) (f : Flood) : Prop where
  nodup : (f.asked + f.heard).Nodup
  allows : ∀ v ∈ f.asked + f.heard, p.Allows v
  grown : ∀ v ∈ f.asked + f.heard, f.Visits p v.before
  passed : ∀ s, f.Visits p s → ∀ q ∈ s.path, q = p.origin ∨ q ∈ f.reached
  answered : f.heard.filter (p.answers · = true) = f.back + f.home
  cover : ∀ s, f.Visits p s → ∀ q ∈ p.spread s, ⟨s, q⟩ ∈ f.asked ∨ q ∈ f.reached
  thorough : p.thorough → ∀ s, f.Visits p s → ∀ q ∈ p.spread s, ⟨s, q⟩ ∈ f.asked + f.heard
  once : p.once → f.reached.Nodup

variable {p : Plan d} {f next : Flood}

theorem visits_hear {v : Visit} {s : Stop} {asked back home : Multiset Visit} :
    Visits p ⟨asked, v ::ₘ f.heard, back, home⟩ s ↔ f.Visits p s ∨ s = v.stop := by
  simp only [Visits, Multiset.mem_cons]
  constructor
  · rintro (rfl | ⟨w, rfl | mem, rfl⟩)
    · exact .inl (.inl rfl)
    · exact .inr rfl
    · exact .inl (.inr ⟨w, mem, rfl⟩)
  · rintro ((rfl | ⟨w, mem, rfl⟩) | rfl)
    · exact .inl rfl
    · exact .inr ⟨w, .inr mem, rfl⟩
    · exact .inr ⟨v, .inl rfl, rfl⟩

theorem Orderly.opening (p : Plan d) : p.opening.Orderly p := by
  have begun : ∀ {s}, p.opening.Visits p s → s = p.root := by
    rintro s (rfl | ⟨v, mem, -⟩)
    · rfl
    · cases Multiset.notMem_zero v mem
  have whole : p.opening.asked + p.opening.heard = p.children p.root := add_zero _
  constructor
  · rw [whole]
    exact p.nodup_children p.root
  · intro v mem
    rw [whole] at mem
    obtain ⟨before, spread⟩ := Plan.mem_children.1 mem
    refine ⟨before ▸ spread, ?_⟩
    rw [Visit.path, before]
    exact trail_concat_iff.2 ⟨.singleton .., p.linked _ _ spread, p.onward _ _ spread⟩
  · intro v mem
    rw [whole] at mem
    exact .inl (Plan.mem_children.1 mem).1
  · intro s visits q mem
    cases begun visits
    exact .inl (List.mem_singleton.1 mem)
  · rfl
  · intro s visits q mem
    cases begun visits
    exact .inl (Plan.mem_children.2 ⟨rfl, mem⟩)
  · intro _ s visits q mem
    cases begun visits
    rw [whole]
    exact Plan.mem_children.2 ⟨rfl, mem⟩
  · exact fun _ => Multiset.nodup_zero

/-- What was asked of a peer that never heard it was not asked by that peer in turn. -/
theorem Orderly.disjoint_children (orderly : f.Orderly p) {v : Visit} {rest : Multiset Visit}
    (taken : f.asked = v ::ₘ rest) : Disjoint (f.asked + f.heard) (p.children v.stop) := by
  refine Multiset.disjoint_left.2 fun {w} mem child => ?_
  obtain ⟨before, -⟩ := Plan.mem_children.1 child
  have unheard : v ∉ f.heard := by
    have distinct := orderly.nodup
    rw [taken, Multiset.cons_add] at distinct
    exact fun heard => (Multiset.nodup_cons.1 distinct).1 (Multiset.mem_add.2 (.inr heard))
  rcases before ▸ orderly.grown w mem with root | ⟨u, heard, same⟩
  · have short := congrArg (List.length ·.route) root
    simp [Visit.stop, Stop.path, Plan.root] at short
  · cases Visit.eq_of_stop_eq same
    exact unheard heard

theorem Orderly.hear (orderly : f.Orderly p) {v : Visit} {rest : Multiset Visit}
    (taken : f.asked = v ::ₘ rest) (fresh : p.once → v.peer ∉ f.reached) :
    Orderly p ⟨rest + p.children v.stop, v ::ₘ f.heard,
      if p.answers v then v ::ₘ f.back else f.back, f.home⟩ := by
  have here : v ∈ f.asked + f.heard := by simp [taken]
  have came := orderly.grown v here
  have whole : rest + p.children v.stop + v ::ₘ f.heard = f.asked + f.heard + p.children v.stop := by
    rw [taken, Multiset.cons_add, Multiset.cons_add, Multiset.add_cons, add_right_comm]
  have either : ∀ w, w ∈ rest + p.children v.stop + v ::ₘ f.heard ↔
      w ∈ f.asked + f.heard ∨ w ∈ p.children v.stop := fun w => by rw [whole, Multiset.mem_add]
  constructor
  · change (rest + p.children v.stop + v ::ₘ f.heard).Nodup
    rw [whole, Multiset.nodup_add]
    exact ⟨orderly.nodup, p.nodup_children _, orderly.disjoint_children taken⟩
  · intro w mem
    rcases (either w).1 mem with old | child
    · exact orderly.allows w old
    · obtain ⟨before, spread⟩ := Plan.mem_children.1 child
      refine ⟨before ▸ spread, ?_⟩
      rw [Visit.path, before]
      exact trail_concat_iff.2
        ⟨(orderly.allows v here).trail, p.linked _ _ spread, p.onward _ _ spread⟩
  · intro w mem
    rcases (either w).1 mem with old | child
    · exact visits_hear.2 (.inl (orderly.grown w old))
    · exact visits_hear.2 (.inr (Plan.mem_children.1 child).1)
  · intro s visits q mem
    simp only [reached, Multiset.map_cons, Multiset.mem_cons]
    rcases visits_hear.1 visits with before | rfl
    · exact (orderly.passed s before q mem).imp_right .inr
    · rcases List.mem_append.1 mem with mem | last
      · exact (orderly.passed _ came q mem).imp_right .inr
      · exact .inr (.inl (List.mem_singleton.1 last))
  · simp only
    split
    · rename_i answers
      rw [Multiset.filter_cons, if_pos answers, orderly.answered, Multiset.singleton_add,
        Multiset.cons_add]
    · rename_i silent
      rw [Multiset.filter_cons, if_neg silent, orderly.answered, zero_add]
  · intro s visits q mem
    simp only [reached, Multiset.map_cons, Multiset.mem_cons, Multiset.mem_add]
    rcases visits_hear.1 visits with before | rfl
    · rcases orderly.cover s before q mem with asked | known
      · rw [taken] at asked
        rcases Multiset.mem_cons.1 asked with rfl | asked
        · exact .inr (.inl rfl)
        · exact .inl (.inl asked)
      · exact .inr (.inr known)
    · exact .inl (.inr (Plan.mem_children.2 ⟨rfl, mem⟩))
  · intro thorough s visits q mem
    refine (either _).2 ?_
    rcases visits_hear.1 visits with before | rfl
    · exact .inl (orderly.thorough thorough s before q mem)
    · exact .inr (Plan.mem_children.2 ⟨rfl, mem⟩)
  · intro once
    rw [reached, Multiset.map_cons]
    exact Multiset.nodup_cons.2 ⟨fresh once, orderly.once once⟩

theorem Orderly.ignore (orderly : f.Orderly p) {v : Visit} {rest : Multiset Visit}
    (taken : f.asked = v ::ₘ rest) (careless : ¬ p.thorough) (known : v.peer ∈ f.reached) :
    Orderly p { f with asked := rest } := by
  have fewer : rest + f.heard ≤ f.asked + f.heard := by
    rw [taken]
    exact add_le_add_left (Multiset.le_cons_self ..) _
  have kept : ∀ v ∈ rest + f.heard, v ∈ f.asked + f.heard := fun _ => Multiset.mem_of_le fewer
  refine { orderly with
    nodup := Multiset.nodup_of_le fewer orderly.nodup
    grown := fun w mem => orderly.grown w (kept w mem)
    allows := fun w mem => orderly.allows w (kept w mem)
    cover := ?_
    thorough := fun thorough => (careless thorough).elim }
  intro s visits q mem
  rcases orderly.cover s visits q mem with asked | reached
  · rw [taken] at asked
    rcases Multiset.mem_cons.1 asked with rfl | asked
    · exact .inr known
    · exact .inl asked
  · exact .inr reached

theorem Orderly.deliver (orderly : f.Orderly p) {v : Visit} {rest : Multiset Visit}
    (taken : f.back = v ::ₘ rest) : Orderly p { f with back := rest, home := v ::ₘ f.home } := by
  refine { orderly with answered := ?_ }
  rw [orderly.answered, taken, Multiset.cons_add, Multiset.add_cons]

/-- Every flood is orderly. -/
theorem Orderly.ofReaches (reaches : p.Reaches f) : f.Orderly p := by
  induction reaches with
  | opening => exact .opening p
  | step _ step ih =>
    cases step with
    | hear taken fresh => exact ih.hear taken fresh
    | ignore taken careless known => exact ih.ignore taken careless known
    | deliver taken => exact ih.deliver taken

/-- What holds of the origin and passes from a peer to those that it asked holds of all that heard. -/
theorem Orderly.heard_induction (orderly : f.Orderly p) {motive : PeerId → Prop}
    (origin : motive p.origin) (step : ∀ v ∈ f.heard, motive v.before.peer → motive v.peer) :
    ∀ v ∈ f.heard, motive v.peer := by
  have general : ∀ n, ∀ v ∈ f.heard, v.path.length ≤ n → motive v.peer := by
    intro n
    induction n with
    | zero =>
      intro v _ short
      simp [Visit.path] at short
    | succ n ih =>
      intro v heard short
      refine step v heard ?_
      rcases orderly.grown v (Multiset.mem_add.2 (.inr heard)) with root | ⟨u, earlier, same⟩
      · rw [root]
        exact origin
      · rw [← same]
        refine ih u earlier ?_
        have shorter := congrArg (List.length ∘ Stop.path) same
        simp only [Function.comp_apply, Visit.path_stop] at shorter
        rw [Visit.path, List.length_append, ← shorter, List.length_singleton] at short
        omega
  exact fun v heard => general _ v heard le_rfl

/-! ## When nobody is left to be asked -/

/-- A peer is reached if every stop that has not passed it asks it or whoever leads on. -/
theorem Orderly.reached_of_joined (orderly : f.Orderly p) (silent : f.asked = 0) {goal : PeerId}
    (spreads : ∀ s, goal ∉ s.path → ∀ q, d.Linked s.peer q → q ∉ s.path →
      q ∈ p.spread s ∨ goal ∈ p.spread s)
    (joined : d.Joined p.origin goal) : goal = p.origin ∨ goal ∈ f.reached := by
  by_contra missed
  have heard : ∀ s, f.Visits p s → ∀ q ∈ p.spread s, q ∈ f.reached := by
    intro s visits q mem
    refine (orderly.cover s visits q mem).resolve_left ?_
    simp [silent]
  have closed : ∀ q, d.Joined p.origin q → ∃ s, f.Visits p s ∧ s.peer = q := by
    intro q joined
    induction joined with
    | refl => exact ⟨p.root, .inl rfl, rfl⟩
    | @tail x y _ linked ih =>
      obtain ⟨s, visits, rfl⟩ := ih
      have unpassed : goal ∉ s.path := fun mem => missed (orderly.passed s visits goal mem)
      have reached : y = p.origin ∨ y ∈ f.reached := by
        by_cases passed : y ∈ s.path
        · exact orderly.passed s visits y passed
        · rcases spreads s unpassed y linked passed with asked | found
          · exact .inr (heard s visits y asked)
          · exact (missed (.inr (heard s visits goal found))).elim
      rcases reached with rfl | mem
      · exact ⟨p.root, .inl rfl, rfl⟩
      · obtain ⟨v, there, rfl⟩ := Multiset.mem_map.1 mem
        exact ⟨v.stop, .inr ⟨v, there, rfl⟩, rfl⟩
  obtain ⟨s, visits, rfl⟩ := closed goal joined
  exact missed (orderly.passed s visits s.peer (by simp [Stop.path]))

/-- A peer that heard the question is joined to the origin. -/
theorem Orderly.joined_of_reached (orderly : f.Orderly p) {q : PeerId} (mem : q ∈ f.reached) :
    d.Joined p.origin q := by
  obtain ⟨v, heard, rfl⟩ := Multiset.mem_map.1 mem
  exact (orderly.allows v (Multiset.mem_add.2 (.inr heard))).trail.joined v.peer
    (by simp [Visit.path])

/-- The origin does not hear its own question. -/
theorem Orderly.origin_not_reached (orderly : f.Orderly p) : p.origin ∉ f.reached := by
  intro mem
  obtain ⟨v, heard, own⟩ := Multiset.mem_map.1 mem
  exact Visit.peer_ne_of_trail (orderly.allows v (Multiset.mem_add.2 (.inr heard))).trail own

/-- A flood that asks all new neighbours and is never ignored goes over every simple path. -/
theorem Orderly.mem_heard_of_trail (orderly : f.Orderly p) (silent : f.asked = 0)
    (thorough : p.thorough)
    (spreads : ∀ s, ∀ q, d.Linked s.peer q → q ∉ s.path → q ∈ p.spread s) {v : Visit}
    (trail : d.Trail p.origin v.path) : v ∈ f.heard := by
  have asked : ∀ v : Visit, d.Trail p.origin v.path → f.Visits p v.before → v ∈ f.heard := by
    intro v trail visits
    obtain ⟨-, linked, onward⟩ := trail_concat_iff.1 trail
    have mem := orderly.thorough thorough _ visits _ (spreads _ _ linked onward)
    rwa [silent, zero_add] at mem
  obtain ⟨⟨route, near⟩, far⟩ := v
  induction route using List.reverseRecOn generalizing near far with
  | nil =>
    have own : near = p.origin := Option.some.inj trail.begins
    exact asked _ trail (.inl (by rw [own, Plan.root]))
  | append_singleton route hop ih =>
    have prior : d.Trail p.origin (Visit.mk ⟨route, hop⟩ near).path := (trail_concat_iff.1 trail).1
    exact asked _ trail (.inr ⟨_, ih near hop prior, rfl⟩)

/-- Such a flood goes over every link between two peers that are joined to the origin. -/
theorem Orderly.exists_heard_of_linked (orderly : f.Orderly p) (silent : f.asked = 0)
    (thorough : p.thorough)
    (spreads : ∀ s, ∀ q, d.Linked s.peer q → q ∉ s.path → q ∈ p.spread s) {x y : PeerId}
    (joined : d.Joined p.origin x) (linked : d.Linked x y) (differ : x ≠ y) :
    ∃ v ∈ f.heard, (v.peer = x ∧ v.before.peer = y) ∨ (v.peer = y ∧ v.before.peer = x) := by
  obtain ⟨route, trail⟩ := joined.exists_trail
  by_cases passed : y ∈ route ++ [x]
  · obtain ⟨front, rest, whole⟩ := List.append_of_mem passed
    obtain ⟨middle, rfl⟩ : ∃ middle, rest = middle ++ [x] := by
      rcases List.eq_nil_or_concat' rest with rfl | ⟨middle, last, rfl⟩
      · exact absurd (List.append_inj' whole rfl).2 (by simpa using differ)
      · have tails := congrArg List.getLast? whole
        simp only [List.getLast?_concat, ← List.cons_append, ← List.append_assoc,
          Option.some.injEq] at tails
        exact ⟨middle, by rw [tails]⟩
    rw [whole] at trail
    have onward : x ∉ front ++ [y] := by
      intro mem
      have simple := trail.simple
      rw [← List.cons_append, ← List.append_assoc] at simple
      refine (List.nodup_append.1 simple).2.2 x ?_ x (by simp) rfl
      rcases List.mem_append.1 mem with mem | last
      · exact List.mem_append_left _ mem
      · exact List.mem_append_right _ (by simp [List.mem_singleton.1 last])
    have visit : d.Trail p.origin (Visit.mk ⟨front, y⟩ x).path :=
      trail_concat_iff.2 ⟨trail.upTo, linked.symm, onward⟩
    exact ⟨_, orderly.mem_heard_of_trail silent thorough spreads visit, .inl ⟨rfl, rfl⟩⟩
  · have visit : d.Trail p.origin (Visit.mk ⟨route, x⟩ y).path :=
      trail_concat_iff.2 ⟨trail, linked, passed⟩
    exact ⟨_, orderly.mem_heard_of_trail silent thorough spreads visit, .inr ⟨rfl, rfl⟩⟩

/-- Such a flood is heard as often as there are simple paths from the origin to another peer. -/
theorem Orderly.card_heard (orderly : f.Orderly p) (silent : f.asked = 0) (thorough : p.thorough)
    (spreads : ∀ s, ∀ q, d.Linked s.peer q → q ∉ s.path → q ∈ p.spread s) :
    f.heard.card = { path | d.Trail p.origin path ∧ 2 ≤ path.length }.ncard := by
  have distinct : (f.heard.map (·.path)).Nodup :=
    (Multiset.nodup_add.1 orderly.nodup).2.1.map fun _ _ same => Visit.eq_of_path_eq same
  have all : { path | d.Trail p.origin path ∧ 2 ≤ path.length } =
      ↑(⟨f.heard.map (·.path), distinct⟩ : Finset (List PeerId)) := by
    ext path
    simp only [Set.mem_ofPred_eq, Finset.mem_coe, Finset.mem_mk, Multiset.mem_map]
    constructor
    · rintro ⟨trail, long⟩
      obtain ⟨v, rfl⟩ := Visit.exists_path_eq long
      exact ⟨v, orderly.mem_heard_of_trail silent thorough spreads trail, rfl⟩
    · rintro ⟨v, heard, rfl⟩
      refine ⟨(orderly.allows v (Multiset.mem_add.2 (.inr heard))).trail, ?_⟩
      simp [Visit.path, Stop.path]
  rw [all, Set.ncard_coe_finset, Finset.card_mk, Multiset.card_map]

end Flood

end TrustMesh
