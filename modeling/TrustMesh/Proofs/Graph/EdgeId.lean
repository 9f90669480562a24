import Mathlib.Data.Sym.Sym2
import TrustMesh.Proofs.Graph.Growth
import TrustMesh.Proofs.Graph.WrittenForm

/-!
# What identifiers of edges tell apart

An edge is identified by a digest of the lesser identifier of its ends, a zero byte and the
greater one. Two pairs of peers have the same bytes exactly if they are one pair, or if a zero
character inside an identifier passes for the one in between (`EdgeId.material_eq_iff`). So a
pair whose identifiers hold no zero character shares its bytes with no other pair.

Among links with such identifiers, as far as the digest keeps their bytes apart, no link is
lost to another one: a graph joins exactly the pairs that it joined before and those of all
that was added, and a graph that is read those of all links that are written
(`EdgeId.separates_links`).
-/

namespace TrustMesh

open Std

/-- The identifier holds no zero character. -/
def PeerId.Plain (p : PeerId) : Prop := '\x00' ∉ p.text.toList

instance (p : PeerId) : Decidable p.Plain := inferInstanceAs (Decidable ('\x00' ∉ p.text.toList))

theorem Utf8.encode_injective : Function.Injective encode :=
  Function.LeftInverse.injective decode_encode

/-- Two texts that are joined by a character are known from the whole, unless the character stands in
one of them as well. -/
theorem append_cons_eq_append_cons_iff {α : Type} {x : α} {low high low' high' : List α} :
    low ++ x :: high = low' ++ x :: high' ↔ (low = low' ∧ high = high') ∨
      (∃ middle, low' = low ++ x :: middle ∧ high = middle ++ x :: high') ∨
      ∃ middle, low = low' ++ x :: middle ∧ high' = middle ++ x :: high := by
  rw [List.append_eq_append_iff]
  constructor
  · rintro (⟨_ | ⟨y, middle⟩, first, second⟩ | ⟨_ | ⟨y, middle⟩, first, second⟩)
    · exact .inl ⟨by simpa using first.symm, (List.cons.inj second).2⟩
    · rw [List.cons_append, List.cons.injEq] at second
      obtain ⟨rfl, second⟩ := second
      exact .inr (.inl ⟨middle, first, second⟩)
    · exact .inl ⟨by simpa using first, (List.cons.inj second).2.symm⟩
    · rw [List.cons_append, List.cons.injEq] at second
      obtain ⟨rfl, second⟩ := second
      exact .inr (.inr ⟨middle, first, second⟩)
  · rintro (⟨rfl, rfl⟩ | ⟨middle, rfl, rfl⟩ | ⟨middle, rfl, rfl⟩)
    · exact .inl ⟨[], by simp⟩
    · exact .inl ⟨x :: middle, rfl, rfl⟩
    · exact .inr ⟨x :: middle, rfl, rfl⟩

namespace EdgeId

variable {a b c d : PeerId}

/-! ## The bytes of a pair -/

theorem inOrder_cases (a b : PeerId) : inOrder a b = (a, b) ∨ inOrder a b = (b, a) := by
  unfold inOrder
  split
  · exact .inr rfl
  · exact .inl rfl

/-- The order of a pair tells which pair it is. -/
theorem inOrder_eq_iff : inOrder a b = inOrder c d ↔ s(a, b) = s(c, d) := by
  have pair : ∀ p q, s((inOrder p q).1, (inOrder p q).2) = s(p, q) := by
    intro p q
    rcases inOrder_cases p q with same | swapped
    · rw [same]
    · rw [swapped, Sym2.eq_swap]
  constructor
  · intro same
    rw [← pair a b, same, pair]
  · intro same
    rcases Sym2.eq_iff.1 same with ⟨rfl, rfl⟩ | ⟨rfl, rfl⟩
    · rfl
    · exact inOrder_comm a b

/-- A zero character of two identifiers passes for the one in between: the lesser identifier of the
second pair goes on behind that of the first, with a zero character and some text, and the greater
identifier of the first pair begins with this text and a zero character. -/
def Shifted (a b c d : PeerId) : Prop :=
  ∃ middle : String, (inOrder c d).1.text = (inOrder a b).1.text ++ "\x00" ++ middle ∧
    (inOrder a b).2.text = middle ++ "\x00" ++ (inOrder c d).2.text

theorem material_eq_encode (a b : PeerId) : material a b =
    Utf8.encode ((inOrder a b).1.text.toList ++ '\x00' :: (inOrder a b).2.text.toList) := by
  have zero : String.utf8EncodeChar '\x00' = [0] := by decide
  simp [material, Utf8.encode, zero]

theorem shifted_iff : Shifted a b c d ↔ ∃ middle,
    (inOrder c d).1.text.toList = (inOrder a b).1.text.toList ++ '\x00' :: middle ∧
      (inOrder a b).2.text.toList = middle ++ '\x00' :: (inOrder c d).2.text.toList := by
  constructor
  · rintro ⟨middle, low, high⟩
    exact ⟨middle.toList, by simp [low], by simp [high]⟩
  · rintro ⟨middle, low, high⟩
    refine ⟨String.ofList middle, String.toList_inj.1 ?_, String.toList_inj.1 ?_⟩
    · simp [low]
    · simp [high]

/-- Two pairs of peers have the same bytes exactly if they are one pair, or if a zero character of one
of them passes for the one in between. -/
theorem material_eq_iff : material a b = material c d ↔
    s(a, b) = s(c, d) ∨ Shifted a b c d ∨ Shifted c d a b := by
  have one : inOrder a b = inOrder c d ↔
      (inOrder a b).1.text.toList = (inOrder c d).1.text.toList ∧
        (inOrder a b).2.text.toList = (inOrder c d).2.text.toList := by
    rw [String.toList_inj, String.toList_inj, ← PeerId.mk.injEq, ← PeerId.mk.injEq]
    exact Prod.ext_iff
  rw [material_eq_encode, material_eq_encode, Utf8.encode_injective.eq_iff,
    append_cons_eq_append_cons_iff, ← one, inOrder_eq_iff, shifted_iff, shifted_iff]

/-- A pair whose identifiers hold no zero character shares its bytes with no other pair. -/
theorem material_inj (plain : a.Plain) (plain' : b.Plain) :
    material a b = material c d ↔ s(a, b) = s(c, d) := by
  have bare : (inOrder a b).1.Plain ∧ (inOrder a b).2.Plain := by
    rcases inOrder_cases a b with same | swapped
    · rw [same]
      exact ⟨plain, plain'⟩
    · rw [swapped]
      exact ⟨plain', plain⟩
  rw [material_eq_iff, or_iff_left]
  rintro (shifted | shifted)
  · obtain ⟨middle, -, high⟩ := shifted_iff.1 shifted
    exact bare.2 (high ▸ by simp)
  · obtain ⟨middle, low, -⟩ := shifted_iff.1 shifted
    exact bare.1 (low ▸ by simp)

/-! ## Identifiers -/

/-- The identifier that some bytes make: the first digits of their digest. -/
def ofBytes (bytes : List UInt8) : EdgeId :=
  ⟨String.ofList ((Digest.ofBytes bytes).hexChars.take length)⟩

theorem between_congr (same : s(a, b) = s(c, d)) : between a b = between c d :=
  congrArg ofBytes (material_eq_iff.2 (.inl same))

/-- Some links are told apart: the identifiers of their ends hold no zero character, and the digest, as
far as it is kept, does not take the bytes of one link for those of another. -/
structure Separates (links : Set (Sym2 PeerId)) : Prop where
  plain : ∀ l ∈ links, ∀ p ∈ l, p.Plain
  digest : ∀ a b c d, s(a, b) ∈ links → s(c, d) ∈ links →
    ofBytes (material a b) = ofBytes (material c d) → material a b = material c d

/-- Links that are told apart have one identifier only if they join the same peers. -/
theorem Separates.between_inj {links : Set (Sym2 PeerId)} (apart : Separates links)
    (first : s(a, b) ∈ links) (second : s(c, d) ∈ links) :
    between a b = between c d ↔ s(a, b) = s(c, d) := by
  rw [← material_inj (apart.plain _ first a (Sym2.mem_mk_left a b))
    (apart.plain _ first b (Sym2.mem_mk_right a b))]
  exact ⟨apart.digest a b c d first second, congrArg ofBytes⟩

end EdgeId

/-! ## No link is lost -/

namespace Graph

open EdgeId (Separates)

variable {g h : Graph} {p q : PeerId} {links : Set (Sym2 PeerId)}

/-- Every edge of a graph is one of some links. -/
def Among (g : Graph) (links : Set (Sym2 PeerId)) : Prop :=
  ∀ e ∈ g.edges.values, s(e.source, e.target) ∈ links

theorem joins_iff : g.Joins p q ↔ ∃ e ∈ g.edges.values, s(e.source, e.target) = s(p, q) := by
  simp only [Joins, Sym2.eq_iff]

theorem edgesAgree_of_separates (apart : Separates links) {gs : List Graph}
    (sound : ∀ g ∈ gs, g.Sound) (among : ∀ g ∈ gs, g.Among links) : EdgesAgree gs := by
  intro g there h there' id e f found found'
  have first := among g there e (mem_values.2 ⟨id, found⟩)
  have second := among h there' f (mem_values.2 ⟨id, found'⟩)
  obtain ⟨whole, own⟩ := (sound g there).edge id e found
  obtain ⟨whole', own'⟩ := (sound h there').edge id f found'
  have same : EdgeId.between e.source e.target = .between f.source f.target :=
    calc EdgeId.between e.source e.target = e.id := (congrArg Edge.id whole).symm
      _ = f.id := own.trans own'.symm
      _ = .between f.source f.target := congrArg Edge.id whole'
  exact Sym2.eq_iff.1 ((apart.between_inj first second).1 same)

/-- A graph that takes over another one joins what either did. -/
theorem joins_absorb (apart : Separates links) (sound : g.Sound) (sound' : h.Sound)
    (among : g.Among links) (among' : h.Among links) :
    (g.absorb h).Joins p q ↔ g.Joins p q ∨ h.Joins p q := by
  have agree : EdgesAgree [g, h] := by
    apply edgesAgree_of_separates apart
    · simp [sound, sound']
    · simp [among, among']
  simpa using joins_foldl_absorb (p := p) (q := q) agree

theorem Among.absorb (among : g.Among links) (among' : h.Among links) : (g.absorb h).Among links := by
  intro e there
  obtain ⟨id, found⟩ := mem_values.1 there
  rw [edges_absorb, Option.or_eq_some_iff] at found
  rcases found with own | ⟨-, other⟩
  · exact among e (mem_values.2 ⟨id, own⟩)
  · exact among' e (mem_values.2 ⟨id, other⟩)

/-- The peers that an addition joins. -/
def Addition.Joins : Addition → PeerId → PeerId → Prop
  | .labels _ _, _, _ => False
  | .edge source target _, p, q => s(source, target) = s(p, q)
  | .observation o, p, q => s(o.link.near, o.peer) = s(p, q)
  | .graph g, p, q => g.Joins p q

/-- All that an addition joins is one of some links; a graph that is added was built. -/
def Addition.Among (links : Set (Sym2 PeerId)) : Addition → Prop
  | .labels _ _ => True
  | .edge source target _ => s(source, target) ∈ links
  | .observation o => s(o.link.near, o.peer) ∈ links
  | .graph g => g.Built ∧ g.Among links

variable {addition : Addition}

/-- What an addition makes of the empty graph holds the edge of the addition, or those of the graph that
is added. -/
theorem mem_edges_add_empty {e : Edge} : e ∈ (empty.add addition).edges.values ↔
    match addition with
    | .labels _ _ => False
    | .edge source target label => e = .between source target label
    | .observation o => e = .between o.link.near o.peer o.label
    | .graph h => e ∈ h.edges.values := by
  cases addition with
  | labels peer labels => exact iff_of_false List.not_mem_nil id
  | edge source target label => exact List.mem_singleton
  | observation o => exact List.mem_singleton
  | graph h => rw [add, empty_absorb]

theorem joins_add_empty : (empty.add addition).Joins p q ↔ addition.Joins p q := by
  simp only [joins_iff, mem_edges_add_empty]
  cases addition with
  | labels peer labels => simp [Addition.Joins]
  | edge source target label => simp [Addition.Joins, Edge.between]
  | observation o => simp [Addition.Joins, Edge.between]
  | graph h => simp [Addition.Joins, joins_iff]

theorem Addition.Among.add_empty (fits : addition.Among links) :
    (empty.add addition).Among links := by
  intro e there
  rw [mem_edges_add_empty] at there
  cases addition with
  | labels peer labels => cases there
  | edge source target label =>
    subst there
    exact fits
  | observation o =>
    subst there
    exact fits
  | graph h => exact fits.2 e there

theorem Built.add (built : g.Built) (fits : addition.Among links) : (g.add addition).Built := by
  cases addition with
  | labels peer labels => exact built.addLabels peer labels
  | edge source target label => exact built.addEdge source target label
  | observation o => exact built.observe o
  | graph h => exact built.absorb fits.1

/-- A graph that grows joins what it joined, and what is added. -/
theorem joins_add (apart : Separates links) (built : g.Built) (among : g.Among links)
    (fits : addition.Among links) : (g.add addition).Joins p q ↔ g.Joins p q ∨ addition.Joins p q := by
  rw [add_eq_absorb, ← joins_add_empty]
  exact joins_absorb apart built.sound (Built.empty.add fits).sound among fits.add_empty

/-- However long a graph grows, it joins what it joined, and all that was added. -/
theorem joins_foldl_add (apart : Separates links) (built : g.Built) (among : g.Among links)
    {later : List Addition} (fits : ∀ addition ∈ later, addition.Among links) :
    (later.foldl add g).Joins p q ↔ g.Joins p q ∨ ∃ addition ∈ later, addition.Joins p q := by
  induction later generalizing g with
  | nil => simp
  | cons addition rest ih =>
    obtain ⟨first, rest⟩ := List.forall_mem_cons.1 fits
    have grown : (g.add addition).Among links := by
      rw [add_eq_absorb]
      exact among.absorb first.add_empty
    rw [List.foldl_cons, ih (built.add first) grown rest, joins_add apart built among first,
      List.exists_mem_cons_iff, or_assoc]

/-- A graph that is read joins the ends of every link that is written, and no others. -/
theorem joins_ofListing (apart : Separates links) (form : GraphForm)
    (listed : ∀ l ∈ form.links, s(l.source, l.target) ∈ links) :
    (ofListing form.listing).Joins p q ↔ ∃ l ∈ form.links, s(l.source, l.target) = s(p, q) := by
  rw [joins_iff]
  constructor
  · rintro ⟨e, there, ends⟩
    obtain ⟨id, found⟩ := mem_values.1 there
    rw [form.get?_edges_ofListing, GraphForm.edge?] at found
    obtain ⟨l, first, rfl⟩ := Option.map_eq_some_iff.1 found
    exact ⟨l, List.mem_of_find?_eq_some first, ends⟩
  · rintro ⟨l, there, ends⟩
    -- The first link under the identifier of `l` joins the same two peers.
    obtain ⟨first, listed', same, found⟩ :=
      OrderedMap.exists_find?_key (fun k : LinkForm => EdgeId.between k.source k.target) there
    refine ⟨.between first.source first.target first.label,
      mem_values.2 ⟨.between l.source l.target, ?_⟩, .trans ?_ ends⟩
    · rw [form.get?_edges_ofListing, GraphForm.edge?, found]
      rfl
    · exact (apart.between_inj (listed first listed') (listed l there)).1 same

end Graph

namespace EdgeId

open TrustMesh.Graph (Addition)

/-- Two pairs of peers have the same bytes exactly if they are one pair, or if a zero character of an
identifier passes for the one in between; identifiers without zero characters exclude the latter. Links
among such peers, if the digest keeps their bytes apart, have the same identifier only if they join the
same peers. A graph of such links then joins what it joined and all that was added, edge by edge,
observation by observation or graph by graph, and a graph that is read joins the ends of every link that
is written. -/
theorem separates_links (links : Set (Sym2 PeerId)) (apart : Separates links) :
    (∀ a b c d, material a b = material c d ↔
      s(a, b) = s(c, d) ∨ Shifted a b c d ∨ Shifted c d a b) ∧
    (∀ a b c d, a.Plain → b.Plain → (material a b = material c d ↔ s(a, b) = s(c, d))) ∧
    (∀ a b c d, s(a, b) ∈ links → s(c, d) ∈ links →
      (between a b = between c d ↔ s(a, b) = s(c, d))) ∧
    (∀ (g : Graph) (later : List Addition), g.Built → g.Among links →
      (∀ addition ∈ later, addition.Among links) → ∀ p q, (later.foldl Graph.add g).Joins p q ↔
        g.Joins p q ∨ ∃ addition ∈ later, addition.Joins p q) ∧
    ∀ source t g, Graph.decode source t = .ok g →
      ∃ form, GraphForm.record.decode source t = .ok form ∧
        ((∀ l ∈ form.links, s(l.source, l.target) ∈ links) →
          ∀ p q, g.Joins p q ↔ ∃ l ∈ form.links, s(l.source, l.target) = s(p, q)) := by
  refine ⟨fun a b c d => material_eq_iff, fun a b c d => material_inj, ?_, ?_, ?_⟩
  · intro a b c d first second
    exact apart.between_inj first second
  · intro g later built among fits p q
    exact Graph.joins_foldl_add apart built among fits
  · intro source t g decoded
    rw [Graph.decode_eq_map_form] at decoded
    obtain ⟨form, found, rfl⟩ := Except.eq_ok_of_map decoded
    exact ⟨form, found, fun listed p q => Graph.joins_ofListing apart form listed⟩

/-- Two links that a letter would make equal are told apart. -/
theorem separates_sample : Separates {s(⟨"ab"⟩, ⟨"c"⟩), s(⟨"a"⟩, ⟨"bc"⟩)} := by
  have bytes : ∀ a b, s(a, b) ∈ ({s(⟨"ab"⟩, ⟨"c"⟩), s(⟨"a"⟩, ⟨"bc"⟩)} : Set (Sym2 PeerId)) →
      material a b = material ⟨"ab"⟩ ⟨"c"⟩ ∨ material a b = material ⟨"a"⟩ ⟨"bc"⟩ := by
    rintro a b (same | same)
    · exact .inl (material_eq_iff.2 (.inl same))
    · exact .inr (material_eq_iff.2 (.inl same))
  have differ : ofBytes (material ⟨"ab"⟩ ⟨"c"⟩) ≠ ofBytes (material ⟨"a"⟩ ⟨"bc"⟩) := by
    decide +kernel
  constructor
  · rintro l (rfl | rfl) p there
    all_goals
      rcases Sym2.mem_iff.1 there with rfl | rfl
      all_goals decide +kernel
  · intro a b c d first second same
    rcases bytes a b first with left | left <;> rcases bytes c d second with right | right
    · exact left.trans right.symm
    · exact absurd (by rw [← left, same, right]) differ
    · exact absurd (by rw [← left, same, right]) differ.symm
    · exact left.trans right.symm

/-- A graph with one of two such links gains the other one in an observation, and a peer reads both,
which are written under one identifier. -/
theorem separates_links_alike :
    let links : Set (Sym2 PeerId) := {s(⟨"ab"⟩, ⟨"c"⟩), s(⟨"a"⟩, ⟨"bc"⟩)}
    let g := Graph.empty.addEdge ⟨"ab"⟩ ⟨"c"⟩ "P2P"
    let later : List Addition := [.observation ⟨⟨"a"⟩, ⟨⟨"bc"⟩, ⟨"a"⟩⟩, "P2P"⟩]
    let written : Json := .object [("links", .array [
      .object [("id", .text "0"), ("from", .text "ab"), ("to", .text "c")],
      .object [("id", .text "0"), ("from", .text "bc"), ("to", .text "a")]])]
    Separates links ∧ material ⟨"ab"⟩ ⟨"c"⟩ ≠ material ⟨"a"⟩ ⟨"bc"⟩ ∧
      (later.foldl Graph.add g).Joins ⟨"ab"⟩ ⟨"c"⟩ ∧ (later.foldl Graph.add g).Joins ⟨"a"⟩ ⟨"bc"⟩ ∧
      ∃ h, Graph.decode .text (.ofJson written) = .ok h ∧
        h.Joins ⟨"ab"⟩ ⟨"c"⟩ ∧ h.Joins ⟨"a"⟩ ⟨"bc"⟩ ∧ ¬ h.Joins ⟨"a"⟩ ⟨"c"⟩ := by
  intro links g later written
  obtain ⟨-, bytes, -, grown, read⟩ := separates_links links separates_sample
  have built : g.Built := .addEdge _ _ _ .empty
  have among : g.Among links := by
    intro e there
    rw [List.mem_singleton.1 there]
    exact .inl rfl
  have grown := grown g later built among (by simp [later, links, Addition.Among])
  let form : GraphForm := ⟨[], [⟨some "0", ⟨"ab"⟩, ⟨"c"⟩, ""⟩, ⟨some "0", ⟨"bc"⟩, ⟨"a"⟩, ""⟩]⟩
  have decoded : Graph.decode .text (.ofJson written) = .ok (.ofListing form.listing) := rfl
  have found : GraphForm.record.decode .text (.ofJson written) = .ok form := rfl
  obtain ⟨form', found', joins⟩ := read .text (.ofJson written) _ decoded
  obtain rfl : form' = form := Except.ok.inj (found'.symm.trans found)
  have joins := joins (by simp [form, links])
  have apart : material ⟨"ab"⟩ ⟨"c"⟩ ≠ material ⟨"a"⟩ ⟨"bc"⟩ := by
    rw [Ne, bytes _ _ _ _ (by decide +kernel) (by decide +kernel)]
    decide
  have own : g.Joins ⟨"ab"⟩ ⟨"c"⟩ := ⟨_, List.mem_singleton_self _, .inl ⟨rfl, rfl⟩⟩
  refine ⟨separates_sample, apart, (grown _ _).2 (.inl own), (grown _ _).2 (.inr ?_), _, decoded,
    (joins _ _).2 ?_, (joins _ _).2 ?_, mt (joins _ _).1 ?_⟩
  · exact ⟨_, List.mem_singleton_self _, Sym2.eq_swap⟩
  · simp [form]
  · simp [form]
  · simp [form]

/-- A zero character passes for the one between two identifiers: different links have the same bytes, and
of a graph that gains both the second is lost. -/
theorem zero_passes_for_separator :
    let g := (Graph.empty.addEdge ⟨"x"⟩ ⟨"y\x00z"⟩ "P2P").addEdge ⟨"x\x00y"⟩ ⟨"z"⟩ "P2P"
    material ⟨"x"⟩ ⟨"y\x00z"⟩ = material ⟨"x\x00y"⟩ ⟨"z"⟩ ∧
      s((⟨"x"⟩ : PeerId), ⟨"y\x00z"⟩) ≠ s(⟨"x\x00y"⟩, ⟨"z"⟩) ∧
      g.edges.values = [.between ⟨"x"⟩ ⟨"y\x00z"⟩ "P2P"] ∧ ¬ g.Joins ⟨"x\x00y"⟩ ⟨"z"⟩ := by
  intro g
  have same : material ⟨"x"⟩ ⟨"y\x00z"⟩ = material ⟨"x\x00y"⟩ ⟨"z"⟩ := by decide
  have differ : s((⟨"x"⟩ : PeerId), ⟨"y\x00z"⟩) ≠ s(⟨"x\x00y"⟩, ⟨"z"⟩) := by decide
  have edges : g.edges.values = [.between ⟨"x"⟩ ⟨"y\x00z"⟩ "P2P"] := by
    have id : between ⟨"x\x00y"⟩ ⟨"z"⟩ = between ⟨"x"⟩ ⟨"y\x00z"⟩ := congrArg ofBytes same.symm
    simp [g, Graph.addEdge, id, Graph.empty, OrderedMap.insertNew, OrderedMap.alter,
      OrderedMap.alterEntries, OrderedMap.values, OrderedMap.empty]
  refine ⟨same, differ, edges, fun joins => ?_⟩
  obtain ⟨e, there, ends⟩ := Graph.joins_iff.1 joins
  rw [edges, List.mem_singleton] at there
  subst there
  exact differ ends

end EdgeId

end TrustMesh
