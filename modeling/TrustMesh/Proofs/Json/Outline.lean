import TrustMesh.Proofs.Json.Record

/-!
# Outlines of terms

A number may be read from its own text as another one. The rest of a value is read as it
was, if it can be read at all: its outline, in which all numbers are zero, stays the same
(`Json.outline_reread`).

A decoder is coarse if the outline of what it decodes looks the same to it, in a view that
may leave out parts of the result (`Decode.Coarse`). A record is coarse if its fields and
its collector are (`Record.coarse`).
-/

namespace TrustMesh

open Std

namespace Term

mutual

/-- The term with zero in the place of every number. -/
def outline : Term → Term
  | .number _ => .number (.integer 0)
  | .array items => .array (itemsOutline items)
  | .object members => .object (membersOutline members)
  | t => t

/-- The items of a list with zero in the place of every number. -/
def itemsOutline : List Term → List Term
  | [] => []
  | item :: rest => item.outline :: itemsOutline rest

/-- The members of an object with zero in the place of every number. -/
def membersOutline : List (Term × Term) → List (Term × Term)
  | [] => []
  | (key, value) :: rest => (key, value.outline) :: membersOutline rest

end

theorem itemsOutline_eq_map (items : List Term) : itemsOutline items = items.map outline := by
  induction items with
  | nil => rfl
  | cons item rest ih => rw [itemsOutline, ih, List.map_cons]

mutual

/-- A term has faults where its outline has them. -/
theorem readable_outline : ∀ t : Term, t.outline.readable = t.readable
  | .null => rfl
  | .bool _ => rfl
  | .number _ => rfl
  | .text _ => rfl
  | .array items => itemsReadable_outline items
  | .object members => membersReadable_outline members
  | .unreadable => rfl
  | .broken => rfl

theorem itemsReadable_outline : ∀ items : List Term,
    itemsReadable (itemsOutline items) = itemsReadable items
  | [] => rfl
  | item :: rest => by
    rw [itemsOutline, itemsReadable, readable_outline item, itemsReadable_outline rest, itemsReadable]

theorem membersReadable_outline : ∀ members : List (Term × Term),
    membersReadable (membersOutline members) = membersReadable members
  | [] => rfl
  | (_, value) :: rest => by
    rw [membersOutline, membersReadable, readable_outline value, membersReadable_outline rest,
      membersReadable]

end

mutual

theorem wellFormed_outline : ∀ t : Term, t.outline.wellFormed = t.wellFormed
  | .null => rfl
  | .bool _ => rfl
  | .number _ => rfl
  | .text _ => rfl
  | .array items => itemsWellFormed_outline items
  | .object members => membersWellFormed_outline members
  | .unreadable => rfl
  | .broken => rfl

theorem itemsWellFormed_outline : ∀ items : List Term,
    itemsWellFormed (itemsOutline items) = itemsWellFormed items
  | [] => rfl
  | item :: rest => by
    rw [itemsOutline, itemsWellFormed, wellFormed_outline item, itemsWellFormed_outline rest,
      itemsWellFormed]

theorem membersWellFormed_outline : ∀ members : List (Term × Term),
    membersWellFormed (membersOutline members) = membersWellFormed members
  | [] => rfl
  | (_, value) :: rest => by
    rw [membersOutline, membersWellFormed, wellFormed_outline value,
      membersWellFormed_outline rest, membersWellFormed]

end

end Term

/-! ## What is read again -/

/-- A number is read from its own text as a number, unless it is out of range. -/
theorem Number.outline_reread {n : Number} (readable : n.reread.readable = true) :
    n.reread.outline = .number (.integer 0) := by
  obtain ⟨numeral, wellFormed, written⟩ := Json.exists_numeral n
  have read := Json.readValue_numeral wellFormed Json.closes_nil 0 0
  rw [List.append_nil, written] at read
  rw [reread, read] at readable ⊢
  cases value : numeral.value? with
  | some other => rfl
  | none =>
    rw [value] at readable
    cases readable

/-- A container that can be read is at its place. -/
theorem Term.atDepth_of_readable {depth : Nat} {t : Term}
    (readable : (atDepth depth t).readable = true) : atDepth depth t = t := by
  unfold atDepth at readable ⊢
  split
  · rfl
  · rename_i deep
    rw [if_neg deep] at readable
    split at readable <;> cases readable

namespace Json

mutual

/-- A value that can be read from its text is read as it was, except for its numbers. -/
theorem outline_reread : ∀ (v : Json) (depth : Nat), (reread depth v).readable = true →
    (reread depth v).outline = (Term.ofJson v).outline
  | .null, _, _ => rfl
  | .bool _, _, _ => rfl
  | .number _, _, readable => Number.outline_reread readable
  | .text _, _, _ => rfl
  | .array items, depth, readable => by
    have placed : reread depth (.array items) = .array (rereadItems (depth + 1) items) :=
      Term.atDepth_of_readable readable
    rw [placed] at readable ⊢
    exact congrArg Term.array (itemsOutline_reread items (depth + 1) readable)
  | .object members, depth, readable => by
    have placed : reread depth (.object members) = .object (rereadMembers (depth + 1) members) :=
      Term.atDepth_of_readable readable
    rw [placed] at readable ⊢
    exact congrArg Term.object (membersOutline_reread members (depth + 1) readable)

theorem itemsOutline_reread : ∀ (items : List Json) (depth : Nat),
    Term.itemsReadable (rereadItems depth items) = true →
    Term.itemsOutline (rereadItems depth items) = Term.itemsOutline (Term.itemsOfJson items)
  | [], _, _ => rfl
  | item :: rest, depth, readable => by
    obtain ⟨first, later⟩ := Bool.and_eq_true_iff.1 readable
    rw [rereadItems, Term.itemsOutline, outline_reread item depth first,
      itemsOutline_reread rest depth later]
    rfl

theorem membersOutline_reread : ∀ (members : List (String × Json)) (depth : Nat),
    Term.membersReadable (rereadMembers depth members) = true →
    Term.membersOutline (rereadMembers depth members) =
      Term.membersOutline (Term.membersOfJson members)
  | [], _, _ => rfl
  | (key, value) :: rest, depth, readable => by
    obtain ⟨own, later⟩ := Bool.and_eq_true_iff.1 readable
    rw [rereadMembers, Term.membersOutline, outline_reread value depth (Bool.and_eq_true_iff.1 own).2,
      membersOutline_reread rest depth later]
    rfl

end

end Json

/-! ## Coarse decoders -/

/-- The outline of what is decoded is decoded too, to a result that looks the same in a view. -/
def Decode.Coarse {α β : Type} (decode : Term → Decoded α) (view : α → β) : Prop :=
  ∀ t a, decode t = .ok a → (decode t.outline).map view = .ok (view a)

namespace Decode

variable {α β : Type} {decode : Term → Decoded α} {view : α → β}

/-- The outline of a decoded term is decoded to something of the same view. -/
theorem Coarse.exists_outline (coarse : Coarse decode view) {t : Term} {a : α}
    (decoded : decode t = .ok a) : ∃ b, decode t.outline = .ok b ∧ view b = view a :=
  Except.eq_ok_of_map (coarse t a decoded)

/-- Terms with one outline are decoded to results that look the same. -/
theorem Coarse.view_eq (coarse : Coarse decode view) {t u : Term} (same : t.outline = u.outline)
    {a b : α} (first : decode t = .ok a) (second : decode u = .ok b) : view a = view b := by
  obtain ⟨c, found, seen⟩ := coarse.exists_outline first
  obtain ⟨c', found', seen'⟩ := coarse.exists_outline second
  rw [same, found'] at found
  cases found
  exact seen.symm.trans seen'

theorem coarse_text : Coarse text id := by
  intro t a decoded
  cases t with
  | text value =>
    cases decoded
    rfl
  | _ => cases decoded

theorem Coarse.optional (coarse : Coarse decode view) :
    Coarse (optional decode) (Option.map view) := by
  intro t a decoded
  by_cases absent : t = .null
  · subst absent
    cases decoded
    rfl
  · have filled : t.outline ≠ .null := by
      cases t with
      | null => exact absurd rfl absent
      | _ => exact nofun
    rw [optional_of_ne_null absent] at decoded
    obtain ⟨value, found, rfl⟩ := Except.eq_ok_of_map decoded
    obtain ⟨other, found', seen⟩ := coarse.exists_outline found
    rw [optional_of_ne_null filled, found']
    exact congrArg (fun v => Except.ok (some v)) seen

/-- The items of a list are decoded one by one, and so are those of its outline. -/
theorem Coarse.list (coarse : Coarse decode view) : Coarse (list decode) (List.map view) := by
  intro t a decoded
  cases t with
  | array items =>
    have each : ∀ (items : List Term) (values : List α), items.mapM decode = .ok values →
        ((items.map Term.outline).mapM decode).map (List.map view) = .ok (values.map view) := by
      intro items
      induction items with
      | nil =>
        intro values decoded
        cases decoded
        rfl
      | cons item rest ih =>
        intro values decoded
        obtain ⟨value, others, first, later, rfl⟩ := of_mapM_cons decoded
        obtain ⟨value', first', own⟩ := coarse.exists_outline first
        obtain ⟨others', later', all⟩ := Except.eq_ok_of_map (ih others later)
        rw [List.map_cons, List.mapM_cons, first', later']
        exact congrArg Except.ok (congrArg₂ List.cons own all)
    rw [Term.outline, Term.itemsOutline_eq_map]
    exact each items a decoded
  | _ => cases decoded

/-- The outline of a variant has the same name and the outline of its content. -/
theorem Coarse.variant {names : List String} {content : String → Term → Decoded α} {source : Source}
    (coarse : ∀ name, Coarse (content name) view) : Coarse (variant names content source) view := by
  intro t a decoded
  unfold Decode.variant at decoded
  split at decoded
  · rename_i key value rest
    split at decoded
    · rename_i name
      split at decoded
      · rename_i known
        split at decoded
        · rename_i result found
          split at decoded
          · rename_i alone
            cases decoded
            cases List.isEmpty_iff.1 alone
            obtain ⟨other, found', seen⟩ := (coarse name).exists_outline found
            simp only [Term.outline, Term.membersOutline, Decode.variant, if_pos known, found']
            exact congrArg Except.ok seen
          · cases decoded
        · cases decoded
      · cases decoded
    · cases decoded
  · split at decoded <;> cases decoded
  · cases decoded
  · rename_i name value written
    split at decoded
    · rename_i known
      have same : Decode.variant names content source (.object [(.text name, value.outline)]) =
          content name value.outline := by
        cases source with
        | text => exact (written rfl).elim
        | _ => exact if_pos known
      exact (congrArg (Except.map view) same).trans (coarse name value a decoded)
    · cases decoded
  · cases decoded
  · split at decoded <;> cases decoded
  · cases decoded

end Decode

/-! ## Records -/

/-- A field of a record reads the outline of what it reads to a record that looks the same. -/
def Field.Coarse {α β : Type} (f : Field α) (source : Source) (view : α → β) : Prop :=
  ∀ t a b after, f.read source t a = .ok after → view b = view a →
    (f.read source t.outline b).map view = .ok (view after)

section Fields

variable {α β γ δ : Type} {source : Source} {view : α → β} {decode : Source → Term → Decoded γ}
  {part : γ → δ} {set : γ → α → α} {name : String}
  (coarse : Decode.Coarse (decode source) part)
  (sets : ∀ v w a b, part v = part w → view a = view b → view (set v a) = view (set w b))

include coarse sets

/-- A required field is coarse if its decoder is, in a view of the part that the field sets. -/
theorem Field.coarse_required : (Field.required name decode set).Coarse source view := by
  intro t a b after read same
  obtain ⟨value, found, rfl⟩ := Except.eq_ok_of_map read
  obtain ⟨other, found', seen⟩ := coarse.exists_outline found
  simp only [Field.required, found']
  exact congrArg Except.ok (sets other value b a seen same)

/-- A field that may be missing is read like a required one. -/
theorem Field.coarse_withDefault : (Field.withDefault name decode set).Coarse source view :=
  (coarse_required coarse sets : (Field.required name decode set).Coarse source view)

end Fields

namespace Record

variable {α β : Type} {r : Record α} {source : Source} {view : α → β}

section Coarse

variable (fields : ∀ f ∈ r.fields, f.Coarse source view)
  (collects : ∀ add, r.collect = some add → ∀ key t a b, view b = view a →
    view (add key t.outline b) = view (add key t a))

include fields collects in
theorem readMembers_outline {members : List (Term × Term)} {seen read : List String}
    {a b after : α} (same : view b = view a)
    (decoded : r.readMembers source seen a members = .ok (read, after)) :
    ∃ other, r.readMembers source seen b (Term.membersOutline members) = .ok (read, other) ∧
      view other = view after := by
  induction members generalizing seen a b with
  | nil =>
    cases decoded
    exact ⟨b, rfl, same⟩
  | cons member rest ih =>
    obtain ⟨key, value⟩ := member
    cases key with
    | text key =>
      rw [readMembers] at decoded
      rw [Term.membersOutline, readMembers]
      split at decoded
      · rename_i f known
        split at decoded
        · cases decoded
        · rename_i fresh
          rw [if_neg fresh]
          split at decoded
          · rename_i between found
            obtain ⟨other, found', seen'⟩ := Except.eq_ok_of_map
              (fields f (List.mem_of_find?_eq_some known) value a b between found same)
            rw [found']
            exact ih seen' decoded
          · cases decoded
      · rename_i unknown
        split at decoded
        · rename_i add collected
          simp only [value.readable_outline]
          split at decoded
          · rename_i readable
            rw [if_pos readable]
            exact ih (collects add collected key value a b same) decoded
          · cases decoded
        · simp only [value.wellFormed_outline]
          split at decoded
          · rename_i formed
            rw [if_pos formed]
            exact ih same decoded
          · cases decoded
    | _ => cases decoded

include fields in
theorem readItems_outline {items : List Term} {rest : List (Field α)} {length index : Nat}
    {a b after : α} (known : ∀ f ∈ rest, f ∈ r.fields) (same : view b = view a)
    (decoded : r.readItems source length index rest a items = .ok after) :
    ∃ other, r.readItems source length index rest b (items.map Term.outline) = .ok other ∧
      view other = view after := by
  induction rest generalizing items index a b with
  | nil =>
    cases items with
    | nil =>
      cases decoded
      exact ⟨b, rfl, same⟩
    | cons item others =>
      rw [readItems] at decoded
      rw [List.map_cons, readItems]
      split at decoded
      · cases decoded
      · cases decoded
        exact ⟨b, rfl, same⟩
  | cons f rest ih =>
    obtain ⟨own, known⟩ := List.forall_mem_cons.1 known
    cases items with
    | nil =>
      rw [readItems] at decoded
      rw [List.map_nil, readItems]
      split at decoded
      · rename_i absent
        rw [if_pos absent]
        exact ih known same decoded
      · cases decoded
    | cons item others =>
      rw [readItems] at decoded
      rw [List.map_cons, readItems]
      split at decoded
      · rename_i between found
        obtain ⟨other, found', seen⟩ :=
          Except.eq_ok_of_map (fields f own item a b between found same)
        rw [found']
        exact ih known seen decoded
      · cases decoded

include fields collects in
/-- A record is coarse if its fields and its collector are. -/
theorem coarse : Decode.Coarse (r.decode source) view := by
  intro t a decoded
  unfold decode at decoded
  split at decoded
  · rename_i members
    unfold decodeMembers at decoded
    split at decoded
    · cases decoded
    · rename_i seen record read
      obtain ⟨other, read', same⟩ := readMembers_outline fields collects rfl read
      split at decoded
      · cases decoded
      · rename_i complete
        cases decoded
        simp only [Term.outline, decode, decodeMembers, read', complete]
        exact congrArg Except.ok same
  · rename_i items
    split at decoded
    · cases decoded
    · rename_i plain
      obtain ⟨other, read, same⟩ := readItems_outline fields (fun _ there => there) rfl decoded
      simp only [Term.outline, decode, if_neg plain, Term.itemsOutline_eq_map, List.length_map, read]
      exact congrArg Except.ok same
  · cases decoded

end Coarse

end Record

end TrustMesh
