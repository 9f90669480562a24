import TrustMesh.Proofs.Json.Numeral

/-!
# Reading what was printed

The compact text of a value is read to its end (`Json.read_chars`), and as the value
itself except in two places: a number is read as what its numeral stands for, and a
container that is nested too deeply cannot be read. `Json.reread` says what is read.
-/

namespace TrustMesh

theorem Term.atDepth_of_lt {depth : Nat} (shallow : depth < maximalDepth) (term : Term) :
    Term.atDepth depth term = term := if_pos shallow

namespace Json

/-! ## Strings -/

/-- A character is written after a backslash, as a code unit, or as itself. -/
theorem escape_cases (c : Char) :
    (∃ e, escape c = ['\\', e] ∧ e ≠ 'u' ∧ Term.escaped? e = some c) ∨
    (c.toNat < 0x20 ∧ escape c = ['\\', 'u', '0', '0'] ++ Text.hexPair c.toNat.toUInt8) ∨
    (escape c = [c] ∧ c ≠ '"' ∧ c ≠ '\\' ∧ ¬ c.toNat < 0x20) := by
  unfold escape
  split
  · rename_i same
    exact .inl ⟨'"', rfl, by decide, by rw [same]; rfl⟩
  split
  · rename_i same
    exact .inl ⟨'\\', rfl, by decide, by rw [same]; rfl⟩
  split
  · rename_i same
    exact .inl ⟨'n', rfl, by decide, same ▸ rfl⟩
  split
  · rename_i same
    exact .inl ⟨'r', rfl, by decide, same ▸ rfl⟩
  split
  · rename_i same
    exact .inl ⟨'t', rfl, by decide, same ▸ rfl⟩
  split
  · rename_i same
    exact .inl ⟨'b', rfl, by decide, same ▸ rfl⟩
  split
  · rename_i same
    exact .inl ⟨'f', rfl, by decide, same ▸ rfl⟩
  split
  · rename_i control
    exact .inr (.inl ⟨control, rfl⟩)
  · exact .inr (.inr ⟨rfl, ‹_›, ‹_›, ‹_›⟩)

/-- An escaped character is read as itself. -/
theorem stringParts_escape (c : Char) {rest after : List Char} {parts : List Term.StringPart}
    {value : List Char} (later : Term.stringParts rest = some (parts, after))
    (joined : Term.joinParts parts = some value) :
    ∃ parts, Term.stringParts (escape c ++ rest) = some (parts, after) ∧
      Term.joinParts parts = some (c :: value) := by
  rcases escape_cases c with ⟨e, written, differ, read⟩ | ⟨control, written⟩ |
    ⟨written, quote, backslash, control⟩
  · refine ⟨.char c :: parts, ?_, by simp [Term.joinParts, joined]⟩
    rw [written]
    simp [Term.stringParts, differ, read, later]
  · have zero : Text.hexValue? '0' = some (Text.lowDigit 0) := rfl
    have byte : c.toNat.toUInt8.toNat = c.toNat := by
      simp
      omega
    have unit : (Text.lowDigit 0).val * 4096 + (Text.lowDigit 0).val * 256 +
        (Text.lowDigit (c.toNat / 16)).val * 16 + (Text.lowDigit c.toNat).val = c.toNat := by
      simp only [Text.lowDigit]
      omega
    refine ⟨.unit c.toNat :: parts, ?_, ?_⟩
    · rw [written, Text.hexPair, byte]
      simp [Term.stringParts, Text.hexValue?_hexChar, zero, unit, later]
    · have high : ¬ 0xD800 ≤ c.toNat := by omega
      have low : ¬ 0xDC00 ≤ c.toNat := by omega
      rw [Term.joinParts.eq_def]
      simp [high, low, joined]
  · refine ⟨.char c :: parts, ?_, by simp [Term.joinParts, joined]⟩
    rw [written]
    simp [Term.stringParts, backslash, control, later]

/-- A string is read as itself, up to its closing quote. -/
theorem readString_quoted (s : String) (rest : List Char) :
    Term.readString (s.toList.flatMap escape ++ '"' :: rest) = ⟨.text s, some rest⟩ := by
  have general : ∀ cs : List Char, ∃ parts,
      Term.stringParts (cs.flatMap escape ++ '"' :: rest) = some (parts, rest) ∧
        Term.joinParts parts = some cs := by
    intro cs
    induction cs with
    | nil => exact ⟨[], rfl, rfl⟩
    | cons c cs ih =>
      obtain ⟨parts, read, joined⟩ := ih
      rw [List.flatMap_cons, List.append_assoc]
      exact stringParts_escape c read joined
  obtain ⟨parts, read, joined⟩ := general s.toList
  simp [Term.readString, read, joined]

/-! ## Values -/

end Json

/-- The term that a number is read as from its own text. -/
def Number.reread (n : Number) : Term := (Term.readValue 1 0 (Json.numberChars n)).term

namespace Json

mutual

/-- The term that a value is read as from its own text in which `depth` containers are open. -/
def reread : Nat → Json → Term
  | _, .null => .null
  | _, .bool value => .bool value
  | _, .number n => n.reread
  | _, .text value => .text value
  | depth, .array items => Term.atDepth depth (.array (rereadItems (depth + 1) items))
  | depth, .object members => Term.atDepth depth (.object (rereadMembers (depth + 1) members))

/-- The terms that the items of an array are read as. -/
def rereadItems : Nat → List Json → List Term
  | _, [] => []
  | depth, item :: rest => reread depth item :: rereadItems depth rest

/-- The terms that the members of an object are read as. -/
def rereadMembers : Nat → List (String × Json) → List (Term × Term)
  | _, [] => []
  | depth, (key, value) :: rest => (.text key, reread depth value) :: rereadMembers depth rest

end

theorem skipBlanks_cons {c : Char} (solid : Term.isBlank c = false) (cs : List Char) :
    Term.skipBlanks (c :: cs) = c :: cs := by
  simp [Term.skipBlanks, solid]

theorem ne_of_isDigit {c other : Char} (digit : c.isDigit = true)
    (plain : other.isDigit = false) : c ≠ other := by
  rintro rfl
  rw [digit] at plain
  cases plain

/-- A numeral in place of a value is read to its end. -/
theorem readValue_numeral {n : Numeral} (wellFormed : n.WellFormed) {rest : List Char}
    (closes : Closes rest) (steps depth : Nat) :
    Term.readValue (steps + 1) depth (n.chars ++ rest) = ⟨Term.ofNumber? n.value?, some rest⟩ := by
  have read := n.readNumber_body wellFormed closes
  unfold Numeral.chars
  cases sign : n.negative with
  | true =>
    rw [sign] at read
    simp [Term.readValue, Term.skipBlanks, Term.isBlank, read]
  | false =>
    rw [sign] at read
    obtain ⟨first, others, whole⟩ := List.exists_cons_of_ne_nil wellFormed.present
    have digit : first.isDigit = true := wellFormed.whole first (by simp [whole])
    have other : ∀ c : Char, c.isDigit = false → first ≠ c := fun _ => ne_of_isDigit digit
    rw [Numeral.body, whole] at read ⊢
    simp only [List.cons_append, List.append_assoc] at read ⊢
    simp [Term.readValue, Term.skipBlanks, Term.isBlank, other ' ' rfl, other '\n' rfl,
      other '\t' rfl, other '\r' rfl, other 'n' rfl, other 't' rfl, other 'f' rfl, other '"' rfl,
      other '-' rfl, other '[' rfl, other '\x7b' rfl, digit, read]

theorem closes_nil : Closes [] := by
  intro c first
  cases first

/-- A number is read to its end, in the same way in every place. -/
theorem readValue_number (n : Number) {rest : List Char} (closes : Closes rest)
    (steps depth : Nat) :
    Term.readValue (steps + 1) depth (numberChars n ++ rest) = ⟨n.reread, some rest⟩ := by
  obtain ⟨numeral, wellFormed, written⟩ := exists_numeral n
  have alone := readValue_numeral wellFormed closes_nil 0 0
  rw [List.append_nil, written] at alone
  rw [← written, readValue_numeral wellFormed closes, Number.reread, alone]

/-- The text of a value begins with neither a blank nor a closing bracket. -/
theorem exists_chars_eq_cons (v : Json) :
    ∃ c cs, v.chars = c :: cs ∧ Term.isBlank c = false ∧ c ≠ ']' := by
  unfold chars
  split
  · exact ⟨_, _, rfl, rfl, by decide⟩
  · exact ⟨_, _, rfl, rfl, by decide⟩
  · exact ⟨_, _, rfl, rfl, by decide⟩
  · rename_i n
    obtain ⟨numeral, wellFormed, written⟩ := exists_numeral n
    rw [← written]
    unfold Numeral.chars
    split
    · exact ⟨_, _, rfl, rfl, by decide⟩
    · obtain ⟨first, others, whole⟩ := List.exists_cons_of_ne_nil wellFormed.present
      have digit : first.isDigit = true := wellFormed.whole first (by simp [whole])
      refine ⟨first, _, by rw [Numeral.body, whole]; rfl, ?_, ne_of_isDigit digit rfl⟩
      have other : ∀ c : Char, c.isDigit = false → first ≠ c := fun _ => ne_of_isDigit digit
      simp [Term.isBlank, other ' ' rfl, other '\n' rfl, other '\t' rfl, other '\r' rfl]
  · exact ⟨_, _, rfl, rfl, by decide⟩
  · exact ⟨_, _, rfl, rfl, by decide⟩
  · exact ⟨_, _, rfl, rfl, by decide⟩
  · exact ⟨_, _, rfl, rfl, by decide⟩
  · exact ⟨_, _, rfl, rfl, by decide⟩

theorem closes_itemsChars (items : List Json) (rest : List Char) :
    Closes (itemsChars items ++ rest) := by
  intro c first
  cases items with
  | nil => exact .inr (.inl (Option.some.inj first).symm)
  | cons => exact .inl (Option.some.inj first).symm

theorem closes_membersChars (members : List (String × Json)) (rest : List Char) :
    Closes (membersChars members ++ rest) := by
  intro c first
  cases members with
  | nil => exact .inr (.inr (Option.some.inj first).symm)
  | cons member =>
    obtain ⟨key, value⟩ := member
    exact .inl (Option.some.inj first).symm

/-- The text of a value is read to its end, whatever closes it. -/
def ReadsBack (v : Json) : Prop :=
  ∀ (steps depth : Nat) (rest : List Char), 2 * v.chars.length ≤ steps → Closes rest →
    Term.readValue steps depth (v.chars ++ rest) = ⟨v.reread depth, some rest⟩

/-- Items that are read to their ends are read up to the end of the array. -/
theorem readItems_chars {item : Json} {items : List Json} (back : ∀ v ∈ item :: items, v.ReadsBack)
    (steps depth : Nat) (rest : List Char)
    (enough : 2 * (item.chars ++ itemsChars items).length ≤ steps) :
    Term.readItems steps depth (item.chars ++ (itemsChars items ++ rest)) =
      (rereadItems depth (item :: items), some rest) := by
  induction items generalizing item steps with
  | nil =>
    obtain ⟨steps, rfl⟩ : ∃ fewer, steps = fewer + 1 :=
      ⟨steps - 1, by simp [itemsChars] at enough; omega⟩
    have read := back item (by simp) steps depth _
      (by simp [itemsChars] at enough; omega) (closes_itemsChars [] rest)
    rw [Term.readItems, read]
    rfl
  | cons next later ih =>
    obtain ⟨steps, rfl⟩ : ∃ fewer, steps = fewer + 1 :=
      ⟨steps - 1, by simp [itemsChars] at enough; omega⟩
    have read := back item (by simp) steps depth _
      (by simp [itemsChars] at enough; omega) (closes_itemsChars (next :: later) rest)
    have others := ih (fun v mem => back v (List.mem_cons_of_mem _ mem)) steps
      (by simp [itemsChars] at enough ⊢; omega)
    rw [Term.readItems, read]
    simp [itemsChars, skipBlanks_cons (c := ',') rfl, others, rereadItems]

/-- A member whose value is read to its end is read, and what follows it is looked at. -/
theorem readMembers_member {key : String} {value : Json} (back : value.ReadsBack)
    {steps depth : Nat} {after : List Char} (enough : 2 * value.chars.length ≤ steps)
    (closes : Closes after) :
    Term.readMembers (steps + 1) depth (quoted key ++ (':' :: value.chars ++ after)) =
      match Term.skipBlanks after with
      | '\x7d' :: rest => ([(.text key, value.reread depth)], some rest)
      | ',' :: rest =>
        let (members, after) := Term.readMembers steps depth rest
        ((.text key, value.reread depth) :: members, after)
      | _ => ([(.text key, value.reread depth), (.broken, .broken)], none) := by
  have name := readString_quoted key (':' :: value.chars ++ after)
  have read := back steps depth after enough closes
  have first : quoted key ++ (':' :: value.chars ++ after) =
      '"' :: (key.toList.flatMap escape ++ '"' :: (':' :: value.chars ++ after)) := by
    simp [quoted]
  rw [first, Term.readMembers, skipBlanks_cons rfl]
  simp only [name]
  simp only [List.cons_append, skipBlanks_cons (c := ':') rfl, read]
  -- Lean may share the statement's match with the reader's, and then nothing is left.
  all_goals rfl

/-- Members whose values are read to their ends are read up to the end of the object. -/
theorem readMembers_chars {key : String} {value : Json} {members : List (String × Json)}
    (back : ∀ m ∈ (key, value) :: members, m.2.ReadsBack) (steps depth : Nat) (rest : List Char)
    (enough : 2 * (quoted key ++ ':' :: value.chars ++ membersChars members).length ≤ steps) :
    Term.readMembers steps depth
        (quoted key ++ (':' :: value.chars ++ (membersChars members ++ rest))) =
      (rereadMembers depth ((key, value) :: members), some rest) := by
  have own : value.ReadsBack := back (key, value) (by simp)
  induction members generalizing key value steps with
  | nil =>
    obtain ⟨steps, rfl⟩ : ∃ fewer, steps = fewer + 1 :=
      ⟨steps - 1, by simp [quoted, membersChars] at enough; omega⟩
    rw [readMembers_member own
      (by simp [membersChars] at enough; omega) (closes_membersChars [] rest)]
    rfl
  | cons member later ih =>
    obtain ⟨next, other⟩ := member
    obtain ⟨steps, rfl⟩ : ∃ fewer, steps = fewer + 1 :=
      ⟨steps - 1, by simp [quoted, membersChars] at enough; omega⟩
    have others := ih (fun m mem => back m (List.mem_cons_of_mem _ mem)) steps
      (by simp [membersChars] at enough ⊢; omega) (back (next, other) (by simp))
    rw [readMembers_member own
      (by simp [membersChars] at enough; omega) (closes_membersChars ((next, other) :: later) rest)]
    simp only [membersChars, List.cons_append, List.append_assoc] at others ⊢
    simp only [skipBlanks_cons (c := ',') rfl, others]
    rfl

mutual

/-- The text of a value is read to its end. -/
theorem readsBack : ∀ v : Json, v.ReadsBack
  | .null, steps + 1, _, _, _, _ => rfl
  | .bool true, steps + 1, _, _, _, _ => rfl
  | .bool false, steps + 1, _, _, _, _ => rfl
  | .number n, steps, depth, rest, enough, closes => by
    obtain ⟨c, cs, first, -⟩ := (Json.number n).exists_chars_eq_cons
    rw [first, List.length_cons] at enough
    obtain ⟨steps, rfl⟩ : ∃ fewer, steps = fewer + 1 := ⟨steps - 1, by omega⟩
    exact readValue_number n closes steps depth
  | .text s, steps + 1, depth, rest, _, _ => by
    have read := readString_quoted s rest
    simp [chars, quoted, Term.readValue, skipBlanks_cons (c := '"') rfl, read, reread]
  | .array [], steps + 1, _, _, _, _ => rfl
  | .array (item :: items), steps + 1, depth, rest, enough, _ => by
    have read := readItems_chars (itemsReadBack (item :: items)) steps (depth + 1) rest
      (by simp [chars] at enough ⊢; omega)
    obtain ⟨c, cs, first, solid, other⟩ := item.exists_chars_eq_cons
    rw [first, List.cons_append] at read
    simp [chars, first, Term.readValue, skipBlanks_cons (c := '[') rfl, skipBlanks_cons solid,
      other, read, reread]
  | .object [], steps + 1, _, _, _, _ => rfl
  | .object ((key, value) :: members), steps + 1, depth, rest, enough, _ => by
    have read := readMembers_chars (membersReadBack ((key, value) :: members)) steps (depth + 1) rest
      (by simp [chars] at enough ⊢; omega)
    simp only [quoted, List.cons_append, List.append_assoc, List.nil_append] at read
    simp [chars, quoted, Term.readValue, skipBlanks_cons (c := '\x7b') rfl,
      skipBlanks_cons (c := '"') rfl, reread, read]

theorem itemsReadBack : ∀ items : List Json, ∀ v ∈ items, v.ReadsBack
  | [] => by simp
  | item :: rest => List.forall_mem_cons.2 ⟨readsBack item, itemsReadBack rest⟩

theorem membersReadBack : ∀ members : List (String × Json), ∀ m ∈ members, m.2.ReadsBack
  | [] => by simp
  | (_, value) :: rest => List.forall_mem_cons.2 ⟨readsBack value, membersReadBack rest⟩

end

/-- A text that was printed is read as a whole. -/
theorem read_chars (v : Json) : Term.read v.chars = ⟨v.reread 0, true⟩ := by
  have read := readsBack v (2 * v.chars.length + 1) 0 [] (by omega) closes_nil
  rw [List.append_nil] at read
  rw [Term.read, read]
  rfl

/-- The values of a list are read one by one. -/
theorem rereadItems_eq_map (depth : Nat) (items : List Json) :
    rereadItems depth items = items.map (reread depth) := by
  induction items with
  | nil => rfl
  | cons item rest ih => rw [rereadItems, ih, List.map_cons]

end Json

end TrustMesh
