/-!
# Texts as bytes

Texts are exchanged in UTF-8. Bytes that are not the encoding of any text are decoded
up to the first that does not belong there; NUL takes its place and ends the text.
Decoding undoes encoding (`decode_encode`).
-/

namespace TrustMesh.Utf8

/-- The bytes of a list of characters. -/
def encode (cs : List Char) : List UInt8 := cs.flatMap String.utf8EncodeChar

/-- The character that a list of bytes starts with. -/
def firstChar? (bytes : List UInt8) : Option Char :=
  (bytes.take 4).toByteArray.utf8DecodeChar? 0

/-- The characters of a list of bytes, up to the first byte that does not belong there. -/
def decode : List UInt8 → List Char
  | [] => []
  | byte :: rest =>
    match firstChar? (byte :: rest) with
    | some c => c :: decode ((byte :: rest).drop c.utf8Size)
    | none => ['\x00']
termination_by bytes => bytes.length
decreasing_by
  have := c.utf8Size_pos
  simp only [List.length_drop, List.length_cons]
  omega

/-- The characters of a list of bytes that encodes a text. -/
def decode? (bytes : List UInt8) : Option (List Char) :=
  if encode (decode bytes) = bytes then some (decode bytes) else none

/-- A text that starts with a character is decoded from its encoding. -/
theorem firstChar?_append (c : Char) (bytes : List UInt8) :
    firstChar? (String.utf8EncodeChar c ++ bytes) = some c := by
  have short : (String.utf8EncodeChar c).length ≤ 4 := by
    rw [String.length_utf8EncodeChar]; exact c.utf8Size_le_four
  unfold firstChar?
  rw [List.take_append, List.take_of_length_le short, List.toByteArray_append]
  exact ByteArray.utf8DecodeChar?_utf8EncodeChar_append

/-- Decoding undoes encoding. -/
theorem decode_encode (cs : List Char) : decode (encode cs) = cs := by
  induction cs with
  | nil => simp [encode, decode]
  | cons c rest ih =>
    have split : encode (c :: rest) = String.utf8EncodeChar c ++ encode rest := by simp [encode]
    have first := firstChar?_append c (encode rest)
    have size : (String.utf8EncodeChar c).length = c.utf8Size := String.length_utf8EncodeChar c
    rw [split]
    cases code : String.utf8EncodeChar c ++ encode rest with
    | nil =>
      have := congrArg List.length code
      have := c.utf8Size_pos
      simp [size] at *
    | cons byte later =>
      rw [code] at first
      rw [decode, first]
      simp only [← code, ← size, List.drop_left, ih]

end TrustMesh.Utf8
