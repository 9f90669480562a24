import TrustMesh.Text.Invisible

/-!
# Strings quoted for messages

In messages a string stands in double quotes. The quote, the backslash, the tab, the
line ends and NUL have a short escape; other characters without a visible form are
given by their number in braces.
-/

namespace TrustMesh.Text

/-- Hexadecimal digits without leading zeros, in lower case. -/
def hexDigits (n : Nat) : List Char := Nat.toDigits 16 n

/-- How one character is written in a quoted string. -/
def quotedChar (c : Char) : List Char :=
  if c = '\x00' then ['\\', '0']
  else if c = '\t' then ['\\', 't']
  else if c = '\r' then ['\\', 'r']
  else if c = '\n' then ['\\', 'n']
  else if c = '"' then ['\\', '"']
  else if c = '\\' then ['\\', '\\']
  else if 0x20 ≤ c.toNat ∧ c.toNat < 0x7f then [c]
  else if isInvisible c then ['\\', 'u', '{'] ++ hexDigits c.toNat ++ ['}']
  else [c]

/-- A string in double quotes. -/
def quote (s : String) : String :=
  String.ofList ('"' :: s.toList.flatMap quotedChar ++ ['"'])

/-- A list of strings, each quoted, in braces. -/
def quoteSet (elements : List String) : String :=
  "\x7b" ++ ", ".intercalate (elements.map quote) ++ "\x7d"

end TrustMesh.Text
