import TrustMesh.Json.Term

/-!
# TOML values

A configuration file is a table of values. Decimal fractions and dates are kept as they
are written: no setting is one, but both may stand where a setting is not looked at.

`Toml.term` shows a value to the decoders of records, which read JSON terms. A date is
shown as an object none of whose members is known, a fraction as a piece that can be
skipped but not read.
-/

namespace TrustMesh

/-- A TOML value; the members of a table are listed in the order in which they were first
written. -/
inductive Toml where
  | text (value : String)
  | integer (value : Int)
  | fraction (written : String)
  | boolean (value : Bool)
  | dateTime (written : String)
  | array (items : List Toml)
  | table (members : List (String × Toml))

instance : Inhabited Toml := ⟨.table []⟩

namespace Toml

mutual

/-- A value as the decoders of records see it. -/
def term : Toml → Term
  | .text value => .text value
  | .integer value => .number (.integer value)
  | .fraction _ => .unreadable
  | .boolean value => .bool value
  | .dateTime _ => .object []
  | .array items => .array (itemTerms items)
  | .table members => .object (memberTerms members)

/-- A list of values as the decoders of records see it. -/
def itemTerms : List Toml → List Term
  | [] => []
  | item :: rest => item.term :: itemTerms rest

/-- The members of a table as the decoders of records see them. -/
def memberTerms : List (String × Toml) → List (Term × Term)
  | [] => []
  | (key, value) :: rest => (.text key, value.term) :: memberTerms rest

end

end Toml

end TrustMesh
