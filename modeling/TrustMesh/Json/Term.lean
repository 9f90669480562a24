import TrustMesh.Json.Basic

/-!
# JSON texts as they are written

A `Term` is a JSON text taken apart but not yet understood: members keep their
order and their repetitions, and faults stand where they occur. A text that stops
being JSON has the term `broken` at that place and nothing after it, so a decoder
that walks a term in reading order meets the first fault of the text first.
`unreadable` is a piece that has the form of a value but no value: a lone surrogate
escape, a number out of range, or a container nested too deeply. Such a piece may
be skipped but not read.
-/

namespace TrustMesh

/-- A JSON text taken apart, with its faults in place. -/
inductive Term where
  | null
  | bool (value : Bool)
  | number (value : Number)
  | text (value : String)
  | array (items : List Term)
  | object (members : List (Term × Term))
  | unreadable
  | broken

instance : Inhabited Term := ⟨.broken⟩

namespace Term

mutual

/-- Whether the term has the form of a JSON value, so that it can be skipped. -/
def wellFormed : Term → Bool
  | .broken => false
  | .array items => itemsWellFormed items
  | .object members => membersWellFormed members
  | _ => true

/-- Whether every item has the form of a JSON value. -/
def itemsWellFormed : List Term → Bool
  | [] => true
  | item :: rest => item.wellFormed && itemsWellFormed rest

/-- Whether every key and value has the form of a JSON value. -/
def membersWellFormed : List (Term × Term) → Bool
  | [] => true
  | (key, value) :: rest => key.wellFormed && value.wellFormed && membersWellFormed rest

end

/-- The string of a term that is one. -/
def text? : Term → Option String
  | .text value => some value
  | _ => none

mutual

/-- Whether the term is free of faults, so that it can be read. -/
def readable : Term → Bool
  | .broken => false
  | .unreadable => false
  | .array items => itemsReadable items
  | .object members => membersReadable members
  | _ => true

/-- Whether every item can be read. -/
def itemsReadable : List Term → Bool
  | [] => true
  | item :: rest => item.readable && itemsReadable rest

/-- Whether every key is a string and every value can be read. -/
def membersReadable : List (Term × Term) → Bool
  | [] => true
  | (key, value) :: rest => key.text?.isSome && value.readable && membersReadable rest

end

mutual

/-- The value of a term; pieces that cannot be read count as `null`. Objects are canonical, the
last of the members with one key being kept. -/
def toJson : Term → Json
  | .null => .null
  | .bool value => .bool value
  | .number value => .number value
  | .text value => .text value
  | .array items => .array (itemsToJson items)
  | .object members => Json.ofMembers (membersToJson members)
  | .unreadable => .null
  | .broken => .null

/-- The values of a list of terms. -/
def itemsToJson : List Term → List Json
  | [] => []
  | item :: rest => item.toJson :: itemsToJson rest

/-- The members whose key is a string. -/
def membersToJson : List (Term × Term) → List (String × Json)
  | [] => []
  | (.text key, value) :: rest => (key, value.toJson) :: membersToJson rest
  | _ :: rest => membersToJson rest

end

mutual

/-- A value as a term. -/
def ofJson : Json → Term
  | .null => .null
  | .bool value => .bool value
  | .number value => .number value
  | .text value => .text value
  | .array items => .array (itemsOfJson items)
  | .object members => .object (membersOfJson members)

/-- A list of values as terms. -/
def itemsOfJson : List Json → List Term
  | [] => []
  | item :: rest => ofJson item :: itemsOfJson rest

/-- The members of an object as terms. -/
def membersOfJson : List (String × Json) → List (Term × Term)
  | [] => []
  | (key, value) :: rest => (.text key, ofJson value) :: membersOfJson rest

end

end Term

end TrustMesh
