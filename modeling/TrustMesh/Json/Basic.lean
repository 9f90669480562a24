import TrustMesh.Collection.OrderedMap
import TrustMesh.Decimal.Binary64

/-!
# JSON values

`Json` is a value with the members of its objects in the order in which they are
written. Records are written with their fields in a fixed order; values that were
read as uninterpreted content are *canonical*: every object lists each key once, in
increasing order (`Json.Canonical`). `Json.canonical` brings any value into that
form, the last of several members with one key being kept.
-/

namespace TrustMesh

/-- A number is an integer of 64 bits, signed or unsigned, or a finite binary64 value. -/
inductive Number where
  | integer (value : Int)
  | binary (value : Binary64)
deriving DecidableEq

/-- A JSON value with ordered object members. -/
inductive Json where
  | null
  | bool (value : Bool)
  | number (value : Number)
  | text (value : String)
  | array (items : List Json)
  | object (members : List (String × Json))

instance : Inhabited Json := ⟨.null⟩

namespace Json

/-! ## Equality is decidable -/

mutual

/-- Whether two values are equal. -/
def beq : Json → Json → Bool
  | .null, .null => true
  | .bool a, .bool b => a == b
  | .number a, .number b => decide (a = b)
  | .text a, .text b => a == b
  | .array as, .array bs => beqItems as bs
  | .object as, .object bs => beqMembers as bs
  | _, _ => false

/-- Whether two lists of values are equal. -/
def beqItems : List Json → List Json → Bool
  | [], [] => true
  | a :: as, b :: bs => beq a b && beqItems as bs
  | _, _ => false

/-- Whether two lists of members are equal. -/
def beqMembers : List (String × Json) → List (String × Json) → Bool
  | [], [] => true
  | (k, a) :: as, (l, b) :: bs => k == l && beq a b && beqMembers as bs
  | _, _ => false

end

mutual

theorem beq_iff : ∀ a b : Json, beq a b = true ↔ a = b
  | .null, b => by cases b <;> simp [beq]
  | .bool x, b => by cases b <;> simp [beq]
  | .number x, b => by cases b <;> simp [beq]
  | .text x, b => by cases b <;> simp [beq]
  | .array xs, b => by cases b <;> simp [beq, beqItems_iff xs]
  | .object xs, b => by cases b <;> simp [beq, beqMembers_iff xs]

theorem beqItems_iff : ∀ as bs : List Json, beqItems as bs = true ↔ as = bs
  | [], bs => by cases bs <;> simp [beqItems]
  | a :: as, bs => by cases bs <;> simp [beqItems, beq_iff a, beqItems_iff as]

theorem beqMembers_iff : ∀ as bs : List (String × Json), beqMembers as bs = true ↔ as = bs
  | [], bs => by cases bs <;> simp [beqMembers]
  | (k, a) :: as, bs => by
    cases bs <;> simp [beqMembers, beq_iff a, beqMembers_iff as, Prod.ext_iff]

end

instance : DecidableEq Json := fun a b => decidable_of_iff _ (beq_iff a b)

/-! ## Canonical objects -/

/-- The object of these members in key order, the last of those with one key being kept. -/
def ofMembers (members : List (String × Json)) : Json :=
  .object (OrderedMap.ofList members).entries

/-- The value of a key in an object. -/
def get? (key : String) : Json → Option Json
  | .object members => OrderedMap.lookup key members
  | _ => none

mutual

/-- Every object lists each key once, in increasing order. -/
def Canonical : Json → Prop
  | .array items => ItemsCanonical items
  | .object members => KeysIncrease members ∧ MembersCanonical members
  | _ => True

/-- Every value of the list is canonical. -/
def ItemsCanonical : List Json → Prop
  | [] => True
  | item :: rest => item.Canonical ∧ ItemsCanonical rest

/-- Every value of the members is canonical. -/
def MembersCanonical : List (String × Json) → Prop
  | [] => True
  | (_, value) :: rest => value.Canonical ∧ MembersCanonical rest

end

mutual

/-- The value with every object in key order, the last of the members with one key being kept. -/
def canonical : Json → Json
  | .array items => .array (canonicalItems items)
  | .object members => ofMembers (canonicalMembers members)
  | value => value

/-- The canonical forms of a list of values. -/
def canonicalItems : List Json → List Json
  | [] => []
  | item :: rest => item.canonical :: canonicalItems rest

/-- The members with canonical values. -/
def canonicalMembers : List (String × Json) → List (String × Json)
  | [] => []
  | (key, value) :: rest => (key, value.canonical) :: canonicalMembers rest

end

mutual

/-- How many containers are open at the deepest place. -/
def depth : Json → Nat
  | .array items => 1 + itemsDepth items
  | .object members => 1 + membersDepth members
  | _ => 0

/-- The greatest depth in a list of values. -/
def itemsDepth : List Json → Nat
  | [] => 0
  | item :: rest => max item.depth (itemsDepth rest)

/-- The greatest depth in the values of the members. -/
def membersDepth : List (String × Json) → Nat
  | [] => 0
  | (_, value) :: rest => max value.depth (membersDepth rest)

end

end Json

end TrustMesh
