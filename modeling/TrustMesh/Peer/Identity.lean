import TrustMesh.Collection.OrderedSet
import TrustMesh.Json.Record

/-!
# Peers and the identities of a node

A peer is addressed by an identifier that may carry a namespace, as in
`did:sov:VbNrngVsD113FC5gWsHsC2`. `withoutNamespace` keeps what follows the last colon,
the *unqualified* form.

A node answers to a primary identifier and to any number of aliases. Whether an
identifier is one of them is decided up to namespaces (`Identity.contains`).
-/

namespace TrustMesh

open Std

/-- What follows the last colon of a text, or all of it. -/
def afterLastColon (cs : List Char) : List Char :=
  (cs.reverse.takeWhile (· ≠ ':')).reverse

/-- An identifier without its namespace: what follows its last colon. -/
def withoutNamespace (id : String) : String := String.ofList (afterLastColon id.toList)

/-- The identifier of a peer. Peers are ordered by the code points of their identifiers. -/
structure PeerId where
  text : String
deriving DecidableEq

namespace PeerId

instance : Ord PeerId := ⟨compareOn PeerId.text⟩

theorem compare_def (a b : PeerId) : compare a b = compare a.text b.text := rfl

instance : TransOrd PeerId := inferInstanceAs (TransCmp (compareOn PeerId.text))

instance : LawfulEqOrd PeerId where
  eq_of_compare {a b} same := by
    cases a; cases b
    rw [compare_def] at same
    exact congrArg PeerId.mk (LawfulEqCmp.eq_of_compare same)
  compare_self {a} := by rw [compare_def]; exact ReflCmp.compare_self

instance : Inhabited PeerId := ⟨⟨""⟩⟩

/-- The identifier without its namespace. -/
def unqualified (p : PeerId) : String := withoutNamespace p.text

/-- Decode a peer identifier. -/
def decode (term : Term) : Decoded PeerId := (Decode.text term).map PeerId.mk

/-- A list of peer identifiers as a JSON value. -/
def listToJson (peers : List PeerId) : Json := .array (peers.map fun p => .text p.text)

/-- Decode a list of peer identifiers. -/
def decodeList (term : Term) : Decoded (List PeerId) := Decode.list decode term

end PeerId

/-- The identifiers a node answers to. -/
structure Identity where
  primary : PeerId
  aliases : OrderedSet PeerId
deriving DecidableEq

namespace Identity

/-- The identity with these identifiers; the primary one is not repeated among the aliases. -/
def ofPeers (primary : PeerId) (aliases : List PeerId) : Identity :=
  ⟨primary, (OrderedSet.ofList aliases).erase primary⟩

/-- The primary identifier and the aliases in order. -/
def all (i : Identity) : List PeerId := i.primary :: i.aliases.toList

/-- Whether a peer is this node: whether its unqualified form is that of an own identifier. -/
def contains (i : Identity) (p : PeerId) : Bool :=
  i.all.any fun own => own = p || own.unqualified = p.unqualified

/-- The identity as a JSON value. -/
def toJson (i : Identity) : Json :=
  .object [("primary", .text i.primary.text), ("aliases", PeerId.listToJson i.aliases.toList)]

/-- The record of an identity. Both fields are taken as they come. -/
def record : Record Identity where
  name := "LocalIdentity"
  fields := [
    .required "primary" (fun _ => PeerId.decode) fun primary i => { i with primary },
    .required "aliases" (fun _ => PeerId.decodeList) fun aliases i =>
      { i with aliases := .ofList aliases }]
  start := ⟨⟨""⟩, .empty⟩
  collect := none

/-- Decode an identity. -/
def decode : Source → Term → Decoded Identity := record.decode

end Identity

end TrustMesh
