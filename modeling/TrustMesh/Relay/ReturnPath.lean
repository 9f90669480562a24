import TrustMesh.Peer.Link

/-!
# The way back along a route

A response carries the route of its request and travels along it in reverse. A node
hands it to the last entry of the first run of entries that it can reach: the entry
after that one is where the route leaves its sight, usually the node itself. At the
peer that started the route the response is delivered.
-/

namespace TrustMesh

/-- What a node does with a response. -/
inductive ReturnHop where
  | deliver
  | forward (link : Link)
  | deadEnd
deriving DecidableEq

namespace ReturnHop

/-- The channel to an entry of a route, unless the entry is the node itself. -/
def usable? (identity : Identity) (directory : Directory) (hop : PeerId) : Option Link :=
  if identity.contains hop then none else directory.resolve hop

/-- The channel to the entry before the first one that cannot be used after one that can; `last` is
the channel to the entry before the list, if it can be used. -/
def beforeBreak? (usable? : PeerId → Option Link) : Option Link → List PeerId → Option Link
  | _, [] => none
  | last, hop :: rest =>
    match usable? hop, last with
    | some link, _ => beforeBreak? usable? (some link) rest
    | none, some link => some link
    | none, none => beforeBreak? usable? none rest

/-- What a node does with a response that carries a route. -/
def ofRoute (route : List PeerId) (identity : Identity) (directory : Directory) : ReturnHop :=
  match route with
  | [] => .deadEnd
  | origin :: _ =>
    if identity.contains origin then .deliver
    else
      match beforeBreak? (usable? identity directory) none route with
      | some link => .forward link
      | none => .deadEnd

end ReturnHop

end TrustMesh
