import TrustMesh.Tool.Failure

/-!
# Settings files

A settings file says who the local node is, how its relay is set up and how much is
logged. All of it may be left out, the file included; the settings of the relay have to
be usable.
-/

namespace TrustMesh

/-- Who the local node is. -/
structure LocalNode where
  id : Option PeerId
  aliases : List PeerId
deriving DecidableEq

/-- A local node that is not named. -/
def LocalNode.unnamed : LocalNode := ⟨none, []⟩

/-- The record of a local node. -/
def LocalNode.record : Record LocalNode where
  name := "node"
  fields := [
    .withDefault "id" (fun _ => Decode.optional PeerId.decode) fun id n => { n with id },
    .withDefault "aliases" (fun _ => PeerId.decodeList) fun aliases n => { n with aliases }]
  start := .unnamed
  collect := none

/-- The content of a settings file. -/
structure NodeFile where
  node : LocalNode
  relay : Settings
  logLevel : String
deriving DecidableEq

namespace NodeFile

/-- What holds without a settings file. -/
def standard : NodeFile := ⟨.unnamed, .standard, "info"⟩

/-- The record of what is logged. -/
def logRecord : Record String where
  name := "log"
  fields := [.withDefault "level" (fun _ => Decode.text) fun level _ => level]
  start := standard.logLevel
  collect := none

/-- The record of a settings file. -/
def record : Record NodeFile where
  name := "settings"
  fields := [
    .withDefault "node" LocalNode.record.decode fun node f => { f with node },
    .withDefault "relay" Settings.decode fun relay f => { f with relay },
    .withDefault "log" logRecord.decode fun logLevel f => { f with logLevel }]
  start := standard
  collect := none

/-- The settings that a TOML text describes. -/
def parse (cs : List Char) : Except Cause NodeFile :=
  match Toml.decode? record.decode cs with
  | none => .error .notToml
  | some settings =>
    match settings.relay.fault? with
    | some fault => .error (.relay fault.asRelayFault)
    | none => .ok settings

/-- Load a settings file; one that is not there says nothing. -/
def load (files : Files) (path : String) : Except Failure NodeFile :=
  if files.present path then do
    match parse (← files.readInput .settings path) with
    | .ok settings => return settings
    | .error cause => throw ⟨.parsing .settings path, [cause]⟩
  else .ok standard

/-- The content as a JSON value. -/
def toJson (f : NodeFile) : Json :=
  .object [
    ("node", .object [
      ("id", (f.node.id.map fun id => Json.text id.text).getD .null),
      ("aliases", PeerId.listToJson f.node.aliases)]),
    ("relay", f.relay.toJson),
    ("log", .object [("level", .text f.logLevel)])]

end NodeFile

end TrustMesh
