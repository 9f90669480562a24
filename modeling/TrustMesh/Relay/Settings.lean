import TrustMesh.Json.Record

/-!
# Settings of a relay

All settings have a default, so a written form may leave out any of them. A relay
needs room for at least one message identifier and one event, and a label for its
links.
-/

namespace TrustMesh

/-- The settings of a relay: how many exchanges it remembers, whether it answers a compliance query
only once, the labels of links and of the local node, and how many events may wait. -/
structure Settings where
  seenCapacity : Nat
  complianceDedup : Bool
  linkLabel : String
  selfLabel : String
  eventBuffer : Nat
deriving DecidableEq

/-- Why settings cannot be used. -/
inductive SettingsFault where
  | seenCapacityZero
  | eventBufferZero
  | linkLabelEmpty
deriving DecidableEq

/-- The wording of a fault. -/
def SettingsFault.reason : SettingsFault → String
  | .seenCapacityZero => "seen_cache_capacity must be positive"
  | .eventBufferZero => "event_buffer must be positive"
  | .linkLabelEmpty => "link_label must not be empty"

namespace Settings

/-- The settings that hold unless others are given. -/
def standard : Settings where
  seenCapacity := 10000
  complianceDedup := false
  linkLabel := "P2P"
  selfLabel := "MySelf"
  eventBuffer := 256

instance : Inhabited Settings := ⟨standard⟩

/-- The first reason why the settings cannot be used. -/
def fault? (s : Settings) : Option SettingsFault :=
  if s.seenCapacity = 0 then some .seenCapacityZero
  else if s.eventBuffer = 0 then some .eventBufferZero
  else if s.linkLabel = "" then some .linkLabelEmpty
  else none

/-- The capacity of the memory for exchanges, if it is usable. -/
def usableCapacity (s : Settings) : Except SettingsFault Nat :=
  if s.seenCapacity = 0 then .error .seenCapacityZero else .ok s.seenCapacity

/-- The settings as a JSON value. -/
def toJson (s : Settings) : Json :=
  .object [
    ("seen_cache_capacity", .number (.integer s.seenCapacity)),
    ("compliance_dedup", .bool s.complianceDedup),
    ("link_label", .text s.linkLabel),
    ("self_label", .text s.selfLabel),
    ("event_buffer", .number (.integer s.eventBuffer))]

/-- The record of settings. -/
def record : Record Settings where
  name := "RelayConfig"
  fields := [
    .withDefault "seen_cache_capacity" (fun _ => Decode.count) fun seenCapacity s =>
      { s with seenCapacity },
    .withDefault "compliance_dedup" (fun _ => Decode.boolean) fun complianceDedup s =>
      { s with complianceDedup },
    .withDefault "link_label" (fun _ => Decode.text) fun linkLabel s => { s with linkLabel },
    .withDefault "self_label" (fun _ => Decode.text) fun selfLabel s => { s with selfLabel },
    .withDefault "event_buffer" (fun _ => Decode.count) fun eventBuffer s =>
      { s with eventBuffer }]
  start := standard
  collect := none

/-- Decode settings. -/
def decode : Source → Term → Decoded Settings := record.decode

end Settings

end TrustMesh
