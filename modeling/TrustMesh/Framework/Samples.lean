import TrustMesh.Framework.Basic

/-!
# Sample frameworks

Two frameworks to try things on: one for cross-border trade, one for border cargo.
-/

namespace TrustMesh.Framework

/-- The members of a framework that say what it is. -/
def heading (name : String) (topics : List String) : OrderedMap String Json :=
  .ofList ([
    ("@context", .array [.text ("https://github.com/hyperledger/aries-rfcs/blob/main/concepts/" ++
      "0430-machine-readable-governance-frameworks/context.jsonld")]),
    ("format", .text "1.0"),
    ("name", .text name),
    ("version", .text "0.2")] ++
    if topics.isEmpty then [] else [("topics", .array (topics.map .text))])

/-- A participant with a description: a label and, if it has one, a site. -/
def describedParticipant (name id label : String) (site : Option String) : Participant where
  id := id
  name := some name
  did := none
  extra := .ofList [("describe", Json.ofMembers (("label", .text label) ::
    match site with
    | some site => [("website", .text site)]
    | none => []))]

/-- The framework for cross-border trade. -/
def trade : Framework where
  schemas := [
    .named "Gk6YNB9x5w6FwhNBUKjUEY:2:Trade-License:1.0" "Trade Licence",
    .named "9MG2vmFLem8p4VBmcu3DRV:2:Tax-Payer:1.0" "Tax Payer licence"]
  credDefs := [.named "Gk6YNB9x5w6FwhNBUKjUEY:3:CL:8974:EXPORTER" "Exporter Licence"]
  participants := [
    describedParticipant "trade_ministry" "did:sov:Gk6YNB9x5w6FwhNBUKjUEY" "Ministry of Trade"
      (some "trade.example.org"),
    describedParticipant "tax_office" "did:sov:9MG2vmFLem8p4VBmcu3DRV" "Tax Office"
      (some "tax.example.org"),
    describedParticipant "sulfur_manufacturer" "did:sov:Hzp6tiXwVbTwdU8eRWiN2M"
      "Sulfur Works JSC" (some "sulfur.example.org")]
  roles := ["trader", "exporter", "licenser"]
  permissions := [
    ⟨.ofList ["trader"], .all [
      .schema "Trade Licence" (some "trade_ministry"),
      .schema "Tax Payer licence" (some "tax_office")]⟩,
    ⟨.ofList ["licenser"], .any [.identity "did:sov:Hzp6tiXwVbTwdU8eRWiN2M"]⟩,
    ⟨.ofList ["exporter"], .any [.credDef "Exporter Licence"]⟩]
  extra := heading "Cross-border Trade Framework" ["trading, manufacturing"]

/-- The framework for border cargo. -/
def border : Framework where
  schemas := [
    .named "2QLCb1LX6w5DAWqZj8Uq6A:2:Dual Purpose License:1.0" "Dual purpose cargo permit",
    .named "HahGzAQHe413h6np218TEx:2:Trading License:1.0" "Industry and trade permit"]
  credDefs := []
  participants := [
    describedParticipant "border_service" "did:sov:2QLCb1LX6w5DAWqZj8Uq6A" "Border Service" none,
    describedParticipant "trade_ministry" "did:sov:HahGzAQHe413h6np218TEx" "Trading Ministry" none]
  roles := ["trader", "dual_purpose_cargo_licenser"]
  permissions := [
    ⟨.ofList ["trader"], .all [.schema "Industry and trade permit" (some "trade_ministry")]⟩,
    ⟨.ofList ["dual_purpose_cargo_licenser"],
      .any [.schema "Dual purpose cargo permit" (some "border_service")]⟩]
  extra := heading "Border Cargo Framework" []

end TrustMesh.Framework
