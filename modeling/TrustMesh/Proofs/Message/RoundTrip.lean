import TrustMesh.Proofs.Framework.Codec
import TrustMesh.Proofs.Graph.Building
import TrustMesh.Proofs.Message.Codec

/-!
# Messages that survive their frames

A body is proper if its graph is sound, its framework is proper and its content is
canonical (`Body.Proper`). Every body that was read is, and the message around it nests no
deeper than messages may (`Message.proper_of_decode`). A message with a proper body that is
not nested too deeply is read from its frame as it was, as long as its numbers are read
back (`Message.decode_encode_of_proper`).
-/

namespace TrustMesh

/-- A framework that was read from a text or from a value. -/
def Framework.Parsed (f : Framework) : Prop :=
  (∃ text, parse text = .ok f) ∨ ∃ value, Framework.ofJson value = .ok f

theorem Decode.eq_ok_of_wholeText {α : Type} {decode : Source → Term → Decoded α} {cs : List Char}
    {a : α} (read : wholeText decode cs = .ok a) : decode .text (Term.read cs).term = .ok a := by
  unfold wholeText at read
  split at read
  rename_i term ends same
  rw [same]
  split at read
  · rename_i found
    split at read
    · cases read
      exact found
    · cases read
  · cases read

theorem Decode.eq_of_any {t : Term} {v : Json} (read : any t = .ok v) : t.toJson = v := by
  unfold any at read
  split at read
  · exact Except.ok.inj read
  · cases read

theorem Framework.Parsed.proper {f : Framework} (parsed : f.Parsed) : f.Proper := by
  rcases parsed with ⟨text, read⟩ | ⟨value, read⟩
  · exact (of_decode (Decode.eq_ok_of_wholeText read)).1
  · exact (of_decode read).1

namespace Body

/-- A body whose parts are as they may have been read. -/
def Proper : Body → Prop
  | .traceRequest _ => True
  | .traceResponse _ graph => graph.Sound
  | .gossip _ content graph => content.Canonical ∧ graph.Sound
  | .complianceRequest framework => framework.Proper
  | .complianceResponse graph => graph.Sound

/-- A body whose graph was built, whose framework was read, and whose content is any value. -/
def Admissible : Body → Prop
  | .traceRequest _ => True
  | .traceResponse _ graph => graph.Built
  | .gossip _ content graph => content.Canonical ∧ graph.Built
  | .complianceRequest framework => framework.Parsed
  | .complianceResponse graph => graph.Built

theorem Admissible.proper {body : Body} (admissible : body.Admissible) : body.Proper := by
  cases body with
  | traceRequest target => trivial
  | traceResponse target graph => exact Graph.Built.sound admissible
  | gossip members content graph => exact ⟨admissible.1, admissible.2.sound⟩
  | complianceRequest framework => exact Framework.Parsed.proper admissible
  | complianceResponse graph => exact Graph.Built.sound admissible

end Body

/-! ## The way there and back -/

/-- A proper framework whose numbers are read back can be relayed unless it is nested too deeply. -/
theorem Framework.Proper.relayable {f : Framework} (proper : f.Proper) (kept : f.toJson.Exact)
    (shallow : 1 + f.toJson.depth ≤ maximalDepth) : f.Relayable := by
  have same := Json.reread_eq_ofJson f.toJson 1 kept shallow
  have read : Framework.decode .buffer (f.toJson.reread 1) = .ok f := by
    rw [same, decode_ofJson proper]
  have readable : (f.toJson.reread 1).readable = true := by
    rw [same, Json.readable_ofJson]
  rw [Relayable, Message.decode_encode]
  simp [Body.terms, Body.members, Json.rereadMembers, Term.membersReadable, Term.text?, readable,
    Body.kind, Body.record, Record.decode, Record.decodeMembers, Record.readMembers, Field.required,
    read, Except.map, Record.missing?, Body.ofFields]

theorem PeerId.readable_reread_list (peers : List PeerId) {depth : Nat}
    (shallow : depth < maximalDepth) : ((listToJson peers).reread depth).readable = true := by
  rw [listToJson, Json.reread, Term.atDepth_of_lt shallow, Json.rereadItems_eq_map, List.map_map]
  exact Term.itemsReadable_map fun _ _ => rfl

/-- A gossip with a sound graph and canonical content whose numbers are read back is read as it was
unless the content is nested too deeply. -/
theorem Body.lucid_gossip (members : List PeerId) {content : Json} {graph : Graph}
    (canonical : content.Canonical) (sound : graph.Sound) (kept : content.Exact)
    (shallow : 1 + content.depth ≤ maximalDepth) : (gossip members content graph).Lucid := by
  intro id route
  have same := Json.reread_eq_ofJson content 1 kept shallow
  have readable : (content.reread 1).readable = true := by
    rw [same, Json.readable_ofJson]
  have value : (content.reread 1).toJson = content := by
    rw [same, Json.toJson_ofJson content canonical]
  have peers : PeerId.decodeList ((PeerId.listToJson members).reread 1) = .ok members :=
    PeerId.decodeList_reread members (by decide)
  have listed : ((PeerId.listToJson members).reread 1).readable = true :=
    PeerId.readable_reread_list members (by decide)
  have read : Graph.decode .buffer (graph.toJson.reread 1) = .ok graph :=
    Graph.decode_reread sound .buffer (by decide)
  have shown : (graph.toJson.reread 1).readable = true := Graph.readable_reread graph (by decide)
  rw [Message.decode_encode]
  simp [terms, Body.members, Json.rereadMembers, Term.membersReadable, Term.text?, readable, listed,
    shown, kind, record, graphField, Record.decode, Record.decodeMembers, Record.readMembers,
    Field.withDefault, Decode.any, value, peers, read, Except.map, Record.missing?, ofFields]

theorem PeerId.depth_listToJson (peers : List PeerId) : (PeerId.listToJson peers).depth = 1 := by
  have flat := Json.itemsDepth_texts (peers.map PeerId.text)
  rw [List.map_map] at flat
  rw [PeerId.listToJson, Json.depth, show Json.itemsDepth (peers.map fun p => .text p.text) = 0 from flat]

namespace Message

/-- A message with a proper body is read from its frame as it was, as long as it is not nested too deeply
and its numbers are read back. -/
theorem decode_encode_of_proper {m : Message} (proper : m.body.Proper)
    (shallow : m.toJson.depth ≤ maximalDepth) (kept : m.toJson.Exact) : decode m.encode = .ok m := by
  obtain ⟨id, route, body⟩ := m
  have exactly : ∀ member ∈ body.members, member.2.Exact := by
    intro member there
    have each := Json.membersExact_iff.1 kept
    exact each member (by simp [there])
  have within : ∀ member ∈ body.members, 1 + member.2.depth ≤ maximalDepth := by
    intro member there
    rw [toJson, Json.depth] at shallow
    have inner := Nat.le_sub_of_add_le' shallow
    have each := Json.membersDepth_le_iff.1 inner member (by simp [there])
    omega
  have lucid : body.Lucid := by
    cases body with
    | traceRequest target => exact Body.lucid_traceRequest target
    | traceResponse target graph => exact Body.lucid_traceResponse target proper
    | gossip members content graph =>
      have member : ("content", content) ∈ (Body.gossip members content graph).members := by
        simp [Body.members]
      exact Body.lucid_gossip members proper.1 proper.2 (exactly _ member) (within _ member)
    | complianceRequest framework =>
      have member : ("doc", framework.toJson) ∈ (Body.complianceRequest framework).members := by
        simp [Body.members]
      exact Body.lucid_complianceRequest
        (Framework.Proper.relayable proper (exactly _ member) (within _ member))
    | complianceResponse graph => exact Body.lucid_complianceResponse proper
  exact lucid id route

/-! ## What was read -/

end Message

namespace Body

/-- Fields as they may have been read from a part of a message. -/
structure Fields.Proper (f : Fields) : Prop where
  content : f.content.Canonical ∧ f.content.depth < maximalDepth
  framework : f.framework.Proper ∧ f.framework.toJson.depth < maximalDepth
  graph : f.graph.Sound

theorem Fields.proper_start : Fields.start.Proper := by
  refine ⟨⟨trivial, by decide⟩, ⟨?_, by decide⟩, Graph.sound_empty⟩
  constructor <;> exact fun _ there => (nomatch there)

/-- Every field of a body keeps the fields proper. -/
theorem Fields.Proper.read {kind : MessageKind} {field : Field Fields}
    (known : field ∈ (record kind).fields) {t : Term} (shallow : t.depth < maximalDepth)
    {source : Source} {before after : Fields} (proper : before.Proper)
    (read : field.read source t before = .ok after) : after.Proper := by
  have targets : ∀ {target}, Fields.Proper { before with target } := ⟨proper.1, proper.2, proper.3⟩
  have graphs : ∀ {source after},
      (Graph.decode source t).map (fun graph => { before with graph }) = .ok after →
        after.Proper := by
    intro source after read
    obtain ⟨graph, found, rfl⟩ := Except.eq_ok_of_map read
    exact { proper with graph := Graph.sound_of_decode found }
  cases kind with
  | traceRequest =>
    simp only [record, List.mem_cons, List.not_mem_nil, or_false] at known
    subst known
    obtain ⟨_, -, rfl⟩ := Except.eq_ok_of_map read
    exact targets
  | traceResponse =>
    simp only [record, List.mem_cons, List.not_mem_nil, or_false] at known
    rcases known with rfl | rfl
    · obtain ⟨_, -, rfl⟩ := Except.eq_ok_of_map read
      exact targets
    · exact graphs read
  | gossip =>
    simp only [record, List.mem_cons, List.not_mem_nil, or_false] at known
    rcases known with rfl | rfl | rfl
    · obtain ⟨_, -, rfl⟩ := Except.eq_ok_of_map read
      exact { proper with }
    · obtain ⟨content, found, rfl⟩ := Except.eq_ok_of_map read
      cases Decode.eq_of_any found
      exact { proper with
        content := ⟨t.canonical_toJson, Nat.lt_of_le_of_lt t.depth_toJson_le shallow⟩ }
    · exact graphs read
  | complianceRequest =>
    simp only [record, List.mem_cons, List.not_mem_nil, or_false] at known
    subst known
    obtain ⟨framework, found, rfl⟩ := Except.eq_ok_of_map read
    obtain ⟨own, within⟩ := Framework.of_decode found
    refine { proper with framework := ⟨own, ?_⟩ }
    rw [maximalDepth] at *
    dsimp only
    omega
  | complianceResponse =>
    simp only [record, List.mem_cons, List.not_mem_nil, or_false] at known
    subst known
    exact graphs read

/-- What is left when the type is taken out stood among the members. -/
theorem mem_of_splitType {kind found : Option MessageKind} {members others : List (Term × Term)}
    (split : splitType kind members = .ok (found, others)) : ∀ m ∈ others, m ∈ members := by
  induction members generalizing kind others with
  | nil =>
    cases split
    exact fun _ there => there
  | cons member rest ih =>
    have kept : ∀ {others}, (splitType kind rest).map (fun x => (x.1, member :: x.2)) =
        .ok (found, others) → ∀ m ∈ others, m ∈ member :: rest := by
      intro others split
      obtain ⟨⟨_, later⟩, inner, same⟩ := Except.eq_ok_of_map split
      cases same
      intro m there
      rcases List.mem_cons.1 there with rfl | there
      · exact List.mem_cons_self ..
      · exact List.mem_cons_of_mem _ (ih inner m there)
    obtain ⟨key, value⟩ := member
    cases key with
    | text key =>
      rw [splitType] at split
      split at split
      · split at split
        · cases split
        · split at split
          · exact fun m there => List.mem_cons_of_mem _ (ih split m there)
          · cases split
      · exact kept split
    | _ => exact kept split

/-- A body that was read is proper, and its members nest less deep than messages may. -/
theorem of_decode {members : List (Term × Term)} {body : Body}
    (within : ∀ m ∈ members, m.2.depth < maximalDepth) (read : decode members = .ok body) :
    body.Proper ∧ ∀ m ∈ body.members, m.2.depth < maximalDepth := by
  unfold decode at read
  split at read
  · cases read
  · cases read
  · rename_i kind others split
    obtain ⟨fields, decoded, rfl⟩ := Except.eq_ok_of_map read
    have whole : (Term.object others).depth ≤ maximalDepth := by
      have inner : Term.membersDepth others ≤ maximalDepth - 1 :=
        Term.membersDepth_le fun m there => Nat.le_sub_one_of_lt (within m (mem_of_splitType split m there))
      have room : 0 < maximalDepth := by decide
      rw [Term.depth]
      omega
    have proper : fields.Proper := by
      have begun : (record kind).start = .start := by cases kind <;> rfl
      have skips : (record kind).collect = none := by cases kind <;> rfl
      refine Record.decode_induction
        (fun f known t before after shallow proper read =>
          Fields.Proper.read known (Nat.lt_of_lt_of_le shallow whole) proper read)
        (fun add collects => ?_) (begun ▸ Fields.proper_start) decoded
      rw [skips] at collects
      cases collects
    have graph : fields.graph.toJson.depth < maximalDepth :=
      Nat.lt_of_le_of_lt (Graph.depth_toJson_le _) (by decide)
    have listed : (PeerId.listToJson fields.members).depth < maximalDepth := by
      rw [PeerId.depth_listToJson]
      decide
    have flat : ∀ text, (Json.text text).depth < maximalDepth :=
      fun _ => show 0 < maximalDepth by decide
    cases kind with
    | traceRequest => exact ⟨trivial, by simpa [ofFields, Body.members] using flat _⟩
    | traceResponse =>
      exact ⟨proper.graph, by simpa [ofFields, Body.members] using ⟨flat _, graph⟩⟩
    | gossip =>
      exact ⟨⟨proper.content.1, proper.graph⟩,
        by simpa [ofFields, Body.members] using ⟨listed, proper.content.2, graph⟩⟩
    | complianceRequest =>
      exact ⟨proper.framework.1, by simpa [ofFields, Body.members] using proper.framework.2⟩
    | complianceResponse => exact ⟨proper.graph, by simpa [ofFields, Body.members] using graph⟩

end Body

namespace Message

/-- The members that a message collects nest less deep than the message. -/
theorem depth_lt_of_decode {source : Source} {t : Term} {outer : Sealed}
    (read : record.decode source t = .ok outer) : ∀ m ∈ outer.members, m.2.depth < t.depth := by
  refine Record.decode_induction (P := fun m : Sealed => ∀ member ∈ m.members, member.2.depth < t.depth)
    ?_ ?_ (List.forall_mem_nil _) read
  · intro f mem value before after _ within read
    simp only [record, List.mem_cons, List.not_mem_nil, or_false] at mem
    rcases mem with rfl | rfl <;>
    · obtain ⟨_, -, rfl⟩ := Except.eq_ok_of_map read
      exact within
  · intro add collects key value before _ shallow within
    cases collects
    exact List.forall_mem_append.2 ⟨within, List.forall_mem_singleton.2 shallow⟩

/-- A message that was read has a proper body and is not nested too deeply. -/
theorem proper_of_decode {frame : Frame} {m : Message} (read : decode frame = .ok m) :
    m.body.Proper ∧ m.toJson.depth ≤ maximalDepth := by
  have whole := Term.depth_read_le (Utf8.decode frame)
  have decoded := Decode.eq_ok_of_wholeText read
  rw [decodeTerm] at decoded
  cases sealed : record.decode .text (Term.read (Utf8.decode frame)).term with
  | error fault =>
    rw [sealed] at decoded
    cases decoded
  | ok outer =>
    rw [sealed] at decoded
    cases opened : Body.decode outer.members with
    | error fault =>
      simp only [bind, Except.bind, opened] at decoded
      cases decoded
    | ok body =>
      simp only [bind, Except.bind, opened] at decoded
      cases decoded
      obtain ⟨proper, shallow⟩ := Body.of_decode
        (fun m there => Nat.lt_of_lt_of_le (depth_lt_of_decode sealed m there) whole) opened
      refine ⟨proper, ?_⟩
      have members : Json.membersDepth body.members ≤ maximalDepth - 1 :=
        Json.membersDepth_le_iff.2 fun m there => Nat.le_sub_one_of_lt (shallow m there)
      have room : 1 < maximalDepth := by decide
      simp only [toJson, Json.depth, Json.membersDepth, PeerId.depth_listToJson]
      omega

/-- Messages survive their frames. A message that was read from any frame is read again from its own
frame as it was; and so is every message whose graph was built, whose framework was read and whose
frame is not nested too deeply. Of numbers it is assumed that they are read back. -/
theorem round_trip :
    (∀ frame m, decode frame = .ok m → m.toJson.Exact → decode m.encode = .ok m) ∧
    (∀ m : Message, m.body.Admissible → m.toJson.depth ≤ maximalDepth → m.toJson.Exact →
      decode m.encode = .ok m) := by
  constructor
  · intro frame m read kept
    obtain ⟨proper, shallow⟩ := proper_of_decode read
    exact decode_encode_of_proper proper shallow kept
  · intro m admissible shallow kept
    exact decode_encode_of_proper admissible.proper shallow kept

/-- The frame of a request that states its type by number, its identifier without hyphens and its rules
before the roles, and asks for something that is not understood. -/
def lenientFrame : Frame :=
  Utf8.encode (
    "\x7b\"@type\":3,\"doc\":\x7b\"since\":2024,".toList ++
    "\"permissions\":[\x7b\"when\":\x7b\"any\":[\x7b\"proof\":\"p\"\x7d]\x7d,".toList ++
    "\"grant\":[\"r\"]\x7d],\"roles\":[\"r\"],\"participants\":[],\"schemas\":[]\x7d,".toList ++
    "\"@id\":\"00000000000000000000000000000000\"\x7d".toList)

/-- The request of that frame. -/
def lenientRequest : Message :=
  ⟨.zero, [], .complianceRequest ⟨[], [], [], ["r"],
    [⟨.ofList ["r"], .any [.unrecognized (.ofList [("proof", .text "p")])]⟩],
    .ofList [("since", .number (.integer 2024))]⟩⟩

/-- A gossip under way, with content and a graph. -/
def sampleGossip : Message :=
  ⟨.zero, [⟨"A"⟩], .gossip [⟨"A"⟩, ⟨"B"⟩] (.object [("note", .array [.null, .bool true])])
    (Graph.single ⟨"A"⟩ ["P2P"])⟩

theorem round_trip_samples :
    decode lenientFrame = .ok lenientRequest ∧ decode lenientRequest.encode = .ok lenientRequest ∧
      decode sampleGossip.encode = .ok sampleGossip := by
  have read : decode lenientFrame = .ok lenientRequest := by
    rw [decode, lenientFrame, Utf8.decode_encode]
    decide +kernel
  have kept : lenientRequest.toJson.Exact := by repeat' constructor
  have built : sampleGossip.body.Admissible :=
    ⟨⟨List.pairwise_singleton .., ⟨trivial, trivial, trivial⟩, trivial⟩, .addLabels _ _ .empty⟩
  have plain : sampleGossip.toJson.Exact := by repeat' constructor
  exact ⟨read, round_trip.1 _ _ read kept, round_trip.2 sampleGossip built (by decide +kernel) plain⟩

end Message

end TrustMesh
