import TrustMesh.Proofs.Framework.Relaying
import TrustMesh.Proofs.Framework.Renumbering
import TrustMesh.Proofs.Relay.Journal
import TrustMesh.Proofs.Relay.Passing

/-!
# What a peer accepts and what it can relay

A framework is accepted from a text, and so is the content of a gossip. In a frame either
stands one container deeper. What a frame is decoded to is known for every proper body
(`Message.decode_encode_of_body`): if there is room for the value that it carries, that is
read with the numbers that its numerals stand for, and nothing else changes.

So what a peer accepts reaches the next peer as it is exactly if it leaves room for one more
container and its numbers are read back (`Engine.accepted_is_relayed`). The deepest values
that are accepted leave none: every peer drops the frames that carry them
(`Engine.deepest_are_dropped`).
-/

namespace TrustMesh

/-! ## Bodies -/

namespace Body

/-- The value that a body carries without interpreting all of it. -/
def payload : Body → Json
  | .gossip _ content _ => content
  | .complianceRequest framework => framework.toJson
  | _ => .null

/-- The body with the numbers that the numerals of its payload are read as. -/
def renumbered : Body → Body
  | .gossip members content graph => .gossip members content.renumbered graph
  | .complianceRequest framework => .complianceRequest framework.renumbered
  | body => body

theorem payload_renumbered (body : Body) : body.renumbered.payload = body.payload.renumbered := by
  cases body with
  | complianceRequest framework => exact framework.toJson_renumbered
  | _ => rfl

end Body

/-! ## Frames -/

namespace Message

variable {m : Message}

/-- What a frame with a proper body is decoded to: the message with other numbers in its payload, if the
payload can be read where it stands. -/
theorem decode_encode_of_body (proper : m.body.Proper) :
    decode m.encode = if (m.body.payload.reread 1).readable then
      .ok ⟨m.id, m.route, m.body.renumbered⟩ else .error .notJson := by
  obtain ⟨id, route, body⟩ := m
  cases body with
  | traceRequest target => exact Body.lucid_traceRequest target id route
  | traceResponse target graph => exact Body.lucid_traceResponse target proper id route
  | complianceResponse graph => exact Body.lucid_complianceResponse proper id route
  | gossip members content graph =>
    have peers : PeerId.decodeList ((PeerId.listToJson members).reread 1) = .ok members :=
      PeerId.decodeList_reread members (by decide)
    have listed : ((PeerId.listToJson members).reread 1).readable = true :=
      PeerId.readable_reread_list members (by decide)
    have read : Graph.decode .buffer (graph.toJson.reread 1) = .ok graph :=
      Graph.decode_reread proper.2 .buffer (by decide)
    have shown : (graph.toJson.reread 1).readable = true :=
      Graph.readable_reread graph (by decide)
    have value : (content.reread 1).readable = true →
        (content.reread 1).toJson = content.renumbered := by
      intro readable
      rw [content.reread_eq_renumbered 1 readable, Json.toJson_ofJson _ proper.1.renumbered]
    rw [decode_encode]
    cases readable : (content.reread 1).readable <;>
      simp [Body.terms, Body.members, Json.rereadMembers, Term.membersReadable, Term.text?, readable,
        listed, shown, Body.kind, Body.record, Body.graphField, Record.decode, Record.decodeMembers,
        Record.readMembers, Field.withDefault, Decode.any, value, peers, read, Except.map,
        Record.missing?, Body.ofFields, Body.payload, Body.renumbered]
  | complianceRequest framework =>
    have decoded : (framework.toJson.reread 1).readable = true →
        Framework.decode .buffer (framework.toJson.reread 1) = .ok framework.renumbered := by
      intro readable
      rw [framework.toJson.reread_eq_renumbered 1 readable, ← framework.toJson_renumbered,
        Framework.decode_ofJson proper.renumbered]
    rw [decode_encode]
    cases readable : (framework.toJson.reread 1).readable <;>
      simp [Body.terms, Body.members, Json.rereadMembers, Term.membersReadable, Term.text?, readable,
        Body.kind, Body.record, Record.decode, Record.decodeMembers, Record.readMembers,
        Field.required, decoded, Except.map, Record.missing?, Body.ofFields, Body.payload,
        Body.renumbered]

/-- A frame whose payload leaves no room for one more container cannot be decoded. -/
theorem room_of_decode (proper : m.body.Proper) {n : Message} (read : decode m.encode = .ok n) :
    m.body.payload.depth < maximalDepth := by
  rw [decode_encode_of_body proper] at read
  split at read
  · rename_i readable
    have room := Json.depth_le_of_readable _ 1 (by decide) readable
    omega
  · cases read

/-- A message with a proper body is read from its frame as it was exactly if its payload leaves room for
one more container and has numbers that are read back. -/
theorem decode_encode_iff (proper : m.body.Proper) : decode m.encode = .ok m ↔
    m.body.payload.depth < maximalDepth ∧ m.body.payload.Exact := by
  constructor
  · intro read
    refine ⟨room_of_decode proper read, ?_⟩
    rw [decode_encode_of_body proper] at read
    split at read
    · rename_i readable
      have same : m.body.renumbered = m.body := congrArg body (Except.ok.inj read)
      refine Json.exact_of_renumbered readable ?_
      rw [← m.body.payload_renumbered, same]
    · cases read
  · rintro ⟨room, exactly⟩
    obtain ⟨id, route, own⟩ := m
    have room : 1 + own.payload.depth ≤ maximalDepth := by
      dsimp only at room
      omega
    cases own with
    | traceRequest target => exact Body.lucid_traceRequest target id route
    | traceResponse target graph => exact Body.lucid_traceResponse target proper id route
    | complianceResponse graph => exact Body.lucid_complianceResponse proper id route
    | gossip members content graph =>
      exact Body.lucid_gossip members proper.1 proper.2 exactly room id route
    | complianceRequest framework =>
      exact Body.lucid_complianceRequest (proper.relayable exactly room) id route

end Message

/-! ## What is accepted -/

/-- A framework that was read from a text nests no deeper than texts may. -/
theorem Framework.depth_of_parse {cs : List Char} {f : Framework} (accepted : parse cs = .ok f) :
    f.toJson.depth ≤ maximalDepth := by
  have within := (of_decode (Decode.eq_ok_of_wholeText accepted)).2
  have whole := Term.depth_read_le cs
  have least : 6 ≤ maximalDepth := by decide
  omega

/-- A value that was read from a text is canonical and nests no deeper than texts may. -/
theorem Json.of_parse? {text : String} {v : Json} (accepted : parse? text = some v) :
    v.Canonical ∧ v.depth ≤ maximalDepth := by
  have whole := Term.depth_read_le text.toList
  unfold parse? at accepted
  split at accepted
  rename_i term ends same
  rw [same] at whole
  split at accepted
  · cases accepted
    exact ⟨term.canonical_toJson, Nat.le_trans term.depth_toJson_le whole⟩
  · cases accepted

/-- A canonical value whose numbers are read back is read from its text unless it is nested too deeply. -/
theorem Json.parse?_compact {v : Json} (canonical : v.Canonical) (kept : v.Exact)
    (shallow : v.depth ≤ maximalDepth) : parse? v.compact = some v := by
  have same := v.reread_eq_ofJson 0 kept (by omega)
  rw [parse?, compact, String.toList_ofList, read_chars, same]
  simp only [readable_ofJson, Bool.and_self, if_true, toJson_ofJson v canonical]

/-- What becomes of a frame that carries a value `v`: it is read as what was sent exactly if the value
leaves room for one more container and has numbers that are read back; whatever is read differs from
what was sent in such numbers alone; and if there is no room, every peer drops the frame. -/
structure Dispatch.Relays (o : Dispatch) (v : Json) : Prop where
  faithful : Message.decode o.frame = .ok o.message ↔ v.depth < maximalDepth ∧ v.Exact
  received : ∀ m, Message.decode o.frame = .ok m →
    m = { o.message with body := o.message.body.renumbered }
  dropped : v.depth = maximalDepth → ∀ (e : Engine) (s : Surroundings) (sender : Option PeerId),
    e.handleFrame s sender o.frame = e.drop .malformed

theorem Message.relays {o : Dispatch} (proper : o.message.body.Proper) :
    o.Relays o.message.body.payload where
  faithful := decode_encode_iff proper
  received := by
    intro m read
    have decoded := (decode_encode_of_body proper).symm.trans read
    split at decoded
    · exact (Except.ok.inj decoded).symm
    · cases decoded
  dropped := by
    intro full e s sender
    rw [Engine.handleFrame]
    cases read : Message.decode o.frame with
    | error fault => rfl
    | ok m =>
      have room := room_of_decode proper read
      omega

namespace Engine

/-- What a peer accepts it can relay, up to the limits of one more container and of numbers that are
read back. A framework that is accepted from a text, and a content that is read from one, nest no deeper
than texts may; and the frame with which a query for the framework, or a gossip of the content, is
started carries it to the next peer as it is exactly if it leaves room for one more container and its
numbers are read back. -/
theorem accepted_is_relayed (e : Engine) (s : Surroundings) (id : MessageId) :
    (∀ cs f, Framework.parse cs = .ok f → f.toJson.depth ≤ maximalDepth ∧
      ∀ o ∈ (e.start s id (.comply f)).offered,
        o.message.body = .complianceRequest f ∧ o.Relays f.toJson) ∧
    (∀ text content, Json.parse? text = some content → content.depth ≤ maximalDepth ∧
      ∀ members, ∀ o ∈ (e.start s id (.gossip members content)).offered,
        (∃ graph, o.message.body = .gossip members content graph) ∧ o.Relays content) := by
  constructor
  · intro cs f accepted
    refine ⟨Framework.depth_of_parse accepted, fun o mem => ?_⟩
    have body : o.message.body = .complianceRequest f := start_composes mem
    have proper : o.message.body.Proper :=
      body ▸ Framework.Parsed.proper (.inl ⟨cs, accepted⟩)
    have relays := Message.relays proper
    rw [body] at relays
    exact ⟨body, relays⟩
  · intro text content accepted
    obtain ⟨canonical, shallow⟩ := Json.of_parse? accepted
    refine ⟨shallow, fun members o mem => ?_⟩
    have body : o.message.body = .gossip members content _ := start_composes mem
    have proper : o.message.body.Proper := body ▸ ⟨canonical, Graph.sound_single ..⟩
    have relays := Message.relays proper
    rw [body] at relays
    exact ⟨⟨_, body⟩, relays⟩

/-- Arrays in arrays. -/
def nested : Nat → Json
  | 0 => .array []
  | levels + 1 => .array [nested levels]

theorem canonical_nested : ∀ levels, (nested levels).Canonical
  | 0 => trivial
  | levels + 1 => ⟨canonical_nested levels, trivial⟩

theorem exact_nested : ∀ levels, (nested levels).Exact
  | 0 => trivial
  | levels + 1 => ⟨exact_nested levels, trivial⟩

/-- The framework that says nothing but keeps nested arrays. -/
def keeping (levels : Nat) : Framework := ⟨[], [], [], [], [], .ofList [("note", nested levels)]⟩

theorem exact_keeping (levels : Nat) : (keeping levels).toJson.Exact :=
  ⟨trivial, trivial, trivial, trivial, exact_nested levels, trivial⟩

theorem proper_keeping (levels : Nat) : (keeping levels).Proper where
  schemas := List.forall_mem_nil _
  credDefs := List.forall_mem_nil _
  participants := List.forall_mem_nil _
  permissions := List.forall_mem_nil _
  extra := List.forall_mem_singleton.2
    ⟨show "note" ∉ Framework.fields by decide, canonical_nested levels⟩

/-- A framework and a content that leave room for one more container, and no more, reach the neighbour
as they are. -/
theorem accepted_is_relayed_last :
    let s : Surroundings := .among ⟨"A"⟩ [⟨"B"⟩]
    let f : Framework := keeping 124
    let content : Json := nested 125
    let asked : Message := ⟨.zero, [⟨"A"⟩], .complianceRequest f⟩
    let told : Message := ⟨.zero, [⟨"A"⟩], .gossip [⟨"B"⟩] content (.single ⟨"A"⟩ ["P2P"])⟩
    (Framework.parse f.toJson.chars = .ok f ∧
      ((fresh ⟨"A"⟩).start s .zero (.comply f)).offered = [⟨⟨⟨"A"⟩, ⟨"B"⟩⟩, asked⟩] ∧
      Message.decode asked.encode = .ok asked) ∧
    Json.parse? content.compact = some content ∧
      ((fresh ⟨"A"⟩).start s .zero (.gossip [⟨"B"⟩] content)).offered = [⟨⟨⟨"A"⟩, ⟨"B"⟩⟩, told⟩] ∧
      Message.decode told.encode = .ok told := by
  intro s f content asked told
  obtain ⟨frameworks, contents⟩ := accepted_is_relayed (fresh ⟨"A"⟩) s .zero
  have accepted : Framework.parse f.toJson.chars = .ok f :=
    Framework.parse_chars (proper_keeping 124) (exact_keeping 124) (by decide +kernel)
  have accepted' : Json.parse? content.compact = some content :=
    Json.parse?_compact (canonical_nested 125) (exact_nested 125) (by decide +kernel)
  have offered : ((fresh ⟨"A"⟩).start s .zero (.comply f)).offered =
      [⟨⟨⟨"A"⟩, ⟨"B"⟩⟩, asked⟩] := by decide +kernel
  have offered' : ((fresh ⟨"A"⟩).start s .zero (.gossip [⟨"B"⟩] content)).offered =
      [⟨⟨⟨"A"⟩, ⟨"B"⟩⟩, told⟩] := by decide +kernel
  have relays := ((frameworks _ _ accepted).2 _ (offered ▸ List.mem_singleton_self _)).2
  have relays' := ((contents _ _ accepted').2 _ _ (offered' ▸ List.mem_singleton_self _)).2
  exact ⟨⟨accepted, offered, relays.faithful.2 ⟨by decide +kernel, exact_keeping 124⟩⟩,
    accepted', offered', relays'.faithful.2 ⟨by decide +kernel, exact_nested 125⟩⟩

/-- Not all that is accepted can be relayed: the frame of the deepest framework cannot be decoded at all,
nor can that of the deepest content. -/
theorem deepest_are_dropped :
    let e : Engine := fresh ⟨"A"⟩
    let s : Surroundings := .among ⟨"A"⟩ [⟨"B"⟩]
    (¬ ∀ cs f, Framework.parse cs = .ok f → ∀ o ∈ (e.start s .zero (.comply f)).offered,
      ∃ m, Message.decode o.frame = .ok m) ∧
    ¬ ∀ text content, Json.parse? text = some content →
      ∀ o ∈ (e.start s .zero (.gossip [⟨"B"⟩] content)).offered,
        ∃ m, Message.decode o.frame = .ok m := by
  intro e s
  constructor
  · intro all
    let asked : Message := ⟨.zero, [⟨"A"⟩], .complianceRequest (keeping 125)⟩
    have accepted : Framework.parse (keeping 125).toJson.chars = .ok (keeping 125) :=
      Framework.parse_chars (proper_keeping 125) (exact_keeping 125) (by decide +kernel)
    obtain ⟨m, read⟩ := all _ _ accepted ⟨⟨⟨"A"⟩, ⟨"B"⟩⟩, asked⟩ (by decide +kernel)
    exact absurd (Message.room_of_decode (m := asked) (proper_keeping 125) read) (by decide +kernel)
  · intro all
    let told : Message := ⟨.zero, [⟨"A"⟩], .gossip [⟨"B"⟩] (nested 126) (.single ⟨"A"⟩ ["P2P"])⟩
    have accepted : Json.parse? (nested 126).compact = some (nested 126) :=
      Json.parse?_compact (canonical_nested 126) (exact_nested 126) (by decide +kernel)
    obtain ⟨m, read⟩ := all _ _ accepted ⟨⟨⟨"A"⟩, ⟨"B"⟩⟩, told⟩ (by decide +kernel)
    have proper : told.body.Proper := ⟨canonical_nested 126, Graph.sound_single ..⟩
    exact absurd (Message.room_of_decode proper read) (by decide +kernel)

/-- A number whose numeral is read as the number below it. -/
def drifting : Number := .binary ⟨false, 8950672282732053, -118, by decide, by decide, by decide⟩

theorem not_exact_drifting : ¬ (Json.number drifting).Exact := by
  intro kept
  have read : drifting.reread = .number drifting := kept
  have same : drifting.again = drifting := by rw [Number.again, read]
  exact absurd same (by decide +kernel)

/-- A number that drifts is accepted as a content, and no frame carries it to the neighbour. -/
theorem drifting_is_not_relayed :
    Json.parse? "2.6934949643297685e-20" = some (.number drifting) ∧
      ∀ o ∈ ((fresh ⟨"A"⟩).start (.among ⟨"A"⟩ [⟨"B"⟩]) .zero
        (.gossip [⟨"B"⟩] (.number drifting))).offered, Message.decode o.frame ≠ .ok o.message := by
  refine ⟨by decide +kernel, fun o mem read => ?_⟩
  have body : o.message.body = .gossip [⟨"B"⟩] (.number drifting) _ := start_composes mem
  have proper : o.message.body.Proper := body ▸ ⟨trivial, Graph.sound_single ..⟩
  have exactly := ((Message.decode_encode_iff proper).1 read).2
  rw [body] at exactly
  exact not_exact_drifting exactly

end Engine

end TrustMesh
