import TrustMesh.Message.Codec
import TrustMesh.Proofs.Graph.Codec

/-!
# Messages that were encoded

A message that can be decoded from its frame keeps its identifier, its route and its kind
(`Message.kept_of_decode`). Whether it is decoded as it was depends on its body alone
(`Body.Lucid`). The bodies of searches and the answers to compliance queries are; for a
request it is a condition on its framework (`Framework.Relayable`). Nothing is said of the
content of a gossip.
-/

namespace TrustMesh

/-! ## Identifiers -/

namespace MessageId

theorem mapM_hexChar (digits : List (Fin 16)) :
    (digits.map Text.hexChar).mapM Text.hexValue? = some digits := by
  induction digits with
  | nil => rfl
  | cons digit rest ih => simp [Text.hexValue?_hexChar, ih]

/-- Groups of digits are read as they were written. -/
theorem readGroups_writeGroups {sizes : List Nat} {digits : List (Fin 16)} (some : sizes ≠ [])
    (all : sizes.foldr (· + ·) 0 = digits.length) :
    readGroups sizes (writeGroups sizes digits) = .some digits := by
  induction sizes generalizing digits with
  | nil => exact (some rfl).elim
  | cons size sizes ih =>
    cases sizes with
    | nil =>
      have whole : digits.take size = digits := List.take_of_length_le (by simp at all; omega)
      simp only [writeGroups, readGroups, whole, mapM_hexChar]
      simp at all
      simp [all]
    | cons next later =>
      have short : ((digits.take size).map Text.hexChar).length = size := by
        simp at all ⊢
        omega
      have front : (writeGroups (size :: next :: later) digits).take size =
          (digits.take size).map Text.hexChar := List.take_left' short
      have back : (writeGroups (size :: next :: later) digits).drop size =
          '-' :: writeGroups (next :: later) (digits.drop size) := List.drop_left' short
      have later : (next :: later).foldr (· + ·) 0 = (digits.drop size).length := by
        simp at all ⊢
        omega
      have others := ih (by simp) later
      simp only [readGroups, front, back, mapM_hexChar, others]
      simp

theorem length_chars (id : MessageId) : id.chars.length = 36 := by
  simp [chars, groups, writeGroups, id.length_digits]

/-- The text of an identifier is neither in braces nor a URN. -/
theorem bare_chars (id : MessageId) : bare id.chars = id.chars := by
  obtain ⟨digit, rest, digits⟩ : ∃ digit rest, id.digits = digit :: rest := by
    refine List.exists_cons_of_ne_nil fun none => ?_
    have length := id.length_digits
    rw [none] at length
    cases length
  have plain : ∀ digit, Text.hexChar digit ≠ '\x7b' := by decide
  have first : id.chars = Text.hexChar digit :: id.chars.tail := by
    simp [chars, groups, writeGroups, digits]
  unfold bare
  split
  · rename_i brace
    rw [first] at brace
    exact (plain digit (List.cons.inj brace).1).elim
  · rw [if_neg]
    rw [length_chars]
    omega

/-- An identifier is decoded from its text. -/
theorem decode_text (id : MessageId) : decode (.text id.text) = .ok id := by
  have read : readGroups groups id.chars = some id.digits :=
    readGroups_writeGroups (by decide) id.length_digits.symm
  have found : ofChars? id.chars = some id := by
    rw [ofChars?, if_neg (by rw [length_chars]; decide), bare_chars, read]
    exact dif_pos id.length_digits
  simp [decode, text, found]

end MessageId

/-- A list of peers is read as it was. -/
theorem PeerId.decodeList_reread (peers : List PeerId) {depth : Nat} (shallow : depth < maximalDepth) :
    decodeList ((listToJson peers).reread depth) = .ok peers := by
  have each : Decode.list decode
      (.array (peers.map (Json.reread (depth + 1) ∘ fun p => Json.text p.text))) =
        .ok (peers.map fun p => p) :=
    Decode.list_map fun _ _ => rfl
  rw [List.map_id'] at each
  rw [listToJson, Json.reread, Term.atDepth_of_lt shallow, Json.rereadItems_eq_map, List.map_map]
  exact each

/-! ## Members -/

namespace Message

/-- Members that belong to the body are collected, if they can be read. -/
theorem readMembers_body {members : List (String × Json)}
    (foreign : ∀ m ∈ members, m.1 ≠ "@id" ∧ m.1 ≠ "route") (seen : List String) (outer : Sealed)
    (depth : Nat) :
    record.readMembers .text seen outer (Json.rereadMembers depth members) =
      if Term.membersReadable (Json.rereadMembers depth members) then
        .ok (seen, { outer with members := outer.members ++ Json.rereadMembers depth members })
      else .error .notJson := by
  induction members generalizing outer with
  | nil => simp [Json.rereadMembers, Record.readMembers, Term.membersReadable]
  | cons member rest ih =>
    obtain ⟨key, value⟩ := member
    obtain ⟨⟨id, route⟩, foreign⟩ := List.forall_mem_cons.1 foreign
    have unknown : record.fields.find? (·.name = key) = none := by
      simp [record, Field.required, Field.withDefault, Ne.symm id, Ne.symm route]
    have collects : record.collect =
        some fun key value outer => { outer with members := outer.members ++ [(.text key, value)] } :=
      rfl
    rw [Json.rereadMembers, Record.readMembers, unknown]
    simp only [collects, Term.membersReadable, Term.text?, Option.isSome_some, Bool.true_and]
    cases readable : (value.reread depth).readable with
    | true => simp [ih foreign]
    | false => simp

/-- Members that belong to the body are no types. -/
theorem splitType_body {members : List (String × Json)}
    (foreign : ∀ m ∈ members, m.1 ≠ Body.typeKey) (kind : Option MessageKind) (depth : Nat) :
    Body.splitType kind (Json.rereadMembers depth members) =
      .ok (kind, Json.rereadMembers depth members) := by
  induction members with
  | nil => rfl
  | cons member rest ih =>
    obtain ⟨key, value⟩ := member
    obtain ⟨other, foreign⟩ := List.forall_mem_cons.1 foreign
    rw [Json.rereadMembers, Body.splitType, if_neg other, ih foreign]
    rfl

end Message

/-- The members of a body are told from those of the message around it. -/
theorem Body.foreign_members (body : Body) :
    ∀ m ∈ body.members, (m.1 ≠ "@id" ∧ m.1 ≠ "route") ∧ m.1 ≠ typeKey := by
  cases body <;> simp [members, typeKey]

theorem MessageKind.decode_uri (kind : MessageKind) : decode (.text kind.uri) = .ok kind := by
  cases kind <;> decide

/-- What a body is decoded from: its members as they are read inside a message. -/
def Body.terms (body : Body) : List (Term × Term) := Json.rereadMembers 1 body.members

/-- A body is decoded by the record of its kind. -/
theorem Body.decode_terms (body : Body) :
    decode ((.text typeKey, .text body.kind.uri) :: body.terms) =
      ((record body.kind).decode .buffer (.object body.terms)).map fun f => ofFields f body.kind := by
  have split := Message.splitType_body (fun m mem => (body.foreign_members m mem).2)
    (some body.kind) 1
  rw [decode, splitType, if_pos rfl]
  simp only [Option.isSome_none, Bool.false_eq_true, if_false, MessageKind.decode_uri]
  rw [terms, split]

namespace Message

/-- What a message is decoded to after it was encoded: its body is read again, and all else is kept. -/
theorem decode_encode (m : Message) :
    decode m.encode =
      if Term.membersReadable m.body.terms then
        ((Body.record m.body.kind).decode .buffer (.object m.body.terms)).map fun f =>
          ⟨m.id, m.route, Body.ofFields f m.body.kind⟩
      else .error .notJson := by
  have outer : record.decode .text (m.toJson.reread 0) =
      if Term.membersReadable m.body.terms then
        .ok ⟨m.id, m.route, (.text Body.typeKey, .text m.body.kind.uri) :: m.body.terms⟩
      else .error .notJson := by
    have foreign : ∀ member ∈ (Body.typeKey, .text m.body.kind.uri) :: m.body.members,
        member.1 ≠ "@id" ∧ member.1 ≠ "route" :=
      List.forall_mem_cons.2 ⟨by simp [Body.typeKey], fun member mem =>
        (m.body.foreign_members member mem).1⟩
    have route : PeerId.decodeList ((PeerId.listToJson m.route).reread 1) = .ok m.route :=
      PeerId.decodeList_reread m.route (by decide)
    have whole : m.toJson.reread 0 = .object ((.text "@id", .text m.id.text) ::
        (.text "route", (PeerId.listToJson m.route).reread 1) ::
          Json.rereadMembers 1 ((Body.typeKey, .text m.body.kind.uri) :: m.body.members)) := by
      rw [toJson, Json.reread, Term.atDepth_of_lt (by decide)]
      rfl
    have first : record.fields.find? (·.name = "@id") =
        some (.required "@id" (fun _ => MessageId.decode) fun id m => { m with id }) := rfl
    have second : record.fields.find? (·.name = "route") =
        some (.withDefault "route" (fun _ => PeerId.decodeList) fun route m => { m with route }) :=
      rfl
    have begun : record.start = ⟨.zero, [], []⟩ := rfl
    rw [whole, Record.decode, Record.decodeMembers, Record.readMembers, first]
    simp only [Record.readMembers, second, Field.required, Field.withDefault, m.id.decode_text,
      route, Except.map, begun, readMembers_body foreign]
    have same : Term.membersReadable (Json.rereadMembers 1
        ((Body.typeKey, .text m.body.kind.uri) :: m.body.members)) =
          Term.membersReadable m.body.terms := rfl
    rw [if_neg (by simp), if_neg (by simp), same]
    cases Term.membersReadable m.body.terms <;> rfl
  rw [decode, encode, Utf8.decode_encode, Decode.wholeText, Json.read_chars]
  simp only [decodeTerm, outer]
  cases readable : Term.membersReadable m.body.terms with
  | true =>
    simp only [if_true, bind, Except.bind, pure, Except.pure, Body.decode_terms]
    cases (Body.record m.body.kind).decode .buffer (.object m.body.terms) <;> rfl
  | false => rfl

/-- How a body is decoded does not depend on the message around it. -/
theorem decode_encode_body (id other : MessageId) (route path : List PeerId) (body : Body) :
    decode (encode ⟨id, route, body⟩) =
      (decode (encode ⟨other, path, body⟩)).map fun m => ⟨id, route, m.body⟩ := by
  rw [decode_encode, decode_encode]
  simp only
  cases Term.membersReadable body.terms with
  | false => rfl
  | true => cases (Body.record body.kind).decode .buffer (.object body.terms) <;> rfl

/-- A message that can be decoded keeps its identifier, its route and its kind. -/
theorem kept_of_decode {m n : Message} (read : decode m.encode = .ok n) :
    n.id = m.id ∧ n.route = m.route ∧ n.body.kind = m.body.kind := by
  rw [decode_encode] at read
  split at read
  · cases decoded : (Body.record m.body.kind).decode .buffer (.object m.body.terms) with
    | ok fields =>
      rw [decoded] at read
      cases read
      exact ⟨rfl, rfl, by cases m.body.kind <;> rfl⟩
    | error fault =>
      rw [decoded] at read
      cases read
  · cases read

/-- A gossip that can be decoded keeps its members, and its graph is what is read of the graph. -/
theorem gossip_of_decode {m n : Message} (read : decode m.encode = .ok n) {members : List PeerId}
    {content : Json} {graph : Graph} (body : m.body = .gossip members content graph) :
    ∃ other shown, n.body = .gossip members other shown ∧
      Graph.decode .buffer (graph.toJson.reread 1) = .ok shown := by
  obtain ⟨id, route, own⟩ := m
  subst body
  have peers : PeerId.decodeList ((PeerId.listToJson members).reread 1) = .ok members :=
    PeerId.decodeList_reread members (by decide)
  rw [decode_encode] at read
  split at read
  · cases value : Decode.any (content.reread 1) <;>
      cases shown : Graph.decode .buffer (graph.toJson.reread 1) <;>
      simp [Body.terms, Body.members, Json.rereadMembers, Body.kind, Body.record, Body.graphField,
        Record.decode, Record.decodeMembers, Record.readMembers, Field.withDefault, peers,
        Except.map, value, shown, Record.missing?, Body.ofFields] at read
    subst read
    exact ⟨_, _, rfl, rfl⟩
  · cases read

/-- What is decoded as a gossip was a gossip to the same members. -/
theorem members_of_decode {m n : Message} (read : decode m.encode = .ok n) {members : List PeerId}
    {content : Json} {graph : Graph} (body : n.body = .gossip members content graph) :
    ∃ content graph, m.body = .gossip members content graph := by
  have kind := (kept_of_decode read).2.2
  rw [body] at kind
  cases own : m.body with
  | gossip others other gathered =>
    obtain ⟨_, _, found, -⟩ := gossip_of_decode read own
    rw [found] at body
    cases body
    exact ⟨_, _, rfl⟩
  | _ =>
    rw [own] at kind
    cases kind

end Message

/-! ## Bodies that are read as they were -/

/-- A body that is read as it was, whatever the message around it. -/
def Body.Lucid (body : Body) : Prop :=
  ∀ id route, Message.decode (Message.encode ⟨id, route, body⟩) = .ok ⟨id, route, body⟩

/-- A framework that is read as it was once it was written in a request. -/
def Framework.Relayable (framework : Framework) : Prop :=
  Message.decode (Message.encode ⟨.zero, [], .complianceRequest framework⟩) =
    .ok ⟨.zero, [], .complianceRequest framework⟩

instance (framework : Framework) : Decidable framework.Relayable :=
  inferInstanceAs (Decidable (_ = _))

namespace Body

/-- The request for a framework that can be relayed is read as it was. -/
theorem lucid_complianceRequest {framework : Framework} (relayable : framework.Relayable) :
    (complianceRequest framework).Lucid := by
  intro id route
  have alone : Message.decode (Message.encode ⟨.zero, [], .complianceRequest framework⟩) =
      .ok ⟨.zero, [], .complianceRequest framework⟩ := relayable
  rw [Message.decode_encode_body id .zero route [], alone]
  rfl

/-- A sound graph that answers a compliance query is read as it was. -/
theorem lucid_complianceResponse {graph : Graph} (sound : graph.Sound) :
    (complianceResponse graph).Lucid := by
  intro id route
  have read : Graph.decode .buffer (graph.toJson.reread 1) = .ok graph :=
    Graph.decode_reread sound .buffer (by decide)
  have readable : (graph.toJson.reread 1).readable = true := Graph.readable_reread graph (by decide)
  rw [Message.decode_encode]
  simp [terms, members, Json.rereadMembers, Term.membersReadable, Term.text?, readable, kind, record,
    Record.decode, Record.decodeMembers, Record.readMembers, Field.required, read, Except.map,
    Record.missing?, ofFields]

/-- The search for a peer is read as it was. -/
theorem lucid_traceRequest (target : PeerId) : (traceRequest target).Lucid := by
  intro id route
  rw [Message.decode_encode]
  simp [terms, members, Json.rereadMembers, Json.reread_text, Term.membersReadable, Term.text?,
    Term.readable, kind, record, targetField, Record.decode, Record.decodeMembers,
    Record.readMembers, Field.required, PeerId.decode_text, Except.map, Record.missing?, ofFields]

/-- A sound graph that answers a search is read as it was. -/
theorem lucid_traceResponse (target : PeerId) {graph : Graph} (sound : graph.Sound) :
    (traceResponse target graph).Lucid := by
  intro id route
  have read : Graph.decode .buffer (graph.toJson.reread 1) = .ok graph :=
    Graph.decode_reread sound .buffer (by decide)
  have readable : (graph.toJson.reread 1).readable = true := Graph.readable_reread graph (by decide)
  rw [Message.decode_encode]
  simp [terms, members, Json.rereadMembers, Json.reread_text, Term.membersReadable, Term.text?,
    Term.readable, readable, kind, record, targetField, graphField, Record.decode,
    Record.decodeMembers, Record.readMembers, Field.required, Field.withDefault, read,
    PeerId.decode_text, Except.map, Record.missing?, ofFields]

end Body

end TrustMesh
