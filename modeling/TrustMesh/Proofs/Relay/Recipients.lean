import TrustMesh.Proofs.Relay.Discipline

/-!
# How many messages a peer is offered

One call offers a peer one message at most, whatever is handled or started, unless a
gossip names the peer several times: its members are taken one by one, and each time a
member is named is a message to it (`Engine.one_message_per_peer`). A peer that forges a
gossip decides how many messages its neighbour sends
(`Engine.repeated_member_is_sent_copies`).

Directories may read the identifiers of peers as they like, as long as different peers are
reached over channels to different peers.
-/

namespace TrustMesh

namespace Directory

/-- A directory that lists every connected peer once and whose channels to different peers lead to
different peers. -/
structure Separate (d : Directory) : Prop where
  once : d.connected.Nodup
  apart : ∀ p q l l', d.resolve p = some l → d.resolve q = some l' → l.far = l'.far → p = q

theorem Faithful.separate {d : Directory} (faithful : d.Faithful) : d.Separate where
  once := faithful.once
  apart p q l l' known known' same := by
    rw [← faithful.leads p l known, ← faithful.leads q l' known', same]

/-- The peers at the far ends of the channels to some peers. -/
def farEnds (d : Directory) (peers : List PeerId) : List PeerId :=
  peers.filterMap fun peer => (d.resolve peer).map (·.far)

variable {d : Directory} {peers : List PeerId} {peer : PeerId} {link : Link}

@[simp] theorem farEnds_append (d : Directory) (peers others : List PeerId) :
    d.farEnds (peers ++ others) = d.farEnds peers ++ d.farEnds others := List.filterMap_append ..

/-- The channels to different peers end at different peers. -/
theorem Separate.nodup_farEnds (separate : d.Separate) (once : peers.Nodup) :
    (d.farEnds peers).Nodup := by
  refine once.filterMap fun p q far here there => ?_
  obtain ⟨l, known, rfl⟩ := Option.map_eq_some_iff.1 here
  obtain ⟨l', known', same⟩ := Option.map_eq_some_iff.1 there
  exact separate.apart p q l l' known known' same.symm

/-- A peer is met at the far end as often as it is among the peers. -/
theorem Separate.count_farEnds (separate : d.Separate) (peers : List PeerId)
    (known : d.resolve peer = some link) :
    (d.farEnds peers).count link.far = peers.count peer := by
  rw [farEnds, List.count_filterMap, List.count]
  refine List.countP_congr fun other _ => ?_
  simp only [beq_iff_eq, Option.map_eq_some_iff]
  constructor
  · rintro ⟨l, found, same⟩
    exact separate.apart other peer l link found known same
  · rintro rfl
    exact ⟨link, known, rfl⟩

end Directory

/-- The peers that offers go to, in order. -/
def destinations (offered : List Dispatch) : List PeerId := offered.map (·.link.far)

theorem destinations_append (offered more : List Dispatch) :
    destinations (offered ++ more) = destinations offered ++ destinations more := List.map_append

theorem recipients_sublist (d : Directory) (offered : List Dispatch) :
    (d.recipients offered).Sublist (destinations offered) := List.filter_sublist.map _

/-- The members that a message names if it is a gossip. -/
def Message.members (m : Message) : List PeerId :=
  match m.body with
  | .gossip members _ _ => members
  | _ => []

/-- The members that an exchange names if it is a gossip. -/
def Exchange.members : Exchange → List PeerId
  | .gossip members _ => members
  | _ => []

/-- The members that are named by the gossip that a call delivers or starts. -/
def Call.members (c : Call) : List PeerId :=
  match c.started? with
  | some (_, exchange) => exchange.members
  | none => (c.message?.map Message.members).getD []

theorem Call.members_of_message? {c : Call} {m : Message} (delivered : c.message? = some m) :
    c.members = m.members := by
  cases c with
  | start s id exchange => cases delivered
  | frame s sender bytes =>
    simp only [members, started?, delivered, Option.map_some, Option.getD_some]
  | message s sender message =>
    simp only [members, started?, delivered, Option.map_some, Option.getD_some]

/-- The peers that a call reports to have sent something to. -/
def Reply.recipients : Reply → List PeerId
  | .outcome result => result.recipients
  | .started result => result.sent

namespace Engine

variable {e : Engine} {s : Surroundings} {sender : Option PeerId} {m : Message} {c : Call}
  {outcome : Outcome} {offered : List Dispatch} {peer : PeerId} {link : Link}

theorem destinations_address (directory : Directory) (peers : List PeerId) (message : Message) :
    destinations (address directory peers message) = directory.farEnds peers := by
  rw [destinations, address, List.map_filterMap, Directory.farEnds]
  congr 1
  funext peer
  rw [Option.map_map]
  rfl

/-- What is spread goes to no peer twice. -/
theorem nodup_spread (e : Engine) (separate : s.directory.Separate) (excluded : Option PeerId)
    (message : Message) :
    (destinations (address s.directory (e.floodTargets s.directory m excluded) message)).Nodup := by
  rw [destinations_address]
  exact separate.nodup_farEnds (separate.once.filter _)

/-- Some of the members of a gossip are sent it as often as they are named, and the others not at
all. -/
theorem count_members (separate : s.directory.Separate) (members : List PeerId)
    (passes : PeerId → Bool) (message : Message) (known : s.directory.resolve peer = some link) :
    (destinations (address s.directory (members.filter passes) message)).count link.far ≤ 1 ∨
      (destinations (address s.directory (members.filter passes) message)).count link.far =
        members.count peer := by
  rw [destinations_address, separate.count_farEnds _ known]
  by_cases meant : passes peer = true
  · exact .inr (List.count_filter meant)
  · refine .inl ?_
    have absent : peer ∉ members.filter passes := fun mem => meant (List.mem_filter.1 mem).2
    rw [List.count_eq_zero_of_not_mem absent]
    exact Nat.zero_le 1

/-- An answer to a peer and what is spread among the others go to no peer twice. -/
theorem nodup_answer_spread (e : Engine) (separate : s.directory.Separate) (peer : PeerId)
    (answer request : Message) :
    (destinations (address s.directory [peer] answer ++
      address s.directory (e.floodTargets s.directory m (some peer)) request)).Nodup := by
  rw [destinations_append, destinations_address, destinations_address, ← Directory.farEnds_append]
  refine separate.nodup_farEnds (List.nodup_cons.2 ⟨?_, separate.once.filter _⟩)
  exact fun mem => (mem_floodTargets.1 mem).2.2.2 rfl

/-- Handling a message offers a peer one message, or one for each time that the message names it as a
member. -/
theorem Treats.count_destinations (treats : e.Treats s sender m outcome offered)
    (separate : s.directory.Separate) (known : s.directory.resolve peer = some link) :
    (destinations offered).count link.far ≤ 1 ∨
      (destinations offered).count link.far = m.members.count peer := by
  have once : (destinations offered).Nodup → (destinations offered).count link.far ≤ 1 :=
    fun nodup => List.nodup_iff_count_le_one.1 nodup _
  cases treats with
  | drop reason => exact .inl (once List.nodup_nil)
  | tell event told => exact .inl (once List.nodup_nil)
  | found _ _ _ _ offers =>
    refine .inl (once ?_)
    rw [offers, destinations_address]
    exact separate.nodup_farEnds (List.nodup_singleton _)
  | straight => exact .inl (once (List.nodup_singleton _))
  | search _ _ _ _ offers =>
    refine .inl (once ?_)
    rw [offers]
    exact nodup_spread e separate ..
  | back => exact .inl (once (List.nodup_singleton _))
  | spread gossip new offers =>
    rw [offers, Message.members, gossip]
    exact count_members separate _ _ _ known
  | query _ _ _ offers =>
    refine .inl (once ?_)
    rw [offers]
    exact nodup_answer_spread e separate ..

/-- Starting an exchange offers a peer one message, or one for each time that the exchange names it as
a member. -/
theorem count_destinations_start (e : Engine) (id : MessageId) (exchange : Exchange)
    (separate : s.directory.Separate) (known : s.directory.resolve peer = some link) :
    (destinations (e.start s id exchange).offered).count link.far ≤ 1 ∨
      (destinations (e.start s id exchange).offered).count link.far =
        exchange.members.count peer := by
  cases exchange with
  | trace target =>
    refine .inl (List.nodup_iff_count_le_one.1 ?_ _)
    simp only [start, startTrace]
    split
    · exact List.nodup_singleton _
    · exact nodup_spread e separate ..
  | gossip members content => exact count_members separate _ _ _ known
  | comply framework =>
    exact .inl (List.nodup_iff_count_le_one.1 (nodup_spread e separate ..) _)

theorem count_destinations_perform (e : Engine) (separate : c.surroundings.directory.Separate)
    (known : c.surroundings.directory.resolve peer = some link) :
    (destinations (e.perform c).offered).count link.far ≤ 1 ∨
      (destinations (e.perform c).offered).count link.far = c.members.count peer := by
  rcases c.sorts with ⟨m, delivered⟩ | ⟨id, exchange, starts⟩ | silent
  · rw [perform_of_delivered delivered, Call.members_of_message? delivered]
    exact (e.handle_treats _ _ m).count_destinations separate known
  · obtain ⟨s, rfl⟩ := Call.eq_start_of_started? starts
    exact count_destinations_start e id exchange separate known
  · rw [perform_of_silent silent]
    exact .inl (Nat.zero_le 1)

/-- Whatever a call offers goes over a channel of the directory. -/
theorem perform_known {o : Dispatch} (mem : o ∈ (e.perform c).offered) :
    ∃ peer, c.surroundings.directory.resolve peer = some o.link := by
  rcases c.sorts with ⟨m, delivered⟩ | ⟨id, exchange, starts⟩ | silent
  · rw [perform_of_delivered delivered] at mem
    exact (handle_onward mem).link
  · obtain ⟨s, rfl⟩ := Call.eq_start_of_started? starts
    exact (start_offers mem).2.2.2
  · rw [perform_of_silent silent] at mem
    cases mem

/-- The recipients that a call reports are the peers that accept what is offered, in order. -/
theorem perform_recipients (e : Engine) (c : Call) :
    (e.perform c).result.recipients =
      c.surroundings.directory.recipients (e.perform c).offered := by
  rcases c.sorts with ⟨m, delivered⟩ | ⟨id, exchange, starts⟩ | silent
  · rw [perform_of_delivered delivered]
    exact (e.handle_treats _ _ m).recipients
  · obtain ⟨s, rfl⟩ := Call.eq_start_of_started? starts
    cases exchange <;> rfl
  · rw [perform_of_silent silent]
    rfl

/-- A call offers a peer one message at most, or one for each time that the gossip at hand names it as
a member. So unless a gossip names a peer that can be reached more than once, no peer is offered two
messages, and none is reported twice as a recipient. -/
theorem one_message_per_peer (e : Engine) (c : Call)
    (separate : c.surroundings.directory.Separate) :
    (∀ peer link, c.surroundings.directory.resolve peer = some link →
      (destinations (e.perform c).offered).count link.far ≤ 1 ∨
        (destinations (e.perform c).offered).count link.far = c.members.count peer) ∧
      ((∀ peer, (c.surroundings.directory.resolve peer).isSome → c.members.count peer ≤ 1) →
        (destinations (e.perform c).offered).Nodup ∧ (e.perform c).result.recipients.Nodup) := by
  refine ⟨fun peer link known => count_destinations_perform e separate known, fun single => ?_⟩
  have once : (destinations (e.perform c).offered).Nodup := by
    refine List.nodup_iff_count_le_one.2 fun far => ?_
    by_cases there : far ∈ destinations (e.perform c).offered
    · obtain ⟨o, mem, rfl⟩ := List.mem_map.1 there
      obtain ⟨peer, known⟩ := perform_known mem
      rcases count_destinations_perform e separate known with few | named
      · exact few
      · exact named ▸ single peer (known ▸ rfl)
    · rw [List.count_eq_zero_of_not_mem there]
      exact Nat.zero_le 1
  refine ⟨once, ?_⟩
  rw [perform_recipients]
  exact once.sublist (recipients_sublist ..)

/-- A gossip that names peers twice which cannot be reached, and the node itself, goes to the others
once each. -/
theorem one_message_per_peer_strangers :
    let s : Surroundings := .among ⟨"B"⟩ [⟨"A"⟩, ⟨"C"⟩, ⟨"D"⟩]
    let c : Call := .message s (some ⟨"A"⟩)
      ⟨.zero, [⟨"A"⟩], .gossip [⟨"X"⟩, ⟨"C"⟩, ⟨"B"⟩, ⟨"X"⟩, ⟨"D"⟩, ⟨"B"⟩] .null .empty⟩
    s.directory.Separate ∧ (destinations ((fresh ⟨"B"⟩).perform c).offered).Nodup ∧
      ((fresh ⟨"B"⟩).perform c).result.recipients = [⟨"C"⟩, ⟨"D"⟩] := by
  intro s c
  have faithful : s.directory.Faithful := Directory.faithful_ofPeers ..
  have single : ∀ peer ∈ s.directory.connected, c.members.count peer ≤ 1 := by decide
  refine ⟨faithful.separate, ?_, by decide⟩
  refine ((one_message_per_peer (fresh ⟨"B"⟩) c faithful.separate).2 fun peer known => ?_).1
  exact single peer ((faithful.known peer).1 known)

/-- A peer that is named twice as a member is sent a gossip twice, by the peer that starts it and by one
that passes it on. -/
theorem repeated_member_is_sent_copies :
    let s : Surroundings := .among ⟨"B"⟩ [⟨"A"⟩, ⟨"C"⟩]
    let members : List PeerId := [⟨"C"⟩, ⟨"C"⟩]
    let passed : Call := .message s (some ⟨"A"⟩) ⟨.zero, [⟨"A"⟩], .gossip members .null .empty⟩
    let started : Call := .start s .zero (.gossip members .null)
    create (.ofPeers ⟨"B"⟩ []) .standard = .ok (fresh ⟨"B"⟩) ∧ s.directory.connected.Nodup ∧
      ∀ c ∈ [passed, started], ((fresh ⟨"B"⟩).perform c).result.recipients = members ∧
        ¬ ((fresh ⟨"B"⟩).perform c).result.recipients.Nodup := by
  intro s members passed started
  refine ⟨by decide, by decide, fun c mem => ?_⟩
  have copies : ((fresh ⟨"B"⟩).perform c).result.recipients = members := by
    rcases List.mem_pair.1 mem with rfl | rfl <;> decide
  exact ⟨copies, by rw [copies]; decide⟩

end Engine

end TrustMesh
