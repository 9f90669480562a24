import Mathlib.Data.List.Forall2
import TrustMesh.Proofs.Framework.Endurance
import TrustMesh.Proofs.Mesh.Draining

/-!
# Networks that carry like frameworks

A peer looks at the outline of a framework, and what it passes on has that outline again. So
two networks in which frameworks differ, but not in their outlines, do the same and tell the
same (`Network.Alike.taken`), if the frameworks endure. In particular a query for a framework
tells what the query for its outline does (`Network.taken_outline`).
-/

namespace TrustMesh

open Std

/-! ## Likeness -/

/-- Proper frameworks that endure and have the same outline. -/
structure Framework.Alike (f g : Framework) : Prop where
  proper : f.Proper ∧ g.Proper
  enduring : f.Enduring ∧ g.Enduring
  outline : f.outline = g.outline

/-- Messages that are the same except for the framework of a request. -/
inductive Message.Alike : Message → Message → Prop where
  | refl (m : Message) : Alike m m
  | request {id : MessageId} {route : List PeerId} {f g : Framework} (alike : f.Alike g) :
      Alike ⟨id, route, .complianceRequest f⟩ ⟨id, route, .complianceRequest g⟩

/-- Frames that are the same or are read as like messages. -/
def Frame.Alike (a b : Frame) : Prop :=
  a = b ∨ ∃ m n, Message.decode a = .ok m ∧ Message.decode b = .ok n ∧ m.Alike n

/-- Like messages that are offered on the same channel. -/
structure Dispatch.Alike (o p : Dispatch) : Prop where
  link : o.link = p.link
  message : o.message.Alike p.message

/-- Steps that do the same and offer like messages. -/
structure Step.Alike {α : Type} (s t : Step α) : Prop where
  result : s.result = t.result
  engine : s.engine = t.engine
  asked : s.asked = t.asked
  offered : List.Forall₂ Dispatch.Alike s.offered t.offered

/-- Exchanges that are the same or are queries for like frameworks. -/
inductive Exchange.Alike : Exchange → Exchange → Prop where
  | refl (exchange : Exchange) : Alike exchange exchange
  | comply {f g : Framework} (alike : f.Alike g) : Alike (.comply f) (.comply g)

/-- Commands that deliver like frames or start like exchanges, or are the same. -/
inductive Command.Alike : Command → Command → Prop where
  | deliver {sender : Option PeerId} {a b : Frame} (alike : Frame.Alike a b) :
      Alike (.deliver sender a) (.deliver sender b)
  | start {ticket : Nat} {exchange other : Exchange} (alike : exchange.Alike other) :
      Alike (.start ticket exchange) (.start ticket other)
  | shutdown : Alike .shutdown .shutdown

/-- Nodes that are the same except for like commands in their inboxes. -/
def RelayNode.Alike (n m : RelayNode) : Prop :=
  ∃ inbox, List.Forall₂ Command.Alike n.inbox inbox ∧ m = { n with inbox }

/-- Networks that are the same except for like nodes. -/
def Network.Alike (n m : Network) : Prop :=
  ∃ nodes, m = { n with nodes } ∧ ∀ peer,
    (n.nodes.get? peer = none ∧ nodes.get? peer = none) ∨
      ∃ a b, n.nodes.get? peer = some a ∧ nodes.get? peer = some b ∧ a.Alike b

theorem Dispatch.alike_refl (offered : List Dispatch) :
    List.Forall₂ Dispatch.Alike offered offered :=
  List.forall₂_same.2 fun o _ => ⟨rfl, .refl o.message⟩

theorem Step.Alike.ite {α : Type} {c : Prop} [Decidable c] {s t u v : Step α} (yes : s.Alike t)
    (no : u.Alike v) : (if c then s else u).Alike (if c then t else v) := by
  split
  · exact yes
  · exact no

theorem Step.Alike.refl {α : Type} (s : Step α) : s.Alike s :=
  ⟨rfl, rfl, rfl, Dispatch.alike_refl s.offered⟩

theorem Command.Alike.refl (command : Command) : command.Alike command := by
  cases command with
  | deliver sender frame => exact .deliver (.inl rfl)
  | start ticket exchange => exact .start (.refl exchange)
  | shutdown => exact .shutdown

theorem RelayNode.Alike.refl (n : RelayNode) : n.Alike n :=
  ⟨n.inbox, List.forall₂_same.2 fun command _ => .refl command, rfl⟩

/-- A proper framework that endures is like its outline. -/
theorem Framework.Proper.alike_outline {f : Framework} (proper : f.Proper)
    (enduring : f.Enduring) : f.Alike f.outline where
  proper := ⟨proper, proper.outline⟩
  enduring := ⟨enduring, proper.relayable_outline.enduring⟩
  outline := f.outline_outline.symm

theorem Framework.Alike.symm {f g : Framework} (alike : f.Alike g) : g.Alike f :=
  ⟨alike.proper.symm, alike.enduring.symm, alike.outline.symm⟩

/-- Like frameworks are evaluated alike. -/
theorem Framework.Alike.evaluate {f g : Framework} (alike : f.Alike g) (oracle : Oracle) :
    f.evaluate oracle = g.evaluate oracle := by
  rw [← evaluate_outline oracle f, alike.outline, evaluate_outline]

/-- Like messages have like frames. -/
theorem Message.Alike.frame {m n : Message} (alike : m.Alike n) :
    Frame.Alike m.encode n.encode := by
  cases alike with
  | refl => exact .inl rfl
  | request alike =>
    -- Both requests can be read, and what they are read as endures and has one outline again.
    obtain ⟨f, hop⟩ := alike.enduring.1 _ .refl
    obtain ⟨g, step⟩ := alike.enduring.2 _ .refl
    have left := hop.kept alike.proper.1
    have right := step.kept alike.proper.2
    exact .inr ⟨_, _, hop.read .., step.read .., .request ⟨⟨left.1, right.1⟩,
      ⟨alike.enduring.1.hop hop, alike.enduring.2.hop step⟩,
      left.2.trans (alike.outline.trans right.2.symm)⟩⟩

/-! ## Engines -/

/-- A directory that does not look at the frames that it accepts. -/
def Directory.Blind (directory : Directory) : Prop :=
  ∀ link frame other, directory.accepts link frame = directory.accepts link other

namespace Engine

variable {e : Engine} {s : Surroundings} {sender : Option PeerId} {m n : Message}
  {offered others : List Dispatch} {f g : Framework} {directory : Directory}

theorem address_alike (directory : Directory) (peers : List PeerId) (alike : m.Alike n) :
    List.Forall₂ Dispatch.Alike (address directory peers m) (address directory peers n) := by
  have offers : ∀ m, address directory peers m =
      (peers.filterMap directory.resolve).map (⟨·, m⟩) := fun m => (List.map_filterMap ..).symm
  rw [offers, offers, List.forall₂_map_left_iff, List.forall₂_map_right_iff]
  exact List.forall₂_same.2 fun _ _ => ⟨rfl, alike⟩

theorem recipients_alike (blind : directory.Blind)
    (alike : List.Forall₂ Dispatch.Alike offered others) :
    directory.recipients offered = directory.recipients others := by
  induction alike with
  | nil => rfl
  | @cons o p rest more first _ ih =>
    have accepted : directory.accepts o.link o.frame = directory.accepts p.link p.frame :=
      first.link ▸ blind ..
    simp only [Directory.recipients, List.filter_cons, accepted] at ih ⊢
    split
    · rw [List.map_cons, List.map_cons, ih, first.link]
    · exact ih

/-- Requests for like frameworks are answered alike. -/
theorem answerQuery_alike (blind : s.directory.Blind) (peer : PeerId) {id : MessageId}
    {route : List PeerId} (alike : f.Alike g) :
    (e.answerQuery s peer ⟨id, route, .complianceRequest f⟩ f).Alike
      (e.answerQuery s peer ⟨id, route, .complianceRequest g⟩ g) := by
  have targets : e.floodTargets s.directory ⟨id, route, .complianceRequest f⟩ (some peer) =
      e.floodTargets s.directory ⟨id, route, .complianceRequest g⟩ (some peer) := rfl
  have request : Message.Alike ⟨id, route ++ [e.primary], .complianceRequest f⟩
      ⟨id, route ++ [e.primary], .complianceRequest g⟩ := .request alike
  have onward := address_alike s.directory
    (e.floodTargets s.directory ⟨id, route, .complianceRequest g⟩ (some peer)) request
  simp only [answerQuery, pass, handled, alike.evaluate s.oracle, targets, Message.reply,
    Message.extended]
  have offers (response : List Dispatch) := List.rel_append (Dispatch.alike_refl response) onward
  exact ⟨congrArg (Outcome.handled · none) (recipients_alike blind (offers _)), rfl, rfl, offers _⟩

/-- Requests for like frameworks are handled alike. -/
theorem onComplianceRequest_alike (blind : s.directory.Blind) {id : MessageId}
    {route : List PeerId} (alike : f.Alike g) :
    (e.onComplianceRequest s sender ⟨id, route, .complianceRequest f⟩ f).Alike
      (e.onComplianceRequest s sender ⟨id, route, .complianceRequest g⟩ g) := by
  unfold onComplianceRequest
  refine .ite (.refl _) (.ite (.refl _) ?_)
  simp only [Message.previousHop?]
  cases sender.or route.getLast? with
  | none => exact .refl _
  | some peer => exact answerQuery_alike blind peer alike

/-- Like messages are handled alike. -/
theorem handle_alike (blind : s.directory.Blind) (alike : m.Alike n) :
    (e.handle s sender m).Alike (e.handle s sender n) := by
  cases alike with
  | refl => exact .refl _
  | request alike => exact onComplianceRequest_alike blind alike

/-- Like frames are handled alike. -/
theorem handleFrame_alike (blind : s.directory.Blind) {a b : Frame} (alike : Frame.Alike a b) :
    (e.handleFrame s sender a).Alike (e.handleFrame s sender b) := by
  rcases alike with rfl | ⟨m, n, read, found, alike⟩
  · exact .refl _
  · simp only [handleFrame, read, found]
    exact handle_alike blind alike

/-- Like exchanges are started alike. -/
theorem start_alike (blind : s.directory.Blind) (id : MessageId) {exchange other : Exchange}
    (alike : exchange.Alike other) : (e.start s id exchange).Alike (e.start s id other) := by
  cases alike with
  | refl => exact .refl _
  | @comply f g alike =>
    have targets : e.floodTargets s.directory ⟨id, [e.primary], .complianceRequest f⟩ none =
        e.floodTargets s.directory ⟨id, [e.primary], .complianceRequest g⟩ none := rfl
    have request : Message.Alike ⟨id, [e.primary], .complianceRequest f⟩
        ⟨id, [e.primary], .complianceRequest g⟩ := .request alike
    simp only [start, startCompliance, alike.evaluate s.oracle, targets]
    have offers := address_alike s.directory
      (e.floodTargets s.directory ⟨id, [e.primary], .complianceRequest g⟩ none) request
    exact ⟨congrArg (Started.mk id) (recipients_alike blind offers), rfl, rfl, offers⟩

end Engine

/-! ## Nodes -/

namespace RelayNode

variable {n m : RelayNode} {directory : Directory} {id : MessageId}

/-- Actions that do the same, leave like nodes and offer like messages. -/
structure Action.Alike (a b : Action) : Prop where
  node : a.node.Alike b.node
  offered : List.Forall₂ Dispatch.Alike a.offered b.offered
  event : a.event = b.event
  usedId : a.usedId = b.usedId

theorem Alike.emit (alike : n.Alike m) (event : Event) : (n.emit event).Alike (m.emit event) := by
  obtain ⟨inbox, commands, rfl⟩ := alike
  unfold RelayNode.emit
  dsimp only
  split
  · exact ⟨inbox, commands, rfl⟩
  · exact ⟨inbox, commands, rfl⟩

/-- Like commands are done alike. -/
theorem Alike.execute (alike : n.Alike m) (blind : directory.Blind) {command other : Command}
    (commands : command.Alike other) :
    Action.Alike (n.execute directory id command) (m.execute directory id other) := by
  obtain ⟨inbox, waiting, rfl⟩ := alike
  have next (engine : Engine) (asked : List Question) (answers : List (Nat × Started)) :
      Alike { n with engine, asked, answers } { n with engine, asked, answers, inbox } :=
    ⟨inbox, waiting, rfl⟩
  cases commands with
  | @deliver sender a b frames =>
    have steps : (n.engine.handleFrame ⟨directory, n.oracle⟩ sender a).Alike
        (n.engine.handleFrame ⟨directory, n.oracle⟩ sender b) :=
      Engine.handleFrame_alike blind frames
    simp only [RelayNode.execute, ← steps.result, ← steps.engine, ← steps.asked]
    split
    · exact ⟨(next ..).emit _, steps.offered, rfl, rfl⟩
    · exact ⟨next .., steps.offered, rfl, rfl⟩
  | @start ticket exchange other exchanges =>
    have steps : (n.engine.start ⟨directory, n.oracle⟩ id exchange).Alike
        (n.engine.start ⟨directory, n.oracle⟩ id other) :=
      Engine.start_alike blind id exchanges
    simp only [RelayNode.execute, ← steps.result, ← steps.engine, ← steps.asked]
    exact ⟨next .., steps.offered, rfl, rfl⟩
  | shutdown => exact ⟨⟨[], .nil, rfl⟩, .nil, rfl, rfl⟩

/-- Like nodes do the first commands of their inboxes alike. -/
theorem Alike.act (alike : n.Alike m) (blind : directory.Blind) :
    Action.Alike (n.act directory id) (m.act directory id) := by
  obtain ⟨inbox, commands, rfl⟩ := alike
  obtain ⟨_, _, _, own, _, _, _, _, _⟩ := n
  cases commands with
  | nil => exact ⟨⟨[], .nil, rfl⟩, .nil, rfl, rfl⟩
  | @cons _ _ rest later first commands =>
    exact Alike.execute ⟨later, commands, rfl⟩ blind first

end RelayNode

/-! ## Networks -/

namespace Network

variable {n m : Network} {peer near : PeerId} {neighbours : OrderedSet PeerId}

theorem Alike.refl (n : Network) : n.Alike n := by
  refine ⟨n.nodes, rfl, fun peer => ?_⟩
  cases n.nodes.get? peer with
  | none => exact .inl ⟨rfl, rfl⟩
  | some node => exact .inr ⟨node, node, rfl, rfl, .refl node⟩

theorem blind_directory (n : Network) (near : PeerId) (neighbours : OrderedSet PeerId) :
    (n.directory near neighbours).Blind := fun _ _ _ => rfl

/-- Like networks accept the same frames. -/
theorem Alike.directory_eq (alike : n.Alike m) (near : PeerId) (neighbours : OrderedSet PeerId) :
    m.directory near neighbours = n.directory near neighbours := by
  obtain ⟨nodes, rfl, each⟩ := alike
  have sends : ∀ link, ({ n with nodes } : Network).send neighbours link =
      n.send neighbours link := by
    intro link
    unfold Network.send handle?
    rcases each link.far with ⟨left, right⟩ | ⟨a, b, left, right, _, _, rfl⟩
    · rw [left, right]
    · rw [left, right]
      by_cases registered : link.far ∈ n.registered <;> simp [registered]
  simp only [Network.directory, sends]

theorem Alike.setNode (alike : n.Alike m) {a b : RelayNode} (nodes : a.Alike b) :
    (n.setNode peer a).Alike (m.setNode peer b) := by
  obtain ⟨others, rfl, each⟩ := alike
  refine ⟨others.insert peer b, rfl, fun q => ?_⟩
  simp only [Network.setNode, OrderedMap.get?_insert]
  split
  · exact .inr ⟨a, b, rfl, rfl, nodes⟩
  · exact each q

theorem Alike.enqueue (alike : n.Alike m) : (n.enqueue peer).Alike (m.enqueue peer) := by
  obtain ⟨nodes, rfl, each⟩ := alike
  unfold Network.enqueue
  dsimp only
  split
  · exact ⟨nodes, rfl, each⟩
  · exact ⟨nodes, rfl, each⟩

/-- Like commands are put into like inboxes, or neither is. -/
theorem Alike.submit (alike : n.Alike m) (peer : PeerId) {command other : Command}
    (commands : command.Alike other) :
    (∃ fault, n.submit peer command = .error fault ∧ m.submit peer other = .error fault) ∨
      ∃ next final, n.submit peer command = .ok next ∧ m.submit peer other = .ok final ∧
        next.Alike final := by
  have ⟨nodes, same, each⟩ := alike
  have found : m.nodes = nodes := same ▸ rfl
  unfold Network.submit
  rw [found]
  rcases each peer with ⟨left, right⟩ | ⟨a, _, left, right, inbox, waiting, rfl⟩
  · simp only [left, right]
    exact .inl ⟨_, rfl, rfl⟩
  · simp only [left, right, RelayNode.submit]
    cases a.alive with
    | false => exact .inl ⟨_, rfl, rfl⟩
    | true =>
      have more := List.rel_append waiting (.cons commands .nil)
      exact .inr ⟨_, _, rfl, rfl, (alike.setNode ⟨_, more, rfl⟩).enqueue⟩

theorem Alike.post (alike : n.Alike m) (peer : PeerId) {command other : Command}
    (commands : command.Alike other) : (n.post peer command).Alike (m.post peer other) := by
  unfold Network.post
  rcases alike.submit peer commands with ⟨fault, left, right⟩ | ⟨_, _, left, right, later⟩
  · rw [left, right]
    exact alike
  · rw [left, right]
    exact later

/-- Like exchanges are started at like networks, with the same ticket. -/
theorem Alike.start (alike : n.Alike m) {exchange other : Exchange}
    (exchanges : exchange.Alike other) {ticket : Nat} {next : Network}
    (started : n.start peer exchange = .ok (ticket, next)) :
    ∃ final, m.start peer other = .ok (ticket, final) ∧ next.Alike final := by
  have tickets : m.tickets = n.tickets := by
    obtain ⟨nodes, rfl, -⟩ := alike
    rfl
  unfold Network.start at started ⊢
  rw [tickets]
  rcases alike.submit peer (.start exchanges) with ⟨fault, left, -⟩ | ⟨_, _, left, right, later⟩
  · rw [left] at started
    cases started
  · rw [left] at started
    cases started
    rw [right]
    obtain ⟨nodes, rfl, each⟩ := later
    exact ⟨_, rfl, nodes, rfl, each⟩

/-- Like messages are put into like inboxes, if a directory that does not look at them accepts them. -/
theorem Alike.routeAll {directory : Directory} (blind : directory.Blind)
    {offered others : List Dispatch} (messages : List.Forall₂ Dispatch.Alike offered others)
    (alike : n.Alike m) :
    (offered.foldl (Network.route directory) n).Alike (others.foldl (Network.route directory) m) := by
  induction messages generalizing n m with
  | nil => exact alike
  | @cons o p _ _ first _ ih =>
    refine ih ?_
    have accepted : directory.accepts o.link o.frame = directory.accepts p.link p.frame :=
      first.link ▸ blind ..
    rw [Network.route, Network.route, accepted, first.link]
    split
    · exact alike.post _ (.deliver first.message.frame)
    · exact alike

/-- Like peers do the first commands of their inboxes alike. -/
theorem Alike.act (alike : n.Alike m) (peer : PeerId) : (n.act peer).Alike (m.act peer) := by
  have ⟨nodes, same, each⟩ := alike
  have directory := alike.directory_eq peer
  subst same
  unfold Network.act
  rcases each peer with ⟨left, right⟩ | ⟨a, b, left, right, like⟩
  · simp only [left, right]
    exact alike
  · have ⟨_, _, own⟩ := like
    have actions : RelayNode.Action.Alike
        (a.act (n.directory peer a.neighbours) (n.ids n.started))
        (b.act (n.directory peer a.neighbours) (n.ids n.started)) :=
      like.act (blind_directory n peer a.neighbours)
    have neighbours : b.neighbours = a.neighbours := own ▸ rfl
    simp only [left, right, directory, neighbours, ← actions.usedId]
    refine Alike.routeAll (blind_directory n _ _) actions.offered ?_
    obtain ⟨others, changed, later⟩ : Alike (n.setNode peer _) (_ : Network) :=
      alike.setNode actions.node
    rw [changed]
    exact ⟨others, rfl, later⟩

theorem Alike.busy_eq (alike : n.Alike m) (peer : PeerId) : n.busy peer = m.busy peer := by
  obtain ⟨nodes, rfl, each⟩ := alike
  unfold Network.busy
  rcases each peer with ⟨left, right⟩ | ⟨a, _, left, right, _, commands, rfl⟩
  · rw [left, right]
  · rw [left, right]
    obtain ⟨_, _, _, own, _, _, _, _, _⟩ := a
    cases commands <;> rfl

theorem Alike.run (alike : n.Alike m) (limit : Nat) : (n.run limit).Alike (m.run limit) := by
  induction limit generalizing n m with
  | zero => exact alike
  | succ limit ih =>
    have ⟨nodes, same, _⟩ := alike
    have queue : m.queue = n.queue := same ▸ rfl
    unfold Network.run advance?
    rw [queue]
    cases n.queue with
    | nil => exact alike
    | cons peer rest =>
      -- The queues are the same and like nodes are busy alike, so the same peer takes its turn.
      simp only [alike.busy_eq peer]
      cases m.busy peer with
      | true => exact ih (alike.act peer)
      | false =>
        obtain ⟨nodes, rfl, each⟩ := alike
        exact ih ⟨nodes, rfl, each⟩

/-- The same events are taken from like nodes. -/
theorem Alike.collect (alike : n.Alike m) (peer : PeerId) :
    (n.collect peer).1 = (m.collect peer).1 ∧ (n.collect peer).2.Alike (m.collect peer).2 := by
  have ⟨nodes, same, each⟩ := alike
  have found : m.nodes = nodes := same ▸ rfl
  unfold Network.collect
  rw [found]
  rcases each peer with ⟨left, right⟩ | ⟨a, _, left, right, inbox, commands, rfl⟩
  · rw [left, right]
    exact ⟨rfl, alike⟩
  · rw [left, right]
    have next : (n.setNode peer a.collect.2).Alike
        (m.setNode peer { a.collect.2 with inbox }) := alike.setNode ⟨inbox, commands, rfl⟩
    refine ⟨rfl, ?_⟩
    dsimp only [RelayNode.collect] at next ⊢
    split
    · exact next.enqueue
    · exact next

/-- Like networks tell the same. -/
theorem Alike.taken (alike : n.Alike m) (steps rounds : Nat) (peer : PeerId) :
    n.taken steps rounds peer = m.taken steps rounds peer := by
  induction rounds generalizing n m with
  | zero => rfl
  | succ rounds ih =>
    obtain ⟨events, next⟩ := (alike.run steps).collect peer
    rw [taken_succ, taken_succ, events, ih next]

/-- A query for a framework that endures tells what the query for its outline tells. -/
theorem taken_outline {framework : Framework} (proper : framework.Proper)
    (enduring : framework.Enduring) {ticket : Nat} {next : Network}
    (started : n.start peer (.comply framework.outline) = .ok (ticket, next)) :
    ∃ other, n.start peer (.comply framework) = .ok (ticket, other) ∧
      ∀ steps rounds reader, other.taken steps rounds reader = next.taken steps rounds reader := by
  obtain ⟨other, began, alike⟩ :=
    (Alike.refl n).start (.comply (proper.alike_outline enduring).symm) started
  exact ⟨other, began, fun steps rounds reader => (alike.taken steps rounds reader).symm⟩

end Network

end TrustMesh
