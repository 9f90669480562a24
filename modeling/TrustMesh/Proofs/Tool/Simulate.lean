import TrustMesh.Proofs.Mesh.Likeness
import TrustMesh.Proofs.Mesh.Report
import TrustMesh.Proofs.Relay.Acceptance
import TrustMesh.Proofs.Tool.Topology
import TrustMesh.Tool.Simulate

/-!
# What the simulator prints of a compliance query

The simulator prints the last graph that the node which starts a query is told. If that node
is linked to another one, and every peer can read the framework, the graph shows the node
itself as `me` with exactly the roles that are granted to its holdings, and every other node
of its component with exactly its roles (`Simulate.comply_prints`).

A node that is linked to no other is told nothing, since nobody answers. Then the simulator
prints a graph without nodes, and the roles of the node are lost (`Simulate.comply_forgets_self`).
So they are if the framework is nested as deeply as texts may be: no peer can read a request
for it.
-/

namespace TrustMesh

open Std

/-- The files of a topology and of a framework. -/
def Files.ofMesh (mesh : String) (framework : Framework) : Files := fun path =>
  if path = "mesh.toml" then .ok (Utf8.encode mesh.toList)
  else if path = "roles.json" then .ok (Utf8.encode framework.toJson.compact.toList)
  else .error .notFound

/-- A graph shows the component of a node of a topology to this node: itself as `me`, and the others
under their own identifiers, each with exactly the roles that are granted to its holdings. -/
structure Topology.Portrays (t : Topology) (settings : Settings) (framework : Framework)
    (origin : PeerId) (g : Graph) : Prop where
  self : ∃ node, t.population.get? origin = some node ∧ g.node? .me =
    some ⟨.me, settings.selfLabel, framework.grantedRoles node.holdings.oracle⟩
  others : ∀ id node, t.population.get? id = some node → id ≠ origin → t.Joined origin id →
    ∃ shown, g.node? id = some shown ∧ shown.labels = framework.grantedRoles node.holdings.oracle
  shows : ∀ id, g.Shows id → id = .me ∨ id ≠ origin ∧ t.Joined origin id

/-- What displays the component of a member portrays that of its node. -/
theorem Deployment.Displays.portrays {t : Topology} {here : LocalNode} {settings : Settings}
    {distinct : t.Distinct here} {framework : Framework} {origin : PeerId} {node : DeclaredNode}
    {view : Graph} (found : t.population.get? origin = some node)
    (displays : (t.deployment here settings distinct).Displays
      (Topology.member here settings node) framework view) :
    t.Portrays settings framework origin view := by
  have own := Topology.id_of_population found
  refine ⟨⟨node, found, displays.self⟩, fun id other known away joined => ?_, fun id shown => ?_⟩
  · have named := Topology.id_of_population known
    have differ : Topology.member here settings other ≠ Topology.member here settings node :=
      fun same => away (named.symm.trans ((congrArg Member.id same).trans own))
    have joined : (t.deployment here settings distinct).Joined node.id other.id := by
      rw [own, named]
      exact joined
    exact named ▸ displays.others _ (Topology.member_mem known) differ joined
  · have seen := displays.shows id shown
    rw [Topology.id_member, own] at seen
    exact seen

/-- Settings that can be used have room for an event and for an exchange. -/
theorem Settings.room_of_usable {settings : Settings} (usable : settings.fault? = none) :
    0 < settings.eventBuffer ∧ 0 < settings.seenCapacity := by
  unfold fault? at usable
  split at usable
  · cases usable
  · split at usable
    · cases usable
    · omega

variable {ids : Nat → MessageId} {files : Files} {here : LocalNode} {settings : Settings}
  {t : Topology} {path : String} {framework : Framework} {origin : PeerId}

/-- A framework that was loaded is proper. -/
theorem Framework.proper_of_load (accepted : load files path = .ok framework) :
    framework.Proper := by
  unfold load at accepted
  cases text : files.readInput .framework path with
  | error failure =>
    rw [text] at accepted
    cases accepted
  | ok cs =>
    rw [text] at accepted
    cases read : parse cs with
    | error fault =>
      simp only [bind, Except.bind, read] at accepted
      cases accepted
    | ok other =>
      simp only [bind, Except.bind, read] at accepted
      cases accepted
      exact Parsed.proper (.inl ⟨cs, read⟩)

/-- What the next peer can read leaves room for one more container. -/
theorem Framework.Hop.room {f g : Framework} (proper : f.Proper) (hop : f.Hop g) :
    f.toJson.depth < maximalDepth := by
  have read : Message.decode (Message.encode ⟨.zero, [], .complianceRequest f⟩) =
      .ok ⟨.zero, [], .complianceRequest g⟩ := hop
  exact Message.room_of_decode (m := ⟨.zero, [], .complianceRequest f⟩) proper read

/-- A graph of what the outline of a framework grants shows what the framework does. -/
theorem Topology.Portrays.of_outline {g : Graph}
    (portrays : t.Portrays settings framework.outline origin g) :
    t.Portrays settings framework origin g where
  self := by simpa using portrays.self
  others := by simpa using portrays.others
  shows := portrays.shows

/-- A query is started in the network of a topology. Reading its events, with enough steps, ends with a
graph that portrays the component of its origin if the origin is linked to another node and the
framework endures. If nobody can hear of the query, it ends with nothing. -/
theorem Topology.exists_report (known : t.population.contains origin = true)
    (usable : settings.fault? = none) (distinct : t.Distinct here)
    (plain : t.population.contains .me = false) (proper : framework.Proper)
    (ids : Nat → MessageId) : ∃ first ticket next,
      t.network here settings ids = .ok first ∧
      first.start origin (.comply framework) = .ok (ticket, next) ∧
      ∃ enough, ∀ limit ≥ enough,
        (framework.Enduring → (∃ other, t.Linked origin other ∧ other ≠ origin) → ∃ id view,
          t.Portrays settings framework origin view ∧
            (next.taken limit limit origin).getLast? = some (.complianceUpdated id view)) ∧
        ((∀ other, t.Linked origin other → other = origin) ∨ (∀ g, ¬ framework.Hop g) →
          next.taken limit limit origin = []) := by
  obtain ⟨node, found⟩ := Option.isSome_iff_exists.1 known
  obtain ⟨n, queue, assembled, built⟩ := network_eq_ok usable distinct ids
  have own := id_of_population found
  have each : ∀ m ∈ (t.deployment here settings distinct).members,
      m.settings = settings ∧ m.id ≠ .me := by
    intro m mem
    obtain ⟨other, there, rfl⟩ := exists_of_member mem
    refine ⟨rfl, fun called => ?_⟩
    rw [called] at there
    rw [OrderedMap.contains, there] at plain
    cases plain
  have report := Deployment.exists_report assembled (member_mem found)
    (fun m mem => (each m mem).1.symm ▸ settings.room_of_usable usable)
    (fun m mem => congrArg Settings.complianceDedup (each m mem).1)
    (fun m mem _ => (each m mem).2)
  unfold Deployment.Unheard at report
  rw [id_member, own] at report
  obtain ⟨ticket, next, started, enough, ends⟩ := report framework queue
  -- Where the framework endures, it is told what the query for its outline tells.
  obtain ⟨_, outlined, began, enough', ends'⟩ := report framework.outline queue
  refine ⟨_, ticket, next, built, started, max enough enough', fun limit within =>
    ⟨fun enduring linked => ?_, (ends limit (by omega)).2⟩⟩
  obtain ⟨other, again, same⟩ := Network.taken_outline proper enduring began
  cases started.symm.trans again
  obtain ⟨id, view, displays, last⟩ := (ends' limit (by omega)).1 proper.relayable_outline linked
  rw [same]
  exact ⟨id, view, (displays.portrays found).of_outline, last⟩

namespace Simulate

variable {s : Simulate}

/-- A simulated query prints the last graph that its origin is told, or an empty one. -/
theorem run_comply {first next : Network} {ticket : Nat}
    (loaded : Topology.load files s.topology = .ok t) (asks : s.exchange = .comply path)
    (accepted : Framework.load files path = .ok framework)
    (begins : s.origin.or here.id = some origin) (known : t.population.contains origin = true)
    (built : t.network here settings ids = .ok first)
    (started : first.start origin (.comply framework) = .ok (ticket, next)) (limit : Nat) :
    s.run limit ids files here settings = .ok
      (((latestGraph? (next.taken limit limit origin)).getD .empty).toJson.canonical.pretty ++ "\n") := by
  simp only [run, loaded, begins, built, known, asks, report, accepted, Simulate.started, started,
    bind, Except.bind, pure, Except.pure, if_true]
  rfl

/-- When the simulation of a compliance query has come to its end, a node that is linked to another one
is shown with exactly its roles, and so is every other node of its component, if every peer that the
framework gets to can read it. Of a node that is linked to no other nothing is shown, nor of a
framework that is nested as deeply as texts may be. -/
theorem comply_prints (ids : Nat → MessageId) (loaded : Topology.load files s.topology = .ok t)
    (asks : s.exchange = .comply path) (accepted : Framework.load files path = .ok framework)
    (begins : s.origin.or here.id = some origin) (known : t.population.contains origin = true)
    (usable : settings.fault? = none) (distinct : t.Distinct here)
    (plain : t.population.contains .me = false) :
    ∃ enough, ∀ limit ≥ enough, ∃ g,
      s.run limit ids files here settings = .ok (g.toJson.canonical.pretty ++ "\n") ∧
      (framework.Enduring → (∃ other, t.Linked origin other ∧ other ≠ origin) →
        t.Portrays settings framework origin g) ∧
      ((∀ other, t.Linked origin other → other = origin) ∨
        framework.toJson.depth = maximalDepth → g = .empty) := by
  have proper := Framework.proper_of_load accepted
  obtain ⟨first, ticket, next, built, started, enough, ends⟩ :=
    Topology.exists_report known usable distinct plain proper ids
  refine ⟨enough, fun limit within => ⟨_, run_comply loaded asks accepted begins known built started
    limit, fun enduring linked => ?_, fun unheard => ?_⟩⟩
  · obtain ⟨id, view, portrays, last⟩ := (ends limit within).1 enduring linked
    rw [latestGraph?, last]
    exact portrays
  · have lost (full : framework.toJson.depth = maximalDepth) (g : Framework) :
        ¬ framework.Hop g := fun hop => Nat.ne_of_lt (hop.room proper) full
    rw [(ends limit within).2 (unheard.imp_right lost)]
    rfl

/-- Of two linked nodes the one that starts a query is shown with the role that is granted to it. -/
theorem comply_prints_pair :
    let files := Files.ofMesh
      "links = [[\"A\", \"B\"]]\n[[nodes]]\nid = \"A\"\n[nodes.holdings]\nidentities = [\"A\"]\n"
      (.granting "trader" ⟨"A"⟩)
    let s : Simulate := ⟨"mesh.toml", some ⟨"A"⟩, .comply "roles.json"⟩
    ∃ enough, ∀ limit ≥ enough, ∃ g : Graph,
      s.run limit (fun _ => .zero) files .unnamed .standard =
        .ok (g.toJson.canonical.pretty ++ "\n") ∧
      g.node? .me = some ⟨.me, "MySelf", .singleton "trader"⟩ ∧
      ∃ shown, g.node? ⟨"B"⟩ = some shown ∧ shown.labels = .empty := by
  intro files s
  let t : Topology := ⟨[⟨⟨"A"⟩, [], ⟨["A"], [], []⟩⟩], [(⟨"A"⟩, ⟨"B"⟩)]⟩
  have loaded : Topology.load files s.topology = .ok t := by decide +kernel
  have accepted : Framework.load files "roles.json" = .ok (.granting "trader" ⟨"A"⟩) := by
    decide +kernel
  have usable : Settings.standard.fault? = none := rfl
  have distinct : t.Distinct .unnamed := by decide +kernel
  have known : t.population.contains ⟨"A"⟩ = true := by decide +kernel
  have enduring : (Framework.granting "trader" ⟨"A"⟩).Enduring :=
    Framework.Relayable.enduring (by decide +kernel)
  obtain ⟨enough, ends⟩ := comply_prints (fun _ => .zero) loaded rfl accepted rfl known usable
    distinct (by decide +kernel)
  refine ⟨enough, fun limit within => ?_⟩
  obtain ⟨g, printed, linked, -⟩ := ends limit within
  have link : t.Linked ⟨"A"⟩ ⟨"B"⟩ := .inl (by simp [t])
  obtain ⟨⟨node, found, self⟩, others, -⟩ := linked enduring ⟨⟨"B"⟩, link, by decide⟩
  have first : t.population.get? ⟨"A"⟩ = some ⟨⟨"A"⟩, [], ⟨["A"], [], []⟩⟩ := by decide +kernel
  have second : t.population.get? ⟨"B"⟩ = some (.mentioned ⟨"B"⟩) := by decide +kernel
  rw [first] at found
  cases found
  refine ⟨g, printed, self.trans ?_, ?_⟩
  · decide +kernel
  · obtain ⟨shown, there, labels⟩ := others _ _ second (by decide) (.single link)
    exact ⟨shown, there, labels.trans (by decide +kernel)⟩

/-- For a node without links a graph without nodes is printed, though a role is granted to it. -/
theorem comply_forgets_self :
    let files := Files.ofMesh "[[nodes]]\nid = \"A\"\n[nodes.holdings]\nidentities = [\"A\"]\n"
      (.granting "trader" ⟨"A"⟩)
    let s : Simulate := ⟨"mesh.toml", some ⟨"A"⟩, .comply "roles.json"⟩
    ∃ t, Topology.load files s.topology = .ok t ∧ t.Distinct .unnamed ∧
      t.population.contains .me = false ∧
      (∃ node, t.population.get? ⟨"A"⟩ = some node ∧
        (Framework.granting "trader" ⟨"A"⟩).grantedRoles node.holdings.oracle = .singleton "trader") ∧
      (∃ enough, ∀ limit ≥ enough, s.run limit (fun _ => .zero) files .unnamed .standard =
        .ok ((∅ : Graph).toJson.canonical.pretty ++ "\n")) ∧
      (∅ : Graph).node? .me = none := by
  intro files s
  let t : Topology := ⟨[⟨⟨"A"⟩, [], ⟨["A"], [], []⟩⟩], []⟩
  have loaded : Topology.load files s.topology = .ok t := by decide +kernel
  have accepted : Framework.load files "roles.json" = .ok (.granting "trader" ⟨"A"⟩) := by
    decide +kernel
  have distinct : t.Distinct .unnamed := by decide +kernel
  have known : t.population.contains ⟨"A"⟩ = true := by decide +kernel
  have plain : t.population.contains .me = false := by decide +kernel
  have alone : ∀ other, t.Linked ⟨"A"⟩ other → other = ⟨"A"⟩ := by
    rintro other (there | there) <;> cases there
  have usable : Settings.standard.fault? = none := rfl
  obtain ⟨first, ticket, next, built, started, enough, ends⟩ := Topology.exists_report known usable
    distinct plain (Framework.proper_of_load accepted) fun _ => .zero
  refine ⟨t, loaded, distinct, plain, ⟨⟨⟨"A"⟩, [], ⟨["A"], [], []⟩⟩, by decide +kernel,
    by decide +kernel⟩, ⟨enough, fun limit within => ?_⟩, rfl⟩
  refine (run_comply loaded rfl accepted rfl known built started limit).trans ?_
  rw [(ends limit within).2 (.inl alone)]
  rfl

end Simulate

end TrustMesh
