import TrustMesh.Tool.Evaluate
import TrustMesh.Tool.Simulate

/-!
# Arguments of the command line

Commands are verbs, which follow one another from the general to the particular, and each
verb has options. Two options are known to all verbs, and the innermost use of them
counts. An option is written with its name behind two dashes or, if it has one, with its
letter behind one; several letters may share a dash. A value follows as the next
argument, after an equals sign, or directly behind a letter. As an argument of its own it
may be a lone dash but not start with one. An option is given once to a verb unless it
takes a list.
-/

namespace TrustMesh

/-- The verbs; `start` stands for the program itself. -/
inductive Verb where
  | start
  | evaluate
  | simulate
  | trace
  | gossip
  | comply
deriving DecidableEq

/-- What the value of an option may be: a path, any text, a count, or texts between commas. -/
inductive ValueKind where
  | path
  | text
  | count
  | list
deriving DecidableEq

/-- An option: its name, its letter, and what its value may be. A switch has no value. -/
structure Parameter where
  name : String
  letter : Option Char
  value : Option ValueKind
deriving DecidableEq

/-- Why the arguments ask for no task: they ask for help, or they are wrong. -/
inductive Usage where
  | help
  | misuse
deriving DecidableEq

namespace Verb

/-- The options that all verbs know. -/
def common : List Parameter := [
  ⟨"verbose", some 'v', none⟩,
  ⟨"config", some 'c', some .path⟩,
  ⟨"help", some 'h', none⟩]

/-- The options of a verb. -/
def parameters (v : Verb) : List Parameter :=
  common ++ match v with
  | .start => []
  | .evaluate => [
    ⟨"doc", none, some .path⟩,
    ⟨"holdings", none, some .path⟩,
    ⟨"explain", none, none⟩]
  | .simulate => [
    ⟨"topology", none, some .path⟩,
    ⟨"from", none, some .text⟩,
    ⟨"settle-ms", none, some .count⟩]
  | .trace => [⟨"target", none, some .text⟩]
  | .gossip => [⟨"members", none, some .list⟩, ⟨"content", none, some .text⟩]
  | .comply => [⟨"doc", none, some .path⟩]

/-- The verbs that may follow a verb. -/
def followers : Verb → List (String × Verb)
  | .start => [("evaluate", .evaluate), ("simulate", .simulate)]
  | .simulate => [("trace", .trace), ("gossip", .gossip), ("comply", .comply)]
  | _ => []

/-- The verb of a name that may follow a verb. -/
def follower? (v : Verb) (name : String) : Option Verb :=
  (v.followers.find? (·.1 = name)).map (·.2)

/-- Whether a list of names leads from a verb to one that help can be asked about. -/
def explains : Verb → List String → Bool
  | _, [] => true
  | v, name :: rest =>
    match v.follower? name with
    | some next => next.explains rest
    | none => !v.followers.isEmpty && name = "help" && rest.isEmpty

end Verb

/-- A verb with the options that were given to it and their values. -/
structure Clause where
  verb : Verb
  given : List (String × List String)
deriving DecidableEq

namespace Clause

/-- The number that a text writes, if it has 64 bits. -/
def count? (text : String) : Option Nat :=
  let digits : List Char := match text.toList with
    | '+' :: rest => rest
    | cs => cs
  let value : Nat := digits.foldl (fun n c => n * 10 + (c.toNat - '0'.toNat)) 0
  if digits.isEmpty ∨ !digits.all Char.isDigit ∨ Nat.pow 2 64 ≤ value then none else some value

/-- Whether a text may be the value of an option. -/
def admits : ValueKind → String → Bool
  | .path, value => value ≠ ""
  | .count, value => (count? value).isSome
  | .text, _ => true
  | .list, _ => true

/-- The values of an option in the order in which they were given, if it was given. -/
def values? (c : Clause) (name : String) : Option (List String) :=
  (c.given.find? (·.1 = name)).map (·.2)

/-- The value of an option that was given. -/
def value? (c : Clause) (name : String) : Option String := (c.values? name).bind List.head?

/-- Give values to an option that has none yet. -/
def giveNew (c : Clause) (name : String) (values : List String) : Except Usage Clause :=
  if (c.values? name).isSome then .error .misuse
  else .ok { c with given := c.given ++ [(name, values)] }

/-- Turn on a switch; the switch for help ends everything. -/
def turnOn (c : Clause) (p : Parameter) : Except Usage Clause :=
  if p.name = "help" then .error .help else c.giveNew p.name []

/-- Give a value to an option. -/
def give (c : Clause) (p : Parameter) (value : String) : Except Usage Clause :=
  match p.value with
  | none => .error .misuse
  | some .list =>
    let values := (c.values? p.name).getD [] ++ value.splitOn ","
    .ok { c with given := c.given.filter (·.1 ≠ p.name) ++ [(p.name, values)] }
  | some kind => if admits kind value then c.giveNew p.name [value] else .error .misuse

/-- The option of a name. -/
def named? (c : Clause) (name : String) : Except Usage Parameter :=
  match c.verb.parameters.find? (·.name = name) with
  | some p => .ok p
  | none => .error .misuse

/-- The option of a letter. -/
def lettered? (c : Clause) (letter : Char) : Except Usage Parameter :=
  match c.verb.parameters.find? (·.letter = some letter) with
  | some p => .ok p
  | none => .error .misuse

/-- Read the argument behind two dashes. An option that still lacks its value is handed back. -/
def readName (c : Clause) (cs : List Char) : Except Usage (Clause × Option Parameter) := do
  let (name, rest) := cs.span (· ≠ '=')
  let p ← c.named? (String.ofList name)
  match rest, p.value with
  | _ :: value, _ => return (← c.give p (String.ofList value), none)
  | [], none => return (← c.turnOn p, none)
  | [], some _ => return (c, some p)

/-- Read the letters behind one dash. An option that still lacks its value is handed back. -/
def readLetters (c : Clause) : List Char → Except Usage (Clause × Option Parameter)
  | [] => .ok (c, none)
  | letter :: rest => do
    let p ← c.lettered? letter
    match p.value, rest with
    | none, rest => (← c.turnOn p).readLetters rest
    | some _, [] => return (c, some p)
    | some _, '=' :: value => return (← c.give p (String.ofList value), none)
    | some _, value => return (← c.give p (String.ofList value), none)

/-- Read arguments. The clauses of the verbs that came before are `outer`, the last one first;
`open?` is an option that lacks its value. -/
def readAll (outer : List Clause) (c : Clause) : (open? : Option Parameter) → List String →
    Except Usage (List Clause)
  | some _, [] => .error .misuse
  | none, [] => .ok (c :: outer)
  | some p, arg :: rest =>
    if arg.startsWith "-" ∧ arg ≠ "-" then
      .error .misuse
    else do readAll outer (← c.give p arg) none rest
  | none, arg :: rest =>
    match arg.toList with
    | ['-', '-'] => if rest.isEmpty then .ok (c :: outer) else .error .misuse
    | '-' :: '-' :: name => do
      let (c, open?) ← c.readName name
      readAll outer c open? rest
    | '-' :: letter :: letters => do
      let (c, open?) ← c.readLetters (letter :: letters)
      readAll outer c open? rest
    | _ =>
      match c.verb.follower? arg with
      | some verb => readAll (c :: outer) ⟨verb, []⟩ none rest
      | none =>
        if !c.verb.followers.isEmpty && arg = "help" && c.verb.explains rest then .error .help
        else .error .misuse

/-- The value of an option that has to be given. -/
def require (c : Clause) (name : String) : Except Usage String :=
  match c.value? name with
  | some value => .ok value
  | none => .error .misuse

end Clause

/-- What the program is to do. -/
inductive Task where
  | evaluate (task : Evaluate)
  | simulate (task : Simulate)
deriving DecidableEq

/-- A use of the program: the file of its settings and what it is to do. -/
structure Invocation where
  settings : String
  task : Task
deriving DecidableEq

namespace Invocation

/-- The file of the settings unless another is given. -/
def standardSettings : String := ".govmesh/config.toml"

/-- The exchange that the last verb asks to be simulated. -/
def exchangeOf (c : Clause) : Except Usage SimulatedExchange :=
  match c.verb with
  | .trace => return .trace ⟨← c.require "target"⟩
  | .gossip =>
    return .gossip (((c.values? "members").getD []).map PeerId.mk) (← c.require "content")
  | .comply => return .comply (← c.require "doc")
  | _ => .error .misuse

/-- The task that the clauses behind the first one ask for. -/
def taskOf : List Clause → Except Usage Task
  | [c] =>
    if c.verb = .evaluate then
      return .evaluate ⟨← c.require "doc", c.value? "holdings", (c.values? "explain").isSome⟩
    else .error .misuse
  | [outer, inner] =>
    return .simulate ⟨← outer.require "topology", (outer.value? "from").map PeerId.mk,
      ← exchangeOf inner⟩
  | _ => .error .misuse

/-- The use of the program that the arguments ask for. -/
def ofArguments (arguments : List String) : Except Usage Invocation := do
  let clauses ← Clause.readAll [] ⟨.start, []⟩ none arguments
  let settings := (clauses.findSome? (·.value? "config")).getD standardSettings
  return ⟨settings, ← taskOf clauses.reverse.tail⟩

/-- The files that a use of the program reads. -/
def paths (i : Invocation) : List String :=
  i.settings :: match i.task with
  | .evaluate e => e.framework :: e.holdings.toList
  | .simulate s =>
    s.topology :: match s.exchange with
    | .comply path => [path]
    | _ => []

/-- What the use of the program prints. -/
def run (limit : Nat) (ids : Nat → MessageId) (files : Files) (i : Invocation) :
    Except Failure String := do
  let settings ← NodeFile.load files i.settings
  match i.task with
  | .evaluate e => e.run files
  | .simulate s => s.run limit ids files settings.node settings.relay

end Invocation

end TrustMesh
