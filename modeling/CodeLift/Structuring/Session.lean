import CodeLift.Event
import CodeLift.Section
import CodeLift.Settings
import CodeLift.Source
import CodeLift.Structuring.Error

/-!
# Structuring sessions

Structuring turns regions of a block graph into sections. Its session keeps the loops and switches around the region at hand,
innermost first, the heads of the loops being structured, how deeply regions nest, and how many attempts are under way whose
failures must not become comments. `Structuring` is an action on a session that may fail; a failure keeps the session.
-/

namespace CodeLift

/-- A loop or switch around the region at hand: where a break leads, and for a loop where a continue leads. -/
structure Breakable where
  breakTo : Option BlockId
  continueTo : Option BlockId
  deriving DecidableEq, Repr

/-- What structuring keeps track of. -/
structure Session where
  /-- The loops and switches around the region at hand, innermost first. -/
  breakables : List Breakable
  /-- The heads of the loops whose bodies are being structured, innermost first. -/
  loopHeads : List BlockId
  /-- How many regions are being structured, each inside the one before. -/
  depth : Nat
  /-- While this is not zero, failures do not become comments. -/
  strict : Nat
  events : List Event
  deriving DecidableEq, Repr

/-- The session at the start of a method. -/
def Session.start (events : List Event) : Session := ⟨[], [], 0, 0, events⟩

/-- A method with its graph and the settings it is structured under. -/
structure Subject extends Source where
  graph : Graph
  settings : Settings

/-- An action on a session that may fail. -/
abbrev Structuring := EStateM StructuringError Session

namespace Structuring

variable {α : Type}

/-- A result that does not look at the session. -/
def ofExcept : Except StructuringError α → Structuring α
  | .ok a => pure a
  | .error e => throw e

/-- Runs an action in a session changed by `enter`, and changes the session by `leave` after it, also if it fails. -/
def within (enter leave : Session → Session) (action : Structuring α) : Structuring α := fun s =>
  match action (enter s) with
  | .ok a s => .ok a (leave s)
  | .error e s => .error e (leave s)

/-- Runs an action one level deeper. -/
def deeper : Structuring α → Structuring α :=
  within (fun s => { s with depth := s.depth + 1 }) (fun s => { s with depth := s.depth - 1 })

/-- Runs an action whose failures do not become comments. -/
def strictly : Structuring α → Structuring α :=
  within (fun s => { s with strict := s.strict + 1 }) (fun s => { s with strict := s.strict - 1 })

/-- Runs an action inside a loop or switch. -/
def inBreakable (b : Breakable) : Structuring α → Structuring α :=
  within (fun s => { s with breakables := b :: s.breakables }) (fun s => { s with breakables := s.breakables.tail })

/-- Runs an action inside a loop with a head. -/
def inLoop (head : BlockId) : Structuring α → Structuring α :=
  within (fun s => { s with loopHeads := head :: s.loopHeads }) (fun s => { s with loopHeads := s.loopHeads.tail })

/-- Runs an action and gives its failure as a value, unless the failure is not a genuine one. -/
def attempt (action : Structuring α) : Structuring (Except StructuringError α) := fun s =>
  match action s with
  | .ok a s => .ok (.ok a) s
  | .error e s => if e.isGenuine then .ok (.error e) s else .error e s

/-- Whether the loop with a head is being structured. -/
def isLoopHead (head : BlockId) : Structuring Bool := do return (← get).loopHeads.contains head

end Structuring

/-- The section that a jump to `target` stands for: the break or continue of the innermost of the breakables that leads there.
Of the constructs around the jump, `depth` loops and switches, among them `loops` loops, have been passed over. -/
def resolveFrom (g : Graph) (target : BlockId) (jump : Option Nat) :
    (depth loops : Nat) → List Breakable → Option Section
  | _, _, [] => none
  | depth, loops, b :: rest =>
    if b.breakTo.map g.entryBlock = some target then some (.breakOut depth jump)
    else if b.continueTo.map g.entryBlock = some target then some (.continueNext loops jump)
    else resolveFrom g target jump (depth + 1) (if b.continueTo.isSome then loops + 1 else loops) rest

/-- The break or continue of a construct around the region at hand that a jump to `target` stands for. -/
def resolveJump (g : Graph) (target : BlockId) (jump : Option Nat) : Structuring (Option Section) := do
  return resolveFrom g target jump 0 0 (← get).breakables

end CodeLift
