/-!
# Events

What the library reports while it works: each event has a level and a message. An action that reports keeps the events it has
reported when it fails.
-/

namespace CodeLift

/-- How much an event matters. -/
inductive Level where
  | error | warn | debug
  deriving DecidableEq, Repr

/-- Something the library reports while it works. -/
structure Event where
  level : Level
  message : String
  deriving DecidableEq, Repr

/-- An action that may fail and that reports events, oldest first. -/
abbrev Traced (ε : Type) := EStateM ε (List Event)

namespace Traced

variable {ε α : Type}

/-- Reports events in order. -/
def report (events : List Event) : Traced ε Unit := modify (· ++ events)

/-- A result that reports nothing. -/
def ofExcept : Except ε α → Traced ε α
  | .ok a => pure a
  | .error e => throw e

/-- The same action with its failures put under another type of error. -/
def mapError {δ : Type} (f : δ → ε) (action : Traced δ α) : Traced ε α := fun events =>
  match action events with
  | .ok a events => .ok a events
  | .error e events => .error (f e) events

end Traced

end CodeLift
