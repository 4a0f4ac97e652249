import CodeLift.Handler.Binding
import CodeLift.Locals.Basic

/-!
# The types of caught variables

A handler that stores what it catches starts a variable of the class it catches. Handlers of several entries may store at one
instruction: the first entry gives the variable its class, and an entry that catches another class makes it the type of all
exceptions.
-/

namespace CodeLift

namespace Method

/-- What is known of the variable that a store binds: what the first entry to store there catches, and the type of the variable. -/
abbrev CaughtTypes := Keyed Nat (CatchType × String)

/-- What is known of a variable after one more entry that stores there: the first entry gives its type, and an entry that catches
another class than the first makes it the type of all exceptions. -/
def joinCaught (known : Option (CatchType × String)) (catches : CatchType) : CatchType × String :=
  match known with
  | some (first, descriptor) => (first, if first = catches then descriptor else CatchType.any.descriptor)
  | none => (catches, catches.descriptor)

/-- Takes note of an entry that stores what it catches at an index. -/
def noteCaught (types : CaughtTypes) (index : Nat) (catches : CatchType) : CaughtTypes :=
  types.put index (joinCaught (types.find? index) catches)

/-- Whether there is a store at an index. -/
def storesAt (code : List Insn) (index : Nat) : Bool :=
  match code[index]? with
  | some (.store _ _) => true
  | _ => false

/-- Takes note of an entry of the table of handlers, if its handler starts with a store. -/
def noteEntry (m : Method) (labels : Labels) (types : CaughtTypes) (entry : HandlerEntry) : Except LabelError CaughtTypes := do
  let handler ← labels.index entry.handler
  match handlerBinding? m.code handler with
  | none => return types
  | some index => return if storesAt m.code index then noteCaught types index entry.catches else types

/-- The types of the variables that stores bind to caught exceptions, by the index of the store. -/
def caughtTypes (m : Method) (labels : Labels) : Except LabelError (Keyed Nat String) := do
  let types ← m.handlerTable.foldlM (m.noteEntry labels) .empty
  return types.map (·.2)

end Method

end CodeLift
