import CodeLift.Event
import CodeLift.Locals.Basic
import CodeLift.Statement.Basic

/-!
# Building statements

Statements are built on a symbolic operand stack whose values are expressions. The builder holds the arena of those expressions
and the events reported; a frame is one list of statements being built, with the stack of it.
-/

namespace CodeLift

/-- Why sections cannot be made statements. -/
inductive StatementError where
  | stackUnderflow (index : Nat)
  | unexpectedJump (index : Nat)
  | notAConditional (index : Nat)
  | statementInCondition (index : Nat)
  | stackNotEmpty (count : Nat)
  | locals (cause : LocalsError)
  | descriptor (cause : DescriptorError)
  /-- An instruction that the code does not have was asked for, or one whose operand the arena does not have. -/
  | missingInsn (index : Nat)
  deriving DecidableEq, Repr

namespace StatementError

/-- The wording of the error. -/
def message : StatementError → String
  | .stackUnderflow index => "Instruction " ++ toString index ++ " pops more values than there are on the stack"
  | .unexpectedJump index => "Jump at instruction " ++ toString index ++ " is not accounted for by the structure"
  | .notAConditional index =>
    "Condition block ending at instruction " ++ toString index ++ " does not end with a conditional jump"
  | .statementInCondition index =>
    "Condition starting at instruction " ++ toString index ++ " has side effects that cannot be placed"
  | .stackNotEmpty count => toString count ++ " values are left on the stack at the end of a block"
  | .locals cause => "Failed to resolve a local: " ++ cause.message
  | .descriptor cause => "Invalid method descriptor: " ++ cause.message
  | .missingInsn index => "There is no instruction " ++ toString index ++ ", or it lacks an operand"

/-- Whether an error says something about the method. The others never arise from the sections of a method. -/
def isGenuine : StatementError → Bool
  | .missingInsn _ => false
  | _ => true

end StatementError

/-- What building keeps: the expressions made so far, and the events reported. -/
structure Builder where
  arena : Arena
  events : List Event

/-- An action on a builder that may fail; a failure keeps the builder. -/
abbrev Building := EStateM StatementError Builder

/-- A list of statements being built: the operand stack, top first, and the statements so far. -/
structure Frame where
  stack : List ExprId
  out : List Statement

namespace Building

variable {α : Type}

/-- Makes an expression. -/
def alloc (e : Expr) : Building ExprId := fun b => .ok b.arena.size { b with arena := b.arena.push e }

/-- The expression that the instruction at an index has as an operand. -/
def exprAt (index : Nat) (id : ExprId) : Building Expr := do
  match (← get).arena[id]? with
  | some e => return e
  | none => throw (.missingInsn index)

/-- A result that makes no expressions, with its failures put under the errors of building. -/
def ofExcept {ε : Type} (f : ε → StatementError) : Except ε α → Building α
  | .ok a => pure a
  | .error e => throw (f e)

end Building

namespace Frame

/-- Takes the value on top of the stack, for the instruction at an index. -/
def pop (f : Frame) (index : Nat) : Building (ExprId × Frame) :=
  match f.stack with
  | value :: stack => pure (value, { f with stack })
  | [] => throw (.stackUnderflow index)

/-- Takes `n` values off the stack, and gives them in the order in which they were put there. -/
def popMany (f : Frame) (index : Nat) : (n : Nat) → Building (List ExprId × Frame)
  | 0 => pure ([], f)
  | n + 1 => do
    let (last, f) ← f.pop index
    let (values, f) ← f.popMany index n
    return (values ++ [last], f)

/-- Takes the value on top of the stack if it is needed. -/
def popIf (f : Frame) (index : Nat) (needed : Bool) : Building (Option ExprId × Frame) := do
  if needed then
    let (value, f) ← f.pop index
    return (some value, f)
  else return (none, f)

/-- Puts a value on the stack. -/
def push (f : Frame) (value : ExprId) : Frame := { f with stack := value :: f.stack }

/-- Adds a statement. -/
def emit (f : Frame) (s : Statement) : Frame := { f with out := f.out ++ [s] }

/-- Makes an expression and puts it on the stack. -/
def pushNew (f : Frame) (e : Expr) : Building Frame := do return f.push (← Building.alloc e)

/-- The statements of a list, if its stack is empty. -/
def finish (f : Frame) : Building (List Statement) :=
  if f.stack.isEmpty then pure f.out else throw (.stackNotEmpty f.stack.length)

end Frame

end CodeLift
