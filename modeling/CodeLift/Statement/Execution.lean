import CodeLift.Source
import CodeLift.Statement.Builder

/-!
# Running straight code

Each instruction takes its operands off the stack of the frame at hand and puts its result there, or becomes a statement.
-/

namespace CodeLift.Build

/-- The object under construction that the constructor call at an index completes, with its class. -/
def uninitialized? (index : Nat) (method : MethodRef) (object : Option ExprId) : Building (Option (ExprId × String)) := do
  match object with
  | some id =>
    if method.isConstructor then
      match ← Building.exprAt index id with
      | .newUninitialized className => return some (id, className)
      | _ => return none
    else return none
  | none => return none

/-- Runs a call. A constructor call on an object under construction completes that object in place, and is a statement only if
nothing on the stack refers to the object any more. -/
def call (index : Nat) (method : MethodRef) (f : Frame) : Building Frame := do
  let type ← Building.ofExcept .descriptor (MethodType.parse method.descriptor)
  let (arguments, f) ← f.popMany index type.parameters.length
  let (object, f) ← f.popIf index (method.kind != .static)
  match ← uninitialized? index method object with
  | some (id, className) =>
    modify fun b => { b with arena := b.arena.setIfInBounds id (.new className method.descriptor arguments) }
    return if f.stack.contains id then f else f.emit (.expr id)
  | none =>
    let id ← Building.alloc (.call method object arguments)
    return if type.result.isSome then f.push id else f.emit (.expr id)

/-- Runs the instruction at an index. -/
def insn (ls : Locals) (index : Nat) (i : Insn) (f : Frame) : Building Frame := do
  match i with
  | .label _ | .line _ | .nop => return f
  | .constNull => f.pushNew .null
  | .constInt value => f.pushNew (.int value)
  | .constString value => f.pushNew (.string value)
  | .load _ slot =>
    let id ← Building.ofExcept .locals (ls.resolve slot index)
    f.pushNew (.var id)
  | .store _ slot =>
    let (value, f) ← f.pop index
    let id ← Building.ofExcept .locals (ls.resolve slot index)
    return f.emit (.assign id value)
  | .increment slot amount =>
    let id ← Building.ofExcept .locals (ls.resolve slot index)
    return f.emit (.increment id amount.toInt32)
  | .arith _ op =>
    let (rhs, f) ← f.pop index
    let (lhs, f) ← f.pop index
    f.pushNew (.arith op lhs rhs)
  | .pop =>
    let (value, f) ← f.pop index
    return if (← Building.exprAt index value).hasEffects then f.emit (.expr value) else f
  | .dup =>
    let (value, f) ← f.pop index
    return (f.push value).push value
  | .new className => f.pushNew (.newUninitialized className)
  | .getField field =>
    let (object, f) ← f.popIf index (!field.isStatic)
    f.pushNew (.field object field.owner field.name)
  | .putField field =>
    let (value, f) ← f.pop index
    let (object, f) ← f.popIf index (!field.isStatic)
    return f.emit (.assignField object field.owner field.name value)
  | .invoke method => call index method f
  | .jump _ _ | .goto _ | .switch _ _ => throw (.unexpectedJump index)
  | .ret none => return f.emit (.ret none)
  | .ret (some _) =>
    let (value, f) ← f.pop index
    return f.emit (.ret (some value))
  | .throw =>
    let (value, f) ← f.pop index
    return f.emit (.throw value)

/-- Whether an instruction of straight code that ends at `stop` is the goto that the sections around it imply. -/
def isImpliedGoto (stop index : Nat) : Insn → Bool
  | .goto _ => index + 1 == stop
  | _ => false

/-- Runs straight code that ends at `stop`, given the indices of its instructions. -/
def straight (src : Source) (stop : Nat) : List Nat → Frame → Building Frame
  | [], f => pure f
  | index :: rest, f => do
    match src.method.code[index]? with
    | none => throw (.missingInsn index)
    | some i =>
      let f ← if isImpliedGoto stop index i then pure f else insn src.locals index i f
      straight src stop rest f

/-- Runs the code of a span. A goto at its end is implied by the sections around it; no other jump may stand in it. -/
def body (src : Source) (span : Span) (f : Frame) : Building Frame := straight src span.stop span.indices f

end CodeLift.Build
