import CodeLift.Section
import CodeLift.Statement.Execution

/-!
# Making guards conditions

A guard names the blocks whose conditional jumps it is made of. The code of each such block is run, and its jump becomes a
comparison of the operands on the stack.
-/

namespace CodeLift.Build

/-- The conditional jump that ends a span, with its index. -/
def spanJump (src : Source) (span : Span) : Building (JumpTest × Nat) :=
  match span.stop with
  | 0 => throw (.missingInsn 0)
  | last + 1 =>
    match src.method.code[last]? with
    | some (.jump test _) => pure (test, last)
    | some _ => throw (.notAConditional last)
    | none => throw (.missingInsn last)

/-- The operands that a test compares: both from the stack, or one from the stack and null or zero. -/
def operands (test : JumpTest) (index : Nat) (f : Frame) : Building (ExprId × ExprId × Frame) := do
  if test.operandCount = 2 then
    let (rhs, f) ← f.pop index
    let (lhs, f) ← f.pop index
    return (lhs, rhs, f)
  else
    let (lhs, f) ← f.pop index
    let rhs ← Building.alloc (if test.comparesToNull then .null else .int 0)
    return (lhs, rhs, f)

/-- Makes a conditional jump a condition. What its block does besides becomes statements before the condition, which are allowed
only while the prelude is open, that is before the first jump of the condition of a branch or of a loop tested at the bottom. -/
def jump (src : Source) (span : Span) (negate isOpen : Bool) (f : Frame) : Building (Condition × Frame) := do
  let (test, last) ← spanJump src span
  let inner ← body src ⟨span.start, last⟩ ⟨f.stack, []⟩
  if isOpen || inner.out.isEmpty then
    let (lhs, rhs, f) ← operands test last ⟨inner.stack, f.out ++ inner.out⟩
    let comparison := if negate then test.comparison.negate else test.comparison
    return (.compare comparison lhs rhs, f)
  else throw (.statementInCondition span.start)

mutual

/-- Makes a guard a condition. Gives also whether the prelude is still open after it. -/
def condition (src : Source) : Guard → (isOpen : Bool) → Frame → Building (Condition × Bool × Frame)
  | .jump span negate, isOpen, f => do
    let (condition, f) ← jump src span negate isOpen f
    return (condition, false, f)
  | .and parts, isOpen, f => do
    let (conditions, isOpen, f) ← conditions src parts isOpen f
    return (.and conditions, isOpen, f)
  | .or parts, isOpen, f => do
    let (conditions, isOpen, f) ← conditions src parts isOpen f
    return (.or conditions, isOpen, f)
  | .not inner, isOpen, f => do
    let (condition, isOpen, f) ← condition src inner isOpen f
    return (condition.negate, isOpen, f)

/-- Makes several guards conditions, in order. -/
def conditions (src : Source) : List Guard → (isOpen : Bool) → Frame → Building (List Condition × Bool × Frame)
  | [], isOpen, f => pure ([], isOpen, f)
  | part :: rest, isOpen, f => do
    let (condition, isOpen, f) ← condition src part isOpen f
    let (conditions, isOpen, f) ← conditions src rest isOpen f
    return (condition :: conditions, isOpen, f)

end

/-- Makes the guard of a loop that is tested at the top a condition; it may do nothing besides. -/
def headGuard (src : Source) (g : Guard) : Building Condition := do
  let (condition, _, f) ← condition src g false ⟨[], []⟩
  let _ ← f.finish
  return condition

end CodeLift.Build
