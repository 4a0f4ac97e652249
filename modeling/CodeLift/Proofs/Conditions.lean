import CodeLift.Expr.Basic
import CodeLift.Proofs.Guards

/-!
# When conditions hold

A condition holds or not once its expressions have values. A conditional jump is taken or not once its operands have values. If
each jump of a guard has a condition under which it is taken, the guard as a whole has one too (`Guard.assemble`), and that one
holds exactly when the guard does.
-/

namespace CodeLift

/-- What an expression can have as its value: an integer, or a reference to nothing or to an object. -/
inductive Value where
  | int (value : Int32)
  | null
  | object (address : Nat)
  deriving DecidableEq, Repr

/-- Whether a value is less than another. References are not ordered. -/
def Value.isLess : Value → Value → Bool
  | .int a, .int b => a < b
  | _, _ => false

/-- Whether a comparison holds of two values. -/
def Comparison.holds : Comparison → Value → Value → Bool
  | .eq, a, b => a == b
  | .ne, a, b => a != b
  | .lt, a, b => a.isLess b
  | .ge, a, b => !a.isLess b
  | .gt, a, b => b.isLess a
  | .le, a, b => !b.isLess a

/-- Whether a conditional jump is taken, given the values of its operands in the order in which they were pushed. -/
def JumpTest.isTaken : JumpTest → List Value → Bool
  | .eq, [a] => a == .int 0
  | .ne, [a] => a != .int 0
  | .lt, [a] => a.isLess (.int 0)
  | .ge, [a] => !a.isLess (.int 0)
  | .gt, [a] => (Value.int 0).isLess a
  | .le, [a] => !(Value.int 0).isLess a
  | .intEq, [a, b] | .refEq, [a, b] => a == b
  | .intNe, [a, b] | .refNe, [a, b] => a != b
  | .intLt, [a, b] => a.isLess b
  | .intGe, [a, b] => !a.isLess b
  | .intGt, [a, b] => b.isLess a
  | .intLe, [a, b] => !b.isLess a
  | .null, [a] => a == .null
  | .nonNull, [a] => a != .null
  | _, _ => false

/-- A comparison of two operands holds where the jump is taken. -/
theorem JumpTest.holds_comparison_two {test : JumpTest} (h : test.operandCount = 2) (a b : Value) :
    test.comparison.holds a b = test.isTaken [a, b] := by
  cases test <;> first | rfl | cases h

/-- A comparison to zero or null holds where the jump is taken. -/
theorem JumpTest.holds_comparison_one {test : JumpTest} (h : test.operandCount = 1) (a : Value) :
    test.comparison.holds a (if test.comparesToNull then .null else .int 0) = test.isTaken [a] := by
  cases test <;> first | rfl | cases h

/-- The value of an expression of an arena: constants stand for themselves, and the others have the values assigned to them. -/
def Arena.valueOf (arena : Arena) (assigned : ExprId → Value) (id : ExprId) : Value :=
  match arena[id]? with
  | some (.int value) => .int value
  | some .null => .null
  | _ => assigned id

/-- A negated comparison holds where the comparison does not. -/
theorem Comparison.holds_negate (op : Comparison) (a b : Value) : op.negate.holds a b = !op.holds a b := by
  cases op <;> simp [negate, holds, bne]

theorem Comparison.negate_negate (op : Comparison) : op.negate.negate = op := by
  cases op <;> rfl

namespace Condition

mutual

/-- Whether a condition holds, given the values of expressions. -/
def holds (value : ExprId → Value) : Condition → Bool
  | .compare op lhs rhs => op.holds (value lhs) (value rhs)
  | .and parts => allHold value parts
  | .or parts => anyHolds value parts

/-- Whether all of some conditions hold. -/
def allHold (value : ExprId → Value) : List Condition → Bool
  | [] => true
  | part :: rest => part.holds value && allHold value rest

/-- Whether any of some conditions holds. -/
def anyHolds (value : ExprId → Value) : List Condition → Bool
  | [] => false
  | part :: rest => part.holds value || anyHolds value rest

end

section

variable (value : ExprId → Value)

mutual

/-- A negated condition holds when the condition does not. -/
theorem holds_negate (c : Condition) : c.negate.holds value = !c.holds value := by
  cases c with
  | compare op lhs rhs => simp [negate, holds, Comparison.holds_negate]
  | and parts => simp [negate, holds, anyHolds_negateAll parts]
  | or parts => simp [negate, holds, allHold_negateAll parts]

/-- Some negated condition holds where not all conditions do. -/
theorem anyHolds_negateAll (parts : List Condition) : anyHolds value (negateAll parts) = !allHold value parts := by
  cases parts with
  | nil => rfl
  | cons part rest => simp [negateAll, anyHolds, allHold, holds_negate part, anyHolds_negateAll rest]

/-- All negated conditions hold where none of the conditions does. -/
theorem allHold_negateAll (parts : List Condition) : allHold value (negateAll parts) = !anyHolds value parts := by
  cases parts with
  | nil => rfl
  | cons part rest => simp [negateAll, anyHolds, allHold, holds_negate part, allHold_negateAll rest]

end

end

mutual

theorem negate_negate (c : Condition) : c.negate.negate = c := by
  cases c with
  | compare op lhs rhs => simp [negate, Comparison.negate_negate]
  | and parts => simp [negate, negateAll_negateAll parts]
  | or parts => simp [negate, negateAll_negateAll parts]

/-- Negating conditions twice gives them back. -/
theorem negateAll_negateAll (parts : List Condition) : negateAll (negateAll parts) = parts := by
  cases parts with
  | nil => rfl
  | cons part rest => simp [negateAll, negate_negate part, negateAll_negateAll rest]

end

end Condition

namespace Guard

mutual

/-- The condition under which a guard holds, given those under which its jumps are taken, from left to right. -/
def assemble : Guard → List Condition → Condition
  | .jump _ negate, taken => if negate then (taken.headD (.or [])).negate else taken.headD (.or [])
  | .and parts, taken => .and (assembleAll parts taken)
  | .or parts, taken => .or (assembleAll parts taken)
  | .not inner, taken => (assemble inner taken).negate

/-- The conditions under which several guards hold. -/
def assembleAll : List Guard → List Condition → List Condition
  | [], _ => []
  | part :: rest, taken => assemble part (taken.take part.spans.length) :: assembleAll rest (taken.drop part.spans.length)

end

section

variable (value : ExprId → Value)

/-- The first condition holds as the first outcome says. -/
theorem holds_headD (conditions : List Condition) :
    (conditions.headD (.or [])).holds value = (conditions.map (·.holds value)).headD false := by
  cases conditions <;> simp [Condition.holds, Condition.anyHolds]

mutual

/-- The condition of a guard holds when the guard does: that evaluation stops early makes no difference. -/
theorem holds_assemble (guard : Guard) (conditions : List Condition) :
    (guard.assemble conditions).holds value = (guard.evaluate (conditions.map (·.holds value))).holds := by
  cases guard with
  | jump span negate =>
    rw [assemble, evaluate]
    by_cases hnegate : negate = true
    · rw [if_pos hnegate, Condition.holds_negate, holds_headD, hnegate, Bool.bne_true]
    · rw [if_neg hnegate, holds_headD, Bool.eq_false_iff.2 hnegate, Bool.bne_false]
  | and parts => rw [assemble, Condition.holds, evaluate, allHold_assembleAll parts]
  | or parts => rw [assemble, Condition.holds, evaluate, anyHolds_assembleAll parts]
  | not inner => rw [assemble, Condition.holds_negate, evaluate, holds_assemble inner]

/-- Conditions assembled under an and hold as the jumps are evaluated. -/
theorem allHold_assembleAll (parts : List Guard) (conditions : List Condition) :
    Condition.allHold value (assembleAll parts conditions) = (evaluateAll true parts (conditions.map (·.holds value))).holds := by
  cases parts with
  | nil => simp [assembleAll, Condition.allHold, evaluateAll]
  | cons part rest =>
    rw [assembleAll, Condition.allHold, evaluateAll, holds_assemble part, allHold_assembleAll rest, List.map_take, List.map_drop]
    by_cases hfirst : (part.evaluate ((conditions.map (·.holds value)).take part.spans.length)).holds = true
    · simp [hfirst]
    · simp [hfirst]

/-- Conditions assembled under an or hold as the jumps are evaluated. -/
theorem anyHolds_assembleAll (parts : List Guard) (conditions : List Condition) :
    Condition.anyHolds value (assembleAll parts conditions) = (evaluateAll false parts (conditions.map (·.holds value))).holds := by
  cases parts with
  | nil => simp [assembleAll, Condition.anyHolds, evaluateAll]
  | cons part rest =>
    rw [assembleAll, Condition.anyHolds, evaluateAll, holds_assemble part, anyHolds_assembleAll rest, List.map_take, List.map_drop]
    by_cases hfirst : (part.evaluate ((conditions.map (·.holds value)).take part.spans.length)).holds = false
    · simp [hfirst]
    · simp [hfirst]

end

end

end Guard

end CodeLift
