import CodeLift.Locals.Basic

/-!
# Expressions and conditions

The expressions of a method are kept in an arena and refer to each other by their places in it, so that a value used twice is
one expression. A condition is made of comparisons; negation is always pushed down into them.
-/

namespace CodeLift

/-- The place of an expression in its arena. -/
abbrev ExprId := Nat

/-- An expression. -/
inductive Expr where
  | var (id : LocalId)
  | null
  | int (value : Int32)
  | string (value : String)
  /-- A field, of an object unless it is static. -/
  | field (object : Option ExprId) (owner name : String)
  /-- A call, on an object unless it is static. -/
  | call (method : MethodRef) (object : Option ExprId) (arguments : List ExprId)
  /-- A new object before its constructor has run. -/
  | newUninitialized (className : String)
  | new (className descriptor : String) (arguments : List ExprId)
  | arith (op : ArithOp) (lhs rhs : ExprId)
  /-- The exception that a handler finds on the stack. -/
  | caught (catches : List CatchType)
  deriving DecidableEq, Repr

namespace Expr

/-- Whether an expression does something when it is evaluated, its operands apart. -/
def hasEffects : Expr → Bool
  | .call _ _ _ | .new _ _ _ => true
  | _ => false

/-- The expressions an expression refers to. -/
def children : Expr → List ExprId
  | .field object _ _ => object.toList
  | .call _ object arguments => object.toList ++ arguments
  | .new _ _ arguments => arguments
  | .arith _ lhs rhs => [lhs, rhs]
  | _ => []

end Expr

/-- The expressions of a method, in the order in which they were made. -/
abbrev Arena := Array Expr

/-- A condition on the values of expressions. -/
inductive Condition where
  | compare (op : Comparison) (lhs rhs : ExprId)
  | and (parts : List Condition)
  | or (parts : List Condition)

namespace Condition

mutual

/-- The condition that holds exactly when this one does not. -/
def negate : Condition → Condition
  | .compare op lhs rhs => .compare op.negate lhs rhs
  | .and parts => .or (negateAll parts)
  | .or parts => .and (negateAll parts)

/-- The negations of several conditions. -/
def negateAll : List Condition → List Condition
  | [] => []
  | part :: rest => part.negate :: negateAll rest

end

mutual

/-- Equality of conditions is decidable. -/
def decEq : (a b : Condition) → Decidable (a = b)
  | .compare op lhs rhs, .compare op' lhs' rhs' =>
    decidable_of_iff (op = op' ∧ lhs = lhs' ∧ rhs = rhs') (by simp)
  | .and parts, .and parts' =>
    match decEqAll parts parts' with
    | isTrue h => isTrue (congrArg _ h)
    | isFalse h => isFalse fun e => h (Condition.and.inj e)
  | .or parts, .or parts' =>
    match decEqAll parts parts' with
    | isTrue h => isTrue (congrArg _ h)
    | isFalse h => isFalse fun e => h (Condition.or.inj e)
  | .compare _ _ _, .and _ => isFalse nofun
  | .compare _ _ _, .or _ => isFalse nofun
  | .and _, .compare _ _ _ => isFalse nofun
  | .and _, .or _ => isFalse nofun
  | .or _, .compare _ _ _ => isFalse nofun
  | .or _, .and _ => isFalse nofun

/-- Equality of lists of conditions is decidable. -/
def decEqAll : (a b : List Condition) → Decidable (a = b)
  | [], [] => isTrue rfl
  | [], _ :: _ => isFalse nofun
  | _ :: _, [] => isFalse nofun
  | a :: as, b :: bs =>
    match decEq a b, decEqAll as bs with
    | isTrue h, isTrue t => isTrue (h ▸ t ▸ rfl)
    | isFalse h, _ => isFalse fun e => h (List.cons.inj e).1
    | _, isFalse t => isFalse fun e => t (List.cons.inj e).2

end

instance : DecidableEq Condition := decEq

end Condition

end CodeLift
