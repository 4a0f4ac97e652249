import CodeLift.Expr.Basic

/-!
# Expressions and conditions as text

An expression is printed with the expressions it refers to. No chain of references in an arena without cycles is longer than
the arena, so its size bounds how deeply the printer has to follow them.
-/

namespace CodeLift

/-- Arguments as they are printed. -/
def argumentsText (arguments : List String) : String := "(" ++ String.intercalate ", " arguments ++ ")"

/-- What a field or method is printed as part of: the object, or the owner's simple name. -/
def ownerText (object : Option String) (owner : String) : String := object.getD (Descriptor.simpleName owner)

/-- An expression as it is printed, given how the expressions it refers to are. -/
def Expr.text (ls : Locals) (child : ExprId → String) : Expr → String
  | .var id => ls.nameOf id
  | .null => "null"
  | .int value => toString value.toInt
  | .string value => Text.quote value
  | .field object owner name => ownerText (object.map child) owner ++ "." ++ name
  | .call method object arguments =>
    let class' := match method.kind, object with
      | .special, some _ => Descriptor.simpleName method.owner ++ "::"
      | _, _ => ""
    ownerText (object.map child) method.owner ++ "." ++ class' ++ method.name ++ argumentsText (arguments.map child)
  | .newUninitialized className => "new uninitialized " ++ Descriptor.simpleName className
  | .new className _ arguments => "new " ++ Descriptor.simpleName className ++ argumentsText (arguments.map child)
  | .arith op lhs rhs => "(" ++ child lhs ++ " " ++ op.symbol ++ " " ++ child rhs ++ ")"
  | .caught _ => "<caught>"

/-- The expression at a place of an arena as it is printed, following references at most `depth` deep. -/
def Arena.textWithin (arena : Arena) (ls : Locals) : (depth : Nat) → ExprId → String
  | 0, _ => ""
  | depth + 1, id =>
    match arena[id]? with
    | none => ""
    | some e => e.text ls (textWithin arena ls depth)

/-- The expression at a place of an arena as it is printed. -/
def Arena.text (arena : Arena) (ls : Locals) (id : ExprId) : String := arena.textWithin ls (arena.size + 1) id

namespace Condition

/-- Whether a condition is printed in parentheses inside another one. -/
def isCompound : Condition → Bool
  | .compare _ _ _ => false
  | .and _ | .or _ => true

mutual

/-- A condition as it is printed, given how expressions are. -/
def text (value : ExprId → String) : Condition → String
  | .compare op lhs rhs => value lhs ++ " " ++ op.symbol ++ " " ++ value rhs
  | .and parts => String.intercalate " && " (partTexts value parts)
  | .or parts => String.intercalate " || " (partTexts value parts)

/-- The parts of a condition as they are printed. -/
def partTexts (value : ExprId → String) : List Condition → List String
  | [] => []
  | part :: rest => (if part.isCompound then "(" ++ part.text value ++ ")" else part.text value) :: partTexts value rest

end

end Condition

end CodeLift
