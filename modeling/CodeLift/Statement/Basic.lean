import CodeLift.Expr.Basic
import CodeLift.Section

/-!
# Statements

What a method is lifted to: a tree of statements over the expressions of an arena.
-/

namespace CodeLift

/-- A clause of a try statement: what it catches, and the variable that holds the exception if it is stored. -/
structure Catch (β : Type) where
  catches : List CatchType
  boundTo : Option LocalId
  body : β

/-- A statement. -/
inductive Statement where
  | assign (target : LocalId) (value : ExprId)
  /-- An assignment to a field, of an object unless it is static. -/
  | assignField (object : Option ExprId) (owner name : String) (value : ExprId)
  | increment (target : LocalId) (amount : Int32)
  /-- An expression evaluated for what it does. -/
  | expr (value : ExprId)
  | ret (value : Option ExprId)
  | throw (value : ExprId)
  | branch (condition : Condition) (thenPart elsePart : List Statement)
  /-- A loop that tests its condition before each round, or never if there is none. -/
  | whileDo (condition : Option Condition) (body : List Statement)
  | doWhile (condition : Condition) (body : List Statement)
  /-- A loop that tests its condition before each round; the update runs after the body and on a continue. -/
  | forUpdate (condition : Condition) (update body : List Statement)
  | switch (key : ExprId) (cases : List (Case (List Statement)))
  | tryCatch (body : List Statement) (clauses : List (Catch (List Statement)))
  /-- Leaves the loop or switch that is `depth` loops and switches out from the innermost. -/
  | breakOut (depth : Nat)
  /-- Goes on with the next round of the loop that is `depth` loops out from the innermost. -/
  | continueNext (depth : Nat)
  | comment (lines : List String)

/-- Whether control never goes on to the statement after this one. -/
def Statement.isDivergent : Statement → Bool
  | .ret _ | .throw _ | .breakOut _ | .continueNext _ => true
  | _ => false

/-- The statements of a method with the expressions they refer to. -/
structure Body where
  arena : Arena
  statements : List Statement

end CodeLift
