import CodeLift.Event
import CodeLift.Statement.Basic

/-!
# Passes over statements

A pass changes the statements of a method once they are built. `Statement.mapLists` reaches every list of statements, the
innermost first; `Pass.increment` turns assignments that add a constant to a variable into increments.
-/

namespace CodeLift

namespace Statement

variable {m : Type → Type} [Monad m]

mutual

/-- Runs an action on every list of statements inside a statement. -/
def mapInner (action : List Statement → m (List Statement)) : Statement → m Statement
  | .branch condition thenPart elsePart => do
    let thenPart ← mapEach action thenPart >>= action
    let elsePart ← mapEach action elsePart >>= action
    return .branch condition thenPart elsePart
  | .whileDo condition body => do return .whileDo condition (← mapEach action body >>= action)
  | .doWhile condition body => do return .doWhile condition (← mapEach action body >>= action)
  | .forUpdate condition update body => do
    let body ← mapEach action body >>= action
    let update ← mapEach action update >>= action
    return .forUpdate condition update body
  | .switch key cases => do return .switch key (← mapCases action cases)
  | .tryCatch body clauses => do
    let body ← mapEach action body >>= action
    let clauses ← mapClauses action clauses
    return .tryCatch body clauses
  | s => return s

/-- Runs an action on every list of statements inside the statements of a list. -/
def mapEach (action : List Statement → m (List Statement)) : List Statement → m (List Statement)
  | [] => return []
  | s :: rest => do
    let s ← mapInner action s
    let rest ← mapEach action rest
    return s :: rest

/-- Runs an action on every list of statements inside the bodies of cases. -/
def mapCases (action : List Statement → m (List Statement)) : List (Case (List Statement)) → m (List (Case (List Statement)))
  | [] => return []
  | ⟨values, isDefault, body⟩ :: rest => do
    let body ← mapEach action body >>= action
    let rest ← mapCases action rest
    return ⟨values, isDefault, body⟩ :: rest

/-- Runs an action on every list of statements inside the bodies of clauses. -/
def mapClauses (action : List Statement → m (List Statement)) :
    List (Catch (List Statement)) → m (List (Catch (List Statement)))
  | [] => return []
  | ⟨catches, boundTo, body⟩ :: rest => do
    let body ← mapEach action body >>= action
    let rest ← mapClauses action rest
    return ⟨catches, boundTo, body⟩ :: rest

end

/-- Runs an action on every list of statements of a tree, the innermost first and the list itself last. -/
def mapLists (action : List Statement → m (List Statement)) (statements : List Statement) : m (List Statement) :=
  mapEach action statements >>= action

end Statement

/-- A change to the statements of a method. -/
structure Pass where
  name : String
  /-- The changed statements, or the reason why there are none. -/
  run : Method → Locals → Body → Except String Body

namespace Pass

/-- The constant that an expression is. -/
def constant? (arena : Arena) (id : ExprId) : Option Int32 :=
  match arena[id]? with
  | some (.int value) => some value
  | _ => none

/-- Whether an expression is a variable. -/
def isVar (arena : Arena) (target : LocalId) (id : ExprId) : Bool := arena[id]? == some (.var target)

/-- The negation of a constant, unless it is the least one, which has none. -/
def negate? (value : Int32) : Option Int32 := if value = Int32.minValue then none else some (-value)

/-- The amount that an assignment of an expression to a variable adds to the variable, if that is all it does. -/
def addedAmount? (arena : Arena) (target : LocalId) (value : ExprId) : Option Int32 :=
  match arena[value]? with
  | some (.arith .add lhs rhs) =>
    if isVar arena target lhs then constant? arena rhs
    else if isVar arena target rhs then constant? arena lhs
    else none
  | some (.arith .sub lhs rhs) => if isVar arena target lhs then (constant? arena rhs).bind negate? else none
  | _ => none

/-- Turns an assignment that adds a constant to its variable into an increment. -/
def toIncrement (arena : Arena) : Statement → Statement
  | .assign target value =>
    match addedAmount? arena target value with
    | some amount => .increment target amount
    | none => .assign target value
  | s => s

/-- Turns assignments that add a constant to their variable into increments. -/
def increment : Pass where
  name := "increment"
  run _ _ body := .ok { body with
    statements := Id.run (Statement.mapLists (fun statements => pure (statements.map (toIncrement body.arena))) body.statements) }

/-- Runs passes in turn. One that fails leaves the statements as they are and is reported. -/
def runAll (method : Method) (ls : Locals) : List Pass → Body → Body × List Event
  | [], body => (body, [])
  | pass :: rest, body =>
    match pass.run method ls body with
    | .ok body => runAll method ls rest body
    | .error reason =>
      let (body, events) := runAll method ls rest body
      (body, ⟨.error, method.title ++ ": Post-processor `" ++ pass.name ++ "` failed: " ++ reason⟩ :: events)

end Pass

end CodeLift
