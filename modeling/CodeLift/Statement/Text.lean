import CodeLift.Expr.Text
import CodeLift.Statement.Basic
import CodeLift.Text.Lines

/-!
# Statements as text

One statement after the other, each ended by a line feed, with the statements inside others moved in. Types are left out, and a
break or continue of an outer construct shows its depth.
-/

namespace CodeLift

/-- The names by which what a handler catches is printed. -/
def CatchType.simpleText : CatchType → String
  | .ofClass name => Descriptor.simpleName name
  | .any => "Throwable"

namespace Statement

/-- Statements as they are printed, each ended by a line feed. -/
def joinTexts (texts : List String) : String := String.join (texts.map (· ++ "\n"))

/-- Statements as they are printed between braces. -/
def blockText (texts : List String) : String := "\x7b\n" ++ Text.indent (joinTexts texts) ++ "\x7d"

/-- A break or continue as it is printed. -/
def jumpText (keyword : String) (depth : Nat) : String :=
  if depth = 0 then keyword ++ ";" else keyword ++ " " ++ toString depth ++ ";"

/-- The change of a variable by a constant as it is printed. -/
def incrementText (name : String) (amount : Int) : String :=
  if amount = 1 then name ++ "++;"
  else if amount = -1 then name ++ "--;"
  else if amount < 0 then name ++ " -= " ++ toString (-amount) ++ ";"
  else name ++ " += " ++ toString amount ++ ";"

/-- A statement without the semicolon that may end it. -/
def dropSemicolon (text : String) : String :=
  match text.toList.reverse with
  | ';' :: rest => String.ofList rest.reverse
  | _ => text

/-- The update of a loop as it is printed. -/
def updateText (texts : List String) : String :=
  match texts.map dropSemicolon with
  | [] => ""
  | texts => " " ++ String.intercalate ", " texts

/-- The head of a clause as it is printed. -/
def clauseHead (ls : Locals) (catches : List CatchType) (boundTo : Option LocalId) : String :=
  " catch (" ++ String.intercalate " | " (catches.map CatchType.simpleText) ++
    ((boundTo.map fun id => " " ++ ls.nameOf id).getD "") ++ ") "

mutual

/-- A statement as it is printed, given how expressions are. -/
def text (ls : Locals) (value : ExprId → String) : Statement → String
  | .assign target e => ls.nameOf target ++ " = " ++ value e ++ ";"
  | .assignField object owner name e => ownerText (object.map value) owner ++ "." ++ name ++ " = " ++ value e ++ ";"
  | .increment target amount => incrementText (ls.nameOf target) amount.toInt
  | .expr e => value e ++ ";"
  | .ret none => "return;"
  | .ret (some e) => "return " ++ value e ++ ";"
  | .throw e => "throw " ++ value e ++ ";"
  | .branch condition thenPart elsePart =>
    "if (" ++ condition.text value ++ ") " ++ blockText (texts ls value thenPart) ++
      (if elsePart.isEmpty then "" else " else " ++ blockText (texts ls value elsePart))
  | .whileDo none body => "while (true) " ++ blockText (texts ls value body)
  | .whileDo (some condition) body => "while (" ++ condition.text value ++ ") " ++ blockText (texts ls value body)
  | .doWhile condition body =>
    "do " ++ blockText (texts ls value body) ++ " while (" ++ condition.text value ++ ");"
  | .forUpdate condition update body =>
    "for (; " ++ condition.text value ++ ";" ++ updateText (texts ls value update) ++ ") " ++
      blockText (texts ls value body)
  | .switch key cases => "switch (" ++ value key ++ ") \x7b\n" ++ casesText ls value cases ++ "\x7d"
  | .tryCatch body clauses => "try " ++ blockText (texts ls value body) ++ clausesText ls value clauses
  | .breakOut depth => jumpText "break" depth
  | .continueNext depth => jumpText "continue" depth
  | .comment lines => "/*" ++ String.join (lines.map ("\n * " ++ ·)) ++ "\n */"

/-- Statements as they are printed, one by one. -/
def texts (ls : Locals) (value : ExprId → String) : List Statement → List String
  | [] => []
  | s :: rest => s.text ls value :: texts ls value rest

/-- The cases of a switch as they are printed. -/
def casesText (ls : Locals) (value : ExprId → String) : List (Case (List Statement)) → String
  | [] => ""
  | ⟨values, isDefault, body⟩ :: rest =>
    String.join (values.map fun v => "case " ++ toString v.toInt ++ ":\n") ++ (if isDefault then "default:\n" else "") ++
      Text.indent (joinTexts (texts ls value body)) ++ casesText ls value rest

/-- The clauses of a try statement as they are printed. -/
def clausesText (ls : Locals) (value : ExprId → String) : List (Catch (List Statement)) → String
  | [] => ""
  | ⟨catches, boundTo, body⟩ :: rest =>
    clauseHead ls catches boundTo ++ blockText (texts ls value body) ++ clausesText ls value rest

end

end Statement

/-- The statements of a method as they are printed. -/
def Body.text (b : Body) (ls : Locals) : String := Statement.joinTexts (Statement.texts ls (b.arena.text ls) b.statements)

end CodeLift
