import CodeLift.Locals.Basic

/-!
# Sections

The structure of a method: a tree of sections, each of which stands for code. A section names its code by spans and does not
hold it. `Section.covers` checks that a tree stands for each instruction exactly once.
-/

namespace CodeLift

/-- When control goes into a branch or repeats a loop, made of the conditional jumps that decide it. -/
inductive Guard where
  /-- Holds when the conditional jump that ends the span is taken, or, negated, when it is not. -/
  | jump (span : Span) (negate : Bool)
  /-- Holds when all parts do; they are tried in order up to the first that does not hold. -/
  | and (parts : List Guard)
  /-- Holds when some part does; they are tried in order up to the first that holds. -/
  | or (parts : List Guard)
  | not (inner : Guard)

namespace Guard

/-- The guard that holds exactly when this one does not. -/
def negated : Guard → Guard
  | .jump span negate => .jump span (!negate)
  | .not inner => inner
  | other => .not other

mutual

/-- The spans of the blocks a guard is made of, in order. -/
def spans : Guard → List Span
  | .jump span _ => [span]
  | .and parts | .or parts => spansAll parts
  | .not inner => inner.spans

/-- The spans of several guards. -/
def spansAll : List Guard → List Span
  | [] => []
  | part :: rest => part.spans ++ spansAll rest

end

/-- The conjunction or disjunction of parts; one part alone stands for itself. -/
def combine (connective : List Guard → Guard) : List Guard → Guard
  | [part] => part
  | parts => connective parts

end Guard

/-- When the condition of a loop is tested. -/
inductive LoopKind where
  /-- Before each round. -/
  | whileDo
  /-- After each round. -/
  | doWhile
  /-- Never. -/
  | forever
  /-- Before each round, with an update after each. -/
  | forUpdate
  deriving DecidableEq, Repr

/-- A case of a switch: the values it takes, whether it also takes all values without a case, and its body. -/
structure Case (β : Type) where
  values : List Int32
  isDefault : Bool
  body : β

/-- A clause of a try: what it catches, in the order of the table of handlers, the variable that holds the exception, the markers
and the binding at the start of the handler, and the rest of the handler. -/
structure CatchSection (β : Type) where
  catches : List CatchType
  boundTo : Option LocalId
  header : Span
  body : β

/-- A piece of the structure of a method. -/
inductive Section where
  /-- Straight code; a goto at its end is implied by the sections around it. -/
  | body (span : Span)
  | branch (guard : Guard) (thenPart elsePart : List Section)
  /-- A loop; the update runs after the body and on a continue. -/
  | loop (kind : LoopKind) (guard : Option Guard) (body update : List Section)
  /-- A switch on the value that the code of the key leaves; its last instruction is the switch itself. -/
  | switch (key : Span) (cases : List (Case (List Section)))
  | tryCatch (body : List Section) (clauses : List (CatchSection (List Section)))
  /-- Leaves the loop or switch that is `depth` loops and switches out from the innermost; `jump` is the goto it stands for. -/
  | breakOut (depth : Nat) (jump : Option Nat)
  /-- Goes on with the next round of the loop that is `depth` loops out from the innermost. -/
  | continueNext (depth : Nat) (jump : Option Nat)
  /-- Code that has no structure, as text. -/
  | comment (lines : List String) (spans : List Span)

namespace Section

mutual

/-- The spans of code that a section stands for, in the order of the tree. -/
def spans : Section → List Span
  | .body span => [span]
  | .branch guard thenPart elsePart => guard.spans ++ spansAll thenPart ++ spansAll elsePart
  | .loop _ guard loopBody update => (guard.map Guard.spans).getD [] ++ spansAll loopBody ++ spansAll update
  | .switch key cases => key :: spansCases cases
  | .tryCatch tried clauses => spansAll tried ++ spansClauses clauses
  | .breakOut _ jump | .continueNext _ jump => (jump.map Span.single).toList
  | .comment _ spans => spans

/-- The spans of code that a list of sections stands for. -/
def spansAll : List Section → List Span
  | [] => []
  | s :: rest => s.spans ++ spansAll rest

/-- The spans of the bodies of cases. -/
def spansCases : List (Case (List Section)) → List Span
  | [] => []
  | ⟨_, _, caseBody⟩ :: rest => spansAll caseBody ++ spansCases rest

/-- The spans of the headers and bodies of clauses. -/
def spansClauses : List (CatchSection (List Section)) → List Span
  | [] => []
  | ⟨_, _, header, handlerBody⟩ :: rest => header :: spansAll handlerBody ++ spansClauses rest

end

/-- Whether a list of sections stands for each of the first `n` instructions exactly once, and for no other. -/
def covers (sections : List Section) (n : Nat) : Bool := Span.tiles (spansAll sections) n

end Section

end CodeLift
