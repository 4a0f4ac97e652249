import CodeLift.Insn

/-!
# Methods

A method is its code together with a table of declared variables and a table of exception handlers, both of which refer to the
code by labels. `Method.labels` resolves the labels; a label may be defined once only.
-/

namespace CodeLift

/-- Why the labels of a method cannot be resolved. -/
inductive LabelError where
  | duplicate (label : Label)
  | unknown (label : Label)
  deriving DecidableEq, Repr

/-- The wording of the error. -/
def LabelError.message : LabelError → String
  | .duplicate label => "Label " ++ label.text ++ " is defined more than once"
  | .unknown label => "Label " ++ label.text ++ " is referenced but never defined"

/-- The exceptions a handler takes: those of a class, or all. -/
inductive CatchType where
  | ofClass (name : String)
  | any
  deriving DecidableEq, Repr

namespace CatchType

/-- A catch type as it is listed. -/
def text : CatchType → String
  | .ofClass name => name
  | .any => "any"

/-- The type of a variable that holds what the handler caught. -/
def descriptor : CatchType → String
  | .ofClass name => "L" ++ name ++ ";"
  | .any => "Ljava/lang/Throwable;"

end CatchType

/-- A declared variable: a slot, and the labels between which the slot holds it. -/
structure VariableEntry where
  slot : Nat
  name : String
  descriptor : String
  signature : Option String
  start : Label
  stop : Label
  deriving DecidableEq, Repr

/-- An exception handler: the labels between which it protects the code, and where it starts. -/
structure HandlerEntry where
  start : Label
  stop : Label
  handler : Label
  catches : CatchType
  deriving DecidableEq, Repr

/-- A method: its owner's internal name, its name and descriptor, its code and the two tables. -/
structure Method where
  owner : String
  name : String
  descriptor : String
  isStatic : Bool
  code : List Insn
  variableTable : List VariableEntry
  handlerTable : List HandlerEntry
  deriving DecidableEq, Repr

/-- The index of the instruction each label names, in the order of the code. -/
abbrev Labels := List (Label × Nat)

/-- The index a label names. -/
def Labels.index (labels : Labels) (label : Label) : Except LabelError Nat :=
  match labels.lookup label with
  | some index => .ok index
  | none => .error (.unknown label)

namespace Method

/-- A method as messages name it. -/
def title (m : Method) : String := m.owner ++ "." ++ m.name

/-- The labels the code defines, with their indices. -/
def definedLabels (code : List Insn) : Labels :=
  code.zipIdx.filterMap fun
    | (.label name, index) => some (name, index)
    | _ => none

/-- The first label of a list that an earlier one repeats. -/
def firstRepeated : List Label → List Label → Option Label
  | _, [] => none
  | seen, label :: rest => if seen.contains label then some label else firstRepeated (label :: seen) rest

/-- Resolves the labels of a method, unless one is defined twice. -/
def labels (m : Method) : Except LabelError Labels :=
  let defined := definedLabels m.code
  match firstRepeated [] (defined.map (·.1)) with
  | some label => .error (.duplicate label)
  | none => .ok defined

end Method

end CodeLift
