import CodeLift.Graph.Build
import CodeLift.Locals.Binding
import CodeLift.Statement.Build
import CodeLift.Statement.Pass
import CodeLift.Statement.Text
import CodeLift.Structuring.Flatten

/-!
# Lifting methods

The whole way from a method to its statements: bind the variables, build the block graph, structure it, build the statements,
and run the passes over them.
-/

namespace CodeLift

/-- Why a method cannot be lifted. -/
inductive DecompileError where
  | labels (cause : LabelError)
  | locals (cause : LocalsError)
  | graph (cause : GraphError)
  | structuring (cause : StructuringError)
  | statements (cause : StatementError)
  deriving DecidableEq, Repr

/-- The wording of the error. -/
def DecompileError.message : DecompileError → String
  | .labels cause => "Invalid method code: " ++ cause.message
  | .locals cause => "While binding locals: " ++ cause.message
  | .graph cause => "While building the block graph: " ++ cause.message
  | .structuring cause => "While structuring: " ++ cause.message
  | .statements cause => "While generating statements: " ++ cause.message

/-- Why a method among several cannot be lifted. -/
structure BatchError where
  name : String
  descriptor : String
  cause : DecompileError
  deriving DecidableEq, Repr

/-- The wording of the error. -/
def BatchError.message (e : BatchError) : String := "In method `" ++ e.name ++ e.descriptor ++ "`: " ++ e.cause.message

/-- A method that has been lifted: its variables, its structure and its statements. -/
structure Decompiled where
  locals : Locals
  sections : List Section
  body : Body

/-- The statements of a lifted method as they are printed. -/
def Decompiled.text (d : Decompiled) : String := d.body.text d.locals

/-- What lifting a method goes by. -/
structure Decompiler where
  settings : Settings
  producers : List Producer
  recognizers : List Recognizer
  passes : List Pass

namespace Decompiler

/-- A decompiler that knows no control flow, no constructs and no passes. -/
def bare (settings : Settings) : Decompiler := ⟨settings, [], [], []⟩

/-- A decompiler that knows all control flow, all constructs and all passes. -/
def standard (settings : Settings) : Decompiler := ⟨settings, Producer.all, Recognizer.all, [.increment]⟩

end Decompiler

/-- Resolves the labels of a method and binds its variables. -/
def Method.source (m : Method) : Traced DecompileError Source := do
  let labels ← Traced.ofExcept (m.labels.mapError .labels)
  let locals ← (m.bindLocals labels).mapError .locals
  return ⟨m, labels, locals⟩

/-- The report of the size of a method. -/
def Subject.sizeEvent (s : Subject) : Event :=
  ⟨.debug, s.method.title ++ ": " ++ toString s.method.code.length ++ " instructions, " ++ toString s.graph.blocks.size ++
    " blocks"⟩

namespace Decompiler

/-- Lifts a method. -/
def decompile (d : Decompiler) (m : Method) : Traced DecompileError Decompiled := do
  let src ← m.source
  let graph ← (Graph.buildTraced src d.producers).mapError .graph
  let subject : Subject := { src with graph, settings := d.settings }
  Traced.report [subject.sizeEvent]
  let sections ← (subject.sectionsTraced d.recognizers).mapError .structuring
  let body ← (src.body d.settings sections).mapError .statements
  let passes := if d.settings.runPasses then d.passes else []
  let (body, events) := Pass.runAll m src.locals passes body
  Traced.report events
  return ⟨src.locals, sections, body⟩

/-- Lifts methods one by one; one that fails does not stop the others. Gives the results and all events, in order. -/
def decompileAll (d : Decompiler) : List Method → List Event → List (Except BatchError Decompiled) × List Event
  | [], events => ([], events)
  | m :: rest, events =>
    match d.decompile m events with
    | .ok result events =>
      let (results, events) := d.decompileAll rest events
      (.ok result :: results, events)
    | .error cause events =>
      let (results, events) := d.decompileAll rest events
      (.error ⟨m.name, m.descriptor, cause⟩ :: results, events)

end Decompiler

end CodeLift
