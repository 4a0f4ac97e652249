import CodeLift.Graph.Edit
import CodeLift.Handler.Binding
import CodeLift.Handler.Scope
import CodeLift.Source

/-!
# Producers

A producer knows one kind of control flow. It first says at which instructions blocks have to end, so that every jump is the
last instruction of a block and every target the first of one; once the code is cut there, it links the blocks it knows.
-/

namespace CodeLift

namespace Source

/-- The index a label names. -/
def labelIndex (src : Source) (label : Label) : Except GraphError Nat := (src.labels.index label).mapError .labels

/-- The instruction at which a block has to end for a label to start one; a label at the start of the code needs none. -/
def labelBreak (src : Source) (label : Label) : Except GraphError (Option Nat) := do
  let index ← src.labelIndex label
  return if index = 0 then none else some (index - 1)

/-- The instructions at which blocks have to end for each of some labels to start one. -/
def labelBreaks (src : Source) (labels : List Label) : Except GraphError (List Nat) := do
  return (← labels.mapM src.labelBreak).filterMap id

/-- The block a label starts. -/
def labelBlock (src : Source) (g : Graph) (label : Label) : Except GraphError BlockId := do
  let index ← src.labelIndex label
  match g.blockStartingAt? index with
  | some id => .ok id
  | none => .error (.misaligned label)

end Source

/-- One kind of control flow: where it needs blocks to end, and how it links the blocks. -/
structure Producer where
  breaks : Source → Except GraphError (List Nat)
  link : Source → Graph → Except GraphError Graph

namespace Producer

/-- Gotos, conditional jumps, returns and throws. -/
def jumps : Producer where
  breaks src := do
    let breaks ← src.method.code.zipIdx.mapM fun (insn, index) =>
      if insn.isPlain || insn.isSwitch then pure [] else do return index :: (← src.labelBreaks insn.targets)
    return breaks.flatten
  link src g := (List.range g.codeBlocks).foldlM (linkBlock src) g
where
  /-- Links a block by its last instruction. -/
  linkBlock (src : Source) (g : Graph) (id : BlockId) : Except GraphError Graph := do
    match g.lastInsn? src.method.code id with
    | none => .error (.missingBlock id)
    | some (.ret _) | some .throw => return g.setKind id .exit
    | some (.goto target) => return g.setKind id (.goto (← src.labelBlock g target))
    | some (.jump test target) =>
      let target ← src.labelBlock g target
      match g.nextCodeBlock? id with
      | some next => return g.setKind id (.branch test target next)
      | none => .error (.fallsOffEnd ((g.spanOf id).stop - 1))
    | _ => return g

/-- Switches. -/
def switches : Producer where
  breaks src := do
    let breaks ← src.method.code.zipIdx.mapM fun (insn, index) =>
      if insn.isSwitch then do return index :: (← src.labelBreaks insn.targets) else pure []
    return breaks.flatten
  link src g := (List.range g.codeBlocks).foldlM (linkBlock src) g
where
  /-- Links a block that ends with a switch. -/
  linkBlock (src : Source) (g : Graph) (id : BlockId) : Except GraphError Graph := do
    match g.lastInsn? src.method.code id with
    | none => .error (.missingBlock id)
    | some (.switch otherwise arms) =>
      let arms ← arms.mapM fun (value, target) => do return (value, ← src.labelBlock g target)
      return g.setKind id (.switch arms (← src.labelBlock g otherwise))
    | _ => return g

/-- Exception handlers. Blocks also end at a handler's binding and at the end of its scope. -/
def tries : Producer where
  breaks src := do
    let breaks ← src.method.handlerTable.mapM fun entry => do
      let labels ← src.labelBreaks [entry.start, entry.stop, entry.handler]
      let handler ← src.labelIndex entry.handler
      return labels ++ bindingBreaks src handler
    return breaks.flatten
  link src g := do
    let targets ← src.method.handlerTable.mapM fun entry => do
      return (← src.labelBlock g entry.start, ← src.labelBlock g entry.stop, ← src.labelBlock g entry.handler)
    -- Inner handlers come first in the table: going backwards puts their markers closest to the code.
    targets.zipIdx.reverse.foldlM (fun g ((start, stop, handler), entry) => g.addTriple entry start stop handler) g
where
  /-- Where blocks end inside a handler. -/
  bindingBreaks (src : Source) (handler : Nat) : List Nat :=
    match handlerBinding? src.method.code handler with
    | none => []
    | some binding =>
      binding :: ((handlerScopeEnd? src.method.code src.locals binding).map (· - 1)).toList

/-- The producers for all kinds of control flow. -/
def all : List Producer := [jumps, switches, tries]

end Producer

end CodeLift
