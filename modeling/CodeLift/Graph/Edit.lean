import CodeLift.Graph.Basic

/-!
# Making and changing block graphs

A graph starts as blocks that each lead to the next. Its links are set block by block, and the markers of a handler are laid out
right before the blocks they mark.
-/

namespace CodeLift

/-- Why a block graph cannot be built. -/
inductive GraphError where
  | labels (cause : LabelError)
  /-- A label that a jump names does not start a block. -/
  | misaligned (label : Label)
  /-- Control would run past the end of the code after this instruction. -/
  | fallsOffEnd (index : Nat)
  /-- There is no such block to put a marker before, or none with code to link. -/
  | missingBlock (id : BlockId)
  deriving DecidableEq, Repr

/-- The wording of the error. -/
def GraphError.message : GraphError → String
  | .labels cause => cause.message
  | .misaligned label => "Label " ++ label.text ++ " does not start a block"
  | .fallsOffEnd index => "Execution falls through past the end of the code at instruction " ++ toString index
  | .missingBlock id => "There is no block " ++ toString id

namespace Graph

/-- The same graph with control going elsewhere from a block. -/
def setKind (g : Graph) (id : BlockId) (kind : BlockKind) : Graph :=
  { g with blocks := g.blocks.modify id fun b => { b with kind } }

/-- Puts a block right before another in a layout. -/
def insertBefore (id target : BlockId) : List BlockId → Option (List BlockId)
  | [] => none
  | b :: rest => if b = target then some (id :: b :: rest) else (insertBefore id target rest).map (b :: ·)

/-- Adds a marker right before a block. -/
def addMarker (g : Graph) (mark : Marker) (target : BlockId) : Except GraphError Graph :=
  match g.block? target, insertBefore g.blocks.size target g.order with
  | some b, some order => .ok { g with blocks := g.blocks.push ⟨.before b.span.start, .marker mark⟩, order }
  | _, _ => .error (.missingBlock target)

/-- Adds the markers of an entry of the table of handlers: the start, the end and the handler, each right before the block given
for it. Of markers before one block, those added last stand closest to it. -/
def addTriple (g : Graph) (entry : Nat) (start stop handler : BlockId) : Except GraphError Graph := do
  let first := g.blocks.size
  let mark (kind : MarkerKind) : Marker := ⟨kind, entry, first, first + 1, first + 2⟩
  let g ← g.addMarker (mark .tryStart) start
  let g ← g.addMarker (mark .tryEnd) stop
  g.addMarker (mark .handler) handler

/-- The graph of blocks with the given code, each of which leads to the next. -/
def ofSpans (spans : List Span) : Graph :=
  let count := spans.length
  { blocks := (spans.zipIdx.map fun (span, id) =>
      (⟨span, .body (if id + 1 < count then some (id + 1) else none)⟩ : Block)).toArray
    codeBlocks := count
    order := List.range count }

/-- The last instruction of a block that holds code. -/
def lastInsn? (g : Graph) (code : List Insn) (id : BlockId) : Option Insn :=
  if (g.spanOf id).isEmpty then none else code[(g.spanOf id).stop - 1]?

/-- The last instruction, markers apart, after which control would run past the end of the code. -/
def fallsOffEnd? (g : Graph) (code : List Insn) : Option Nat :=
  match g.block? (g.codeBlocks - 1) with
  | some ⟨span, .body none⟩ =>
    span.indices.reverse.find? fun index => (code[index]?.map fun i => !i.isMarker).getD false
  | _ => none

end Graph

end CodeLift
