import CodeLift.Method
import CodeLift.Span

/-!
# Block graphs

A block graph cuts the code of a method into blocks that control enters at the first and leaves at the last instruction, and
records where control goes from each. Blocks without instructions mark where the range of an exception handler starts and ends
and where the handler itself starts; `Graph.order` lays code blocks and markers out in the order of the code.
-/

namespace CodeLift

/-- The name of a block: its place in the table of blocks. -/
abbrev BlockId := Nat

/-- What a marker block marks. -/
inductive MarkerKind where
  | tryStart | tryEnd | handler
  deriving DecidableEq, Repr

/-- What a marker is called. -/
def MarkerKind.text : MarkerKind → String
  | .tryStart => "try-start"
  | .tryEnd => "try-end"
  | .handler => "catch"

/-- One of the three markers of an entry of the table of handlers; it names all three. -/
structure Marker where
  kind : MarkerKind
  /-- The place of the entry in the table of handlers. -/
  entry : Nat
  start : BlockId
  stop : BlockId
  handler : BlockId
  deriving DecidableEq, Repr

/-- Where control goes from a block. -/
inductive BlockKind where
  /-- To the next block; only the last block of the code has none. -/
  | body (next : Option BlockId)
  | goto (target : BlockId)
  /-- To the target if the test holds, else to the next block. -/
  | branch (test : JumpTest) (target fallthrough : BlockId)
  | switch (arms : List (Int32 × BlockId)) (otherwise : BlockId)
  /-- Out of the method. -/
  | exit
  /-- The block holds no code. -/
  | marker (mark : Marker)
  deriving DecidableEq, Repr

namespace BlockKind

/-- The target of a goto or of a conditional jump. -/
def jumpTarget? : BlockKind → Option BlockId
  | .goto target | .branch _ target _ => some target
  | _ => none

/-- Every block that a jump or switch leads to. -/
def targets : BlockKind → List BlockId
  | .goto target | .branch _ target _ => [target]
  | .switch arms otherwise => otherwise :: arms.map (·.2)
  | _ => []

end BlockKind

/-- A block: its code and where control goes from it. A marker's span is empty and stands before the block it marks. -/
structure Block where
  span : Span
  kind : BlockKind
  deriving DecidableEq, Repr

/-- The blocks of a method. -/
structure Graph where
  blocks : Array Block
  /-- The blocks below this number hold code, in the order of the code; the others are markers. -/
  codeBlocks : Nat
  /-- All blocks, each marker right before the block it marks. -/
  order : List BlockId

namespace Graph

/-- The block of a name. -/
def block? (g : Graph) (id : BlockId) : Option Block := g.blocks[id]?

/-- The code of a block. -/
def spanOf (g : Graph) (id : BlockId) : Span := ((g.block? id).map (·.span)).getD (.before 0)

/-- The marker that a block is. -/
def marker? (g : Graph) (id : BlockId) : Option Marker :=
  match g.block? id with
  | some ⟨_, .marker mark⟩ => some mark
  | _ => none

/-- The marker that a block is, if it is of a kind. -/
def markerOf? (g : Graph) (kind : MarkerKind) (id : BlockId) : Option Marker :=
  (g.marker? id).filter (·.kind == kind)

/-- Whether a block is a marker of a kind. -/
def isMarkerOf (g : Graph) (kind : MarkerKind) (id : BlockId) : Bool := (g.markerOf? kind id).isSome

/-- The target of the goto or conditional jump that ends a block. -/
def jumpTarget? (g : Graph) (id : BlockId) : Option BlockId := (g.block? id).bind (·.kind.jumpTarget?)

/-- The target of the goto that ends a block. -/
def gotoTarget? (g : Graph) (id : BlockId) : Option BlockId :=
  match g.block? id with
  | some ⟨_, .goto target⟩ => some target
  | _ => none

/-- The target of the conditional jump that ends a block. -/
def branchTarget? (g : Graph) (id : BlockId) : Option BlockId :=
  match g.block? id with
  | some ⟨_, .branch _ target _⟩ => some target
  | _ => none

/-- Whether a block holds code from which control goes on to the next block. -/
def isBody (g : Graph) (id : BlockId) : Bool :=
  match g.block? id with
  | some ⟨_, .body _⟩ => true
  | _ => false

/-- Which blocks a jump or switch leads to, by their names: block by block, the targets are marked. -/
def jumpTargets (g : Graph) : Array Bool :=
  g.blocks.toList.foldl (fun table b => b.kind.targets.foldl (·.setIfInBounds · true) table) (Array.replicate g.blocks.size false)

/-- Whether a jump or switch leads to a block; falling into it does not count. -/
def isJumpTarget (g : Graph) (id : BlockId) : Bool := g.jumpTargets.getD id false

/-- Where the blocks stand in the order, by their names: each place is written down for the block that stands there. -/
def positions (g : Graph) : Array Nat :=
  g.order.zipIdx.foldl (fun table placed => table.setIfInBounds placed.1 placed.2) (Array.replicate g.blocks.size 0)

/-- Where a block stands in the order. -/
def position (g : Graph) (id : BlockId) : Nat := g.positions.getD id 0

/-- The code block whose first instruction is at an index. -/
def blockStartingAt? (g : Graph) (index : Nat) : Option BlockId :=
  (g.blocks.toList.take g.codeBlocks).findIdx? (·.span.start == index)

/-- The code block after a code block. -/
def nextCodeBlock? (g : Graph) (id : BlockId) : Option BlockId := if id + 1 < g.codeBlocks then some (id + 1) else none

/-- The first block of a layout that is no start of a protected range, or its last block. -/
def skipStarts (g : Graph) (id : BlockId) : List BlockId → BlockId
  | [] => id
  | next :: rest => if g.isMarkerOf .tryStart id then g.skipStarts next rest else id

/-- The block that control enters when it reaches a block: starts of protected ranges let it through. -/
def entryBlock (g : Graph) (id : BlockId) : BlockId := g.skipStarts id (g.order.drop (g.position id + 1))

/-- A description of a block in one line. -/
def header (g : Graph) (id : BlockId) : String :=
  match g.block? id with
  | none => "block " ++ toString id
  | some ⟨_, .marker mark⟩ =>
    "block " ++ toString id ++ ": " ++ mark.kind.text ++ " of exception entry " ++ toString mark.entry
  | some ⟨span, kind⟩ =>
    "block " ++ toString id ++ " [" ++ toString span.start ++ ".." ++ toString span.stop ++ "): " ++ exitText kind
where
  /-- Where control goes from a block, in words. -/
  exitText : BlockKind → String
    | .body (some next) => "fallthrough -> " ++ toString next
    | .body none => "end"
    | .goto target => "goto -> " ++ toString target
    | .branch test target fallthrough =>
      test.mnemonic ++ " -> " ++ toString target ++ ", else -> " ++ toString fallthrough
    | .switch arms otherwise =>
      "switch with " ++ toString arms.length ++ " arms, default -> " ++ toString otherwise
    | .exit | .marker _ => "exit"

end Graph

end CodeLift
