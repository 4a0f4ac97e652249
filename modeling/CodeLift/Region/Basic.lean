import CodeLift.Structuring.Error

/-!
# Regions

A region is a run of blocks, in the order of the layout, that is to become a list of sections, together with the block that
control reaches after it. A lookup at a place that the region does not have is a failure.
-/

namespace CodeLift

/-- A run of blocks in the order of the layout, and the block control reaches after it. -/
structure Region where
  blocks : List BlockId
  follow : Option BlockId
  deriving DecidableEq, Repr

/-- The places from one up to another. -/
def places (start stop : Nat) : List Nat := List.range' start (stop - start)

namespace Region

/-- How many blocks there are. -/
def length (r : Region) : Nat := r.blocks.length

/-- The block at a place, or the follow past the last place. -/
def blockOrFollow? (r : Region) (index : Nat) : Option BlockId := r.blocks[index]?.or r.follow

/-- The blocks from one place up to another, with a follow of their own. -/
def sub (r : Region) (start stop : Nat) (follow : Option BlockId) : Region :=
  ⟨(r.blocks.drop start).take (stop - start), follow⟩

/-- The place of a block. -/
def indexOf? (r : Region) (id : BlockId) : Option Nat := r.blocks.findIdx? (· == id)

/-- The block at a place. -/
def blockAt (r : Region) (index : Nat) : Except StructuringError BlockId :=
  match r.blocks[index]? with
  | some id => .ok id
  | none => .error (.outOfRegion index)

/-- The block before a place. -/
def blockBefore (r : Region) : Nat → Except StructuringError BlockId
  | 0 => .error (.outOfRegion 0)
  | index + 1 => r.blockAt index

/-- The blocks from one place up to another. -/
def between (r : Region) (start stop : Nat) : Except StructuringError (List BlockId) :=
  if start ≤ stop && stop ≤ r.length then .ok (r.sub start stop none).blocks else .error (.outOfRegion stop)

/-- The first of some places whose block satisfies a test. -/
def findAmong (r : Region) (p : BlockId → Bool) (among : List Nat) : Except StructuringError (Option Nat) :=
  among.findM? fun place => do return p (← r.blockAt place)

/-- Goes back from a place over blocks that satisfy a test, to `low` at the furthest. -/
def walkBack (r : Region) (low : Nat) (p : BlockId → Bool) : (place : Nat) → Except StructuringError Nat
  | 0 => .ok 0
  | place + 1 =>
    if low ≤ place then do
      if p (← r.blockAt place) then r.walkBack low p place else return place + 1
    else .ok (place + 1)

/-- The place at which a jump to a block enters the region: before the starts of protected ranges laid out before the block. -/
def entryIndex (r : Region) (g : Graph) (id : BlockId) : Except StructuringError (Option Nat) :=
  match r.indexOf? id with
  | some index => do return some (← r.walkBack 0 (g.entryBlock · == id) index)
  | none => .ok none

/-- The place at which a jump to a block enters the region; a jump to the follow leads past the last place. -/
def locate (r : Region) (g : Graph) (target : BlockId) : Except StructuringError (Option Nat) := do
  match ← r.entryIndex g target with
  | some index => return some index
  | none => return if r.follow.map g.entryBlock = some target then some r.length else none

/-- The place at which a jump to a block enters the region, if it does. -/
def entryIndex? (r : Region) (g : Graph) (id : BlockId) : Option Nat := (r.entryIndex g id).toOption.join

/-- The place at which a jump to a block enters the region or leads past it, if it does. -/
def locate? (r : Region) (g : Graph) (target : BlockId) : Option Nat := (r.locate g target).toOption.join

/-- The block control enters when it falls out of the block at a place. -/
def nextEntry? (r : Region) (g : Graph) (index : Nat) : Option BlockId :=
  (r.blockOrFollow? (index + 1)).map g.entryBlock

end Region

end CodeLift
