import CodeLift.Region.Basic
import CodeLift.Section

/-!
# Chains of conditional blocks

A condition made with "and" or "or" compiles to one conditional block per part, each reached by falling out of the one before.
`guardChain` recognizes the condition that guards the code after it, `loopGuard` the condition at the bottom of a loop.
-/

namespace CodeLift

/-- A run of conditional blocks that guards the code after it. -/
structure Chain where
  /-- Holds when control goes on into the code after the chain. -/
  guard : Guard
  /-- The place of the last block of the chain. -/
  last : Nat
  /-- Where control goes when the guard does not hold. -/
  skip : BlockId

namespace Graph

/-- The target of a conditional block that can continue a chain: it is entered only by falling out of the block before. -/
def linkTarget? (g : Graph) (id : BlockId) : Option BlockId := if g.isJumpTarget id then none else g.branchTarget? id

/-- The guard made of the conditional jump that ends a block. -/
def jumpGuard (g : Graph) (negate : Bool) (id : BlockId) : Guard := .jump (g.spanOf id) negate

end Graph

namespace Region

/-- The target of the block at a place, if it can continue a chain. -/
def linkAt? (r : Region) (g : Graph) (index : Nat) : Option BlockId := r.blocks[index]?.bind g.linkTarget?

/-- The guards made of the conditional jumps of the blocks from one place up to another. -/
def jumpParts (r : Region) (g : Graph) (negate : Bool) (start stop : Nat) : Except StructuringError (List Guard) :=
  (places start stop).mapM fun place => do return g.jumpGuard negate (← r.blockAt place)

/-- Recognizes the condition that guards the code after it and starts at a place. With "and" every jump skips the code; with
"or" every jump but the last leads into the code and the last one skips it. -/
def guardChain (r : Region) (g : Graph) (start : Nat) : Except StructuringError (Option Chain) := do
  match g.branchTarget? (← r.blockAt start) with
  | none => return none
  | some target =>
    let last := start + ((r.blocks.drop (start + 1)).takeWhile fun id => g.linkTarget? id == some target).length
    match (r.linkAt? g (last + 1)).filter fun _ => r.nextEntry? g (last + 1) == some target with
    | some skip =>
      let parts ← r.jumpParts g false start (last + 1)
      let skipPart ← r.jumpParts g true (last + 1) (last + 2)
      return some ⟨.or (parts ++ skipPart), last + 1, skip⟩
    | none =>
      let parts ← r.jumpParts g true start (last + 1)
      return some ⟨Guard.combine .and parts, last, target⟩

/-- The target of the block at a place of a loop condition that starts at `start`. The first block may be jumped to; the others
must continue the chain. -/
def testTarget (r : Region) (g : Graph) (start index : Nat) : Except StructuringError (Option BlockId) := do
  if index = start then return g.branchTarget? (← r.blockAt index) else return r.linkAt? g index

/-- Recognizes the condition at the bottom of a loop that spans the blocks from `start` to `last`, of which the last jumps back
to `bodyEntry`. The guard holds when the loop repeats. -/
def loopGuard (r : Region) (g : Graph) (start last : Nat) (bodyEntry : BlockId) : Except StructuringError (Option Guard) := do
  if (← r.testTarget g start last) = some bodyEntry then
    match (← (places start last).mapM (r.testTarget g start)).mapM id with
    | none => return none
    | some targets =>
      if targets.all (· == bodyEntry) then
        let parts ← r.jumpParts g false start (last + 1)
        return some (Guard.combine .or parts)
      else if (r.nextEntry? g last).any fun exit => targets.all (· == exit) then
        let parts ← r.jumpParts g true start last
        let back ← r.jumpParts g false last (last + 1)
        return some (.and (parts ++ back))
      else return none
  else return none

/-- The condition that guards the code after it and starts at a place, if there is one. -/
def guardChain? (r : Region) (g : Graph) (start : Nat) : Option Chain := (r.guardChain g start).toOption.join

/-- The condition at the bottom of a loop that spans the blocks from `start` to `last`, if there is one. -/
def loopGuard? (r : Region) (g : Graph) (start last : Nat) (bodyEntry : BlockId) : Option Guard :=
  (r.loopGuard g start last bodyEntry).toOption.join

end Region

end CodeLift
