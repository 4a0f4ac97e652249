import CodeLift.Recognizer.Basic
import CodeLift.Region.Chain

/-!
# Recognizing loops by their back edge

A block to which a later block of the region jumps back is the head of a loop. If the last such jump is conditional, the loop
tests its condition at the bottom; if it is a goto, the loop tests a condition at the top that leads past it, or none.
-/

namespace CodeLift.Recognizer

/-- A loop of a region: the places of its body, and the place of the last block that jumps back. -/
structure LoopShape where
  kind : LoopKind
  guard : Option Guard
  bodyStart : Nat
  bodyStop : Nat
  /-- The block that control reaches after the body. -/
  follow : BlockId
  /-- Where a continue leads. -/
  continueTo : BlockId
  tail : Nat

/-- The longest condition at the bottom of a loop between two places, with the place where it starts. -/
def bottomGuard (g : Graph) (r : Region) (index tail : Nat) (head : BlockId) : Except StructuringError (Option (Nat × Guard)) :=
  (places index (tail + 1)).findSomeM? fun start => do return (← r.loopGuard g start tail head).map (start, ·)

/-- The condition at the top of a loop whose last block is at `tail`: it skips to where the loop is left. -/
def topGuard (g : Graph) (r : Region) (index tail : Nat) : Except StructuringError (Option Chain) := do
  return (← r.guardChain g index).filter fun chain => chain.last < tail && r.nextEntry? g tail == some chain.skip

/-- The loop that starts at a place, given the block there. -/
def loopShape (g : Graph) (r : Region) (index : Nat) (first : BlockId) : Except StructuringError (Option LoopShape) := do
  let head := g.entryBlock first
  match ← r.findAmong (fun id => g.jumpTarget? id == some head) (places index r.length).reverse with
  | none => return none
  | some tail =>
    if (g.branchTarget? (← r.blockAt tail)).isSome then
      match ← bottomGuard g r index tail head with
      | none => return none
      | some (testAt, guard) =>
        let test ← r.blockAt testAt
        return some ⟨.doWhile, some guard, index, testAt, test, test, tail⟩
    else
      match ← topGuard g r index tail with
      | some chain => return some ⟨.whileDo, some chain.guard, chain.last + 1, tail + 1, first, head, tail⟩
      | none => return some ⟨.forever, none, index, tail + 1, first, head, tail⟩

/-- Loops with a back edge to the place at hand, unless the loop with that head is being structured already. -/
def loop : Recognizer := fun subject nested r index => do
  let g := subject.graph
  let first ← r.get index
  let head := g.entryBlock first
  if ← Structuring.isLoopHead head then return none
  else
    match ← Structuring.ofExcept (loopShape g r index first) with
    | none => return none
    | some shape =>
      let region ← r.slice shape.bodyStart shape.bodyStop (some shape.follow)
      let body ← nested.loopBody subject region head (r.blockOrFollow? (shape.tail + 1)) shape.continueTo
      return some ⟨[.loop shape.kind shape.guard body []], shape.tail + 1⟩

end CodeLift.Recognizer
