import CodeLift.Recognizer.Basic
import CodeLift.Region.Chain

/-!
# Recognizing loops that start with a jump to their condition

Such a loop starts with a goto to the condition at its bottom, which jumps back to the block after the goto. The plain blocks
before the condition can be an update, to which a continue jumps. That cannot be told from a body that ends with the same code,
so the update is split off only when a jump to it fits nowhere else.
-/

namespace CodeLift.Recognizer

/-- A loop whose first block is a goto to its condition: the places where the condition starts and ends. -/
structure EntryLoopShape where
  guard : Guard
  /-- The block with the goto. -/
  entry : BlockId
  /-- The first block of the condition. -/
  test : BlockId
  testAt : Nat
  last : Nat

/-- The longest condition that starts at a place and jumps back to `bodyEntry`, with the place where it ends. -/
def entryGuard (g : Graph) (r : Region) (testAt : Nat) (bodyEntry : BlockId) : Except StructuringError (Option (Nat × Guard)) :=
  let links := (r.blocks.drop (testAt + 1)).takeWhile fun id => (g.linkTarget? id).isSome
  (places testAt (testAt + links.length + 1)).reverse.findSomeM? fun last => do
    return (← r.loopGuard g testAt last bodyEntry).map (last, ·)

/-- The loop whose first block is at a place. -/
def entryLoopShape (g : Graph) (r : Region) (index : Nat) : Except StructuringError (Option EntryLoopShape) := do
  let entry ← r.blockAt index
  match g.gotoTarget? entry with
  | none => return none
  | some target =>
    match (← r.locate g target).filter fun place => index < place && place < r.length with
    | none => return none
    | some testAt =>
      match r.nextEntry? g index with
      | none => return none
      | some bodyEntry =>
        match ← entryGuard g r testAt bodyEntry with
        | none => return none
        | some (last, guard) =>
          let test ← r.blockAt testAt
          return some ⟨guard, entry, test, testAt, last⟩

/-- The place of the first of the plain blocks that fall into the block at `testAt`; the body, from `bodyStart` on, keeps one
block at least. -/
def updateRun (g : Graph) (r : Region) (bodyStart testAt : Nat) : Except StructuringError Nat :=
  r.walkBack (bodyStart + 1) g.isBody testAt

/-- The place between two others whose block control enters when it jumps to `target`. -/
def updatePlace (g : Graph) (r : Region) (start stop : Nat) (target : BlockId) : Except StructuringError (Option Nat) :=
  r.findAmong (fun id => g.entryBlock id == target) (places start stop)

/-- What an attempt to do without an update leads to. -/
inductive Update where
  /-- The body has been structured without one. -/
  | needless (body : List Section)
  /-- A jump in the body leads to this place, where an update starts. -/
  | startsAt (place : Nat)
  /-- The body cannot be structured, or there is nothing that could be an update. -/
  | absent

/-- Tries to structure the body without an update, if there are blocks from `start` to `stop` that could be one. -/
def tryWithout (g : Graph) (r : Region) (start stop : Nat) (body : Structuring (List Section)) : Structuring Update := do
  if start < stop then
    match ← Structuring.attempt (Structuring.strictly body) with
    | .ok sections => return .needless sections
    | .error (.unresolvedJump _ target) =>
      match ← Structuring.ofExcept (updatePlace g r start stop target) with
      | some place => return .startsAt place
      | none => return .absent
    | .error _ => return .absent
  else return .absent

namespace EntryLoopShape

/-- The loop with its parts, and the place after it. -/
def withParts (shape : EntryLoopShape) (g : Graph) (kind : LoopKind) (body update : List Section) : Match :=
  ⟨[.body (g.spanOf shape.entry), .loop kind (some shape.guard) body update], shape.last + 1⟩

/-- Structures the body of the loop at a place without an update. -/
def plainBody (shape : EntryLoopShape) (subject : Subject) (nested : Nested) (r : Region) (index : Nat) :
    Structuring (List Section) := do
  let region ← r.slice (index + 1) shape.testAt (some shape.test)
  nested.loopBody subject region shape.test (r.blockOrFollow? (shape.last + 1)) shape.test

/-- Structures the loop at a place. -/
def structured (shape : EntryLoopShape) (subject : Subject) (nested : Nested) (r : Region) (index : Nat) : Structuring Match := do
  let g := subject.graph
  let updateAt ← Structuring.ofExcept (updateRun g r (index + 1) shape.testAt)
  match ← tryWithout g r updateAt shape.testAt (shape.plainBody subject nested r index) with
  | .needless body => return shape.withParts g .whileDo body []
  | .absent =>
    let body ← shape.plainBody subject nested r index
    return shape.withParts g .whileDo body []
  | .startsAt place =>
    let updateEntry ← r.get place
    let region ← r.slice (index + 1) place (some updateEntry)
    let body ← nested.loopBody subject region shape.test (r.blockOrFollow? (shape.last + 1)) updateEntry
    let updateRegion ← r.slice place shape.testAt (some shape.test)
    let update ← nested updateRegion
    return shape.withParts g .forUpdate body update

end EntryLoopShape

/-- Loops that start with a goto to their condition. -/
def entryLoop : Recognizer := fun subject nested r index => do
  match ← Structuring.ofExcept (entryLoopShape subject.graph r index) with
  | none => return none
  | some shape => return some (← shape.structured subject nested r index)

end CodeLift.Recognizer
