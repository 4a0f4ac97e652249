import CodeLift.Recognizer.Basic
import CodeLift.Region.Chain

/-!
# Recognizing branches

A condition that skips code is a branch. If the code it skips ends with a goto past the place it skips to, the code up to
where that goto leads is the other branch. A condition that jumps out of a loop or switch guards a break or continue.
-/

namespace CodeLift.Recognizer

/-- The place that a chain of conditions skips to, if it lies after the chain. -/
def skipPlace (g : Graph) (r : Region) (chain : Chain) : Except StructuringError (Option Nat) := do
  return (← r.locate g chain.skip).filter fun place => chain.last + 1 ≤ place

/-- Where the other branch ends: the code from `thenStart` on ends with a goto that leads past the place `skipAt`. -/
def elseEnd (g : Graph) (r : Region) (thenStart skipAt : Nat) : Except StructuringError (Option Nat) := do
  if thenStart < skipAt && skipAt < r.length then
    match g.gotoTarget? (← r.blockBefore skipAt) with
    | some target => return (← r.locate g target).filter fun place => skipAt < place
    | none => return none
  else return none

/-- Branches with or without another branch. -/
def branch : Recognizer := fun subject nested r index => do
  let g := subject.graph
  match ← Structuring.ofExcept (r.guardChain g index) with
  | none => return none
  | some chain =>
    let thenStart := chain.last + 1
    match ← Structuring.ofExcept (skipPlace g r chain) with
    | none =>
      match ← resolveJump g chain.skip none with
      | none => return none
      | some jump => return some ⟨[.branch chain.guard.negated [jump] []], thenStart⟩
    | some skipAt =>
      match ← Structuring.ofExcept (elseEnd g r thenStart skipAt) with
      | none =>
        let thenRegion ← r.slice thenStart skipAt (r.blockOrFollow? skipAt)
        let thenPart ← nested.orComment subject thenRegion
        return some ⟨[.branch chain.guard thenPart []], skipAt⟩
      | some exitAt =>
        let thenRegion ← r.slice thenStart skipAt (r.blockOrFollow? exitAt)
        let thenPart ← nested.orComment subject thenRegion
        let elseRegion ← r.slice skipAt exitAt (r.blockOrFollow? exitAt)
        let elsePart ← nested.orComment subject elseRegion
        return some ⟨[.branch chain.guard thenPart elsePart], exitAt⟩

end CodeLift.Recognizer
