/-!
# Search by halving

A list in which no member that passes a test stands after one that does not is searched by halving: each step looks at the middle of
the window that is left, and keeps the upper half if the member there passes.
-/

namespace CodeLift

/-- Halves the window of `size` members that starts at `base` until one is left, and gives its place. -/
def bisect (passes : Nat → Bool) (base size : Nat) : Nat :=
  if 1 < size then
    let half := size / 2
    if passes (base + half) then bisect passes (base + half) (size - half) else bisect passes base (size - half)
  else base
termination_by size

/-- How many members stand before the first that does not pass, in a list in which none that passes stands after one that does
not. -/
def partitionPoint {α : Type} (p : α → Bool) (xs : List α) : Nat :=
  if xs.isEmpty then 0
  else
    let passes (place : Nat) : Bool := xs[place]?.any p
    let base := bisect passes 0 xs.length
    if passes base then base + 1 else base

/-- The place of the member with a key, in a list in which the keys ascend. -/
def bisectIdx? {α : Type} (key : α → Nat) (target : Nat) (xs : List α) : Option Nat :=
  let base := bisect (fun place => xs[place]?.any (key · ≤ target)) 0 xs.length
  if xs[base]?.any (key · == target) then some base else none

end CodeLift
