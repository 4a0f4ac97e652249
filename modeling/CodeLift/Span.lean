/-!
# Spans of code

A span is a half-open range of instruction indices. The section tree of a method accounts for its code by a list of spans;
`Span.tiles` checks that such a list covers each of the first `n` indices exactly once, by comparing the total length with
what the spans cover once they are merged.
-/

namespace CodeLift

/-- The indices from `start` up to and without `stop`; there are none when `stop ≤ start`. -/
structure Span where
  start : Nat
  stop : Nat
  deriving DecidableEq, Repr

namespace Span

/-- An index is in a span when it is at least the start and below the stop. -/
instance : Membership Nat Span := ⟨fun s i => s.start ≤ i ∧ i < s.stop⟩

instance (s : Span) (i : Nat) : Decidable (i ∈ s) := inferInstanceAs (Decidable (s.start ≤ i ∧ i < s.stop))

/-- How many indices a span holds. -/
def length (s : Span) : Nat := s.stop - s.start

/-- Whether a span holds no index. -/
def isEmpty (s : Span) : Bool := s.stop ≤ s.start

/-- The span without indices that stands right before `i`. -/
def before (i : Nat) : Span := ⟨i, i⟩

/-- The span that holds `i` alone. -/
def single (i : Nat) : Span := ⟨i, i + 1⟩

/-- The indices of a span, ascending. -/
def indices (s : Span) : List Nat := List.range' s.start s.length

/-- The part of a list that a span of its indices names. -/
def slice {α : Type} (s : Span) (xs : List α) : List α := (xs.drop s.start).take s.length

/-- Whether two spans overlap, both being nonempty. -/
def overlaps (a b : Span) : Bool := a.start < b.stop && b.start < a.stop

/-- The order of spans by where they start. -/
def startsBefore (a b : Span) : Bool := a.start ≤ b.start

/-- Spans that are joined in place: the first `count` of them are the result so far. -/
structure Joining where
  spans : List Span
  count : Nat

namespace Joining

/-- The result so far. -/
def result (j : Joining) : List Span := j.spans.take j.count

/-- Puts a span after the result. There is no outcome if that is out of range. -/
def put (j : Joining) (s : Span) : Option Joining :=
  if j.count < j.spans.length then some ⟨j.spans.set j.count s, j.count + 1⟩ else none

/-- Takes the span at a place: if it overlaps or touches the last one of the result, the two become one, else it is put after the
result. There is no outcome if a place is out of range. -/
def step (j : Joining) (place : Nat) : Option Joining := do
  let s ← j.spans[place]?
  match j.count with
  | 0 => j.put s
  | last + 1 =>
    let opened ← j.spans[last]?
    if s.start ≤ opened.stop then some ⟨j.spans.set last ⟨opened.start, max opened.stop s.stop⟩, last + 1⟩ else j.put s

end Joining

/-- The nonempty spans of a list, sorted by start, with those that overlap or touch joined into one. -/
def merge (spans : List Span) : List Span :=
  let sorted := (spans.filter (!·.isEmpty)).mergeSort startsBefore
  (((List.range sorted.length).foldlM Joining.step ⟨sorted, 0⟩).map Joining.result).getD []

/-- How many indices the spans hold, an index counted once for each span that holds it. -/
def totalLength : List Span → Nat
  | [] => 0
  | s :: rest => s.length + totalLength rest

/-- Whether the spans hold each index below `n` exactly once and no other index. -/
def tiles (spans : List Span) (n : Nat) : Bool :=
  let merged := merge spans
  totalLength spans == n && (merged.isEmpty && n == 0 || merged == [⟨0, n⟩])

/-- The spans into which code of length `n` is cut by ending one at each of the given last indices and at the end. -/
def cutAt (n : Nat) (lasts : List Nat) : List Span :=
  go 0 ((List.range n).filter fun i => i + 1 == n || lasts.contains i)
where
  /-- The spans that end at the given last indices, the first one starting at `start`. -/
  go (start : Nat) : List Nat → List Span
    | [] => []
    | last :: rest => ⟨start, last + 1⟩ :: go (last + 1) rest

end Span

end CodeLift
