import CodeLift.Recognizer.Branch
import CodeLift.Recognizer.EntryLoop
import CodeLift.Recognizer.Loop
import CodeLift.Recognizer.Protected
import CodeLift.Recognizer.Switch

/-!
# Structuring a method

A region is scanned from its first block on. At each place the recognizers are asked in turn; the first that matches takes as
many blocks as its construct has, and a block that none takes stands for itself. The recognizers structure the regions inside
their constructs in the same way, one level deeper, up to the depth that the settings allow.
-/

namespace CodeLift

/-- The recognizers of all constructs. Only the first knows what markers mean, and the loops come before the constructs that
would take the head of a loop for their own start. -/
def Recognizer.all : List Recognizer := [.tryCatch, .loop, .entryLoop, .switch, .branch]

/-- A body section, unless there is no code. -/
def bodySections (span : Span) : List Section := if span.isEmpty then [] else [.body span]

/-- The sections of a block that no recognizer takes. -/
def blockSections (subject : Subject) (r : Region) (index : Nat) : Structuring (List Section) := do
  let g := subject.graph
  let id ← r.get index
  match g.block? id with
  | none => throw (.outOfRegion index)
  | some ⟨span, kind⟩ =>
    match kind with
    | .marker mark => throw (.malformedTable mark.entry .strayMarker)
    | .body _ | .exit => return bodySections span
    | .goto target =>
      if r.nextEntry? g index = some target then return bodySections span
      else
        match span.stop with
        | 0 => throw (.outOfRegion index)
        | jump + 1 =>
          match ← resolveJump g target (some jump) with
          | none => throw (.unresolvedJump id target)
          | some s => return bodySections ⟨span.start, jump⟩ ++ [s]
    | .branch _ _ _ | .switch _ _ => throw (.unrecognized id)

/-- Asks recognizers in turn whether their construct starts at a place. -/
def recognize (subject : Subject) (nested : Nested) (r : Region) (index : Nat) :
    List Recognizer → Structuring (Option Match)
  | [] => return none
  | recognizer :: rest => do
    match ← recognizer subject nested r index with
    | some found => return some found
    | none => recognize subject nested r index rest

/-- Structures what starts at a place: a construct, if a recognizer finds one, else the block there. -/
def step (subject : Subject) (recognizers : List Recognizer) (nested : Nested) (r : Region) (index : Nat) :
    Structuring Match := do
  match ← recognize subject nested r index recognizers with
  | some found =>
    if index < found.resume then return found
    else
      let id ← r.get index
      throw (.noProgress id)
  | none =>
    let sections ← blockSections subject r index
    return ⟨sections, index + 1⟩

/-- Scans a region from a place on. Every step takes a block at least, so as many steps as there are blocks are enough. -/
def scan (subject : Subject) (recognizers : List Recognizer) (nested : Nested) (r : Region) :
    (steps index : Nat) → Structuring (List Section)
  | 0, _ => return []
  | steps + 1, index => do
    if r.length ≤ index then return []
    else
      let found ← step subject recognizers nested r index
      let rest ← scan subject recognizers nested r steps found.resume
      return found.sections ++ rest

/-- Structures a region with at most `levels` regions inside each other, this one included. -/
def flattenWithin (subject : Subject) (recognizers : List Recognizer) : (levels : Nat) → Nested
  | 0, _ => throw (.tooDeep subject.settings.maxDepth)
  | levels + 1, r =>
    Structuring.deeper (scan subject recognizers (flattenWithin subject recognizers levels) r r.length 0)

/-- Structures a region as deeply as the settings allow from where the session is. -/
def flatten (subject : Subject) (recognizers : List Recognizer) : Nested := fun r => do
  flattenWithin subject recognizers (subject.settings.maxDepth - (← get).depth) r

/-- Structures a whole method. -/
def Subject.sections (subject : Subject) (recognizers : List Recognizer) : Structuring (List Section) :=
  (flatten subject recognizers).orComment subject ⟨subject.graph.order, none⟩

/-- Structures a whole method in a session of its own. -/
def Subject.sectionsTraced (subject : Subject) (recognizers : List Recognizer) : Traced StructuringError (List Section) :=
  fun events =>
    match subject.sections recognizers (.start events) with
    | .ok sections s => .ok sections s.events
    | .error e s => .error e s.events

end CodeLift
