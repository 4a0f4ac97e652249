import CodeLift.Region.Basic
import CodeLift.Structuring.Session

/-!
# Recognizers

A recognizer knows one kind of construct. Asked at a place of a region, it says whether its construct starts there, and if so
gives the sections of it and the place after the blocks it took. The regions inside the construct are structured by an action it
is given.
-/

namespace CodeLift

namespace Region

/-- The block at a place. -/
def get (r : Region) (index : Nat) : Structuring BlockId := Structuring.ofExcept (r.blockAt index)

/-- The blocks from one place up to another, with a follow of their own. -/
def slice (r : Region) (start stop : Nat) (follow : Option BlockId) : Structuring Region := do
  return ⟨← Structuring.ofExcept (r.between start stop), follow⟩

end Region

/-- What a recognizer found: the sections of a construct, and the place after the blocks it took. -/
structure Match where
  sections : List Section
  resume : Nat

/-- Structures a region inside the one at hand. -/
abbrev Nested := Region → Structuring (List Section)

/-- Recognizes one kind of construct: whether one starts at a place of a region, and if so, its sections. -/
abbrev Recognizer := Subject → Nested → Region → Nat → Structuring (Option Match)

/-- A region as a comment: for each block its description and its instructions. -/
def commentSection (subject : Subject) (r : Region) : Section :=
  let g := subject.graph
  .comment
    (r.blocks.flatMap fun id => g.header id :: ((g.spanOf id).slice subject.method.code).map Insn.text)
    ((r.blocks.map g.spanOf).filter (!·.isEmpty))

namespace Nested

/-- Structures a region, or makes it a comment if that fails and comments are allowed. -/
def orComment (subject : Subject) (nested : Nested) (r : Region) : Structuring (List Section) := do
  match ← Structuring.attempt (nested r) with
  | .ok sections => return sections
  | .error e =>
    if subject.settings.commentOnError && (← get).strict == 0 then
      modify fun s => { s with events := s.events ++ [⟨.warn, subject.method.title ++ ": emitting " ++
        toString r.length ++ " blocks as a comment: " ++ e.message⟩] }
      return [commentSection subject r]
    else throw e

/-- Structures the body of a loop. `head` is the block that back edges jump to. -/
def loopBody (subject : Subject) (nested : Nested) (r : Region) (head : BlockId) (breakTo : Option BlockId)
    (continueTo : BlockId) : Structuring (List Section) :=
  Structuring.inLoop head (Structuring.inBreakable ⟨breakTo, some continueTo⟩ (nested.orComment subject r))

/-- Structures a region that a break can leave, such as a case of a switch. -/
def breakable (subject : Subject) (nested : Nested) (r : Region) (breakTo : Option BlockId) : Structuring (List Section) :=
  Structuring.inBreakable ⟨breakTo, none⟩ (nested.orComment subject r)

end Nested

end CodeLift
