import CodeLift.Graph.Basic

/-!
# What can go wrong in structuring
-/

namespace CodeLift

/-- What is wrong with an entry of the table of handlers. -/
inductive TableFault where
  | strayMarker | missingEnd | overlap | unexpectedMarker | foreignHandler | detachedHandler | emptyHandler | farHandler
  deriving DecidableEq, Repr

/-- The fault in words. -/
def TableFault.text : TableFault → String
  | .strayMarker => "marker outside of the try it belongs to"
  | .missingEnd => "try-end marker missing from the region"
  | .overlap => "try ranges overlap without nesting"
  | .unexpectedMarker => "unexpected marker after the try body"
  | .foreignHandler => "handler of a different try"
  | .detachedHandler => "handler does not follow the try body"
  | .emptyHandler => "handler has no code"
  | .farHandler => "handler outside of the region"

/-- Why a region cannot be structured. -/
inductive StructuringError where
  /-- No construct starts at a block that needs one. -/
  | unrecognized (block : BlockId)
  /-- A goto neither falls through nor leaves or continues a construct around it. -/
  | unresolvedJump (block target : BlockId)
  | malformedTable (entry : Nat) (fault : TableFault)
  | tooDeep (limit : Nat)
  /-- A recognizer matched without taking a block. -/
  | noProgress (block : BlockId)
  /-- A place outside of a region was asked for. -/
  | outOfRegion (index : Nat)
  /-- An entry that the table of handlers does not have was asked for. -/
  | missingEntry (entry : Nat)
  deriving DecidableEq, Repr

namespace StructuringError

/-- The wording of the error. -/
def message : StructuringError → String
  | .unrecognized block => "No strategy recognizes the region starting at block " ++ toString block
  | .unresolvedJump block target =>
    "Jump from block " ++ toString block ++ " to block " ++ toString target ++ " does not fit the structure around it"
  | .malformedTable entry fault => "Malformed exception table entry " ++ toString entry ++ ": " ++ fault.text
  | .tooDeep limit => "Regions nest deeper than " ++ toString limit ++ " levels"
  | .noProgress block => "Strategy made no progress at block " ++ toString block
  | .outOfRegion index => "There is no place " ++ toString index ++ " in the region"
  | .missingEntry entry => "There is no exception table entry " ++ toString entry

/-- Whether an error says something about the method. The others never arise. -/
def isGenuine : StructuringError → Bool
  | .outOfRegion _ | .missingEntry _ => false
  | _ => true

end StructuringError

end CodeLift
