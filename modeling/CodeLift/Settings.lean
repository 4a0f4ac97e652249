/-!
# Settings
-/

namespace CodeLift

/-- What can be set for the lifting of a method. -/
structure Settings where
  /-- Put the instructions of what cannot be lifted into a comment instead of failing. -/
  commentOnError : Bool
  /-- How deeply regions may nest. -/
  maxDepth : Nat
  /-- Whether the passes over the statements run once they are built. -/
  runPasses : Bool
  deriving DecidableEq, Repr

/-- The usual settings. -/
def Settings.standard : Settings := ⟨false, 256, true⟩

end CodeLift
