import CodeLift.Locals.Basic

/-!
# Sources

A source is what the block graph and the statements of a method are made from: the method with its labels resolved and its
variables bound.
-/

namespace CodeLift

/-- A method with its labels resolved and its variables bound. -/
structure Source where
  method : Method
  labels : Labels
  locals : Locals

end CodeLift
