import CodeLift.Decompiler
import CodeLift.Proofs.ControlFlow.Preservation
import CodeLift.Proofs.ControlFlow.SwitchCases
import CodeLift.Proofs.ControlFlow.Chains
import CodeLift.Proofs.Coverage
import CodeLift.Proofs.Dispatch
import CodeLift.Proofs.Actions
import CodeLift.Proofs.Locals.Binding
import CodeLift.Proofs.Graph.Refinement
import CodeLift.Proofs.Comments.Free
import CodeLift.Proofs.Structuring.Paired
import CodeLift.Proofs.Structuring.TwoRuns
import CodeLift.Proofs.Comments.Sections
import CodeLift.Proofs.NestingLimit
import CodeLift.Proofs.Comments.Statements
import CodeLift.Proofs.Comments.Lifting
import CodeLift.Proofs.TableNesting
import CodeLift.Proofs.Everywhere
import CodeLift.Proofs.Structuring.Everywhere
import CodeLift.Proofs.Scoping.Sections
import CodeLift.Proofs.Statement.Operands
import CodeLift.Proofs.Statement.Sound
import CodeLift.Proofs.Executable
import CodeLift.Proofs.Scoping.Statements
import CodeLift.Proofs.Safety.Graph
import CodeLift.Proofs.Safety.Structuring
import CodeLift.Proofs.Safety.Locals
import CodeLift.Proofs.Safety.Lifting
import CodeLift.Proofs.Graph.EndOfCode
import CodeLift.Proofs.Graph.Layout
import CodeLift.Proofs.Statement.Steps
import CodeLift.Proofs.Statement.IntegerCode
import CodeLift.Proofs.Statement.BottomTests
import CodeLift.Proofs.Statement.Segments
import CodeLift.Proofs.Statement.Lines
import CodeLift.Proofs.Statement.CallsOnce
import CodeLift.Proofs.Statement.Discards
import CodeLift.Proofs.Statement.CallsKept
import CodeLift.Proofs.Statement.Guards
import CodeLift.Proofs.Statement.Depth
import CodeLift.Proofs.Statement.Increments
import CodeLift.Proofs.Descriptor
import CodeLift.Proofs.Graph.Breaks
import CodeLift.Proofs.Graph.Failures
import CodeLift.Proofs.Locals.Phases
import CodeLift.Proofs.Locals.Runs
import CodeLift.Proofs.Locals.Parameters
import CodeLift.Proofs.Locals.Caught
import CodeLift.Proofs.HandlerScope
import CodeLift.Proofs.Statement.Acyclic
import CodeLift.Proofs.Statement.Folds
import CodeLift.Proofs.Statement.FailsAtOnce
import CodeLift.Proofs.Statement.ArenaSteps
import CodeLift.Proofs.ExpressionArena
import CodeLift.Proofs.Comments.Listing
import CodeLift.Proofs.Comments.Fallback
import CodeLift.Proofs.Structuring.Restores
