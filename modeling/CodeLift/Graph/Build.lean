import CodeLift.Event
import CodeLift.Graph.Producer

/-!
# Building a block graph

The code is cut wherever a producer needs a block to end, and the producers link the blocks in turn. Code that control would run
out of is refused.
-/

namespace CodeLift

namespace Graph

/-- Cuts the code of a method into blocks and links them. -/
def build (src : Source) (producers : List Producer) : Except GraphError Graph := do
  let code := src.method.code
  let breaks ← producers.mapM (·.breaks src)
  let g ← producers.foldlM (fun g p => p.link src g) (ofSpans (Span.cutAt code.length breaks.flatten))
  match g.fallsOffEnd? code with
  | some index => .error (.fallsOffEnd index)
  | none => return g

/-- Cuts the code of a method into blocks, links them, and reports each block in the order of the layout. -/
def buildTraced (src : Source) (producers : List Producer) : Traced GraphError Graph := do
  let g ← Traced.ofExcept (build src producers)
  Traced.report (g.order.map fun id => ⟨.debug, g.header id⟩)
  return g

end Graph

end CodeLift
