import CodeLift.Settings
import CodeLift.Statement.Condition

/-!
# Building statements from sections

Each list of sections is built in a frame of its own, whose stack must be empty at its end. A list that cannot be built becomes a
comment if the settings allow it; the expressions made for it stay in the arena.
-/

namespace CodeLift

namespace Build

/-- The instructions that sections stand for, in the order of the code, as they are listed. -/
def commentLines (src : Source) (sections : List Section) : List String :=
  ((Section.spansAll sections).mergeSort Span.startsBefore).flatMap fun span => (span.slice src.method.code).map Insn.text

/-- Runs the building of a list of sections, and makes the list a comment if that fails and comments are allowed. -/
def orComment (src : Source) (settings : Settings) (sections : List Section) (action : Building Frame) :
    Building (List Statement) := fun b =>
  match (action >>= Frame.finish) b with
  | .ok statements b => .ok statements b
  | .error e b =>
    if e.isGenuine && settings.commentOnError then
      let event : Event := ⟨.warn, src.method.title ++ ": emitting " ++ toString sections.length ++
        " sections as a comment: " ++ e.message⟩
      .ok [.comment (commentLines src sections)] { b with events := b.events ++ [event] }
    else .error e b

/-- The stack with which a handler starts: it holds the exception unless the header of the clause takes it. -/
def handlerStack (src : Source) (catches : List CatchType) (header : Span) : Building (List ExprId) := do
  if header.stop < header.start || src.method.code.length < header.stop then throw (.missingInsn header.stop)
  else if (header.slice src.method.code).any (!·.isMarker) then return []
  else
    let caught ← Building.alloc (.caught catches)
    return [caught]

/-- The index of the switch that ends a span. -/
def spanSwitch (src : Source) (key : Span) : Building Nat :=
  match key.stop with
  | 0 => throw (.missingInsn 0)
  | last + 1 =>
    match src.method.code[last]? with
    | some (.switch _ _) => pure last
    | some _ => throw (.unexpectedJump last)
    | none => throw (.missingInsn last)

mutual

/-- Builds a section into the list at hand. -/
def sectionInto (src : Source) (settings : Settings) : Section → Frame → Building Frame
  | .body span, f => body src span f
  | .branch g thenPart elsePart, f => do
    let (condition, _, f) ← condition src g true f
    let thenPart ← orComment src settings thenPart (sectionsInto src settings thenPart ⟨[], []⟩)
    let elsePart ← orComment src settings elsePart (sectionsInto src settings elsePart ⟨[], []⟩)
    return f.emit (.branch condition thenPart elsePart)
  | .loop .doWhile (some g) loopBody _, f => do
    let inner ← sectionsInto src settings loopBody ⟨[], []⟩
    let (condition, _, inner) ← condition src g true inner
    return f.emit (.doWhile condition (← inner.finish))
  | .loop .forUpdate (some g) loopBody update, f => do
    let condition ← headGuard src g
    let update ← orComment src settings update (sectionsInto src settings update ⟨[], []⟩)
    let loopBody ← orComment src settings loopBody (sectionsInto src settings loopBody ⟨[], []⟩)
    return f.emit (.forUpdate condition update loopBody)
  | .loop _ (some g) loopBody _, f => do
    let condition ← headGuard src g
    let loopBody ← orComment src settings loopBody (sectionsInto src settings loopBody ⟨[], []⟩)
    return f.emit (.whileDo (some condition) loopBody)
  | .loop _ none loopBody _, f => do
    let loopBody ← orComment src settings loopBody (sectionsInto src settings loopBody ⟨[], []⟩)
    return f.emit (.whileDo none loopBody)
  | .switch key cases, f => do
    let last ← spanSwitch src key
    let f ← body src ⟨key.start, last⟩ f
    let (value, f) ← f.pop last
    return f.emit (.switch value (← switchCases src settings cases))
  | .tryCatch tried clauses, f => do
    let tried ← orComment src settings tried (sectionsInto src settings tried ⟨[], []⟩)
    return f.emit (.tryCatch tried (← catches src settings clauses))
  | .breakOut depth _, f => return f.emit (.breakOut depth)
  | .continueNext depth _, f => return f.emit (.continueNext depth)
  | .comment lines _, f => return f.emit (.comment lines)

/-- Builds sections into the list at hand, in order. -/
def sectionsInto (src : Source) (settings : Settings) : List Section → Frame → Building Frame
  | [], f => pure f
  | s :: rest, f => do
    let f ← sectionInto src settings s f
    sectionsInto src settings rest f

/-- Builds the cases of a switch, in order. -/
def switchCases (src : Source) (settings : Settings) : List (Case (List Section)) → Building (List (Case (List Statement)))
  | [] => pure []
  | ⟨values, isDefault, caseBody⟩ :: rest => do
    let caseBody ← orComment src settings caseBody (sectionsInto src settings caseBody ⟨[], []⟩)
    return ⟨values, isDefault, caseBody⟩ :: (← switchCases src settings rest)

/-- Builds the clauses of a try, in order. -/
def catches (src : Source) (settings : Settings) :
    List (CatchSection (List Section)) → Building (List (Catch (List Statement)))
  | [] => pure []
  | ⟨types, boundTo, header, handlerBody⟩ :: rest => do
    let stack ← handlerStack src types header
    let handlerBody ← orComment src settings handlerBody (sectionsInto src settings handlerBody ⟨stack, []⟩)
    return ⟨types, boundTo, handlerBody⟩ :: (← catches src settings rest)

end

/-- Builds a list of sections with an empty stack. -/
def list (src : Source) (settings : Settings) (secs : List Section) : Building (List Statement) :=
  orComment src settings secs (sectionsInto src settings secs ⟨[], []⟩)

end Build

/-- The statements of a method, built from its sections. -/
def Source.body (src : Source) (settings : Settings) (sections : List Section) : Traced StatementError Body := fun events =>
  match Build.list src settings sections ⟨#[], events⟩ with
  | .ok statements b => .ok ⟨b.arena, statements⟩ b.events
  | .error e b => .error e b.events

end CodeLift
