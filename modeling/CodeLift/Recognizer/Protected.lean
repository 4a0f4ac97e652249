import CodeLift.Handler.Binding
import CodeLift.Handler.Scope
import CodeLift.Recognizer.Basic

/-!
# Recognizing protected code and its handlers

Entries of the table of handlers whose end markers stand next to each other protect the same code and become one section, with
one clause for each place at which handlers start. The table is malformed if its ranges overlap without nesting, or if the
handlers do not follow the code they protect.
-/

namespace CodeLift.Recognizer

/-! ## The protected code -/

/-- The markers of a kind at the front of a layout. -/
def leadingMarkers (g : Graph) (kind : MarkerKind) : List BlockId → List Marker
  | [] => []
  | id :: rest =>
    match g.markerOf? kind id with
    | some mark => mark :: leadingMarkers g kind rest
    | none => []

/-- The place of the first of the end markers that stand next to each other and next to the one at `stop`, after `index`. -/
def firstEnd (g : Graph) (r : Region) (index stop : Nat) : Except StructuringError Nat :=
  r.walkBack (index + 1) (g.isMarkerOf .tryEnd) stop

/-- The place of the last start among the entries that end together; all of them start between `index` and `stop`. -/
def lastStart? (r : Region) (index stop : Nat) (pending : List Marker) : Option Nat :=
  pending.foldlM (fun last mark => do
    let place ← (r.indexOf? mark.start).filter fun place => index ≤ place && place < stop
    return max last place) index

/-- Whether a block marks the start of one of the entries that end together. -/
def startsOne (g : Graph) (pending : List Marker) (id : BlockId) : Bool :=
  g.isMarkerOf .tryStart id && pending.any (·.start == id)

/-- The place of the last start among the entries that end together, which start at `index` with nothing else between. -/
def sharedStart (g : Graph) (r : Region) (index stop : Nat) (pending : List Marker) : Except StructuringError (Option Nat) := do
  match lastStart? r index stop pending with
  | none => return none
  | some last => return if (← r.between index (last + 1)).all (startsOne g pending) then some last else none

/-- The block after the end markers belongs to the protected code unless a handler starts there: gives it as a list, with where
it jumps if it ends with a goto. -/
def blockAfterEnd (g : Graph) : Option BlockId → Except StructuringError (List BlockId × Option BlockId)
  | none => .ok ([], none)
  | some id =>
    match g.marker? id with
    | some mark =>
      if mark.kind = .handler then .ok ([], none) else .error (.malformedTable mark.entry .unexpectedMarker)
    | none => .ok ([id], g.gotoTarget? id)

/-- Protected code: a region of its own, the entries that protect it, and the place where their handlers are laid out. The follow
of the region is where the code jumps at its end. -/
structure ProtectedShape where
  body : Region
  pending : List Marker
  cursor : Nat

/-- The protected code that starts with a marker at a place. There is none if a later block jumps back to its head while no loop
with that head is being structured: the loop comes first. -/
def protectedShape (g : Graph) (r : Region) (index : Nat) (first : BlockId) (start : Marker) (inLoop : Bool) :
    Except StructuringError (Option ProtectedShape) := do
  match (r.indexOf? start.stop).filter (index < ·) with
  | none => .error (.malformedTable start.entry .missingEnd)
  | some stop =>
    let stop ← firstEnd g r index stop
    let rest ← r.between stop r.length
    if !inLoop && rest.any (fun id => g.jumpTarget? id == some (g.entryBlock first)) then return none
    else
      let pending := leadingMarkers g .tryEnd rest
      match ← sharedStart g r index stop pending with
      | none => .error (.malformedTable start.entry .overlap)
      | some last =>
        let inside ← r.between (last + 1) stop
        let (tail, exit) ← blockAfterEnd g r.blocks[stop + pending.length]?
        return some ⟨⟨inside ++ tail, exit⟩, pending, stop + pending.length + tail.length⟩

/-! ## The handlers -/

/-- Takes the handler markers at the front of a layout away from the entries that still need a handler: gives the entries taken
and those left. -/
def takeHandlers (g : Graph) : List BlockId → List Marker → Except StructuringError (List Nat × List Marker)
  | [], pending => .ok ([], pending)
  | id :: rest, pending =>
    match g.markerOf? .handler id with
    | none => .ok ([], pending)
    | some mark =>
      if pending.any (·.handler == id) then
        (takeHandlers g rest (pending.eraseP (·.handler == id))).map fun (entries, left) => (mark.entry :: entries, left)
      else .error (.malformedTable mark.entry .foreignHandler)

/-- Entries in the order of the table. They are put in place one by one. -/
def inTableOrder (entries : List Nat) : List Nat :=
  entries.foldr (fun entry sorted => sorted.takeWhile (· < entry) ++ entry :: sorted.dropWhile (· < entry)) []

/-- What the handlers of entries catch, in the order of the table. -/
def catchTypes (table : List HandlerEntry) (entries : List Nat) : Except StructuringError (List CatchType) :=
  (inTableOrder entries).mapM fun entry =>
    match table[entry]? with
    | some h => .ok h.catches
    | none => .error (.missingEntry entry)

/-- The start of a handler: its header, the variable that holds the exception, and its binding. -/
structure HandlerStart where
  header : Span
  boundTo : Option LocalId
  binding : Option Nat

/-- The start of the handler that is laid out from a block on. A binding counts if the block ends with it. -/
def handlerStart (subject : Subject) (id : BlockId) : HandlerStart :=
  let span := subject.graph.spanOf id
  let code := subject.method.code
  match (handlerBinding? code span.start).filter (· + 1 == span.stop) with
  | none => ⟨.before span.start, none, none⟩
  | some binding =>
    let boundTo := match code[binding]? with
      | some (.store _ slot) => subject.locals.find? slot binding
      | _ => none
    ⟨span, boundTo, some binding⟩

/-- The place where the last handler of a section ends: where the protected code jumps, or, if it does not jump, where the scope
of the exception ends, or at the end of the region. -/
def lastHandlerEnd (subject : Subject) (r : Region) (exit : Option BlockId) (binding : Option Nat) (cursor : Nat) :
    Except StructuringError Nat := do
  match exit with
  | some exit => return ((← r.locate subject.graph exit).filter (cursor ≤ ·)).getD r.length
  | none =>
    match binding.bind (handlerScopeEnd? subject.method.code subject.locals) with
    | none => return r.length
    | some stop =>
      let place ← r.findAmong (fun id => stop ≤ (subject.graph.spanOf id).start) (places cursor r.length)
      return place.getD r.length

/-- The place where a handler ends: at the next handler of the pending entries, or, if there is none, as the last one does. -/
def handlerEnd (subject : Subject) (r : Region) (exit : Option BlockId) (binding : Option Nat) (cursor : Nat) :
    List Marker → Except StructuringError Nat
  | [] => lastHandlerEnd subject r exit binding cursor
  | next :: rest => do
    let isNext (id : BlockId) : Bool := subject.graph.isMarkerOf .handler id && (next :: rest).any (·.handler == id)
    match ← r.findAmong isNext (places cursor r.length) with
    | some stop => return stop
    | none => .error (.malformedTable next.entry .farHandler)

/-- A handler: what it catches, how it starts, the places of the rest of it, and the entries that still need a handler. -/
structure HandlerShape where
  catches : List CatchType
  start : HandlerStart
  bodyStart : Nat
  bodyStop : Nat
  pending : List Marker

/-- The handler laid out at `cursor` for some of the pending entries, of which `first` is the first. -/
def handlerShape (subject : Subject) (r : Region) (exit : Option BlockId) (first : Marker) (pending : List Marker)
    (cursor : Nat) : Except StructuringError HandlerShape := do
  let (entries, left) ← takeHandlers subject.graph (r.blocks.drop cursor) pending
  match entries.min? with
  | none => .error (.malformedTable first.entry .detachedHandler)
  | some firstEntry =>
    let cursor := cursor + entries.length
    let catches ← catchTypes subject.method.handlerTable entries
    match r.blocks[cursor]? with
    | none => .error (.malformedTable firstEntry .emptyHandler)
    | some handler =>
      let start := handlerStart subject handler
      let bodyStart := if start.binding.isSome then cursor + 1 else cursor
      let bodyStop ← handlerEnd subject r exit start.binding bodyStart left
      return ⟨catches, start, bodyStart, bodyStop, left⟩

/-- Structures the handlers of the pending entries, which are laid out from `cursor` on; `exit` is where the protected code jumps
at its end. Gives the clauses and the place after them. Each clause serves an entry at least, so there are at most `n`. -/
def clauses (subject : Subject) (nested : Nested) (r : Region) (exit : Option BlockId) :
    (n : Nat) → (pending : List Marker) → (cursor : Nat) → Structuring (List (CatchSection (List Section)) × Nat)
  | 0, _, cursor => return ([], cursor)
  | _, [], cursor => return ([], cursor)
  | n + 1, first :: rest, cursor => do
    let shape ← Structuring.ofExcept (handlerShape subject r exit first (first :: rest) cursor)
    let region ← r.slice shape.bodyStart shape.bodyStop (exit.or (r.blockOrFollow? shape.bodyStop))
    let body ← nested.orComment subject region
    let (others, stop) ← clauses subject nested r exit n shape.pending shape.bodyStop
    return (⟨shape.catches, shape.start.boundTo, shape.start.header, body⟩ :: others, stop)

/-- Protected code with its handlers. -/
def tryCatch : Recognizer := fun subject nested r index => do
  let g := subject.graph
  let first ← r.get index
  match g.markerOf? .tryStart first with
  | none => return none
  | some start =>
    let inLoop ← Structuring.isLoopHead (g.entryBlock first)
    match ← Structuring.ofExcept (protectedShape g r index first start inLoop) with
    | none => return none
    | some shape =>
      let body ← nested.orComment subject shape.body
      let (handlers, stop) ← clauses subject nested r shape.body.follow shape.pending.length shape.pending shape.cursor
      return some ⟨[.tryCatch body handlers], stop⟩

end CodeLift.Recognizer
