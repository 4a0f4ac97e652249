import CodeLift.Bisect
import CodeLift.Keyed
import CodeLift.Method
import CodeLift.Span

/-!
# Variable instances

Compilers reuse a slot for unrelated variables, so a slot is split into instances, each with the span of code in which the slot
holds it. `Locals` is the table of the instances of a method; an instance is named by its place in the table. The table also lists
the instances of each slot by where they start. It takes an instance only if its span is nonempty and overlaps no other instance of
its slot, and puts it into the list of the slot at the place its start gives it.
-/

namespace CodeLift

/-- Why the variables of a method cannot be bound or found. -/
inductive LocalsError where
  | unresolvable (slot index : Nat)
  | descriptor (cause : DescriptorError)
  | labels (cause : LabelError)
  deriving DecidableEq, Repr

/-- The wording of the error. -/
def LocalsError.message : LocalsError → String
  | .unresolvable slot index =>
    "No variable instance of slot " ++ toString slot ++ " covers instruction " ++ toString index
  | .descriptor cause => "Invalid method descriptor: " ++ cause.message
  | .labels cause => "Invalid local variable table: " ++ cause.message

/-- Where an instance comes from. -/
inductive Origin where
  /-- A parameter of the method, or its receiver. -/
  | parameter
  /-- An entry of the table of declared variables. -/
  | declared
  /-- A copy of another instance, made by loading it and storing it right away. -/
  | copied
  /-- Accesses that nothing else explains. -/
  | synthesized
  deriving DecidableEq, Repr

/-- A variable instance: what a slot holds in a span of the code. -/
structure Local where
  slot : Nat
  name : String
  descriptor : String
  signature : Option String
  span : Span
  origin : Origin
  deriving DecidableEq, Repr

/-- The most precise type known of an instance. -/
def Local.typeName (l : Local) : String := l.signature.getD l.descriptor

/-- The place of an instance in its table. -/
abbrev LocalId := Nat

/-- The variable instances of a method. -/
structure Locals where
  all : List Local
  /-- The instances of each slot, by where they start. -/
  bySlot : Keyed Nat (List LocalId)
  deriving DecidableEq, Repr

namespace Locals

/-- The table without instances. -/
def empty : Locals := ⟨[], .empty⟩

/-- How many instances there are. -/
def size (ls : Locals) : Nat := ls.all.length

/-- The instance at a place of the table. -/
def get? (ls : Locals) (id : LocalId) : Option Local := ls.all[id]?

/-- The name of an instance. -/
def nameOf (ls : Locals) (id : LocalId) : String := ((ls.get? id).map (·.name)).getD ""

/-- The instances that are listed for a slot. -/
def ofSlot (ls : Locals) (slot : Nat) : List LocalId := (ls.bySlot.find? slot).getD []

/-- The first instance listed for a slot whose span holds an index. -/
def find? (ls : Locals) (slot index : Nat) : Option LocalId :=
  (ls.ofSlot slot).find? fun id => (ls.get? id).any fun l => decide (index ∈ l.span)

/-- The instance of a slot whose span holds an index; it is an error if there is none. -/
def resolve (ls : Locals) (slot index : Nat) : Except LocalsError LocalId :=
  match ls.find? slot index with
  | some id => .ok id
  | none => .error (.unresolvable slot index)

/-- Whether a span overlaps an instance of a slot. -/
def overlaps (ls : Locals) (slot : Nat) (span : Span) : Bool :=
  (ls.ofSlot slot).any fun id => (ls.get? id).any fun l => l.span.overlaps span

/-- Where the instances of a slot start, as they are listed. -/
def startsOf (ls : Locals) (slot : Nat) : List Nat := (ls.ofSlot slot).filterMap fun id => (ls.get? id).map (·.span.start)

/-- The first start listed for a slot that lies after an index. -/
def nextStart? (ls : Locals) (slot index : Nat) : Option Nat := (ls.startsOf slot).find? fun start => decide (index < start)

/-- Whether an instance starts before an index. -/
def startsBelow (ls : Locals) (index : Nat) (id : LocalId) : Bool := (ls.get? id).any fun l => decide (l.span.start < index)

/-- The table with one more instance, listed for its slot after the instances that start before it. -/
def add (ls : Locals) (l : Local) : Locals :=
  let ids := ls.ofSlot l.slot
  let place := partitionPoint (ls.startsBelow l.span.start) ids
  { all := ls.all ++ [l], bySlot := ls.bySlot.put l.slot (ids.insertIdx place ls.size) }

/-- The table with one more instance, unless its span is empty or overlaps another instance of its slot. -/
def insert? (ls : Locals) (l : Local) : Option Locals :=
  if l.span.isEmpty || ls.overlaps l.slot l.span then none else some (ls.add l)

end Locals

end CodeLift
