import CodeLift.Handler.Binding
import CodeLift.Locals.Basic

/-!
# Parameters and declared variables

The instances that are known before any code is looked at: those of the parameters, and those of the table of declared
variables. A table entry for a parameter starts no later than the first instruction. The scope of another declared variable
opens after the store that initializes it, so its span is moved back over that store.
-/

namespace CodeLift

namespace Method

/-- The instance a table entry declares: its span runs between its labels, and is empty if they stand the other way round. -/
def declaredLocal (labels : Labels) (entry : VariableEntry) : Except LabelError Local := do
  let start ← labels.index entry.start
  let stop ← labels.index entry.stop
  return ⟨entry.slot, entry.name, entry.descriptor, entry.signature, ⟨start, max stop start⟩, .declared⟩

/-- Where the first instruction stands that is no marker, or the end of the code. -/
def entryPoint (code : List Insn) : Nat := (firstUnmarked? code 0).getD code.length

/-- A parameter of a method, or its receiver. -/
structure Parameter where
  type : String
  isReceiver : Bool
  deriving DecidableEq, Repr

/-- The parameters of a method, the receiver first. -/
def parameters (m : Method) (type : MethodType) : List Parameter :=
  (if m.isStatic then [] else [⟨"L" ++ m.owner ++ ";", true⟩]) ++ type.parameters.map (⟨·, false⟩)

/-- A span from the start of the code, of at least one index: also a method without code has its parameters. -/
def parameterSpan (stop : Nat) : Span := ⟨0, if stop = 0 then 1 else stop⟩

/-- The instance of a parameter that no table entry declares. It leaves room for the variables declared later in its slot. -/
def undeclaredParameter (codeLength slot : Nat) (p : Parameter) (declared : List Local) : Local :=
  let starts := (declared.filter (·.slot == slot)).map (·.span.start)
  { slot, descriptor := p.type, signature := none, origin := .parameter
    name := if p.isReceiver then "this" else "param" ++ toString slot
    span := parameterSpan (starts.min?.getD codeLength) }

/-- Whether a declared instance is the one of the parameter in a slot, for code whose first instruction is at `entry`. -/
def declaresParameter (entry slot : Nat) (l : Local) : Bool := l.slot == slot && decide (l.span.start ≤ entry)

/-- The instance of the parameter in a slot: the first declared one if there is one. It is live from the start of the code. -/
def parameterLocal (codeLength entry slot : Nat) (p : Parameter) (declared : List Local) : Local :=
  match declared.find? (declaresParameter entry slot) with
  | some l => { l with span := parameterSpan l.span.stop, origin := .parameter }
  | none => undeclaredParameter codeLength slot p declared

/-- Takes the instances of the parameters, the first in slot `slot`, out of the declared ones. Gives the instances of the
parameters and the declared instances that are left. -/
def claimParameters (codeLength entry : Nat) :
    (slot : Nat) → List Parameter → (declared : List Local) → List Local × List Local
  | _, [], declared => ([], declared)
  | slot, p :: rest, declared =>
    let (claimed, left) := claimParameters codeLength entry (slot + Descriptor.width p.type) rest
      (declared.eraseP (declaresParameter entry slot))
    (parameterLocal codeLength entry slot p declared :: claimed, left)

/-- The store of an instance's own slot that stands right before its span, markers apart. -/
def initialStore? (code : List Insn) (l : Local) : Option Nat :=
  match (code.take l.span.start).reverse.dropWhile (·.isMarker) with
  | .store _ slot :: before => if slot = l.slot then some before.length else none
  | _ => none

/-- The scope of a declared variable opens after the store that initializes it: moves its start back to that store, unless
another instance of the slot is in the way. The instance stays where it is listed for its slot. -/
def extendLocal (code : List Insn) (ls : Locals) (id : LocalId) : Locals :=
  match ls.get? id with
  | none => ls
  | some l =>
    if l.origin = .declared then
      match initialStore? code l with
      | some index =>
        if ls.overlaps l.slot ⟨index, l.span.start⟩ then ls
        else { ls with all := ls.all.set id { l with span := ⟨index, l.span.stop⟩ } }
      | none => ls
    else ls

/-- Moves the starts of the declared instances back to the stores that initialize them, in the order of the table. -/
def extendLocals (code : List Insn) (ls : Locals) : Locals := (List.range ls.size).foldl (extendLocal code) ls

end Method

end CodeLift
