import CodeLift.Insn

/-!
# What a handler does with the exception it catches

A handler starts with the exception on the stack. Most handlers store it into a variable or discard it right away; that
instruction is the handler's binding.
-/

namespace CodeLift

/-- The first instruction at or after an index that is no marker. -/
def firstUnmarked? (code : List Insn) (index : Nat) : Option Nat :=
  ((code.drop index).findIdx? fun i => !i.isMarker).map (index + ·)

/-- The instruction with which the handler that starts at an index stores or discards the exception, if it does so first. -/
def handlerBinding? (code : List Insn) (handler : Nat) : Option Nat := do
  let index ← firstUnmarked? code handler
  match code[index]? with
  | some (.store .reference _) | some .pop => some index
  | _ => none

end CodeLift
