import CodeLift.Locals.Basic

/-!
# Where a handler ends

Nothing in the code says where a handler ends unless a jump leads past it. The best guess is the statement that last uses the
variable holding the exception: the handler ends at the first point after that use where the operand stack is empty again.
-/

namespace CodeLift

/-- Runs the depth of the operand stack over the instructions from `index` on, up to the first point after `lastUse` at which
it is zero. There is none if the depth would go below zero, a descriptor cannot be read, or a jump comes first. -/
def drain? (lastUse : Nat) : (depth index : Nat) → List Insn → Option Nat
  | _, _, [] => none
  | depth, index, insn :: rest =>
    match insn.effect with
    | .error _ => none
    | .ok effect =>
      if depth < effect.pops then none
      else
        let depth := depth - effect.pops + effect.pushes
        if lastUse ≤ index && insn.isJump then none
        else if lastUse ≤ index && depth == 0 then some (index + 1)
        else drain? lastUse depth (index + 1) rest

/-- The end of the handler whose exception is stored at `binding`, if the variable is used after that and the stack drains. -/
def handlerScopeEnd? (code : List Insn) (ls : Locals) (binding : Nat) : Option Nat :=
  match code[binding]? with
  | some (.store _ slot) => do
    let id ← ls.find? slot binding
    let bound ← ls.get? id
    let lastUse := bound.span.stop - 1
    if binding < lastUse && lastUse < code.length then drain? lastUse 0 (binding + 1) (code.drop (binding + 1)) else none
  | _ => none

end CodeLift
