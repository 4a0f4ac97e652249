import CodeLift.Proofs.Statement.Frames

/-!
# Instructions that cannot be run change nothing

An instruction takes its operands before it makes or completes an expression, and nothing fails after that. Where straight code
fails, its builder is thus the one that the failing instruction has found.
-/

namespace CodeLift

namespace Building

variable {α β : Type} {x : Building α}

/-- The action changes nothing, whether it fails or not. -/
def Reads (x : Building α) : Prop := ∀ b, (∀ a b', x b = .ok a b' → b' = b) ∧ ∀ e b', x b = .error e b' → b' = b

/-- The action has changed nothing where it fails. -/
def FailsAtOnce (x : Building α) : Prop := ∀ b e b', x b = .error e b' → b' = b

/-- What only reads fails at once. -/
theorem Reads.failsAtOnce (h : x.Reads) : x.FailsAtOnce := fun b => (h b).2

theorem Reads.pure (a : α) : Reads (Pure.pure a) := by
  intro b
  constructor
  · intro a' b' h
    cases h
    rfl
  · intro e b' h
    cases h

/-- An error leaves the arena as it is. -/
theorem Reads.throw (e : StatementError) : Reads (MonadExcept.throw e : Building α) := by
  intro b
  constructor
  · intro a b' h
    cases h
  · intro e' b' h
    cases h
    rfl

/-- Actions that only read do so in a row. -/
theorem Reads.bind {f : α → Building β} (hx : x.Reads) (hf : ∀ a, (f a).Reads) : (x >>= f).Reads := by
  intro b
  constructor
  · intro c b'' h
    obtain ⟨a, b', ha, hc⟩ := run_bind_eq_ok.1 h
    obtain rfl := (hx b).1 a b' ha
    exact (hf a _).1 c b'' hc
  · intro e b'' h
    rcases run_bind_eq_error h with herror | ⟨a, b', ha, herror⟩
    · exact (hx b).2 e b'' herror
    · obtain rfl := (hx b).1 a b' ha
      exact (hf a _).2 e b'' herror

/-- What fails at once does so after an action that only reads. -/
theorem Reads.andThenFails {f : α → Building β} (hx : x.Reads) (hf : ∀ a, (f a).FailsAtOnce) : (x >>= f).FailsAtOnce := by
  intro b e b'' h
  rcases run_bind_eq_error h with herror | ⟨a, b', ha, herror⟩
  · exact (hx b).2 e b'' herror
  · obtain rfl := (hx b).1 a b' ha
    exact hf a _ e b'' herror

/-- A computation without an arena only reads. -/
theorem ofExcept_reads {ε : Type} (g : ε → StatementError) (x : Except ε α) : (ofExcept g x).Reads := by
  cases x with
  | ok a => exact .pure a
  | error e => exact .throw (g e)

/-- Looking up an expression only reads. -/
theorem exprAt_reads (index : Nat) (id : ExprId) : (exprAt index id).Reads := by
  unfold exprAt
  refine Reads.bind ?_ fun b => ?_
  · intro b
    constructor
    · intro a b' h
      cases h
      rfl
    · intro e b' h
      cases h
  · split
    · exact .pure _
    · exact .throw _

end Building

open Building

namespace Frame

variable (f : Frame) (index : Nat)

/-- Taking a value off only reads the arena. -/
theorem pop_reads : (f.pop index).Reads := by
  unfold pop
  split
  · exact .pure _
  · exact .throw _

/-- Taking several values off only reads the arena. -/
theorem popMany_reads (n : Nat) : (f.popMany index n).Reads := by
  induction n generalizing f with
  | zero => exact .pure _
  | succ n ih => exact (f.pop_reads index).bind fun r => (ih r.2).bind fun _ => .pure _

/-- Taking a value off, where it is needed, only reads the arena. -/
theorem popIf_reads (needed : Bool) : (f.popIf index needed).Reads := by
  unfold popIf
  split
  · exact (f.pop_reads index).bind fun _ => .pure _
  · exact .pure _

/-- Adding an expression never fails. -/
theorem pushNew_failsAtOnce (e : Expr) : (f.pushNew e).FailsAtOnce := by
  intro b e' b' h
  cases h

end Frame

namespace Build

/-- Looking for an object under construction only reads. -/
theorem uninitialized?_reads (index : Nat) (method : MethodRef) (object : Option ExprId) :
    (uninitialized? index method object).Reads := by
  unfold uninitialized?
  cases object with
  | none => exact .pure _
  | some id =>
    dsimp only
    split
    · refine (exprAt_reads index id).bind fun e => ?_
      split
      · exact .pure _
      · exact .pure _
    · exact .pure _

/-- A call fails before it adds anything. -/
theorem call_failsAtOnce (index : Nat) (method : MethodRef) (f : Frame) : (call index method f).FailsAtOnce := by
  unfold call
  refine (ofExcept_reads _ _).andThenFails fun type => ?_
  refine (f.popMany_reads index _).andThenFails fun r => ?_
  refine (r.2.popIf_reads index _).andThenFails fun r' => ?_
  refine (uninitialized?_reads index method r'.1).andThenFails fun found => ?_
  cases found with
  | some found =>
    intro b e b' h
    cases h
  | none =>
    intro b e b' h
    cases h

/-- An instruction that cannot be run changes nothing. -/
theorem insn_failsAtOnce (ls : Locals) (index : Nat) (i : Insn) (f : Frame) : (insn ls index i f).FailsAtOnce := by
  have hresolve : ∀ slot, (ofExcept StatementError.locals (ls.resolve slot index)).Reads := fun slot => ofExcept_reads _ _
  cases i with
  | label name => exact (Reads.pure f).failsAtOnce
  | line number => exact (Reads.pure f).failsAtOnce
  | nop => exact (Reads.pure f).failsAtOnce
  | constNull => exact f.pushNew_failsAtOnce _
  | constInt value => exact f.pushNew_failsAtOnce _
  | constString value => exact f.pushNew_failsAtOnce _
  | load kind slot => exact (hresolve slot).andThenFails fun x => f.pushNew_failsAtOnce _
  | store kind slot =>
    exact (f.pop_reads index).andThenFails fun r => ((hresolve slot).bind fun x => .pure _).failsAtOnce
  | increment slot amount => exact ((hresolve slot).bind fun x => .pure _).failsAtOnce
  | arith kind op =>
    exact (f.pop_reads index).andThenFails fun r => (r.2.pop_reads index).andThenFails fun r' => r'.2.pushNew_failsAtOnce _
  | pop => exact (f.pop_reads index).andThenFails fun r => ((exprAt_reads index r.1).bind fun e => .pure _).failsAtOnce
  | dup => exact ((f.pop_reads index).bind fun r => .pure _).failsAtOnce
  | new className => exact f.pushNew_failsAtOnce _
  | getField field => exact (f.popIf_reads index _).andThenFails fun r => r.2.pushNew_failsAtOnce _
  | putField field =>
    exact (f.pop_reads index).andThenFails fun r => ((r.2.popIf_reads index _).bind fun r' => .pure _).failsAtOnce
  | invoke method => exact call_failsAtOnce index method f
  | jump test target => exact (Reads.throw _).failsAtOnce
  | goto target => exact (Reads.throw _).failsAtOnce
  | switch otherwise arms => exact (Reads.throw _).failsAtOnce
  | ret kind =>
    cases kind with
    | none => exact (Reads.pure _).failsAtOnce
    | some kind => exact ((f.pop_reads index).bind fun r => .pure _).failsAtOnce
  | throw => exact ((f.pop_reads index).bind fun r => .pure _).failsAtOnce

end Build

end CodeLift
