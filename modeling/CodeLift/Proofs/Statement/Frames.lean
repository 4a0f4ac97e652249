import CodeLift.Proofs.Actions
import CodeLift.Statement.Build

/-!
# How frames grow

Building only ever adds statements to the list at hand. `Building.Yields` says what holds of the result of an action, if it has
one; `Frame.Grows` says which statements a frame has got since an earlier state of it. Straight code and conditions add simple
statements only: such as hold no others, jump nowhere and are no comments.
-/

namespace CodeLift

namespace Building

variable {α β : Type} {b : Builder}

/-- What the action gives when it runs from the builder `b`, together with the builder after it, satisfies `Q`. -/
def Yields (b : Builder) (x : Building α) (Q : α → Builder → Prop) : Prop := ∀ a b', x b = .ok a b' → Q a b'

namespace Yields

/-- A value that is returned at once. -/
theorem pure {a : α} {Q : α → Builder → Prop} (h : Q a b) : Yields b (Pure.pure a) Q := by
  intro a' b' hrun
  cases hrun
  exact h

/-- What fails yields nothing. -/
theorem throw {e : StatementError} {Q : α → Builder → Prop} : Yields b (MonadExcept.throw e : Building α) Q := nofun

/-- What an action yields is what the next one starts from. -/
theorem bind {x : Building α} {f : α → Building β} {P : α → Builder → Prop} {Q : β → Builder → Prop} (hx : Yields b x P)
    (hf : ∀ a b', P a b' → Yields b' (f a) Q) : Yields b (x >>= f) Q := by
  intro c b'' hrun
  obtain ⟨a, b', ha, hc⟩ := run_bind_eq_ok.1 hrun
  exact hf a b' (hx a b' ha) c b'' hc

/-- A weaker property is yielded too. -/
theorem mono {x : Building α} {P Q : α → Builder → Prop} (h : ∀ a b', P a b' → Q a b') (hx : Yields b x P) : Yields b x Q :=
  fun a b' hrun => h a b' (hx a b' hrun)

/-- Nothing is claimed of the result. -/
theorem any (x : Building α) : Yields b x fun _ _ => True := fun _ _ _ => trivial

end Yields

end Building

open Building

/-- A statement that holds no others, jumps nowhere and is no comment. -/
def Statement.isSimple : Statement → Bool
  | .assign _ _ | .assignField _ _ _ _ | .increment _ _ | .expr _ | .ret _ | .throw _ => true
  | _ => false

namespace Frame

/-- The second frame has the statements of the first, and after them some that satisfy `P`. -/
def Grows (P : Statement → Prop) (f f' : Frame) : Prop := ∃ more, f'.out = f.out ++ more ∧ ∀ s ∈ more, P s

namespace Grows

variable {P Q : Statement → Prop} {f f' f'' : Frame}

/-- A frame with the same statements has added none. -/
theorem of_out_eq (h : f'.out = f.out) : f.Grows P f' := ⟨[], by simp [h], by simp⟩

theorem refl (f : Frame) : f.Grows P f := of_out_eq rfl

/-- Statements are added, and then more. -/
theorem trans (h : f.Grows P f') (h' : f'.Grows P f'') : f.Grows P f'' := by
  obtain ⟨more, hout, hmore⟩ := h
  obtain ⟨more', hout', hmore'⟩ := h'
  refine ⟨more ++ more', by rw [hout', hout, List.append_assoc], ?_⟩
  intro s hs
  rcases List.mem_append.1 hs with hs | hs
  · exact hmore s hs
  · exact hmore' s hs

/-- A single statement is added. -/
theorem emit {s : Statement} (h : P s) : f.Grows P (f.emit s) := ⟨[s], rfl, by simpa using h⟩

/-- Statements of one kind are statements of a wider kind. -/
theorem mono (hPQ : ∀ s, P s → Q s) (h : f.Grows P f') : f.Grows Q f' := by
  obtain ⟨more, hout, hmore⟩ := h
  exact ⟨more, hout, fun s hs => hPQ s (hmore s hs)⟩

end Grows

/-! ## The stack -/

variable {b : Builder}

/-- Taking a value off adds no statement. -/
theorem pop_yields (f : Frame) (index : Nat) : Yields b (f.pop index) fun r _ => r.2.out = f.out := by
  unfold pop
  split
  · exact .pure rfl
  · exact .throw

/-- Taking several values off adds no statement. -/
theorem popMany_yields (f : Frame) (index n : Nat) : Yields b (f.popMany index n) fun r _ => r.2.out = f.out := by
  induction n generalizing f b with
  | zero => exact .pure rfl
  | succ n ih =>
    unfold popMany
    refine (f.pop_yields index).bind fun r _ hr => ?_
    refine (ih r.2).bind fun r' _ hr' => ?_
    exact .pure (hr'.trans hr)

/-- Taking a value off, where it is needed, adds no statement. -/
theorem popIf_yields (f : Frame) (index : Nat) (needed : Bool) :
    Yields b (f.popIf index needed) fun r _ => r.2.out = f.out := by
  unfold popIf
  split
  · exact (f.pop_yields index).bind fun r _ hr => .pure hr
  · exact .pure rfl

/-- Pushing a new expression adds no statement. -/
theorem pushNew_yields (f : Frame) (e : Expr) : Yields b (f.pushNew e) fun f' _ => f'.out = f.out :=
  (Yields.any _).bind fun _ _ _ => .pure rfl

/-- A list of its own is what its frame holds. -/
theorem finish_yields (f : Frame) : Yields b f.finish fun statements _ => statements = f.out := by
  unfold finish
  split
  · exact .pure rfl
  · exact .throw

end Frame

namespace Build

variable {b : Builder}

/-! ## Straight code -/

/-- What straight code does to a frame. -/
abbrev AddsSimple (f f' : Frame) : Prop := f.Grows (Statement.isSimple · = true) f'

/-- A call adds simple statements only. -/
theorem call_yields (index : Nat) (method : MethodRef) (f : Frame) :
    Yields b (call index method f) fun f' _ => AddsSimple f f' := by
  unfold call
  refine (Yields.any _).bind fun type _ _ => ?_
  refine (f.popMany_yields index _).bind fun r _ hr => ?_
  refine (r.2.popIf_yields index _).bind fun r' _ hr' => ?_
  have hout : r'.2.out = f.out := hr'.trans hr
  refine (Yields.any _).bind fun b' _ _ => ?_
  split
  · refine (Yields.any _).bind fun _ _ _ => .pure ?_
    split
    · exact .of_out_eq hout
    · exact Frame.Grows.trans (.of_out_eq hout) (.emit rfl)
  · refine (Yields.any _).bind fun _ _ _ => .pure ?_
    split
    · exact .of_out_eq hout
    · exact Frame.Grows.trans (.of_out_eq hout) (.emit rfl)

/-- An instruction adds simple statements only. -/
theorem insn_yields (ls : Locals) (index : Nat) (i : Insn) (f : Frame) :
    Yields b (insn ls index i f) fun f' _ => AddsSimple f f' := by
  have hpush : ∀ {b} (e : Expr) {f' : Frame}, f'.out = f.out → Yields b (f'.pushNew e) fun f'' _ => AddsSimple f f'' := by
    intro b e f' hout
    exact (f'.pushNew_yields e).mono fun f'' _ h => .of_out_eq (h.trans hout)
  have hemit : ∀ {s : Statement} {f' : Frame}, f'.out = f.out → s.isSimple = true → AddsSimple f (f'.emit s) := by
    intro s f' hout hs
    exact Frame.Grows.trans (.of_out_eq hout) (.emit hs)
  cases i with
  | label l => exact .pure (.refl f)
  | line n => exact .pure (.refl f)
  | nop => exact .pure (.refl f)
  | constNull => exact hpush _ rfl
  | constInt value => exact hpush _ rfl
  | constString value => exact hpush _ rfl
  | load kind slot => exact (Yields.any _).bind fun id _ _ => hpush _ rfl
  | store kind slot =>
    refine (f.pop_yields index).bind fun r _ hr => ?_
    refine (Yields.any _).bind fun id _ _ => ?_
    exact .pure (hemit hr rfl)
  | increment slot amount => exact (Yields.any _).bind fun id _ _ => .pure (hemit rfl rfl)
  | arith kind op =>
    refine (f.pop_yields index).bind fun r _ hr => ?_
    refine (r.2.pop_yields index).bind fun r' _ hr' => ?_
    exact hpush _ (hr'.trans hr)
  | pop =>
    refine (f.pop_yields index).bind fun r _ hr => ?_
    refine (Yields.any _).bind fun _ _ _ => .pure ?_
    split
    · exact hemit hr rfl
    · exact .of_out_eq hr
  | dup => exact (f.pop_yields index).bind fun r _ hr => .pure (.of_out_eq hr)
  | new className => exact hpush _ rfl
  | getField field =>
    refine (f.popIf_yields index _).bind fun r _ hr => ?_
    exact hpush _ hr
  | putField field =>
    refine (f.pop_yields index).bind fun r _ hr => ?_
    refine (r.2.popIf_yields index _).bind fun r' _ hr' => ?_
    exact .pure (hemit (hr'.trans hr) rfl)
  | invoke method => exact call_yields index method f
  | jump test target => exact .throw
  | goto target => exact .throw
  | switch arms otherwise => exact .throw
  | ret kind =>
    cases kind with
    | none => exact .pure (hemit rfl rfl)
    | some kind => exact (f.pop_yields index).bind fun r _ hr => .pure (hemit hr rfl)
  | throw => exact (f.pop_yields index).bind fun r _ hr => .pure (hemit hr rfl)

section

variable {src : Source} {P : Statement → Prop}

/-- Straight code adds such statements as its instructions add. -/
theorem straight_grows (hinsn : ∀ {b index i f}, Yields b (insn src.locals index i f) fun f' _ => f.Grows P f') (stop : Nat)
    (indices : List Nat) (f : Frame) : Yields b (straight src stop indices f) fun f' _ => f.Grows P f' := by
  induction indices generalizing f b with
  | nil => exact .pure (.refl f)
  | cons index rest ih =>
    unfold straight
    split
    · exact .throw
    · rename_i i _
      dsimp only
      split
      · rw [pure_bind]
        exact ih f
      · refine hinsn.bind fun f' _ hf' => ?_
        exact (ih f').mono fun f'' _ hf'' => hf'.trans hf''

/-- A body adds what its instructions add. -/
theorem body_grows (hinsn : ∀ {b index i f}, Yields b (insn src.locals index i f) fun f' _ => f.Grows P f') (span : Span)
    (f : Frame) : Yields b (body src span f) fun f' _ => f.Grows P f' :=
  straight_grows hinsn span.stop span.indices f

/-! ## Conditions -/

/-- The operands of a test add no statement. -/
theorem operands_yields (test : JumpTest) (index : Nat) (f : Frame) :
    Yields b (operands test index f) fun r _ => r.2.2.out = f.out := by
  unfold operands
  split
  · refine (f.pop_yields index).bind fun r _ hr => ?_
    refine (r.2.pop_yields index).bind fun r' _ hr' => ?_
    exact .pure (hr'.trans hr)
  · refine (f.pop_yields index).bind fun r _ hr => ?_
    exact (Yields.any _).bind fun _ _ _ => .pure hr

/-- A jump adds what the instructions before it add. -/
theorem jump_grows (hinsn : ∀ {b index i f}, Yields b (insn src.locals index i f) fun f' _ => f.Grows P f') (span : Span)
    (negate isOpen : Bool) (f : Frame) : Yields b (jump src span negate isOpen f) fun r _ => f.Grows P r.2 := by
  unfold jump
  refine (Yields.any _).bind fun r _ _ => ?_
  refine (body_grows hinsn _ ⟨f.stack, []⟩).bind fun inner _ hinner => ?_
  obtain ⟨more, hout, hmore⟩ := hinner
  split
  · refine (operands_yields _ _ _).bind fun r' _ hr' => .pure ?_
    refine ⟨more, ?_, hmore⟩
    rw [hr', hout]
    rfl
  · exact .throw

mutual

/-- The statements before a condition are such as instructions add. -/
theorem condition_grows (hinsn : ∀ {b index i f}, Yields b (insn src.locals index i f) fun f' _ => f.Grows P f') (b : Builder)
    (g : Guard) (isOpen : Bool) (f : Frame) : Yields b (condition src g isOpen f) fun r _ => f.Grows P r.2.2 := by
  cases g with
  | jump span negate =>
    unfold condition
    exact (jump_grows hinsn span negate isOpen f).bind fun r _ hr => .pure hr
  | and parts =>
    unfold condition
    exact (conditions_grows hinsn b parts isOpen f).bind fun r _ hr => .pure hr
  | or parts =>
    unfold condition
    exact (conditions_grows hinsn b parts isOpen f).bind fun r _ hr => .pure hr
  | not inner =>
    unfold condition
    exact (condition_grows hinsn b inner isOpen f).bind fun r _ hr => .pure hr

/-- Several conditions add what their jumps add. -/
theorem conditions_grows (hinsn : ∀ {b index i f}, Yields b (insn src.locals index i f) fun f' _ => f.Grows P f') (b : Builder)
    (parts : List Guard) (isOpen : Bool) (f : Frame) : Yields b (conditions src parts isOpen f) fun r _ => f.Grows P r.2.2 := by
  cases parts with
  | nil => exact .pure (.refl f)
  | cons part rest =>
    unfold conditions
    refine (condition_grows hinsn b part isOpen f).bind fun r b' hr => ?_
    refine (conditions_grows hinsn b' rest r.2.1 r.2.2).bind fun r' _ hr' => ?_
    exact .pure (hr.trans hr')

end

end

/-- A body adds simple statements only. -/
theorem body_yields (src : Source) (span : Span) (f : Frame) : Yields b (body src span f) fun f' _ => AddsSimple f f' :=
  body_grows (insn_yields _ _ _ _) span f

/-- A condition adds simple statements only. -/
theorem condition_yields (src : Source) (b : Builder) (g : Guard) (isOpen : Bool) (f : Frame) :
    Yields b (condition src g isOpen f) fun r _ => AddsSimple f r.2.2 :=
  condition_grows (insn_yields _ _ _ _) b g isOpen f

end Build

/-! ## Whole methods -/

/-- A method gets its statements as a list of its own, from an empty arena. -/
theorem Source.body_eq_ok {src : Source} {settings : Settings} {sections : List Section} {body : Body}
    {events events' : List Event} :
    src.body settings sections events = .ok body events' ↔
      Build.list src settings sections ⟨#[], events⟩ = .ok body.statements ⟨body.arena, events'⟩ := by
  unfold Source.body
  cases Build.list src settings sections ⟨#[], events⟩ with
  | error e b => simp
  | ok statements b =>
    constructor
    · intro h
      cases h
      rfl
    · intro h
      cases h
      rfl

end CodeLift
