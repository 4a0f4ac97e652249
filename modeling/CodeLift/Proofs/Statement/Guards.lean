import CodeLift.Proofs.Conditions
import CodeLift.Proofs.Statement.Steps

/-!
# Making guards conditions keeps their meaning

A guard is made a condition jump by jump, from left to right, whatever its nesting: `Build.condition_eq` separates the jumps from
how the guard puts them together. The condition made holds exactly when the guard does, and only the first block of a guard can
have statements, unless the prelude is closed from the start.
-/

namespace CodeLift

/-! ## Constants -/

/-- Whether an expression is an integer or null. -/
def Expr.isConstant : Expr → Bool
  | .int _ | .null => true
  | _ => false

/-- The constants of an arena are also in another, at the same places. -/
def Arena.KeepsConstants (a a' : Arena) : Prop := ∀ (id : ExprId) e, a[id]? = some e → e.isConstant = true → a'[id]? = some e

namespace Arena.KeepsConstants

variable {a a' a'' : Arena}

theorem refl (a : Arena) : KeepsConstants a a := fun _ _ h _ => h

/-- Constants are kept by one step and then by the next. -/
theorem trans (h : KeepsConstants a a') (h' : KeepsConstants a' a'') : KeepsConstants a a'' :=
  fun id e he hconstant => h' id e (h id e he hconstant) hconstant

/-- A new expression changes no constant. -/
theorem push (a : Arena) (e : Expr) : KeepsConstants a (a.push e) := by
  intro id e' he' _
  have hlt := (Array.getElem?_eq_some_iff.1 he').1
  rw [Array.getElem?_push, if_neg (Nat.ne_of_lt hlt)]
  exact he'

/-- An object under construction is no constant. -/
theorem complete {id : ExprId} {className : String} (h : a[id]? = some (.newUninitialized className)) (e : Expr) :
    KeepsConstants a (a.setIfInBounds id e) := by
  intro id' e' he' hconstant
  by_cases heq : id = id'
  · subst heq
    rw [h] at he'
    cases he'
    cases hconstant
  · rw [Array.getElem?_setIfInBounds_ne heq]
    exact he'

end Arena.KeepsConstants

namespace Build

variable {src : Source} {b b' : Builder} {f f' : Frame}

/-- An instruction that runs changes no constant. -/
theorem Ran.keepsConstants {ls : Locals} {index : Nat} {i : Insn} {a a' : Arena} (h : Ran ls index i a f a' f') :
    Arena.KeepsConstants a a' := by
  cases h with
  | complete _ _ _ _ _ hid => exact .complete hid _
  | _ => first | exact .refl _ | exact .push _ _

/-- A body changes no constant. -/
theorem body_keepsConstants {span : Span} (h : body src span f b = .ok f' b') : Arena.KeepsConstants b.arena b'.arena := by
  refine straight_preserves (P := fun _ a _ => Arena.KeepsConstants b.arena a) ?_ ?_ h (.refl _)
  · intro index rest i a f a' f' _ _ hran hkeeps
    exact hkeeps.trans hran.keepsConstants
  · intro index rest i a f _ _ hkeeps
    exact hkeeps

/-! ## The blocks of jumps -/

/-- The code of a block runs up to the conditional jump that ends it: it generates statements and leaves a stack. -/
def RunsBlock (src : Source) (span : Span) (stack : List ExprId) (b : Builder) (test : JumpTest) (effects : List Statement)
    (stack' : List ExprId) (b' : Builder) : Prop :=
  ∃ last target, span.stop = last + 1 ∧ src.method.code[last]? = some (.jump test target) ∧
    body src ⟨span.start, last⟩ ⟨stack, []⟩ b = .ok ⟨stack', effects⟩ b'

/-- What a block with a conditional jump has done: the statements it generated, its test, and the operands that the jump popped, in
the order in which they were pushed. -/
structure JumpRun where
  effects : List Statement
  test : JumpTest
  operands : List ExprId

/-- Whether the jump is taken, given the values of expressions. -/
def JumpRun.isTaken (run : JumpRun) (value : ExprId → Value) : Bool := run.test.isTaken (run.operands.map value)

/-- The block of a conditional jump runs and the jump pops its operands. A jump with one operand makes the constant that it compares
with. -/
inductive RunsJump (src : Source) (span : Span) (stack : List ExprId) (b : Builder) : JumpRun → List ExprId → Builder → Prop where
  | two {test : JumpTest} {effects : List Statement} {lhs rhs : ExprId} {stack' : List ExprId} {b' : Builder}
      (hblock : RunsBlock src span stack b test effects (rhs :: lhs :: stack') b') (h : test.operandCount = 2) :
      RunsJump src span stack b ⟨effects, test, [lhs, rhs]⟩ stack' b'
  | one {test : JumpTest} {effects : List Statement} {operand : ExprId} {stack' : List ExprId} {b' : Builder}
      (hblock : RunsBlock src span stack b test effects (operand :: stack') b') (h : test.operandCount = 1) :
      RunsJump src span stack b ⟨effects, test, [operand]⟩ stack'
        { b' with arena := b'.arena.push (if test.comparesToNull then .null else .int 0) }

/-- The blocks of conditional jumps run one after another. -/
inductive RunsJumps (src : Source) : List Span → List ExprId → Builder → List JumpRun → List ExprId → Builder → Prop where
  | nil (stack : List ExprId) (b : Builder) : RunsJumps src [] stack b [] stack b
  | cons {span : Span} {rest : List Span} {stack stack' stack'' : List ExprId} {b b' b'' : Builder} {run : JumpRun}
      {runs : List JumpRun} (hrun : RunsJump src span stack b run stack' b') (hruns : RunsJumps src rest stack' b' runs stack'' b'') :
      RunsJumps src (span :: rest) stack b (run :: runs) stack'' b''

/-- A block that runs changes no constant. -/
theorem RunsBlock.keepsConstants {span : Span} {stack stack' : List ExprId} {test : JumpTest} {effects : List Statement}
    (h : RunsBlock src span stack b test effects stack' b') : Arena.KeepsConstants b.arena b'.arena := by
  obtain ⟨_, _, _, _, hbody⟩ := h
  exact body_keepsConstants hbody

/-- A jump that runs changes no constant. -/
theorem RunsJump.keepsConstants {span : Span} {stack stack' : List ExprId} {run : JumpRun}
    (h : RunsJump src span stack b run stack' b') : Arena.KeepsConstants b.arena b'.arena := by
  cases h with
  | two hblock _ => exact hblock.keepsConstants
  | one hblock _ => exact hblock.keepsConstants.trans (.push _ _)

/-- A jump runs its block before it compares. -/
theorem RunsJump.runsBlock {span : Span} {stack stack' : List ExprId} {run : JumpRun} (h : RunsJump src span stack b run stack' b') :
    ∃ stack₁ b₁, RunsBlock src span stack b run.test run.effects stack₁ b₁ := by
  cases h with
  | two hblock _ => exact ⟨_, _, hblock⟩
  | one hblock _ => exact ⟨_, _, hblock⟩

/-- Jumps in a row change no constant. -/
theorem RunsJumps.keepsConstants {spans : List Span} {stack stack' : List ExprId} {runs : List JumpRun}
    (h : RunsJumps src spans stack b runs stack' b') : Arena.KeepsConstants b.arena b'.arena := by
  induction h with
  | nil _ b => exact .refl b.arena
  | cons hrun _ ih => exact hrun.keepsConstants.trans ih

/-! ## One jump -/

section

variable {span : Span} {isOpen : Bool} {stack : List ExprId} {test : JumpTest} {effects : List Statement}

/-- Once the block of a jump has run, its statements are let through or refused, and the jump pops its operands. -/
theorem jump_eq (h : RunsBlock src span f.stack b test effects stack b') :
    jump src span false isOpen f b =
      (if isOpen || effects.isEmpty then do
        let (lhs, rhs, f) ← operands test (span.stop - 1) ⟨stack, f.out ++ effects⟩
        return (.compare test.comparison lhs rhs, f)
      else throw (.statementInCondition span.start) : Building (Condition × Frame)) b' := by
  obtain ⟨last, target, hstop, hjump, hbody⟩ := h
  have hspan : spanJump src span b = .ok (test, last) b := by
    simp only [spanJump, hstop, hjump]
    rfl
  obtain rfl : last = span.stop - 1 := by
    rw [hstop]
    rfl
  exact (run_bind_of_ok hspan).trans (run_bind_of_ok hbody)

/-- A jump that becomes a condition has run its block. -/
theorem exists_runsBlock {r : Condition × Frame} (h : jump src span false isOpen f b = .ok r b') :
    ∃ test effects stack b₁, RunsBlock src span f.stack b test effects stack b₁ := by
  obtain ⟨⟨test, last⟩, b₁, hspan, h₁⟩ := run_bind_eq_ok.1 h
  obtain ⟨inner, b₂, hbody, _⟩ := run_bind_eq_ok.1 h₁
  obtain ⟨hstop, rfl, target, hjump⟩ := spanJump_eq_ok hspan
  exact ⟨test, inner.out, inner.stack, b₂, last, target, hstop, hjump, hbody⟩

/-- While the prelude is closed, a block may not generate statements. -/
theorem jump_of_effects (h : RunsBlock src span f.stack b test effects stack b') (heffects : effects ≠ []) :
    jump src span false false f b = .error (.statementInCondition span.start) b' := by
  rw [jump_eq h, if_neg (by simpa using heffects)]
  rfl

/-- A test of two operands takes both off the stack. -/
theorem operands_two (h : test.operandCount = 2) (index : Nat) (lhs rhs : ExprId) (out : List Statement) :
    operands test index ⟨rhs :: lhs :: stack, out⟩ b = .ok (lhs, rhs, ⟨stack, out⟩) b := by
  unfold operands
  rw [if_pos h]
  rfl

/-- A test of one operand compares it to a new constant. -/
theorem operands_one (h : test.operandCount = 1) (index : Nat) (operand : ExprId) (out : List Statement) :
    operands test index ⟨operand :: stack, out⟩ b = .ok (operand, b.arena.size, ⟨stack, out⟩)
      { b with arena := b.arena.push (if test.comparesToNull then .null else .int 0) } := by
  unfold operands
  rw [if_neg (by omega)]
  rfl

/-- The constant that a jump with one operand makes has the same value in every arena that keeps constants. -/
theorem valueOf_constant {a a' : Arena} (test : JumpTest)
    (h : Arena.KeepsConstants (a.push (if test.comparesToNull then .null else .int 0)) a') (assigned : ExprId → Value) :
    a'.valueOf assigned a.size = if test.comparesToNull then .null else .int 0 := by
  have hconstant := h a.size _ Array.getElem?_push_size (by cases test.comparesToNull <;> rfl)
  rw [Arena.valueOf, hconstant]
  cases test.comparesToNull <;> rfl

/-- A block that runs, with statements only if they are allowed, becomes a comparison of what its jump popped. -/
theorem jump_of_runs {run : JumpRun} (h : RunsJump src span f.stack b run stack b') (hallowed : isOpen = true ∨ run.effects = []) :
    ∃ lhs rhs, jump src span false isOpen f b = .ok (.compare run.test.comparison lhs rhs, ⟨stack, f.out ++ run.effects⟩) b' ∧
      ∀ a, b'.arena.KeepsConstants a → ∀ assigned,
        run.test.comparison.holds (a.valueOf assigned lhs) (a.valueOf assigned rhs) = run.isTaken (a.valueOf assigned) := by
  have hopen : (isOpen || run.effects.isEmpty) = true := by simpa using hallowed
  cases h with
  | @two test effects lhs rhs _ _ hblock hcount =>
    refine ⟨lhs, rhs, ?_, fun a _ assigned => JumpTest.holds_comparison_two hcount _ _⟩
    rw [jump_eq hblock, if_pos hopen, run_bind_of_ok (operands_two hcount _ _ _ _)]
    rfl
  | @one test effects operand _ b₁ hblock hcount =>
    refine ⟨operand, b₁.arena.size, ?_, fun a hkeeps assigned => ?_⟩
    · rw [jump_eq hblock, if_pos hopen, run_bind_of_ok (operands_one hcount _ _ _)]
      rfl
    · rw [valueOf_constant test hkeeps]
      exact JumpTest.holds_comparison_one hcount _

/-- The operands of a test are one or two values of the stack. -/
theorem operands_eq_ok_cases {index : Nat} {lhs rhs : ExprId} {f' : Frame} (h : operands test index f b = .ok (lhs, rhs, f') b') :
    (test.operandCount = 2 ∧ f = ⟨rhs :: lhs :: f'.stack, f'.out⟩ ∧ b' = b) ∨
      (test.operandCount = 1 ∧ f = ⟨lhs :: f'.stack, f'.out⟩ ∧
        b' = { b with arena := b.arena.push (if test.comparesToNull then .null else .int 0) }) := by
  unfold operands at h
  by_cases hcount : test.operandCount = 2
  · rw [if_pos hcount] at h
    obtain ⟨⟨rhs, f₁⟩, b₁, hrhs, h₁⟩ := run_bind_eq_ok.1 h
    obtain ⟨⟨lhs, f₂⟩, b₂, hlhs, h₂⟩ := run_bind_eq_ok.1 h₁
    obtain ⟨rfl, rfl⟩ := Frame.pop_eq_ok hrhs
    obtain ⟨hframe, rfl⟩ := Frame.pop_eq_ok hlhs
    cases h₂
    dsimp only at hframe
    subst hframe
    exact .inl ⟨hcount, rfl, rfl⟩
  · rw [if_neg hcount] at h
    obtain ⟨⟨operand, f₁⟩, b₁, hpop, h₁⟩ := run_bind_eq_ok.1 h
    obtain ⟨constant, b₂, halloc, h₂⟩ := run_bind_eq_ok.1 h₁
    obtain ⟨rfl, rfl⟩ := Frame.pop_eq_ok hpop
    obtain ⟨rfl, rfl⟩ := Building.alloc_eq_ok.1 halloc
    cases h₂
    refine .inr ⟨?_, rfl, rfl⟩
    cases test <;> first | rfl | exact absurd rfl hcount

/-- A jump that has been made a condition has had its block run, with statements only if they are allowed. -/
theorem runs_of_jump {c : Condition} {f' : Frame} (h : jump src span false isOpen f b = .ok (c, f') b') :
    ∃ run, RunsJump src span f.stack b run f'.stack b' ∧ (isOpen = true ∨ run.effects = []) := by
  obtain ⟨test, effects, stack, b₁, hblock⟩ := exists_runsBlock h
  rw [jump_eq hblock] at h
  split at h
  · rename_i hopen
    obtain ⟨⟨lhs, rhs, f₁⟩, b₂, hoperands, h₁⟩ := run_bind_eq_ok.1 h
    cases h₁
    have hallowed : isOpen = true ∨ effects = [] := by simpa using hopen
    rcases operands_eq_ok_cases hoperands with ⟨hcount, hframe, rfl⟩ | ⟨hcount, hframe, rfl⟩
    · obtain rfl := congrArg Frame.stack hframe
      exact ⟨_, .two hblock hcount, hallowed⟩
    · obtain rfl := congrArg Frame.stack hframe
      exact ⟨_, .one hblock hcount, hallowed⟩
  · cases h

end

/-! ## All jumps of a guard -/

/-- Makes the jumps that end some spans conditions, each of which holds when its jump is taken. -/
def jumps (src : Source) : List Span → (isOpen : Bool) → Frame → Building (List Condition × Frame)
  | [], _, f => pure ([], f)
  | span :: rest, isOpen, f => do
    let (condition, f) ← jump src span false isOpen f
    let (conditions, f) ← jumps src rest false f
    return (condition :: conditions, f)

/-- A jump that is negated is the jump, with its condition negated. -/
theorem jump_negate (span : Span) (negate isOpen : Bool) (f : Frame) :
    jump src span negate isOpen f = do
      let (condition, f) ← jump src span false isOpen f
      return (if negate then condition.negate else condition, f) := by
  by_cases hnegate : negate = true
  · subst hnegate
    unfold jump
    simp only [bind_assoc, if_true, Bool.false_eq_true, if_false]
    refine congrArg _ (funext fun r => congrArg _ (funext fun inner => ?_))
    split
    · simp [Condition.negate]
    · rfl
  · simp [hnegate]

/-- Jumps in a row become conditions in a row. -/
theorem jumps_append (xs ys : List Span) (isOpen : Bool) (f : Frame) :
    jumps src (xs ++ ys) isOpen f = do
      let (conditions, f) ← jumps src xs isOpen f
      let (others, f) ← jumps src ys (isOpen && xs.isEmpty) f
      return (conditions ++ others, f) := by
  induction xs generalizing isOpen f with
  | nil => simp [jumps]
  | cons span xs ih => simp [jumps, ih]

/-- Every jump becomes one condition. -/
theorem length_jumps {spans : List Span} {isOpen : Bool} {r : List Condition × Frame} (h : jumps src spans isOpen f b = .ok r b') :
    r.1.length = spans.length := by
  induction spans generalizing isOpen f b r with
  | nil =>
    cases h
    rfl
  | cons span rest ih =>
    obtain ⟨r₁, b₁, _, h₁⟩ := run_bind_eq_ok.1 h
    obtain ⟨r₂, b₂, hrest, h₂⟩ := run_bind_eq_ok.1 h₁
    cases h₂
    simp [ih hrest]

mutual

/-- A guard is made a condition by making its jumps conditions and putting these together. -/
theorem condition_eq (guard : Guard) (isOpen : Bool) (f : Frame) :
    condition src guard isOpen f = do
      let (conditions, f) ← jumps src guard.spans isOpen f
      return (guard.assemble conditions, isOpen && guard.spans.isEmpty, f) := by
  cases guard with
  | jump span negate => simp [condition, jump_negate span negate, jumps, Guard.spans, Guard.assemble]
  | and parts => simp [condition, conditions_eq parts, Guard.spans, Guard.assemble]
  | or parts => simp [condition, conditions_eq parts, Guard.spans, Guard.assemble]
  | not inner => simp [condition, condition_eq inner, Guard.spans, Guard.assemble]

/-- Several conditions are assembled from the jumps of all their spans. -/
theorem conditions_eq (parts : List Guard) (isOpen : Bool) (f : Frame) :
    conditions src parts isOpen f = do
      let (conditions, f) ← jumps src (Guard.spansAll parts) isOpen f
      return (Guard.assembleAll parts conditions, isOpen && (Guard.spansAll parts).isEmpty, f) := by
  cases parts with
  | nil => simp [conditions, Guard.spansAll, jumps, Guard.assembleAll]
  | cons part rest =>
    have hempty : (part.spans ++ Guard.spansAll rest).isEmpty = (part.spans.isEmpty && (Guard.spansAll rest).isEmpty) := by
      cases part.spans <;> rfl
    simp only [conditions, condition_eq part, conditions_eq rest, Guard.spansAll, jumps_append, bind_assoc, pure_bind, hempty]
    funext b
    refine run_bind_congr fun r b₁ hr => run_bind_congr fun r' b₂ _ => ?_
    simp only [Guard.assembleAll, ← length_jumps hr, List.take_left, List.drop_left, Bool.and_assoc]

end

/-- One of some blocks that run one after another generates statements, though it may not: it is not the first, or the prelude is
closed from the start. -/
inductive GeneratesLate (src : Source) : (isOpen : Bool) → List Span → List ExprId → Builder → Prop where
  | here {span : Span} {rest : List Span} {stack stack' : List ExprId} {b b' : Builder} {test : JumpTest} {effects : List Statement}
      (hblock : RunsBlock src span stack b test effects stack' b') (heffects : effects ≠ []) :
      GeneratesLate src false (span :: rest) stack b
  | later {isOpen : Bool} {span : Span} {rest : List Span} {stack stack' : List ExprId} {b b' : Builder} {run : JumpRun}
      (hrun : RunsJump src span stack b run stack' b') (h : GeneratesLate src false rest stack' b') :
      GeneratesLate src isOpen (span :: rest) stack b

/-- Of some runs only the first generates statements, and that only if the prelude is open. -/
def OnlyFirstGenerates (isOpen : Bool) (runs : List JumpRun) : Prop :=
  ∀ run ∈ if isOpen then runs.tail else runs, run.effects = []

/-- Only the first jump may have statements before it. -/
theorem onlyFirstGenerates_cons {isOpen : Bool} {run : JumpRun} {runs : List JumpRun} :
    OnlyFirstGenerates isOpen (run :: runs) ↔ (isOpen = true ∨ run.effects = []) ∧ OnlyFirstGenerates false runs := by
  cases isOpen <;> simp [OnlyFirstGenerates]

/-- The blocks of jumps that have been made conditions have run, and each condition holds when its jump is taken. -/
theorem runs_of_jumps {spans : List Span} {isOpen : Bool} {cs : List Condition} {f' : Frame}
    (h : jumps src spans isOpen f b = .ok (cs, f') b') :
    ∃ runs, RunsJumps src spans f.stack b runs f'.stack b' ∧ f'.out = f.out ++ runs.flatMap (·.effects) ∧
      OnlyFirstGenerates isOpen runs ∧
      ∀ a, b'.arena.KeepsConstants a → ∀ assigned,
        cs.map (·.holds (a.valueOf assigned)) = runs.map (·.isTaken (a.valueOf assigned)) := by
  induction spans generalizing isOpen f b cs with
  | nil =>
    cases h
    exact ⟨[], .nil _ _, by simp, by simp [OnlyFirstGenerates], fun _ _ _ => rfl⟩
  | cons span rest ih =>
    obtain ⟨⟨c, f₁⟩, b₁, hjump, h₁⟩ := run_bind_eq_ok.1 h
    obtain ⟨⟨cs, f₂⟩, b₂, hrest, h₂⟩ := run_bind_eq_ok.1 h₁
    cases h₂
    obtain ⟨run, hrun, hallowed⟩ := runs_of_jump hjump
    obtain ⟨lhs, rhs, hjump', htaken⟩ := jump_of_runs hrun hallowed
    obtain ⟨rfl, hframe⟩ : c = .compare run.test.comparison lhs rhs ∧ f₁ = ⟨f₁.stack, f.out ++ run.effects⟩ := by
      simpa using hjump.symm.trans hjump'
    obtain ⟨runs, hruns, hout, hfirst, hholds⟩ := ih hrest
    refine ⟨run :: runs, .cons hrun hruns, ?_, onlyFirstGenerates_cons.2 ⟨hallowed, hfirst⟩, ?_⟩
    · rw [hout, hframe, List.flatMap_cons, List.append_assoc]
    · intro a hkeeps assigned
      have hholds₁ := htaken a (hruns.keepsConstants.trans hkeeps) assigned
      rw [List.map_cons, List.map_cons, hholds a hkeeps assigned, ← hholds₁, Condition.holds]

/-- Jumps whose blocks run and generate no more statements than they may become conditions. -/
theorem jumps_of_runs {spans : List Span} {isOpen : Bool} {stack stack' : List ExprId} {runs : List JumpRun}
    (h : RunsJumps src spans stack b runs stack' b') (hfirst : OnlyFirstGenerates isOpen runs) (hstack : f.stack = stack) :
    ∃ cs, jumps src spans isOpen f b = .ok (cs, ⟨stack', f.out ++ runs.flatMap (·.effects)⟩) b' := by
  induction h generalizing f isOpen with
  | nil =>
    subst hstack
    refine ⟨[], ?_⟩
    rw [List.flatMap_nil, List.append_nil]
    rfl
  | @cons _ _ _ stack₁ _ _ _ _ run runs hrun _ ih =>
    subst hstack
    obtain ⟨hallowed, hrest⟩ := onlyFirstGenerates_cons.1 hfirst
    obtain ⟨lhs, rhs, hjump, _⟩ := jump_of_runs (f := f) hrun hallowed
    obtain ⟨cs, hjumps⟩ := ih (f := ⟨stack₁, f.out ++ run.effects⟩) hrest rfl
    refine ⟨.compare run.test.comparison lhs rhs :: cs, ?_⟩
    rw [List.flatMap_cons, ← List.append_assoc]
    exact (run_bind_of_ok hjump).trans (run_bind_of_ok hjumps)

/-- A block that generates statements, though it may not, makes the jumps fail. -/
theorem jumps_of_generatesLate {spans : List Span} {isOpen : Bool} {stack : List ExprId} (h : GeneratesLate src isOpen spans stack b)
    (hstack : f.stack = stack) :
    ∃ span ∈ spans, ∃ b', jumps src spans isOpen f b = .error (.statementInCondition span.start) b' := by
  induction h generalizing f with
  | @here span _ _ _ _ b' _ _ hblock heffects =>
    subst hstack
    exact ⟨span, List.mem_cons_self, b', run_bind_of_error (jump_of_effects hblock heffects)⟩
  | @later isOpen first _ _ stack₁ _ _ run hrun _ ih =>
    subst hstack
    by_cases hallowed : isOpen = true ∨ run.effects = []
    · obtain ⟨lhs, rhs, hjump, _⟩ := jump_of_runs (f := f) hrun hallowed
      obtain ⟨span, hspan, b', hrest⟩ := ih (f := ⟨stack₁, f.out ++ run.effects⟩) rfl
      exact ⟨span, List.mem_cons_of_mem _ hspan, b', (run_bind_of_ok hjump).trans (run_bind_of_error hrest)⟩
    · -- The first block is refused already.
      obtain ⟨hopen, heffects⟩ := not_or.1 hallowed
      obtain rfl := Bool.eq_false_iff.2 hopen
      obtain ⟨_, b₂, hblock⟩ := hrun.runsBlock
      exact ⟨first, List.mem_cons_self, b₂, run_bind_of_error (jump_of_effects hblock heffects)⟩

/-! ## Guards -/

/-- A condition made from a guard: the blocks of the guard's jumps have run, the condition holds when the guard does, and the
statements generated are those that may be. -/
structure Translates (src : Source) (guard : Guard) (isOpen : Bool) (f : Frame) (b : Builder) (runs : List JumpRun) (c : Condition)
    (f' : Frame) (b' : Builder) : Prop where
  ran : RunsJumps src guard.spans f.stack b runs f'.stack b'
  holds : ∀ assigned, c.holds (b'.arena.valueOf assigned) =
    (guard.evaluate (runs.map (·.isTaken (b'.arena.valueOf assigned)))).holds
  statements : f'.out = f.out ++ runs.flatMap (·.effects)
  first : OnlyFirstGenerates isOpen runs

/-- A condition that is built stands for a run of its jumps. -/
theorem condition_translates {guard : Guard} {isOpen isOpen' : Bool} {c : Condition}
    (h : condition src guard isOpen f b = .ok (c, isOpen', f') b') : ∃ runs, Translates src guard isOpen f b runs c f' b' := by
  rw [condition_eq] at h
  obtain ⟨⟨cs, f₁⟩, b₁, hjumps, h₁⟩ := run_bind_eq_ok.1 h
  cases h₁
  obtain ⟨runs, hruns, hout, hfirst, hholds⟩ := runs_of_jumps hjumps
  refine ⟨runs, hruns, fun assigned => ?_, hout, hfirst⟩
  rw [Guard.holds_assemble, hholds _ (.refl _)]

/-- Jumps that run, with statements before the first only, become a condition. -/
theorem condition_of_runs {guard : Guard} {isOpen : Bool} {stack : List ExprId} {runs : List JumpRun}
    (h : RunsJumps src guard.spans f.stack b runs stack b') (hfirst : OnlyFirstGenerates isOpen runs) :
    ∃ c isOpen', condition src guard isOpen f b = .ok (c, isOpen', ⟨stack, f.out ++ runs.flatMap (·.effects)⟩) b' := by
  obtain ⟨cs, hjumps⟩ := jumps_of_runs h hfirst rfl
  rw [condition_eq, run_bind_of_ok hjumps]
  exact ⟨_, _, rfl⟩

/-- A statement before a jump that is not the first is an error. -/
theorem condition_of_generatesLate {guard : Guard} {isOpen : Bool} (h : GeneratesLate src isOpen guard.spans f.stack b) :
    ∃ span ∈ guard.spans, ∃ b', condition src guard isOpen f b = .error (.statementInCondition span.start) b' := by
  obtain ⟨span, hspan, b', hjumps⟩ := jumps_of_generatesLate h rfl
  refine ⟨span, hspan, b', ?_⟩
  rw [condition_eq]
  exact run_bind_of_error hjumps

/-- While the prelude is closed there are no statements besides the condition. -/
theorem out_eq_of_closed {guard : Guard} {r : Condition × Bool × Frame} (h : condition src guard false f b = .ok r b') :
    r.2.2.out = f.out := by
  obtain ⟨runs, htranslates⟩ := condition_translates h
  have hnone : runs.flatMap (·.effects) = [] := List.flatMap_eq_nil_iff.2 htranslates.first
  rw [htranslates.statements, hnone, List.append_nil]

/-- The guard of a loop tested at the top leaves nothing besides its condition. -/
theorem headGuard_eq_ok {guard : Guard} {c : Condition} (h : headGuard src guard b = .ok c b') :
    ∃ isOpen, condition src guard false ⟨[], []⟩ b = .ok (c, isOpen, ⟨[], []⟩) b' := by
  obtain ⟨⟨c, isOpen, f₁⟩, b₁, hcondition, h₁⟩ := run_bind_eq_ok.1 h
  obtain ⟨statements, b₂, hfinish, h₂⟩ := run_bind_eq_ok.1 h₁
  cases h₂
  obtain ⟨rfl, rfl⟩ := Frame.finish_eq_ok hfinish
  obtain rfl : statements = [] := out_eq_of_closed hcondition
  exact ⟨isOpen, hcondition⟩

/-- The condition of a loop's head starts from an empty stack and leaves it empty. -/
theorem headGuard_translates {guard : Guard} {c : Condition} (h : headGuard src guard b = .ok c b') :
    ∃ runs, Translates src guard false ⟨[], []⟩ b runs c ⟨[], []⟩ b' := by
  obtain ⟨isOpen, hcondition⟩ := headGuard_eq_ok h
  exact condition_translates hcondition

end Build

/-- Conditions mean what the guards mean that they are made from. Only the first block of a guard may generate statements, and that
of a loop tested at the top may not; they come before the condition. -/
theorem conditions_keep_their_meaning (src : Source) (guard : Guard) (b : Builder) :
    (∀ isOpen f c isOpen' f' b', Build.condition src guard isOpen f b = .ok (c, isOpen', f') b' →
      ∃ runs, Build.Translates src guard isOpen f b runs c f' b') ∧
    (∀ isOpen f runs stack b', Build.RunsJumps src guard.spans f.stack b runs stack b' → Build.OnlyFirstGenerates isOpen runs →
      ∃ c isOpen', Build.condition src guard isOpen f b = .ok (c, isOpen', ⟨stack, f.out ++ runs.flatMap (·.effects)⟩) b') ∧
    (∀ isOpen f, Build.GeneratesLate src isOpen guard.spans f.stack b → ∃ span ∈ guard.spans, ∃ b',
      Build.condition src guard isOpen f b = .error (.statementInCondition span.start) b') ∧
    (∀ c b', Build.headGuard src guard b = .ok c b' → ∃ runs, Build.Translates src guard false ⟨[], []⟩ b runs c ⟨[], []⟩ b') ∧
    (Build.GeneratesLate src false guard.spans [] b → ∃ span ∈ guard.spans, ∃ b',
      Build.headGuard src guard b = .error (.statementInCondition span.start) b') ∧
    (∀ taken, guard.negated.evaluate taken = ⟨(guard.evaluate taken).spans, !(guard.evaluate taken).holds⟩) ∧
    (∀ (c : Condition) value, c.negate.holds value = !c.holds value) ∧ ∀ c : Condition, c.negate.negate = c := by
  refine ⟨?_, ?_, ?_, ?_, ?_, guard.evaluate_negated, fun c value => c.holds_negate value, Condition.negate_negate⟩
  · intro isOpen f c isOpen' f' b' h
    exact Build.condition_translates h
  · intro isOpen f runs stack b' hruns hfirst
    exact Build.condition_of_runs hruns hfirst
  · intro isOpen f hlate
    exact Build.condition_of_generatesLate hlate
  · intro c b' h
    exact Build.headGuard_translates h
  · intro hlate
    obtain ⟨span, hspan, b', hcondition⟩ := Build.condition_of_generatesLate (f := ⟨[], []⟩) hlate
    exact ⟨span, hspan, b', run_bind_of_error hcondition⟩

/-- Tests of a parameter that is incremented before, of two parameters, and of a parameter that is incremented in between. -/
def countedTests : Source where
  method :=
    { owner := "A", name := "m", descriptor := "(II)V", isStatic := true
      code := [.increment 0 1, .load .int 0, .jump .eq ⟨0⟩, .load .int 1, .load .int 0, .jump .intLt ⟨0⟩, .increment 1 1,
        .load .int 1, .jump .ne ⟨0⟩, .label ⟨0⟩, .ret none]
      variableTable := []
      handlerTable := [] }
  labels := [(⟨0⟩, 9)]
  locals := (Locals.empty.add ⟨0, "param0", "I", none, ⟨0, 11⟩, .parameter⟩).add ⟨1, "param1", "I", none, ⟨0, 11⟩, .parameter⟩

/-- Increments a parameter before its first test. -/
def firstIncrements : Guard := .not (.and [.jump ⟨0, 3⟩ true, .jump ⟨3, 6⟩ false])

/-- Increments parameters before both of its tests. -/
def bothIncrement : Guard := .or [.jump ⟨0, 3⟩ false, .not (.jump ⟨6, 9⟩ true)]

/-- The first increment comes before the condition. The second is refused, and both are in a loop tested at the top. -/
theorem conditions_keep_their_meaning_counted :
    Build.condition countedTests firstIncrements true ⟨[], []⟩ ⟨#[], []⟩ =
        .ok (.or [.compare .eq 0 1, .compare .ge 2 3], false, ⟨[], [.increment 0 1]⟩) ⟨#[.var 0, .int 0, .var 1, .var 0], []⟩ ∧
      (∃ runs, Build.Translates countedTests firstIncrements true ⟨[], []⟩ ⟨#[], []⟩ runs
        (.or [.compare .eq 0 1, .compare .ge 2 3]) ⟨[], [.increment 0 1]⟩ ⟨#[.var 0, .int 0, .var 1, .var 0], []⟩) ∧
      (∃ c isOpen, Build.condition countedTests (.jump ⟨0, 3⟩ true) true ⟨[], []⟩ ⟨#[], []⟩ =
        .ok (c, isOpen, ⟨[], [.increment 0 1]⟩) ⟨#[.var 0, .int 0], []⟩) ∧
      (∃ runs, Build.Translates countedTests (.jump ⟨1, 3⟩ true) false ⟨[], []⟩ ⟨#[], []⟩ runs (.compare .ne 0 1) ⟨[], []⟩
        ⟨#[.var 0, .int 0], []⟩) ∧
      (∃ span ∈ bothIncrement.spans, ∃ b', Build.condition countedTests bothIncrement true ⟨[], []⟩ ⟨#[], []⟩ =
        .error (.statementInCondition span.start) b') ∧
      ∃ span ∈ firstIncrements.spans, ∃ b', Build.headGuard countedTests firstIncrements ⟨#[], []⟩ =
        .error (.statementInCondition span.start) b' := by
  have hfirst : Build.RunsBlock countedTests ⟨0, 3⟩ [] ⟨#[], []⟩ .eq [.increment 0 1] [0] ⟨#[.var 0], []⟩ :=
    ⟨2, ⟨0⟩, rfl, rfl, rfl⟩
  have hsecond : Build.RunsBlock countedTests ⟨6, 9⟩ [] ⟨#[.var 0, .int 0], []⟩ .ne [.increment 1 1] [2]
      ⟨#[.var 0, .int 0, .var 1], []⟩ := ⟨8, ⟨0⟩, rfl, rfl, rfl⟩
  refine ⟨rfl, ?_, ?_, ?_, ?_, ?_⟩
  · exact (conditions_keep_their_meaning countedTests firstIncrements ⟨#[], []⟩).1 true ⟨[], []⟩ _ _ _ _ rfl
  · exact (conditions_keep_their_meaning countedTests (.jump ⟨0, 3⟩ true) ⟨#[], []⟩).2.1 true ⟨[], []⟩ _ _ _
      (.cons (.one hfirst rfl) (.nil _ _)) (by simp [Build.OnlyFirstGenerates])
  · exact (conditions_keep_their_meaning countedTests (.jump ⟨1, 3⟩ true) ⟨#[], []⟩).2.2.2.1 _ _ rfl
  · exact (conditions_keep_their_meaning countedTests bothIncrement ⟨#[], []⟩).2.2.1 true ⟨[], []⟩
      (.later (.one hfirst rfl) (.here hsecond (by simp)))
  · exact (conditions_keep_their_meaning countedTests firstIncrements ⟨#[], []⟩).2.2.2.2.1 (.here hfirst (by simp))

end CodeLift
