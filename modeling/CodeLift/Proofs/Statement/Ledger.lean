import CodeLift.Proofs.Span
import CodeLift.Proofs.Statement.FailsAtOnce
import CodeLift.Proofs.Statement.Guards
import CodeLift.Proofs.Statement.Log
import CodeLift.Proofs.Statement.Operands
import Mathlib.Tactic.Tauto

/-!
# What is held while statements are built

Expressions are held by the stacks of the frames that are open, and by the conditions and statements that are made. A `Ledger` is
a way to account for them, from the empty arena on: that they are in the arena, or that they lead to every call, or what the
instructions have done to the arena so far. Instructions are read by each ledger for itself. What they are put together to, from
straight code to the tree of a method, is read here once for all ledgers (`Ledger.sectionsInto_keeps`), whether it fails or not.
-/

namespace CodeLift

open Building Build

/-! ## What sections need of the code -/

/-- Whether a span holds code, no jump but maybe its last instruction, and that instruction passes a test. -/
def Span.runsTo (code : List Insn) (last : Insn → Bool) (span : Span) : Bool :=
  decide (span.start < span.stop) &&
    (⟨span.start, span.stop - 1⟩ : Span).indices.all (fun index => code[index]?.any fun i => !i.isJump) &&
    code[span.stop - 1]?.any last

/-- Whether straight code may end with an instruction. -/
def Insn.endsBody : Insn → Bool
  | .goto _ => true
  | i => !i.isJump

/-- Whether an instruction is a conditional jump. -/
def Insn.isConditional : Insn → Bool
  | .jump _ _ => true
  | _ => false

/-- Whether the code that a section itself stands for can be run: straight code holds no jump but maybe a goto at its end,
conditions and keys of switches end with a conditional jump or a switch and hold no other jump, and headers lie in the code. -/
def Section.isExecutable (code : List Insn) : Section → Bool
  | .body span => span.runsTo code Insn.endsBody
  | .branch guard _ _ => guard.spans.all (Span.runsTo code Insn.isConditional)
  | .loop _ guard _ _ => guard.all fun guard => guard.spans.all (Span.runsTo code Insn.isConditional)
  | .switch key _ => key.runsTo code Insn.isSwitch
  | .tryCatch _ clauses => clauses.all fun c => decide (c.header.start ≤ c.header.stop ∧ c.header.stop ≤ code.length)
  | _ => true

namespace Span

variable {code : List Insn} {last : Insn → Bool} {span : Span}

/-- The last instruction of a span that runs to it, and what stands before it. -/
theorem exists_of_runsTo (h : span.runsTo code last = true) :
    ∃ stop i, span.stop = stop + 1 ∧ span.start ≤ stop ∧ code[stop]? = some i ∧ last i = true ∧
      ∀ index, span.start ≤ index → index < stop → ∃ i, code[index]? = some i ∧ i.isJump = false := by
  simp only [runsTo, Bool.and_eq_true, decide_eq_true_eq, List.all_eq_true, Option.any_eq_true, mem_indices] at h
  obtain ⟨⟨hlt, hinside⟩, i, hi, hlast⟩ := h
  refine ⟨span.stop - 1, i, by omega, by omega, hi, hlast, ?_⟩
  intro index hge hindex
  obtain ⟨i, hi, hjump⟩ := hinside index ⟨hge, hindex⟩
  exact ⟨i, hi, by simpa using hjump⟩

/-- The code of a span can be run straight: it holds no jump, a goto at its end apart. -/
def IsStraight (code : List Insn) (span : Span) : Prop :=
  ∀ index ∈ span.indices, ∃ i, code[index]? = some i ∧ (i.isJump = true → isImpliedGoto span.stop index i = true)

/-- Code that holds jumps at its end only is straight. -/
theorem isStraight_of_runsTo (h : span.runsTo code Insn.endsBody = true) : span.IsStraight code := by
  obtain ⟨last, i, hstop, hle, hi, hlast, hinside⟩ := exists_of_runsTo h
  intro index hindex
  rw [mem_indices, mem_def] at hindex
  by_cases hend : index = last
  · refine ⟨i, hend ▸ hi, fun hjump => ?_⟩
    cases i with
    | goto target => simp [isImpliedGoto, hend, hstop]
    | _ => simp_all [Insn.endsBody]
  · obtain ⟨i, hi, hjump⟩ := hinside index hindex.1 (by omega)
    exact ⟨i, hi, by simp [hjump]⟩

/-- What stands before the jump that ends a span can be run straight. -/
theorem isStraight_before {stop : Nat} (h : span.runsTo code last = true) (hstop : span.stop = stop + 1) :
    IsStraight code ⟨span.start, stop⟩ := by
  obtain ⟨stop', _, hstop', _, _, _, hinside⟩ := exists_of_runsTo h
  obtain rfl : stop' = stop := by omega
  intro index hindex
  rw [mem_indices, mem_def] at hindex
  obtain ⟨i, hi, hjump⟩ := hinside index hindex.1 hindex.2
  exact ⟨i, hi, by simp [hjump]⟩

end Span

/-! ## Ledgers -/

/-- Whether an expression is one that no instruction makes: what a value is compared to, or a caught exception. -/
def Expr.isImplicit : Expr → Bool
  | .int _ | .null | .caught _ => true
  | _ => false

/-- What no instruction makes has no operands. -/
theorem Expr.children_of_isImplicit {e : Expr} (h : e.isImplicit = true) : e.children = [] := by
  cases e with
  | int | null | caught => rfl
  | _ => cases h

/-- A way to account for the expressions that are held while the statements of a method are built. -/
structure Ledger (src : Source) (settings : Settings) where
  Entry : Type
  /-- What an instruction enters, given the arena and the stack that it finds. -/
  entries : Arena → List ExprId → Insn → List Entry
  /-- What is known of the arena while these expressions are held, after these entries. -/
  Holds : List ExprId → Arena → List Entry → Prop
  /-- With what building may fail. -/
  Tolerates : StatementError → Prop
  tolerates_values : ∀ {e}, e.isAboutValues = true → Tolerates e
  /-- Where and how often an expression is held does not matter. -/
  exchange : ∀ {held held' a log}, (∀ id, id ∈ held ↔ id ∈ held') → Holds held a log → Holds held' a log
  /-- What a list has held is given up when the list becomes a comment. -/
  forget : settings.commentOnError = true → ∀ {held others a log}, Holds (held ++ others) a log → Holds others a log
  make : ∀ {e held a log}, e.isImplicit = true → Holds held a log → Holds (a.size :: held) (a.push e) log
  /-- An instruction that is run makes its entry, and one that is not a jump fails as is tolerated. -/
  insn : ∀ {index i f b others log}, src.method.code[index]? = some i → (i.isJump = false ∨ ∀ e, Tolerates e) →
    Holds (f.held ++ others) b.arena log →
    match Build.insn src.locals index i f b with
    | .ok f' b' => Holds (f'.held ++ others) b'.arena (log ++ entries b.arena f.stack i)
    | .error e _ => Tolerates e

namespace Ledger

variable {src : Source} {settings : Settings} (L : Ledger src settings) {α β : Type} {b : Builder} {f : Frame}

/-- What is asked of the code, unless every failure is tolerated. -/
def Asks (p : Prop) : Prop := p ∨ ∀ e, L.Tolerates e

/-- The action, run while `held` is held and maybe more besides, leaves `left` in its place and makes the entries `log`. If it fails,
which it may only as is tolerated, what is held besides is still accounted for wherever building can go on. -/
def Keeps (b : Builder) (x : Building α) (held : List ExprId) (log : List L.Entry) (left : α → List ExprId) : Prop :=
  ∀ others before, L.Holds (held ++ others) b.arena before →
    match x b with
    | .ok r b' => L.Holds (left r ++ others) b'.arena (before ++ log)
    | .error e b' => L.Tolerates e ∧ (settings.commentOnError = true → L.Holds others b'.arena (before ++ log))

variable {L} {x : Building α} {held : List ExprId} {log : List L.Entry} {left : α → List ExprId}

/-- What follows from what is asked is given too. -/
theorem Asks.mono {p q : Prop} (hpq : p → q) (h : L.Asks p) : L.Asks q := h.imp_left hpq

namespace Keeps

/-- A value is returned that holds what was held. -/
theorem pure {r : α} (h : ∀ id, id ∈ held ↔ id ∈ left r) : L.Keeps b (Pure.pure r) held [] left := by
  intro others before hholds
  rw [List.append_nil]
  refine L.exchange (fun id => ?_) hholds
  rw [List.mem_append, List.mem_append, h]

/-- An error that is tolerated can be raised anywhere. -/
theorem throw {e : StatementError} (h : L.Tolerates e) : L.Keeps b (MonadExcept.throw e : Building α) held [] left := by
  intro others before hholds
  rw [List.append_nil]
  exact ⟨h, fun hcomment => L.forget hcomment hholds⟩

/-- What is held besides stays held. -/
theorem besides (h : L.Keeps b x held log left) (kept : List ExprId) :
    L.Keeps b x (held ++ kept) log fun r => left r ++ kept := by
  intro others before hholds
  rw [List.append_assoc] at hholds
  have hkept := h (kept ++ others) before hholds
  cases hrun : x b with
  | ok r b' =>
    rw [hrun] at hkept
    dsimp only
    rw [List.append_assoc]
    exact hkept
  | error e b' =>
    rw [hrun] at hkept
    exact ⟨hkept.1, fun hcomment => L.forget hcomment (hkept.2 hcomment)⟩

/-- The same expressions in another order. -/
theorem exchange {held' : List ExprId} {left' : α → List ExprId} (h : L.Keeps b x held log left)
    (hheld : ∀ id, id ∈ held' ↔ id ∈ held) (hleft : ∀ r id, id ∈ left r ↔ id ∈ left' r) : L.Keeps b x held' log left' := by
  intro others before hholds
  have hkept := h others before (L.exchange (fun id => by rw [List.mem_append, List.mem_append, hheld]) hholds)
  cases hrun : x b with
  | ok r b' =>
    rw [hrun] at hkept
    exact L.exchange (fun id => by rw [List.mem_append, List.mem_append, hleft]) hkept
  | error e b' =>
    rw [hrun] at hkept
    exact hkept

/-- What is held besides, in any order. -/
theorem among {held' : List ExprId} (h : L.Keeps b x held log left) (kept : List ExprId)
    (hheld : ∀ id, id ∈ held' ↔ id ∈ held ∨ id ∈ kept) : L.Keeps b x held' log fun r => left r ++ kept := by
  refine (h.besides kept).exchange (fun id => ?_) fun _ _ => Iff.rfl
  rw [List.mem_append]
  exact hheld id

/-- What an action enters comes before what is entered after it. -/
theorem bind {g : α → Building β} {more : α → Builder → List L.Entry} {left' : β → List ExprId} (hx : L.Keeps b x held log left)
    (hg : ∀ r b', x b = .ok r b' → L.Keeps b' (g r) (left r) (more r b') left') :
    L.Keeps b (x >>= g) held (log ++ x.andThen b more) left' := by
  intro others before hholds
  have hx := hx others before hholds
  cases hrun : x b with
  | ok r b' =>
    rw [hrun] at hx
    rw [run_bind_of_ok hrun, andThen_of_ok hrun, ← List.append_assoc]
    exact hg r b' hrun others _ hx
  | error e b' =>
    rw [hrun] at hx
    rw [run_bind_of_error hrun, andThen_of_error hrun, List.append_nil]
    exact hx

/-- An action without entries, before one that makes some. -/
theorem bind_first {g : α → Building β} {more : α → Builder → List L.Entry} {left' : β → List ExprId} (hx : L.Keeps b x held [] left)
    (hg : ∀ r b', x b = .ok r b' → L.Keeps b' (g r) (left r) (more r b') left') :
    L.Keeps b (x >>= g) held (x.andThen b more) left' := hx.bind hg

/-- An action after which there are no entries. -/
theorem bind_last {g : α → Building β} {left' : β → List ExprId} (hx : L.Keeps b x held log left)
    (hg : ∀ r b', x b = .ok r b' → L.Keeps b' (g r) (left r) [] left') : L.Keeps b (x >>= g) held log left' := by
  have hbind := hx.bind hg
  rw [andThen_nil, List.append_nil] at hbind
  exact hbind

/-- A statement that refers to what is held, apart from what the frame holds already. -/
theorem emit (f : Frame) (s : Statement) (h : ∀ id, id ∈ held ↔ id ∈ f.held ∨ id ∈ Statement.roots [s]) :
    L.Keeps b (Pure.pure (f.emit s)) held [] Frame.held := by
  refine .pure fun id => ?_
  rw [Frame.held_emit, List.mem_append]
  exact h id

end Keeps

/-! ## Frames -/

/-- The value that is taken off was held. -/
theorem pop_keeps (f : Frame) (index : Nat) : L.Keeps b (f.pop index) f.held [] fun r => r.1 :: r.2.held := by
  obtain ⟨stack, out⟩ := f
  cases stack with
  | nil => exact .throw (L.tolerates_values rfl)
  | cons value stack => exact .pure fun id => Iff.rfl

/-- The statements of a finished frame hold what the frame held. -/
theorem finish_keeps (f : Frame) : L.Keeps b f.finish f.held [] Statement.roots := by
  obtain ⟨stack, out⟩ := f
  cases stack with
  | nil => exact .pure fun id => Iff.rfl
  | cons value stack => exact .throw (L.tolerates_values rfl)

/-- Expressions that no instruction makes are held at once. -/
theorem alloc_keeps {e : Expr} (h : e.isImplicit = true) : L.Keeps b (Building.alloc e) [] [] fun id => [id] := by
  intro others before hholds
  rw [List.append_nil]
  exact L.make h hholds

/-! ## Straight code -/

/-- Straight code holds what it held, up to its own entries. -/
theorem straight_keeps {stop : Nat} {indices : List Nat}
    (h : L.Asks (∀ index ∈ indices, ∃ i, src.method.code[index]? = some i ∧ (i.isJump = true → isImpliedGoto stop index i = true)))
    (f : Frame) (b : Builder) :
    L.Keeps b (straight src stop indices f) f.held (straightLog src L.entries stop indices f b) Frame.held := by
  induction indices generalizing f b with
  | nil => exact .pure fun id => Iff.rfl
  | cons index rest ih =>
    have hrest := ih (h.mono fun h => (List.forall_mem_cons.1 h).2)
    cases hi : src.method.code[index]? with
    | none =>
      simp only [straight, straightLog, hi]
      refine .throw ?_
      rcases h with h | h
      · obtain ⟨i, hi', _⟩ := h index List.mem_cons_self
        rw [hi] at hi'
        cases hi'
      · exact h _
    | some i =>
      simp only [straight, straightLog, hi]
      by_cases himplied : isImpliedGoto stop index i = true
      · rw [if_pos himplied, if_pos himplied, pure_bind]
        exact hrest f b
      · rw [if_neg himplied, if_neg himplied]
        have hjump : i.isJump = false ∨ ∀ e, L.Tolerates e := by
          refine h.imp_left fun h => ?_
          obtain ⟨i', hi', himplied'⟩ := h index List.mem_cons_self
          obtain rfl : i = i' := Option.some.inj (hi.symm.trans hi')
          exact Bool.eq_false_iff.2 fun hjump => himplied (himplied' hjump)
        intro others before hholds
        have hinsn := L.insn hi hjump hholds
        cases hrun : Build.insn src.locals index i f b with
        | ok f' b' =>
          rw [hrun] at hinsn
          rw [run_bind_of_ok hrun, andThen_of_ok hrun, ← List.append_assoc]
          exact hrest f' b' others _ hinsn
        | error e b' =>
          rw [hrun] at hinsn
          obtain rfl := insn_failsAtOnce _ _ _ _ _ _ _ hrun
          rw [run_bind_of_error hrun, andThen_of_error hrun, List.append_nil]
          exact ⟨hinsn, fun hcomment => L.forget hcomment hholds⟩

/-- A body is straight code that keeps the ledger. -/
theorem body_keeps {span : Span} (h : L.Asks (span.IsStraight src.method.code)) (f : Frame) (b : Builder) :
    L.Keeps b (body src span f) f.held (bodyLog src L.entries span f b) Frame.held := straight_keeps h f b

/-! ## Conditions -/

/-- Looking for the jump of a span touches nothing. -/
theorem spanJump_keeps {span : Span} (h : L.Asks (span.runsTo src.method.code Insn.isConditional = true)) :
    L.Keeps b (spanJump src span) held [] fun _ => held := by
  unfold spanJump
  rcases h with h | h
  · obtain ⟨last, i, hstop, _, hi, hlast, _⟩ := Span.exists_of_runsTo h
    cases i with
    | jump test target =>
      simp only [hstop, hi]
      exact .pure fun id => Iff.rfl
    | _ => cases hlast
  · split
    · exact .throw (h _)
    · split
      · exact .pure fun id => Iff.rfl
      · exact .throw (h _)
      · exact .throw (h _)

/-- The operands of a test were held. -/
theorem operands_keeps (test : JumpTest) (index : Nat) (f : Frame) :
    L.Keeps b (operands test index f) f.held [] fun r => r.1 :: r.2.1 :: r.2.2.held := by
  unfold operands
  split
  · refine (pop_keeps f index).bind_last fun r b₁ _ => ?_
    refine ((pop_keeps r.2 index).among [r.1] (by simp [or_comm])).bind_last fun r' b₂ _ => .pure fun id => ?_
    simp only [List.cons_append, List.mem_cons, List.mem_append, List.not_mem_nil]
    tauto
  · refine (pop_keeps f index).bind_last fun r b₁ _ => ?_
    have halloc := (alloc_keeps (L := L) (b := b₁) (e := if test.comparesToNull then .null else .int 0)
      (by cases test.comparesToNull <;> rfl)).besides (r.1 :: r.2.held)
    exact halloc.bind_last fun id' b₂ _ => .pure (by simp; tauto)

/-- The code before a jump keeps the ledger, and its condition holds the operands. -/
theorem jump_keeps {span : Span} (h : L.Asks (span.runsTo src.method.code Insn.isConditional = true)) (negate isOpen : Bool)
    (f : Frame) (b : Builder) :
    L.Keeps b (jump src span negate isOpen f) f.held (jumpLog src L.entries span f b) fun r => r.1.operands ++ r.2.held := by
  unfold jump jumpLog
  refine (spanJump_keeps h).bind_first fun r b₁ hrun => ?_
  have hstraight := h.mono fun h => Span.isStraight_before h (spanJump_eq_ok hrun).1
  -- The statements from before are held while the code of the block makes its own.
  have hbody : L.Keeps b₁ (body src ⟨span.start, r.2⟩ ⟨f.stack, []⟩) f.held (bodyLog src L.entries ⟨span.start, r.2⟩ ⟨f.stack, []⟩ b₁)
      fun inner => Frame.held ⟨inner.stack, f.out ++ inner.out⟩ := by
    refine ((body_keeps hstraight ⟨f.stack, []⟩ b₁).besides (Statement.roots f.out)).exchange (by simp [Frame.held]) ?_
    intro inner id
    simp only [List.mem_append, Frame.mem_held, Statement.roots_append]
    tauto
  refine hbody.bind_last fun inner b₂ _ => ?_
  dsimp only
  split
  · exact (operands_keeps r.1 r.2 _).bind_last fun r' _ _ => .pure (by simp [Condition.operands])
  · exact .throw (L.tolerates_values rfl)

mutual

/-- A condition keeps the ledger: every jump of it does. -/
theorem condition_keeps (g : Guard) (h : L.Asks (g.spans.all (Span.runsTo src.method.code Insn.isConditional) = true))
    (isOpen : Bool) (f : Frame) (b : Builder) :
    L.Keeps b (condition src g isOpen f) f.held (conditionLog src L.entries g isOpen f b) fun r =>
      r.1.operands ++ r.2.2.held := by
  cases g with
  | jump span negate =>
    unfold condition conditionLog
    have h := h.mono fun h => (by simpa [Guard.spans] using h : span.runsTo src.method.code Insn.isConditional = true)
    exact (jump_keeps h negate isOpen f b).bind_last fun r _ _ => .pure fun id => Iff.rfl
  | and parts =>
    unfold condition conditionLog
    exact (conditions_keeps parts h isOpen f b).bind_last fun r _ _ => .pure fun id => Iff.rfl
  | or parts =>
    unfold condition conditionLog
    exact (conditions_keeps parts h isOpen f b).bind_last fun r _ _ => .pure fun id => Iff.rfl
  | not inner =>
    unfold condition conditionLog
    refine (condition_keeps inner h isOpen f b).bind_last fun r _ _ => .pure fun id => ?_
    rw [Condition.operands_negate]

/-- Several conditions keep the ledger, one after another. -/
theorem conditions_keeps (parts : List Guard)
    (h : L.Asks ((Guard.spansAll parts).all (Span.runsTo src.method.code Insn.isConditional) = true)) (isOpen : Bool) (f : Frame)
    (b : Builder) :
    L.Keeps b (conditions src parts isOpen f) f.held (conditionsLog src L.entries parts isOpen f b) fun r =>
      Condition.operandsAll r.1 ++ r.2.2.held := by
  cases parts with
  | nil =>
    unfold conditions conditionsLog
    exact .pure fun id => Iff.rfl
  | cons part rest =>
    unfold conditions conditionsLog
    simp only [Guard.spansAll, List.all_append, Bool.and_eq_true] at h
    refine (condition_keeps part (h.mono And.left) isOpen f b).bind fun r b₁ _ => ?_
    have hrest := (conditions_keeps rest (h.mono And.right) r.2.1 r.2.2 b₁).among r.1.operands fun id =>
      (List.mem_append.trans or_comm : id ∈ r.1.operands ++ r.2.2.held ↔ _)
    refine hrest.bind_last fun r' _ _ => .pure fun id => ?_
    simp only [Condition.operandsAll, List.mem_append]
    tauto

end

/-- The guard of a loop tested at the top leaves nothing besides its condition. -/
theorem headGuard_keeps {g : Guard} (h : L.Asks (g.spans.all (Span.runsTo src.method.code Insn.isConditional) = true))
    (b : Builder) : L.Keeps b (headGuard src g) [] (headLog src L.entries g b) Condition.operands := by
  unfold headGuard headLog
  refine (condition_keeps g h false ⟨[], []⟩ b).bind_last fun r b₁ hcondition => ?_
  refine ((finish_keeps r.2.2).among r.1.operands (by simp [or_comm])).bind_last fun statements b₂ hrun => .pure fun id => ?_
  obtain rfl : statements = [] := (r.2.2.finish_yields _ _ hrun).trans (out_eq_of_closed hcondition)
  rfl

/-! ## Sections -/

/-- A list that fails gives up what it has held, and where it becomes a comment nothing else is lost. -/
theorem orComment_keeps (sections : List Section) {x : Building Frame} (h : L.Keeps b x held log Frame.held) :
    L.Keeps b (orComment src settings sections x) held log Statement.roots := by
  have hfinish := h.bind_last fun f b' _ => finish_keeps f
  intro others before hholds
  have hrun := hfinish others before hholds
  unfold orComment
  cases hx : (x >>= Frame.finish) b with
  | ok statements b' =>
    rw [hx] at hrun
    exact hrun
  | error e b' =>
    rw [hx] at hrun
    by_cases hcomment : (e.isGenuine && settings.commentOnError) = true
    · simp only [hcomment, if_true]
      exact hrun.2 (Bool.and_eq_true_iff.1 hcomment).2
    · simp only [hcomment, Bool.false_eq_true, if_false]
      exact hrun

/-- Looking for the key of a switch touches nothing. -/
theorem spanSwitch_keeps {key : Span} (h : L.Asks (key.runsTo src.method.code Insn.isSwitch = true)) :
    L.Keeps b (spanSwitch src key) held [] fun _ => held := by
  unfold spanSwitch
  rcases h with h | h
  · obtain ⟨last, i, hstop, _, hi, hlast, _⟩ := Span.exists_of_runsTo h
    cases i with
    | switch otherwise arms =>
      simp only [hstop, hi]
      exact .pure fun id => Iff.rfl
    | _ => cases hlast
  · split
    · exact .throw (h _)
    · split
      · exact .pure fun id => Iff.rfl
      · exact .throw (h _)
      · exact .throw (h _)

/-- A handler starts with what it has caught. -/
theorem handlerStack_keeps {types : List CatchType} {header : Span}
    (h : L.Asks (header.start ≤ header.stop ∧ header.stop ≤ src.method.code.length)) :
    L.Keeps b (handlerStack src types header) [] [] id := by
  unfold handlerStack
  split
  · rename_i houtside
    refine .throw ?_
    rcases h with h | h
    · simp only [Bool.or_eq_true, decide_eq_true_eq] at houtside
      omega
    · exact h _
  · split
    · exact .pure fun id => Iff.rfl
    · exact (alloc_keeps rfl).bind_last fun caught _ _ => .pure fun id => Iff.rfl

/-- However a list of sections is built, it is accounted for. -/
def BuildsKeeping (L : Ledger src settings) (sections : List Section) : Prop :=
  ∀ f b, L.Keeps b (sectionsInto src settings sections f) f.held (sectionsLog src settings L.entries sections f b) Frame.held

/-- A nested list keeps the ledger, whether it becomes statements or a comment. -/
theorem BuildsKeeping.inner {sections : List Section} (h : L.BuildsKeeping sections) (stack : List ExprId) (b : Builder) :
    L.Keeps b (orComment src settings sections (sectionsInto src settings sections ⟨stack, []⟩)) stack
      (sectionsLog src settings L.entries sections ⟨stack, []⟩ b) Statement.roots := by
  have hlist := orComment_keeps sections (h ⟨stack, []⟩ b)
  rw [Frame.held_nil] at hlist
  exact hlist

/-- A list inside another one. -/
theorem BuildsKeeping.nested {sections : List Section} (h : L.BuildsKeeping sections) (kept : List ExprId) (b : Builder) :
    L.Keeps b (list src settings sections) kept (sectionsLog src settings L.entries sections ⟨[], []⟩ b)
      fun statements => Statement.roots statements ++ kept := (h.inner [] b).besides kept

/-- A loop keeps the ledger, whichever kind it is. -/
theorem loop_keeps {kind : LoopKind} {guard : Option Guard} {loopBody update : List Section}
    (h : L.Asks ((Section.loop kind guard loopBody update).isExecutable src.method.code = true)) (hbody : L.BuildsKeeping loopBody)
    (hupdate : L.BuildsKeeping update) (f : Frame) (b : Builder) :
    L.Keeps b (sectionInto src settings (.loop kind guard loopBody update) f) f.held
      (sectionLog src settings L.entries (.loop kind guard loopBody update) f b) Frame.held := by
  cases guard with
  | none =>
    cases kind <;> simp only [sectionInto, sectionLog] <;>
      refine (hbody.nested f.held b).bind_last fun statements _ _ => .emit f _ ?_ <;>
      simp [or_comm]
  | some g =>
    simp only [Section.isExecutable, Option.all_some] at h
    -- A loop tested at the top, without an update.
    have htop : L.Keeps b (headGuard src g >>= fun condition =>
        list src settings loopBody >>= fun loopBody => pure (f.emit (.whileDo (some condition) loopBody))) f.held
        (headLog src L.entries g b ++ (headGuard src g).andThen b fun _ b =>
          sectionsLog src settings L.entries loopBody ⟨[], []⟩ b) Frame.held := by
      refine ((headGuard_keeps h b).besides f.held).bind fun condition b₁ _ => ?_
      refine (hbody.nested _ b₁).bind_last fun statements _ _ => .emit f _ fun id => ?_
      simp only [List.mem_append, Statement.roots_whileDo, Option.map_some, Option.getD_some]
      tauto
    cases kind with
    | whileDo =>
      simp only [sectionInto, sectionLog]
      exact htop
    | forever =>
      simp only [sectionInto, sectionLog]
      exact htop
    | forUpdate =>
      simp only [sectionInto, sectionLog]
      refine ((headGuard_keeps h b).besides f.held).bind fun condition b₁ _ => ?_
      refine (hupdate.nested _ b₁).bind fun updates b₂ _ => ?_
      refine (hbody.nested _ b₂).bind_last fun statements _ _ => .emit f _ fun id => ?_
      simp only [List.mem_append, Statement.roots_forUpdate]
      tauto
    | doWhile =>
      simp only [sectionInto, sectionLog]
      refine ((hbody ⟨[], []⟩ b).besides f.held).bind fun inner b₁ _ => ?_
      refine ((condition_keeps g h true inner b₁).besides f.held).bind_last fun r b₂ _ => ?_
      refine ((finish_keeps r.2.2).among (r.1.operands ++ f.held) fun id => ?_).bind_last fun statements _ _ =>
        .emit f _ fun id => ?_
      · simp only [List.mem_append]
        tauto
      · simp only [List.mem_append, Statement.roots_doWhile]
        tauto

mutual

/-- Every section keeps the ledger. -/
theorem sectionInto_keeps (s : Section) (hs : L.Asks (s.subtree.all (Section.isExecutable src.method.code) = true)) (f : Frame)
    (b : Builder) :
    L.Keeps b (sectionInto src settings s f) f.held (sectionLog src settings L.entries s f b) Frame.held := by
  cases s with
  | body span =>
    simp only [sectionInto, sectionLog]
    refine body_keeps (hs.mono fun hs => Span.isStraight_of_runsTo ?_) f b
    simpa [Section.isExecutable] using hs
  | branch g thenPart elsePart =>
    simp only [Section.subtree, List.all_cons, List.all_append, Bool.and_eq_true] at hs
    simp only [sectionInto, sectionLog]
    refine (condition_keeps g (hs.mono And.left) true f b).bind fun r b₁ _ => ?_
    refine ((sectionsInto_keeps thenPart (hs.mono (·.2.1))).nested _ b₁).bind fun thenOut b₂ _ => ?_
    refine ((sectionsInto_keeps elsePart (hs.mono (·.2.2))).nested _ b₂).bind_last fun elseOut _ _ => .emit r.2.2 _ fun id => ?_
    simp only [List.mem_append, Statement.roots_branch]
    tauto
  | loop kind guard loopBody update =>
    simp only [Section.subtree, List.all_cons, List.all_append, Bool.and_eq_true] at hs
    exact loop_keeps (hs.mono And.left) (sectionsInto_keeps loopBody (hs.mono (·.2.1)))
      (sectionsInto_keeps update (hs.mono (·.2.2))) f b
  | switch key cases =>
    simp only [Section.subtree, List.all_cons, Bool.and_eq_true] at hs
    simp only [sectionInto, sectionLog]
    refine (spanSwitch_keeps (hs.mono And.left)).bind_first fun last b₁ hrun => ?_
    have hstraight := hs.mono fun hs => Span.isStraight_before hs.1 (spanSwitch_eq_ok hrun).1
    refine (body_keeps hstraight f b₁).bind fun f₁ b₂ _ => ?_
    refine (pop_keeps f₁ last).bind_first fun r b₃ _ => ?_
    refine ((switchCases_keeps cases (hs.mono And.right) b₃).besides (r.1 :: r.2.held)).bind_last fun casesOut _ _ => ?_
    refine .emit r.2 _ fun id => ?_
    simp only [List.mem_append, List.mem_cons, Statement.roots_switch]
    tauto
  | tryCatch tried clauses =>
    simp only [Section.subtree, List.all_cons, List.all_append, Bool.and_eq_true] at hs
    simp only [sectionInto, sectionLog]
    refine ((sectionsInto_keeps tried (hs.mono (·.2.1))).nested f.held b).bind fun triedOut b₁ _ => ?_
    have hclauses := catches_keeps clauses (hs.mono And.left) (hs.mono (·.2.2)) b₁
    refine (hclauses.besides (Statement.roots triedOut ++ f.held)).bind_last fun clausesOut _ _ => .emit f _ fun id => ?_
    simp only [List.mem_append, Statement.roots_tryCatch]
    tauto
  | breakOut depth jump | continueNext depth jump | comment lines spans =>
    simp only [sectionInto, sectionLog]
    exact .emit f _ fun id => by simp [Statement.roots, Statement.operands]

/-- Sections whose code can be run are accounted for, and so are all sections if every failure is tolerated. -/
theorem sectionsInto_keeps (sections : List Section)
    (hs : L.Asks ((Section.subtrees sections).all (Section.isExecutable src.method.code) = true)) : L.BuildsKeeping sections := by
  intro f b
  cases sections with
  | nil =>
    simp only [sectionsInto, sectionsLog]
    exact .pure fun id => Iff.rfl
  | cons s rest =>
    simp only [Section.subtrees, List.all_append, Bool.and_eq_true] at hs
    simp only [sectionsInto, sectionsLog]
    exact (sectionInto_keeps s (hs.mono And.left) f b).bind fun f₁ b₁ _ => sectionsInto_keeps rest (hs.mono And.right) f₁ b₁

/-- Every case keeps the ledger. -/
theorem switchCases_keeps (cases : List (Case (List Section)))
    (hs : L.Asks ((Section.subtreesCases cases).all (Section.isExecutable src.method.code) = true)) (b : Builder) :
    L.Keeps b (switchCases src settings cases) [] (switchLog src settings L.entries cases b) Statement.rootsCases := by
  match cases with
  | [] =>
    simp only [switchCases, switchLog]
    exact .pure fun id => Iff.rfl
  | ⟨values, isDefault, caseBody⟩ :: rest =>
    simp only [Section.subtreesCases, List.all_append, Bool.and_eq_true] at hs
    simp only [switchCases, switchLog]
    refine ((sectionsInto_keeps caseBody (hs.mono And.left)).inner [] b).bind fun bodyOut b₁ _ => ?_
    refine ((switchCases_keeps rest (hs.mono And.right) b₁).besides (Statement.roots bodyOut)).bind_last fun others _ _ => .pure ?_
    simp [or_comm]

/-- Every clause keeps the ledger. -/
theorem catches_keeps (clauses : List (CatchSection (List Section)))
    (hheaders : L.Asks ((clauses.all fun c =>
      decide (c.header.start ≤ c.header.stop ∧ c.header.stop ≤ src.method.code.length)) = true))
    (hs : L.Asks ((Section.subtreesClauses clauses).all (Section.isExecutable src.method.code) = true)) (b : Builder) :
    L.Keeps b (catches src settings clauses) [] (catchLog src settings L.entries clauses b) Statement.rootsClauses := by
  match clauses with
  | [] =>
    simp only [catches, catchLog]
    exact .pure fun id => Iff.rfl
  | ⟨types, boundTo, header, handlerBody⟩ :: rest =>
    simp only [List.all_cons, Bool.and_eq_true, decide_eq_true_eq] at hheaders
    simp only [Section.subtreesClauses, List.all_append, Bool.and_eq_true] at hs
    simp only [catches, catchLog]
    refine (handlerStack_keeps (hheaders.mono And.left)).bind_first fun stack b₁ _ => ?_
    refine ((sectionsInto_keeps handlerBody (hs.mono And.left)).inner stack b₁).bind fun bodyOut b₂ _ => ?_
    have hrest := catches_keeps rest (hheaders.mono And.right) (hs.mono And.right) b₂
    refine (hrest.besides (Statement.roots bodyOut)).bind_last fun others _ _ => .pure ?_
    simp [or_comm]

end

/-- A whole method is accounted for, from the empty arena on. -/
theorem list_keeps (L : Ledger src settings) (sections : List Section)
    (hs : L.Asks ((Section.subtrees sections).all (Section.isExecutable src.method.code) = true)) (hempty : L.Holds [] #[] [])
    (events : List Event) :
    match list src settings sections ⟨#[], events⟩ with
    | .ok statements b => L.Holds (Statement.roots statements) b.arena (src.log settings L.entries sections events)
    | .error e _ => L.Tolerates e := by
  have hkeeps := (sectionsInto_keeps sections hs).inner [] ⟨#[], events⟩ [] [] hempty
  unfold list
  cases hrun : orComment src settings sections (sectionsInto src settings sections ⟨[], []⟩) ⟨#[], events⟩ with
  | ok statements b =>
    rw [hrun] at hkeeps
    dsimp only at hkeeps ⊢
    rw [List.append_nil, List.nil_append] at hkeeps
    exact hkeeps
  | error e b =>
    rw [hrun] at hkeeps
    exact hkeeps.1

end Ledger

end CodeLift
