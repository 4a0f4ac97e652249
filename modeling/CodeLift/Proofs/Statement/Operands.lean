import CodeLift.Proofs.Statement.Frames
import CodeLift.Proofs.Subtrees

/-!
# Operands stay in the arena

Expressions, stacks and statements name expressions by their places in the arena, which only grows. `Building.Sound` says of an
action that it keeps the arena closed under these names, what holds of its result, and that it fails for the values of the code
only. `Frame.Sound` says of a list of statements being built that what it holds is there.
-/

namespace CodeLift

/-! ## Arenas -/

theorem Arena.size_lt_push (a : Arena) (e : Expr) : a.size < (a.push e).size := by
  rw [Array.size_push]
  exact Nat.lt_succ_self _

/-- Every expression of the arena refers to expressions of the arena only. -/
def Arena.IsClosed (arena : Arena) : Prop :=
  ∀ (id : Nat) (e : Expr), arena[id]? = some e → ∀ child ∈ e.children, child < arena.size

namespace Arena.IsClosed

variable {arena : Arena} {e : Expr}

/-- The empty arena is closed. -/
theorem empty : Arena.IsClosed #[] := by
  intro id e h
  simp at h

/-- An expression over expressions of the arena can be added. -/
theorem push (h : arena.IsClosed) (he : ∀ child ∈ e.children, child < arena.size) : Arena.IsClosed (arena.push e) := by
  intro id e' hid child hchild
  rw [Array.size_push]
  rw [Array.getElem?_push] at hid
  split at hid
  · cases hid
    exact Nat.lt_succ_of_lt (he child hchild)
  · exact Nat.lt_succ_of_lt (h id e' hid child hchild)

/-- An expression can be replaced by one over expressions of the arena. -/
theorem set (h : arena.IsClosed) (he : ∀ child ∈ e.children, child < arena.size) (id : Nat) :
    Arena.IsClosed (arena.setIfInBounds id e) := by
  intro id' e' hid child hchild
  rw [Array.size_setIfInBounds]
  rw [Array.getElem?_setIfInBounds] at hid
  split at hid
  · split at hid
    · cases hid
      exact he child hchild
    · cases hid
  · exact h id' e' hid child hchild

end Arena.IsClosed

/-! ## Actions -/

/-- Whether an error is about the values that code takes or leaves, or about a descriptor that it names. -/
def StatementError.isAboutValues : StatementError → Bool
  | .stackUnderflow _ | .stackNotEmpty _ | .statementInCondition _ | .descriptor _ => true
  | _ => false

/-- The arena of the second builder is closed and has all the places of the first. -/
def Builder.Extends (b b' : Builder) : Prop := b'.arena.IsClosed ∧ b.arena.size ≤ b'.arena.size

namespace Building

variable {α β : Type} {b : Builder}

/-- The action, run from a builder with a closed arena, extends it. Its result satisfies `Q`, which is told how many expressions
there are then, and its failure is about values. -/
def Sound (b : Builder) (x : Building α) (Q : α → Nat → Prop) : Prop :=
  b.arena.IsClosed →
    match x b with
    | .ok a b' => b.Extends b' ∧ Q a b'.arena.size
    | .error e b' => b.Extends b' ∧ e.isAboutValues = true

namespace Sound

/-- Nothing is done to the arena. -/
theorem pure {a : α} {Q : α → Nat → Prop} (h : Q a b.arena.size) : Sound b (Pure.pure a) Q :=
  fun hb => ⟨⟨hb, Nat.le_refl _⟩, h⟩

/-- A failure that is about values. -/
theorem throw {e : StatementError} {Q : α → Nat → Prop} (h : e.isAboutValues = true) :
    Sound b (MonadExcept.throw e : Building α) Q :=
  fun hb => ⟨⟨hb, Nat.le_refl _⟩, h⟩

/-- What follows an action finds the arena at least as large as before. -/
theorem bind {x : Building α} {f : α → Building β} {Q : α → Nat → Prop} {R : β → Nat → Prop} (hx : Sound b x Q)
    (hf : ∀ a b', b.arena.size ≤ b'.arena.size → Q a b'.arena.size → Sound b' (f a) R) : Sound b (x >>= f) R := by
  intro hb
  have hx := hx hb
  cases hrun : x b with
  | error e b' =>
    rw [hrun] at hx
    rw [run_bind_of_error hrun]
    exact hx
  | ok a b' =>
    rw [hrun] at hx
    rw [run_bind_of_ok hrun]
    have hf := hf a b' hx.1.2 hx.2 hx.1.1
    cases hrun' : f a b' with
    | ok c b'' =>
      rw [hrun'] at hf
      exact ⟨⟨hf.1.1, Nat.le_trans hx.1.2 hf.1.2⟩, hf.2⟩
    | error e b'' =>
      rw [hrun'] at hf
      exact ⟨⟨hf.1.1, Nat.le_trans hx.1.2 hf.1.2⟩, hf.2⟩

/-- A computation without an arena whose failures are about values. -/
theorem ofExcept {ε : Type} {f : ε → StatementError} {x : Except ε α} {Q : α → Nat → Prop} (hok : ∀ a, x = .ok a → Q a b.arena.size)
    (herr : ∀ e, x = .error e → (f e).isAboutValues = true) : Sound b (Building.ofExcept f x) Q := by
  cases x with
  | ok a => exact .pure (hok a rfl)
  | error e => exact .throw (herr e rfl)

/-- A new expression has a place of its own, and its operands have places already. -/
theorem alloc {e : Expr} (he : ∀ child ∈ e.children, child < b.arena.size) :
    Sound b (Building.alloc e) fun id n => id < n ∧ b.arena.size ≤ n := by
  intro hb
  have hlt := b.arena.size_lt_push e
  exact ⟨⟨hb.push he, Nat.le_of_lt hlt⟩, hlt, Nat.le_of_lt hlt⟩

/-- An expression of the arena can be looked up. -/
theorem exprAt {index : Nat} {id : ExprId} (hid : id < b.arena.size) :
    Sound b (Building.exprAt index id) fun _ n => n = b.arena.size := by
  intro hb
  have hrun : Building.exprAt index id b = .ok b.arena[id] b := by
    unfold Building.exprAt
    rw [run_bind_of_ok (rfl : (get : Building Builder) b = .ok b b), Array.getElem?_eq_getElem hid]
    rfl
  rw [hrun]
  exact ⟨⟨hb, Nat.le_refl _⟩, rfl⟩

/-- An expression can be replaced, which changes no places. -/
theorem setExpr {id : ExprId} {e : Expr} (he : ∀ child ∈ e.children, child < b.arena.size) :
    Sound b (modify fun b => { b with arena := b.arena.setIfInBounds id e }) fun _ n => n = b.arena.size := by
  intro hb
  have hsize : (b.arena.setIfInBounds id e).size = b.arena.size := Array.size_setIfInBounds
  exact ⟨⟨hb.set he id, Nat.le_of_eq hsize.symm⟩, hsize⟩

end Sound

end Building

/-! ## Conditions and statements -/

namespace Condition

mutual

/-- The expressions that a condition compares. -/
def operands : Condition → List ExprId
  | .compare _ lhs rhs => [lhs, rhs]
  | .and parts | .or parts => operandsAll parts

/-- The expressions that several conditions compare. -/
def operandsAll : List Condition → List ExprId
  | [] => []
  | part :: rest => part.operands ++ operandsAll rest

end

mutual

/-- Whether every "and" and "or" in a condition has two parts at least. -/
def isProper : Condition → Bool
  | .compare _ _ _ => true
  | .and parts | .or parts => decide (2 ≤ parts.length) && isProperAll parts

/-- Whether every "and" and "or" in some conditions has two parts at least. -/
def isProperAll : List Condition → Bool
  | [] => true
  | part :: rest => part.isProper && isProperAll rest

end

attribute [simp] operands operandsAll isProper isProperAll negate negateAll

@[simp]
theorem length_negateAll (parts : List Condition) : (negateAll parts).length = parts.length := by
  induction parts with
  | nil => rfl
  | cons part rest ih => simp [ih]

mutual

/-- A condition and its negation compare the same expressions. -/
@[simp]
theorem operands_negate (c : Condition) : c.negate.operands = c.operands := by
  cases c with
  | compare op lhs rhs => simp
  | and parts => simp [operandsAll_negateAll parts]
  | or parts => simp [operandsAll_negateAll parts]

@[simp]
theorem operandsAll_negateAll (parts : List Condition) : operandsAll (negateAll parts) = operandsAll parts := by
  cases parts with
  | nil => rfl
  | cons part rest => simp [operands_negate part, operandsAll_negateAll rest]

end

mutual

/-- A condition is proper if its negation is. -/
@[simp]
theorem isProper_negate (c : Condition) : c.negate.isProper = c.isProper := by
  cases c with
  | compare op lhs rhs => simp
  | and parts => simp [isProperAll_negateAll parts]
  | or parts => simp [isProperAll_negateAll parts]

@[simp]
theorem isProperAll_negateAll (parts : List Condition) : isProperAll (negateAll parts) = isProperAll parts := by
  cases parts with
  | nil => rfl
  | cons part rest => simp [isProper_negate part, isProperAll_negateAll rest]

end

end Condition

namespace Statement

/-- The expressions that a statement refers to, the statements inside it apart. -/
def operands : Statement → List ExprId
  | .assign _ value | .expr value | .throw value => [value]
  | .assignField object _ _ value => object.toList ++ [value]
  | .ret value => value.toList
  | .branch condition _ _ | .doWhile condition _ | .forUpdate condition _ _ => condition.operands
  | .whileDo condition _ => (condition.map Condition.operands).getD []
  | .switch key _ => [key]
  | _ => []

/-- What straight code becomes: simple statements, or a comment. -/
def isStraight : Statement → Bool
  | .comment _ => true
  | s => s.isSimple

/-- Whether a statement on its own is well formed: a break leaves a loop or switch around it, a continue is of a loop around it,
the update of a loop is straight, and conditions are proper. -/
def isWellFormed (scope : Scope) : Statement → Bool
  | .breakOut depth => decide (depth < scope.breakables)
  | .continueNext depth => decide (depth < scope.loops)
  | .branch condition _ _ | .doWhile condition _ => condition.isProper
  | .whileDo condition _ => condition.all Condition.isProper
  | .forUpdate condition update _ => condition.isProper && update.all isStraight
  | _ => true

/-- Whether a statement on its own is well formed and refers to the first `n` expressions only. -/
def isSound (n : Nat) (scope : Scope) (s : Statement) : Bool := s.isWellFormed scope && s.operands.all (· < n)

/-- A simple statement is well formed anywhere. -/
theorem isWellFormed_of_isSimple {scope : Scope} {s : Statement} (h : s.isSimple = true) : s.isWellFormed scope = true := by
  cases s <;> simp_all [isSimple, isWellFormed]

/-- Simple statements are what straight code becomes. -/
theorem isStraight_of_isSimple {s : Statement} (h : s.isSimple = true) : s.isStraight = true := by
  cases s <;> simp_all [isSimple, isStraight]

/-- A simple statement holds no statements, so that a test on all of it is a test on it alone. -/
theorem everywhere_of_isSimple {p : Scope → Statement → Bool} {scope : Scope} {s : Statement} (h : s.isSimple = true) :
    everywhere p scope s = p scope s := by
  cases s <;> simp_all [isSimple]

/-- The statements of a list, and all inside them, are well formed and refer to the first `n` expressions only. -/
def SoundAll (scope : Scope) (n : Nat) (statements : List Statement) : Prop :=
  everywhereAll (isSound n) scope statements = true

/-! ## What statements refer to -/

/-- The expressions that statements refer to, also those inside others. -/
def roots (statements : List Statement) : List ExprId := (subtrees statements).flatMap operands

/-- The expressions that the bodies of cases refer to. -/
def rootsCases (cases : List (Case (List Statement))) : List ExprId := (subtreesCases cases).flatMap operands

/-- The expressions that the bodies of clauses refer to. -/
def rootsClauses (clauses : List (Catch (List Statement))) : List ExprId := (subtreesClauses clauses).flatMap operands

section

variable (c : Condition) (body : List Statement)

@[simp] theorem roots_nil : roots [] = [] := rfl

@[simp] theorem roots_append (xs ys : List Statement) : roots (xs ++ ys) = roots xs ++ roots ys := by simp [roots]

/-- A simple statement refers to its operands only. -/
theorem roots_of_isSimple {s : Statement} (h : s.isSimple = true) : roots [s] = s.operands := by
  cases s <;> simp_all [roots, isSimple]

@[simp] theorem roots_expr (value : ExprId) : roots [.expr value] = [value] := roots_of_isSimple rfl

@[simp] theorem roots_branch (elsePart : List Statement) :
    roots [.branch c body elsePart] = c.operands ++ (roots body ++ roots elsePart) := by simp [roots, operands]

@[simp] theorem roots_whileDo (condition : Option Condition) :
    roots [.whileDo condition body] = (condition.map Condition.operands).getD [] ++ roots body := by simp [roots, operands]

@[simp] theorem roots_doWhile : roots [.doWhile c body] = c.operands ++ roots body := by simp [roots, operands]

@[simp] theorem roots_forUpdate (update : List Statement) :
    roots [.forUpdate c update body] = c.operands ++ (roots body ++ roots update) := by simp [roots, operands]

@[simp] theorem roots_switch (key : ExprId) (cases : List (Case (List Statement))) :
    roots [.switch key cases] = key :: rootsCases cases := by simp [roots, rootsCases, operands]

@[simp] theorem roots_tryCatch (clauses : List (Catch (List Statement))) :
    roots [.tryCatch body clauses] = roots body ++ rootsClauses clauses := by simp [roots, rootsClauses, operands]

@[simp] theorem rootsCases_cons (values : List Int32) (isDefault : Bool) (rest : List (Case (List Statement))) :
    rootsCases (⟨values, isDefault, body⟩ :: rest) = roots body ++ rootsCases rest := by simp [roots, rootsCases]

@[simp] theorem rootsClauses_cons (types : List CatchType) (boundTo : Option LocalId) (rest : List (Catch (List Statement))) :
    rootsClauses (⟨types, boundTo, body⟩ :: rest) = roots body ++ rootsClauses rest := by simp [roots, rootsClauses]

end

/-- Statements are sound if they are well formed and what they refer to is there. -/
theorem soundAll_iff {scope : Scope} {n : Nat} {statements : List Statement} :
    SoundAll scope n statements ↔
      everywhereAll isWellFormed scope statements = true ∧ ∀ id ∈ roots statements, id < n := by
  constructor
  · intro h
    refine ⟨everywhereAll_mono (fun _ _ hs => (Bool.and_eq_true_iff.1 hs).1) h, fun id hid => ?_⟩
    obtain ⟨s, hs, hid⟩ := List.mem_flatMap.1 hid
    obtain ⟨_, hsound⟩ := everywhereAll_subtrees h hs
    simp only [isSound, Bool.and_eq_true, List.all_eq_true, decide_eq_true_eq] at hsound
    exact hsound.2 id hid
  · rintro ⟨hwell, hroots⟩
    have hoperands : everywhereAll (fun _ s => s.operands.all (· < n)) scope statements = true := by
      rw [everywhereAll_eq_all (fun s => s.operands.all (· < n))]
      simpa [List.all_eq_true, roots] using fun s hs id hid => hroots id (List.mem_flatMap.2 ⟨s, hs, hid⟩)
    exact everywhereAll_and (fun _ _ hs hs' => Bool.and_eq_true_iff.2 ⟨hs, hs'⟩) hwell hoperands

end Statement

/-! ## Frames -/

namespace Frame

/-- The expressions that a frame holds: those on its stack, and those that its statements refer to. -/
def held (f : Frame) : List ExprId := f.stack ++ Statement.roots f.out

@[simp] theorem held_nil (stack : List ExprId) : held ⟨stack, []⟩ = stack := List.append_nil stack

/-- An expression is held on the stack or by a statement. -/
theorem mem_held {f : Frame} {id : ExprId} : id ∈ f.held ↔ id ∈ f.stack ∨ id ∈ Statement.roots f.out := List.mem_append

@[simp] theorem held_emit (f : Frame) (s : Statement) : (f.emit s).held = f.held ++ Statement.roots [s] := by
  rw [held, emit, Statement.roots_append, ← List.append_assoc, held]

/-- The frame holds some of the first `n` expressions only. -/
def Sound (n : Nat) (f : Frame) : Prop := ∀ id ∈ f.held, id < n

open Building

variable {n n' : Nat} {f : Frame} {b : Builder}

/-- A frame that is sound stays so while the arena grows. -/
theorem Sound.mono (hle : n ≤ n') (h : f.Sound n) : f.Sound n' := fun id hid => Nat.lt_of_lt_of_le (h id hid) hle

/-- An expression of the arena can be pushed. -/
theorem Sound.push (h : f.Sound n) {id : ExprId} (hid : id < n) : (f.push id).Sound n := List.forall_mem_cons.2 ⟨hid, h⟩

/-- A simple statement over expressions of the arena can be added. -/
theorem Sound.emit (h : f.Sound n) {s : Statement} (hs : s.isSimple = true) (hoperands : ∀ id ∈ s.operands, id < n) :
    (f.emit s).Sound n := by
  intro id hid
  rw [held_emit, Statement.roots_of_isSimple hs] at hid
  rcases List.mem_append.1 hid with hid | hid
  · exact h id hid
  · exact hoperands id hid

/-- The value on top of the stack is taken off. -/
theorem pop_sound (h : f.Sound b.arena.size) (index : Nat) :
    Building.Sound b (f.pop index) fun r n => r.1 < n ∧ r.2.Sound n := by
  obtain ⟨stack, out⟩ := f
  cases stack with
  | nil => exact .throw rfl
  | cons value stack => exact .pure (List.forall_mem_cons.1 h)

/-- Several values are taken off the stack. -/
theorem popMany_sound (h : f.Sound b.arena.size) (index count : Nat) :
    Building.Sound b (f.popMany index count) fun r n => (∀ id ∈ r.1, id < n) ∧ r.2.Sound n := by
  induction count generalizing f b with
  | zero => exact .pure ⟨by simp, h⟩
  | succ count ih =>
    unfold popMany
    refine (pop_sound h index).bind fun r b' _ hr => ?_
    refine (ih hr.2).bind fun r' b'' hle hr' => .pure ⟨?_, hr'.2⟩
    intro id hid
    rcases List.mem_append.1 hid with hid | hid
    · exact hr'.1 id hid
    · rw [List.mem_singleton.1 hid]
      exact Nat.lt_of_lt_of_le hr.1 hle

/-- A value is taken off the stack if it is needed. -/
theorem popIf_sound (h : f.Sound b.arena.size) (index : Nat) (needed : Bool) :
    Building.Sound b (f.popIf index needed) fun r n => (∀ id ∈ r.1.toList, id < n) ∧ r.2.Sound n := by
  unfold popIf
  split
  · exact (pop_sound h index).bind fun r b' _ hr => .pure ⟨by simpa using hr.1, hr.2⟩
  · exact .pure ⟨by simp, h⟩

/-- A new expression over expressions of the arena is pushed. -/
theorem pushNew_sound (h : f.Sound b.arena.size) {e : Expr} (he : ∀ child ∈ e.children, child < b.arena.size) :
    Building.Sound b (f.pushNew e) fun f' n => f'.Sound n :=
  (Building.Sound.alloc he).bind fun _ _ _ hid => .pure ((h.mono hid.2).push hid.1)

end Frame

end CodeLift
