import CodeLift.Proofs.Statement.Frames

/-!
# What one instruction does to a frame

`Build.Ran` is the relation between the arena and the frame before an instruction of straight code and those after it. It has one
rule for each way in which an instruction can run, so that what straight code preserves is shown rule by rule, without looking
into the actions that run it.
-/

namespace CodeLift

open Building

/-! ## Single actions -/

/-- A computation without an arena succeeds where its outcome is a value. -/
theorem Building.ofExcept_eq_ok {ε α : Type} {g : ε → StatementError} {x : Except ε α} {b b' : Builder} {a : α} :
    Building.ofExcept g x b = .ok a b' ↔ x = .ok a ∧ b' = b := by
  cases x with
  | ok a' =>
    change EStateM.Result.ok a' b = .ok a b' ↔ _
    simp [eq_comm]
  | error e =>
    change EStateM.Result.error (g e) b = .ok a b' ↔ _
    simp

/-- A new expression gets the next place. -/
theorem Building.alloc_eq_ok {e : Expr} {b b' : Builder} {id : ExprId} :
    Building.alloc e b = .ok id b' ↔ id = b.arena.size ∧ b' = { b with arena := b.arena.push e } := by
  change EStateM.Result.ok b.arena.size { b with arena := b.arena.push e } = .ok id b' ↔ _
  simp [eq_comm]

/-- An expression that is looked up is in the arena. -/
theorem Building.exprAt_eq_ok {index : Nat} {id : ExprId} {b b' : Builder} {e : Expr}
    (h : Building.exprAt index id b = .ok e b') : b.arena[id]? = some e ∧ b' = b := by
  unfold Building.exprAt at h
  obtain ⟨b₁, b₂, hget, hrest⟩ := run_bind_eq_ok.1 h
  cases hget
  cases he : b.arena[id]? with
  | none =>
    rw [he] at hrest
    cases hrest
  | some e' =>
    rw [he] at hrest
    cases hrest
    exact ⟨rfl, rfl⟩

namespace Frame

variable {f : Frame} {index : Nat} {b b' : Builder}

/-- The value on top is taken off, and nothing else changes. -/
theorem pop_eq_ok {r : ExprId × Frame} (h : f.pop index b = .ok r b') : f = ⟨r.1 :: r.2.stack, r.2.out⟩ ∧ b' = b := by
  obtain ⟨stack, out⟩ := f
  cases stack with
  | nil => cases h
  | cons value stack =>
    cases h
    exact ⟨rfl, rfl⟩

/-- A value is taken off exactly if it is needed. -/
theorem popIf_eq_ok {needed : Bool} {r : Option ExprId × Frame} (h : f.popIf index needed b = .ok r b') :
    f = ⟨r.1.toList ++ r.2.stack, r.2.out⟩ ∧ r.1.isSome = needed ∧ b' = b := by
  unfold popIf at h
  by_cases hneeded : needed = true
  · rw [if_pos hneeded] at h
    obtain ⟨r₁, b₁, hpop, hrest⟩ := run_bind_eq_ok.1 h
    obtain ⟨rfl, rfl⟩ := pop_eq_ok hpop
    cases hrest
    exact ⟨rfl, hneeded.symm, rfl⟩
  · rw [if_neg hneeded] at h
    cases h
    exact ⟨rfl, (Bool.eq_false_iff.2 hneeded).symm, rfl⟩

/-- The values taken off the stack lie on it with the last one on top. -/
theorem popMany_eq_ok {n : Nat} {r : List ExprId × Frame} (h : f.popMany index n b = .ok r b') :
    f = ⟨r.1.reverse ++ r.2.stack, r.2.out⟩ ∧ r.1.length = n ∧ b' = b := by
  induction n generalizing f r b' with
  | zero =>
    cases h
    exact ⟨rfl, rfl, rfl⟩
  | succ n ih =>
    unfold popMany at h
    obtain ⟨r₁, b₁, hpop, hrest⟩ := run_bind_eq_ok.1 h
    obtain ⟨rfl, rfl⟩ := pop_eq_ok hpop
    obtain ⟨r₂, b₂, hmany, hrest'⟩ := run_bind_eq_ok.1 hrest
    obtain ⟨hframe, hlen, rfl⟩ := ih hmany
    cases hrest'
    refine ⟨?_, by simp [hlen], rfl⟩
    rw [hframe]
    simp

/-- A new expression is pushed where it was added. -/
theorem pushNew_eq_ok {e : Expr} {f' : Frame} (h : f.pushNew e b = .ok f' b') :
    f' = f.push b.arena.size ∧ b' = { b with arena := b.arena.push e } := by
  unfold pushNew at h
  obtain ⟨id, b₁, halloc, hrest⟩ := run_bind_eq_ok.1 h
  obtain ⟨rfl, rfl⟩ := Building.alloc_eq_ok.1 halloc
  cases hrest
  exact ⟨rfl, rfl⟩

/-- A list of its own leaves the stack empty. -/
theorem finish_eq_ok {statements : List Statement} (h : f.finish b = .ok statements b') :
    f = ⟨[], statements⟩ ∧ b' = b := by
  obtain ⟨stack, out⟩ := f
  cases stack with
  | nil =>
    cases h
    exact ⟨rfl, rfl⟩
  | cons value stack => cases h

end Frame

/-! ## Runs -/

/-- Runs the instructions at the given indices one after another, as long as each of them can be run. -/
def runEach {σ : Type} (code : List Insn) (step : Nat → Insn → σ → Option σ) (indices : List Nat) (s : σ) : Option σ :=
  indices.foldlM (fun s index => code[index]?.bind fun i => step index i s) s

section

variable {σ : Type} {code : List Insn} {step : Nat → Insn → σ → Option σ}

/-- The first instruction is run before the rest. -/
theorem runEach_cons {index : Nat} {i : Insn} (hi : code[index]? = some i) (rest : List Nat) (s : σ) :
    runEach code step (index :: rest) s = (step index i s).bind (runEach code step rest) := by
  simp [runEach, hi]
  rfl

/-- All instructions can be run if the first can, and then the rest. -/
theorem isSome_runEach_cons {index : Nat} {i : Insn} (hi : code[index]? = some i) {rest : List Nat} {s : σ} :
    (runEach code step (index :: rest) s).isSome = true ↔
      ∃ s', step index i s = some s' ∧ (runEach code step rest s').isSome = true := by
  rw [runEach_cons hi, Option.isSome_bind, Option.any_eq_true]

end

namespace Build

/-! ## The rules -/

/-- What running the instruction at an index does to an arena and a frame: those before it, and those after it. -/
inductive Ran (ls : Locals) (index : Nat) : Insn → Arena → Frame → Arena → Frame → Prop where
  | label (name : Label) (a : Arena) (f : Frame) : Ran ls index (.label name) a f a f
  | line (number : Nat) (a : Arena) (f : Frame) : Ran ls index (.line number) a f a f
  | nop (a : Arena) (f : Frame) : Ran ls index .nop a f a f
  | constNull (a : Arena) (f : Frame) : Ran ls index .constNull a f (a.push .null) (f.push a.size)
  | constInt (value : Int32) (a : Arena) (f : Frame) : Ran ls index (.constInt value) a f (a.push (.int value)) (f.push a.size)
  | constString (value : String) (a : Arena) (f : Frame) :
      Ran ls index (.constString value) a f (a.push (.string value)) (f.push a.size)
  | load {kind : ValueKind} {slot : Nat} {x : LocalId} (a : Arena) (f : Frame) (hx : ls.resolve slot index = .ok x) :
      Ran ls index (.load kind slot) a f (a.push (.var x)) (f.push a.size)
  | store {kind : ValueKind} {slot : Nat} {x : LocalId} (a : Arena) (value : ExprId) (stack : List ExprId) (out : List Statement)
      (hx : ls.resolve slot index = .ok x) :
      Ran ls index (.store kind slot) a ⟨value :: stack, out⟩ a ⟨stack, out ++ [.assign x value]⟩
  | increment {slot : Nat} {amount : Int16} {x : LocalId} (a : Arena) (f : Frame) (hx : ls.resolve slot index = .ok x) :
      Ran ls index (.increment slot amount) a f a (f.emit (.increment x amount.toInt32))
  | arith (kind : ValueKind) (op : ArithOp) (a : Arena) (lhs rhs : ExprId) (stack : List ExprId) (out : List Statement) :
      Ran ls index (.arith kind op) a ⟨rhs :: lhs :: stack, out⟩ (a.push (.arith op lhs rhs)) ⟨a.size :: stack, out⟩
  | pop {a : Arena} {value : ExprId} {e : Expr} (stack : List ExprId) (out : List Statement) (he : a[value]? = some e) :
      Ran ls index .pop a ⟨value :: stack, out⟩ a ⟨stack, if e.hasEffects then out ++ [.expr value] else out⟩
  | dup (a : Arena) (value : ExprId) (stack : List ExprId) (out : List Statement) :
      Ran ls index .dup a ⟨value :: stack, out⟩ a ⟨value :: value :: stack, out⟩
  | new (className : String) (a : Arena) (f : Frame) :
      Ran ls index (.new className) a f (a.push (.newUninitialized className)) (f.push a.size)
  | getField {field : FieldRef} {object : Option ExprId} (a : Arena) (stack : List ExprId) (out : List Statement)
      (hobject : object.isSome = !field.isStatic) :
      Ran ls index (.getField field) a ⟨object.toList ++ stack, out⟩ (a.push (.field object field.owner field.name))
        ⟨a.size :: stack, out⟩
  | putField {field : FieldRef} {object : Option ExprId} (a : Arena) (value : ExprId) (stack : List ExprId) (out : List Statement)
      (hobject : object.isSome = !field.isStatic) :
      Ran ls index (.putField field) a ⟨value :: (object.toList ++ stack), out⟩ a
        ⟨stack, out ++ [.assignField object field.owner field.name value]⟩
  /-- A constructor call on an object under construction. -/
  | complete {method : MethodRef} {type : MethodType} {a : Arena} {arguments : List ExprId} {id : ExprId} {className : String}
      (stack : List ExprId) (out : List Statement) (htype : MethodType.parse method.descriptor = .ok type)
      (hlen : arguments.length = type.parameters.length) (hconstructor : method.isConstructor = true)
      (hid : a[id]? = some (.newUninitialized className)) :
      Ran ls index (.invoke method) a ⟨arguments.reverse ++ id :: stack, out⟩
        (a.setIfInBounds id (.new className method.descriptor arguments))
        ⟨stack, if stack.contains id then out else out ++ [.expr id]⟩
  /-- Any other call. -/
  | call {method : MethodRef} {type : MethodType} {a : Arena} {arguments : List ExprId} {object : Option ExprId}
      (stack : List ExprId) (out : List Statement) (htype : MethodType.parse method.descriptor = .ok type)
      (hlen : arguments.length = type.parameters.length) (hobject : object.isSome = (method.kind != .static))
      (hother : method.isConstructor = true → ∀ id ∈ object, ∀ className, a[id]? ≠ some (.newUninitialized className)) :
      Ran ls index (.invoke method) a ⟨arguments.reverse ++ (object.toList ++ stack), out⟩
        (a.push (.call method object arguments))
        (if type.result.isSome then ⟨a.size :: stack, out⟩ else ⟨stack, out ++ [.expr a.size]⟩)
  | ret (a : Arena) (f : Frame) : Ran ls index (.ret none) a f a (f.emit (.ret none))
  | retValue (kind : ValueKind) (a : Arena) (value : ExprId) (stack : List ExprId) (out : List Statement) :
      Ran ls index (.ret (some kind)) a ⟨value :: stack, out⟩ a ⟨stack, out ++ [.ret (some value)]⟩
  | throw (a : Arena) (value : ExprId) (stack : List ExprId) (out : List Statement) :
      Ran ls index .throw a ⟨value :: stack, out⟩ a ⟨stack, out ++ [.throw value]⟩

variable {ls : Locals} {index : Nat} {f f' : Frame} {b b' : Builder}

/-- An object under construction is found only for a constructor. -/
theorem uninitialized?_eq_ok {method : MethodRef} {object : Option ExprId} {found : Option (ExprId × String)}
    (h : uninitialized? index method object b = .ok found b') :
    b' = b ∧
      match found with
      | some (id, className) => object = some id ∧ method.isConstructor = true ∧ b.arena[id]? = some (.newUninitialized className)
      | none => method.isConstructor = true → ∀ id ∈ object, ∀ className, b.arena[id]? ≠ some (.newUninitialized className) := by
  unfold uninitialized? at h
  cases object with
  | none =>
    cases h
    exact ⟨rfl, by simp⟩
  | some id =>
    dsimp only at h
    by_cases hconstructor : method.isConstructor = true
    · rw [if_pos hconstructor] at h
      obtain ⟨e, b₁, hexpr, hrest⟩ := run_bind_eq_ok.1 h
      obtain ⟨he, rfl⟩ := Building.exprAt_eq_ok hexpr
      split at hrest
      · cases hrest
        exact ⟨rfl, rfl, hconstructor, he⟩
      · rename_i hne
        cases hrest
        refine ⟨rfl, ?_⟩
        rintro - _ ⟨⟩ className hclass
        rw [he] at hclass
        exact hne className (Option.some.inj hclass)
    · rw [if_neg hconstructor] at h
      cases h
      exact ⟨rfl, fun h => absurd h hconstructor⟩

/-- A call that succeeds has run as its instruction does. -/
theorem call_ran {method : MethodRef} (h : call index method f b = .ok f' b') :
    Ran ls index (.invoke method) b.arena f b'.arena f' ∧ b'.events = b.events := by
  unfold call at h
  obtain ⟨type, b₁, hparse, h₁⟩ := run_bind_eq_ok.1 h
  obtain ⟨htype, rfl⟩ := Building.ofExcept_eq_ok.1 hparse
  obtain ⟨⟨arguments, f₁⟩, b₂, hmany, h₂⟩ := run_bind_eq_ok.1 h₁
  obtain ⟨rfl, hlen, rfl⟩ := Frame.popMany_eq_ok hmany
  obtain ⟨⟨object, f₂⟩, b₃, hif, h₃⟩ := run_bind_eq_ok.1 h₂
  obtain ⟨hframe, hobject, rfl⟩ := Frame.popIf_eq_ok hif
  obtain ⟨found, b₄, hfound, h₄⟩ := run_bind_eq_ok.1 h₃
  obtain ⟨rfl, hfound⟩ := uninitialized?_eq_ok hfound
  dsimp only at hframe hobject h₄ ⊢
  subst hframe
  cases found with
  | some r =>
    obtain ⟨rfl, hconstructor, hid⟩ := hfound
    obtain ⟨_, b₅, hset, h₅⟩ := run_bind_eq_ok.1 h₄
    cases hset
    cases h₅
    refine ⟨?_, rfl⟩
    have hran : Ran ls index (.invoke method) _ _ _ _ := .complete f₂.stack f₂.out htype hlen hconstructor hid
    by_cases hmem : f₂.stack.contains r.1 = true
    · rw [if_pos hmem] at hran ⊢
      exact hran
    · rw [if_neg hmem] at hran ⊢
      exact hran
  | none =>
    obtain ⟨id, b₅, halloc, h₅⟩ := run_bind_eq_ok.1 h₄
    obtain ⟨rfl, rfl⟩ := Building.alloc_eq_ok.1 halloc
    cases h₅
    refine ⟨?_, rfl⟩
    have hran : Ran ls index (.invoke method) _ _ _ _ := .call f₂.stack f₂.out htype hlen hobject hfound
    by_cases hresult : type.result.isSome = true
    · rw [if_pos hresult] at hran ⊢
      exact hran
    · rw [if_neg hresult] at hran ⊢
      exact hran

/-- An instruction runs by one of the rules, and reports nothing. -/
theorem insn_ran {i : Insn} (h : insn ls index i f b = .ok f' b') :
    Ran ls index i b.arena f b'.arena f' ∧ b'.events = b.events := by
  cases i with
  | label name =>
    cases h
    exact ⟨.label name _ _, rfl⟩
  | line number =>
    cases h
    exact ⟨.line number _ _, rfl⟩
  | nop =>
    cases h
    exact ⟨.nop _ _, rfl⟩
  | constNull =>
    obtain ⟨rfl, rfl⟩ := Frame.pushNew_eq_ok h
    exact ⟨.constNull _ _, rfl⟩
  | constInt value =>
    obtain ⟨rfl, rfl⟩ := Frame.pushNew_eq_ok h
    exact ⟨.constInt value _ _, rfl⟩
  | constString value =>
    obtain ⟨rfl, rfl⟩ := Frame.pushNew_eq_ok h
    exact ⟨.constString value _ _, rfl⟩
  | load kind slot =>
    obtain ⟨x, b₁, hresolve, hrest⟩ := run_bind_eq_ok.1 h
    obtain ⟨hx, rfl⟩ := Building.ofExcept_eq_ok.1 hresolve
    obtain ⟨rfl, rfl⟩ := Frame.pushNew_eq_ok hrest
    exact ⟨.load _ _ hx, rfl⟩
  | store kind slot =>
    obtain ⟨r, b₁, hpop, hrest⟩ := run_bind_eq_ok.1 h
    obtain ⟨rfl, rfl⟩ := Frame.pop_eq_ok hpop
    obtain ⟨x, b₂, hresolve, hrest'⟩ := run_bind_eq_ok.1 hrest
    obtain ⟨hx, rfl⟩ := Building.ofExcept_eq_ok.1 hresolve
    cases hrest'
    exact ⟨.store _ _ _ _ hx, rfl⟩
  | increment slot amount =>
    obtain ⟨x, b₁, hresolve, hrest⟩ := run_bind_eq_ok.1 h
    obtain ⟨hx, rfl⟩ := Building.ofExcept_eq_ok.1 hresolve
    cases hrest
    exact ⟨.increment _ _ hx, rfl⟩
  | arith kind op =>
    obtain ⟨⟨rhs, f₁⟩, b₁, hpop, hrest⟩ := run_bind_eq_ok.1 h
    obtain ⟨rfl, rfl⟩ := Frame.pop_eq_ok hpop
    obtain ⟨⟨lhs, f₂⟩, b₂, hpop, hrest'⟩ := run_bind_eq_ok.1 hrest
    obtain ⟨hframe, rfl⟩ := Frame.pop_eq_ok hpop
    dsimp only at hframe
    subst hframe
    obtain ⟨rfl, rfl⟩ := Frame.pushNew_eq_ok hrest'
    exact ⟨.arith kind op _ lhs rhs _ _, rfl⟩
  | pop =>
    obtain ⟨r, b₁, hpop, hrest⟩ := run_bind_eq_ok.1 h
    obtain ⟨rfl, rfl⟩ := Frame.pop_eq_ok hpop
    obtain ⟨e, b₂, hexpr, hrest'⟩ := run_bind_eq_ok.1 hrest
    obtain ⟨he, rfl⟩ := Building.exprAt_eq_ok hexpr
    cases hrest'
    refine ⟨?_, rfl⟩
    have hran : Ran ls index .pop _ _ _ _ := .pop r.2.stack r.2.out he
    by_cases heffects : e.hasEffects = true
    · rw [if_pos heffects] at hran ⊢
      exact hran
    · rw [if_neg heffects] at hran ⊢
      exact hran
  | dup =>
    obtain ⟨r, b₁, hpop, hrest⟩ := run_bind_eq_ok.1 h
    obtain ⟨rfl, rfl⟩ := Frame.pop_eq_ok hpop
    cases hrest
    exact ⟨.dup _ _ _ _, rfl⟩
  | new className =>
    obtain ⟨rfl, rfl⟩ := Frame.pushNew_eq_ok h
    exact ⟨.new className _ _, rfl⟩
  | getField field =>
    obtain ⟨⟨object, f₁⟩, b₁, hif, hrest⟩ := run_bind_eq_ok.1 h
    obtain ⟨rfl, hobject, rfl⟩ := Frame.popIf_eq_ok hif
    obtain ⟨rfl, rfl⟩ := Frame.pushNew_eq_ok hrest
    exact ⟨.getField _ _ _ hobject, rfl⟩
  | putField field =>
    obtain ⟨⟨value, f₁⟩, b₁, hpop, hrest⟩ := run_bind_eq_ok.1 h
    obtain ⟨rfl, rfl⟩ := Frame.pop_eq_ok hpop
    obtain ⟨⟨object, f₂⟩, b₂, hif, hrest'⟩ := run_bind_eq_ok.1 hrest
    obtain ⟨hframe, hobject, rfl⟩ := Frame.popIf_eq_ok hif
    dsimp only at hframe
    subst hframe
    cases hrest'
    exact ⟨.putField _ _ _ _ hobject, rfl⟩
  | invoke method => exact call_ran h
  | jump test target => cases h
  | goto target => cases h
  | switch otherwise arms => cases h
  | ret kind =>
    cases kind with
    | none =>
      cases h
      exact ⟨.ret _ _, rfl⟩
    | some kind =>
      obtain ⟨r, b₁, hpop, hrest⟩ := run_bind_eq_ok.1 h
      obtain ⟨rfl, rfl⟩ := Frame.pop_eq_ok hpop
      cases hrest
      exact ⟨.retValue kind _ _ _ _, rfl⟩
  | throw =>
    obtain ⟨r, b₁, hpop, hrest⟩ := run_bind_eq_ok.1 h
    obtain ⟨rfl, rfl⟩ := Frame.pop_eq_ok hpop
    cases hrest
    exact ⟨.throw _ _ _ _, rfl⟩

/-! ## Straight code -/

/-- What every instruction of straight code preserves is preserved by the whole of it. -/
theorem straight_preserves {src : Source} {stop : Nat} {P : List Nat → Arena → Frame → Prop}
    (hstep : ∀ {index rest i a f a' f'}, src.method.code[index]? = some i → isImpliedGoto stop index i = false →
      Ran src.locals index i a f a' f' → P (index :: rest) a f → P rest a' f')
    (hgoto : ∀ {index rest i a f}, src.method.code[index]? = some i → isImpliedGoto stop index i = true →
      P (index :: rest) a f → P rest a f)
    {indices : List Nat} (h : straight src stop indices f b = .ok f' b') (hP : P indices b.arena f) : P [] b'.arena f' := by
  induction indices generalizing f b with
  | nil =>
    cases h
    exact hP
  | cons index rest ih =>
    unfold straight at h
    cases hi : src.method.code[index]? with
    | none =>
      rw [hi] at h
      cases h
    | some i =>
      rw [hi] at h
      dsimp only at h
      by_cases himplied : isImpliedGoto stop index i = true
      · rw [if_pos himplied, pure_bind] at h
        exact ih h (hgoto hi himplied hP)
      · rw [if_neg himplied] at h
        obtain ⟨f₁, b₁, hrun, hrest⟩ := run_bind_eq_ok.1 h
        exact ih hrest (hstep hi (Bool.eq_false_iff.2 himplied) (insn_ran hrun).1 hP)

/-! ## Jumps and lists -/

/-- The jump of a span is its last instruction. -/
theorem spanJump_eq_ok {src : Source} {span : Span} {r : JumpTest × Nat} (h : spanJump src span b = .ok r b') :
    span.stop = r.2 + 1 ∧ b' = b ∧ ∃ target, src.method.code[r.2]? = some (.jump r.1 target) := by
  unfold spanJump at h
  cases hstop : span.stop with
  | zero =>
    rw [hstop] at h
    cases h
  | succ last =>
    simp only [hstop] at h
    cases hi : src.method.code[last]? with
    | none =>
      rw [hi] at h
      cases h
    | some i =>
      rw [hi] at h
      cases i with
      | jump test target =>
        cases h
        exact ⟨rfl, rfl, target, hi⟩
      | _ => cases h

/-- The key of a switch ends in the switch itself. -/
theorem spanSwitch_eq_ok {src : Source} {key : Span} {last : Nat} (h : spanSwitch src key b = .ok last b') :
    key.stop = last + 1 ∧ b' = b ∧ ∃ otherwise arms, src.method.code[last]? = some (.switch otherwise arms) := by
  unfold spanSwitch at h
  cases hstop : key.stop with
  | zero =>
    rw [hstop] at h
    cases h
  | succ last' =>
    simp only [hstop] at h
    cases hi : src.method.code[last']? with
    | none =>
      rw [hi] at h
      cases h
    | some i =>
      rw [hi] at h
      cases i with
      | switch otherwise arms =>
        cases h
        exact ⟨rfl, rfl, otherwise, arms, hi⟩
      | _ => cases h

/-- A handler starts with the exception on its stack, or with nothing if its header takes the exception. -/
theorem handlerStack_eq_ok {src : Source} {types : List CatchType} {header : Span} {stack : List ExprId}
    (h : handlerStack src types header b = .ok stack b') :
    if (header.slice src.method.code).any (!·.isMarker) = true then stack = [] ∧ b' = b
    else stack = [b.arena.size] ∧ b' = { b with arena := b.arena.push (.caught types) } := by
  unfold handlerStack at h
  split at h
  · cases h
  · split at h
    · rename_i htakes
      cases h
      rw [if_pos htakes]
      exact ⟨rfl, rfl⟩
    · rename_i htakes
      obtain ⟨id, b₁, halloc, hrest⟩ := run_bind_eq_ok.1 h
      obtain ⟨rfl, rfl⟩ := Building.alloc_eq_ok.1 halloc
      cases hrest
      rw [if_neg htakes]
      exact ⟨rfl, rfl⟩

/-- A test takes its operands from the stack, or one of them and makes a constant for the other. -/
theorem operands_eq_ok {test : JumpTest} {r : ExprId × ExprId × Frame} (h : operands test index f b = .ok r b') :
    (test.operandCount = 2 ∧ f = ⟨r.2.1 :: r.1 :: r.2.2.stack, r.2.2.out⟩ ∧ b' = b) ∨
      test.operandCount = 1 ∧ f = ⟨r.1 :: r.2.2.stack, r.2.2.out⟩ ∧ r.2.1 = b.arena.size ∧
        ∃ e : Expr, (e = .null ∨ e = .int 0) ∧ b' = { b with arena := b.arena.push e } := by
  unfold operands at h
  by_cases htwo : test.operandCount = 2
  · rw [if_pos htwo] at h
    obtain ⟨⟨rhs, f₁⟩, b₁, hrhs, h₁⟩ := run_bind_eq_ok.1 h
    obtain ⟨rfl, rfl⟩ := Frame.pop_eq_ok hrhs
    obtain ⟨⟨lhs, f₂⟩, b₂, hlhs, h₂⟩ := run_bind_eq_ok.1 h₁
    obtain ⟨hframe, rfl⟩ := Frame.pop_eq_ok hlhs
    dsimp only at hframe
    subst hframe
    cases h₂
    exact .inl ⟨htwo, rfl, rfl⟩
  · rw [if_neg htwo] at h
    obtain ⟨⟨lhs, f₁⟩, b₁, hlhs, h₁⟩ := run_bind_eq_ok.1 h
    obtain ⟨rfl, rfl⟩ := Frame.pop_eq_ok hlhs
    obtain ⟨rhs, b₂, halloc, h₂⟩ := run_bind_eq_ok.1 h₁
    obtain ⟨rfl, rfl⟩ := Building.alloc_eq_ok.1 halloc
    cases h₂
    refine .inr ⟨?_, rfl, rfl, _, ?_, rfl⟩
    · cases test <;> simp_all [JumpTest.operandCount, JumpTest.operand]
    · cases test.comparesToNull <;> simp

/-- Where comments are not allowed, a list of sections that is built leaves nothing on its stack. -/
theorem orComment_eq_ok {src : Source} {settings : Settings} {sections : List Section} {action : Building Frame}
    {statements : List Statement} (hstrict : settings.commentOnError = false)
    (h : orComment src settings sections action b = .ok statements b') : action b = .ok ⟨[], statements⟩ b' := by
  unfold orComment at h
  cases hrun : (action >>= Frame.finish) b with
  | ok statements' b₁ =>
    rw [hrun] at h
    cases h
    obtain ⟨f, b₁, haction, hfinish⟩ := run_bind_eq_ok.1 hrun
    obtain ⟨rfl, rfl⟩ := Frame.finish_eq_ok hfinish
    exact haction
  | error e b₁ =>
    rw [hrun] at h
    simp [hstrict] at h

/-- Without comments a list of its own is what its sections become. -/
theorem list_eq_ok {src : Source} {settings : Settings} {sections : List Section} {statements : List Statement}
    (hstrict : settings.commentOnError = false) (h : list src settings sections b = .ok statements b') :
    sectionsInto src settings sections ⟨[], []⟩ b = .ok ⟨[], statements⟩ b' :=
  orComment_eq_ok hstrict h

end Build

end CodeLift
