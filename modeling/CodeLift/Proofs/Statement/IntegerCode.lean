import CodeLift.Proofs.Comments.Statements
import CodeLift.Proofs.Statement.Steps
import Mathlib.Logic.Function.Basic

/-!
# What integer code computes

Integer code is run twice: by a machine with an operand stack of integers, and as the statements it is lifted to. A statement
evaluates its expression when it is reached, whereas the machine evaluates an operand when it is pushed. The two differ when a
variable is written between a read that is still on the stack and the statement that uses it: `Pending` keeps track of such reads.
As long as no stale value is stored, the statements leave every variable with the value the machine gives it.
-/

namespace CodeLift

/-- Whether an instruction belongs to integer code: it only moves integers between the stack and the variables, or computes
with them. -/
def Insn.isInteger : Insn → Bool
  | .label _ | .line _ | .nop | .constInt _ | .load .int _ | .store .int _ | .increment _ _ | .arith .int _ | .pop | .dup => true
  | _ => false

/-- What the operators compute. -/
abbrev Interpretation := ArithOp → Int32 → Int32 → Int32

/-- The values of the variables. -/
abbrev Store := LocalId → Int32

/-- Whether the instructions at the given indices are integer code. -/
def Source.isIntegerCode (src : Source) (indices : List Nat) : Bool :=
  indices.all fun index => src.method.code[index]?.all Insn.isInteger

/-- Code is integer code if its first instruction is, and the rest. -/
theorem Source.isIntegerCode_cons {src : Source} {index : Nat} {i : Insn} (hi : src.method.code[index]? = some i)
    {rest : List Nat} : src.isIntegerCode (index :: rest) = true ↔ i.isInteger = true ∧ src.isIntegerCode rest = true := by
  simp [isIntegerCode, hi]

/-! ## The machine -/

/-- A machine that runs integer code: its operand stack, top first, and its variables. -/
structure Machine where
  stack : List Int32
  vars : Store

/-- What the instruction at an index does, if the stack holds its operands and the table has the variable it names. -/
def Machine.step (interp : Interpretation) (ls : Locals) (index : Nat) : Insn → Machine → Option Machine
  | .label _, m | .line _, m | .nop, m => some m
  | .constInt n, ⟨stack, vars⟩ => some ⟨n :: stack, vars⟩
  | .load .int slot, ⟨stack, vars⟩ => (ls.resolve slot index).toOption.map fun x => ⟨vars x :: stack, vars⟩
  | .store .int slot, ⟨v :: stack, vars⟩ => (ls.resolve slot index).toOption.map fun x => ⟨stack, Function.update vars x v⟩
  | .increment slot amount, ⟨stack, vars⟩ =>
    (ls.resolve slot index).toOption.map fun x => ⟨stack, Function.update vars x (vars x + amount.toInt32)⟩
  | .arith .int op, ⟨rhs :: lhs :: stack, vars⟩ => some ⟨interp op lhs rhs :: stack, vars⟩
  | .pop, ⟨_ :: stack, vars⟩ => some ⟨stack, vars⟩
  | .dup, ⟨v :: stack, vars⟩ => some ⟨v :: v :: stack, vars⟩
  | _, _ => none

section

variable {interp : Interpretation} {ls : Locals} {index slot : Nat} {stack : List Int32} {vars : Store}

theorem Machine.step_load : step interp ls index (.load .int slot) ⟨stack, vars⟩ =
    (ls.resolve slot index).toOption.map fun x => ⟨vars x :: stack, vars⟩ := rfl

theorem Machine.step_store {v : Int32} : step interp ls index (.store .int slot) ⟨v :: stack, vars⟩ =
    (ls.resolve slot index).toOption.map fun x => ⟨stack, Function.update vars x v⟩ := rfl

theorem Machine.step_increment {amount : Int16} : step interp ls index (.increment slot amount) ⟨stack, vars⟩ =
    (ls.resolve slot index).toOption.map fun x => ⟨stack, Function.update vars x (vars x + amount.toInt32)⟩ := rfl

end

/-! ## Running statements -/

/-- The value of an expression of integers, given the values of the expressions made before it. -/
def Expr.value? (interp : Interpretation) (vars : Store) (known : Array (Option Int32)) : Expr → Option Int32
  | .var x => some (vars x)
  | .int n => some n
  | .arith op lhs rhs => do return interp op (← known[lhs]?.join) (← known[rhs]?.join)
  | _ => none

namespace Arena

variable {interp : Interpretation} {vars : Store} {a : Arena} {e : Expr} {id : ExprId} {v : Int32}

/-- The values of the expressions of an arena, as far as they are expressions of integers. -/
def values (interp : Interpretation) (vars : Store) (a : Arena) : Array (Option Int32) :=
  a.foldl (fun known e => known.push (e.value? interp vars known)) #[]

/-- The value of the expression at a place. -/
def value? (interp : Interpretation) (vars : Store) (a : Arena) (id : ExprId) : Option Int32 := (a.values interp vars)[id]?.join

/-- A new expression gets its value after all others. -/
theorem values_push :
    values interp vars (a.push e) = (a.values interp vars).push (e.value? interp vars (a.values interp vars)) := by
  simp [values]

/-- Every expression has a place among the values. -/
theorem size_values (interp : Interpretation) (vars : Store) (a : Arena) : (a.values interp vars).size = a.size :=
  Array.foldl_induction (fun i (known : Array (Option Int32)) => known.size = i) rfl
    fun _ _ h => by rw [Array.size_push, h]

/-- An expression keeps its value when others are made. -/
theorem value?_push (h : a.value? interp vars id = some v) : value? interp vars (a.push e) id = some v := by
  have hid : id < (a.values interp vars).size := by
    by_contra hge
    rw [value?, Array.getElem?_eq_none (Nat.le_of_not_lt hge)] at h
    cases h
  rw [value?, values_push, Array.getElem?_push_lt hid, ← Array.getElem?_eq_getElem hid]
  exact h

/-- The newest expression has the value that its operands give. -/
theorem value?_size : value? interp vars (a.push e) a.size = e.value? interp vars (a.values interp vars) := by
  rw [value?, values_push, ← size_values interp vars, Array.getElem?_push_size]
  rfl

/-- New arithmetic has the value that its operator gives. -/
theorem value?_arith {op : ArithOp} {lhs rhs : ExprId} {l r : Int32} (hl : a.value? interp vars lhs = some l)
    (hr : a.value? interp vars rhs = some r) : value? interp vars (a.push (.arith op lhs rhs)) a.size = some (interp op l r) := by
  unfold value? at hl hr
  simp [value?_size, Expr.value?, hl, hr]

end Arena

namespace Statement

variable {interp : Interpretation} {a : Arena} {e : Expr} {vars vars' : Store}

/-- What a statement of integer code does to the variables. -/
def exec? (interp : Interpretation) (a : Arena) (vars : Store) : Statement → Option Store
  | .assign x value => (a.value? interp vars value).map (Function.update vars x)
  | .increment x amount => some (Function.update vars x (vars x + amount))
  | _ => none

/-- Runs statements of integer code in order. -/
def execAll? (interp : Interpretation) (a : Arena) (statements : List Statement) (vars : Store) : Option Store :=
  statements.foldlM (exec? interp a) vars

/-- A new expression changes nothing for a statement made before. -/
theorem exec?_push {s : Statement} (h : s.exec? interp a vars = some vars') : s.exec? interp (a.push e) vars = some vars' := by
  cases s with
  | assign x value =>
    obtain ⟨v, hv, rfl⟩ := Option.map_eq_some_iff.1 h
    simp [exec?, Arena.value?_push hv]
  | increment x amount => exact h
  | _ => cases h

/-- Statements do the same when expressions they do not use are made. -/
theorem execAll?_push {statements : List Statement} (h : execAll? interp a statements vars = some vars') :
    execAll? interp (a.push e) statements vars = some vars' := by
  induction statements generalizing vars with
  | nil => exact h
  | cons s rest ih =>
    rw [execAll?, List.foldlM_cons] at h ⊢
    obtain ⟨vars₁, hs, hrest⟩ := Option.bind_eq_some_iff.1 h
    exact Option.bind_eq_some_iff.2 ⟨vars₁, exec?_push hs, ih hrest⟩

/-- The last statement runs after all others. -/
theorem execAll?_concat {statements : List Statement} {vars₁ : Store} (h : execAll? interp a statements vars = some vars₁)
    (s : Statement) : execAll? interp a (statements ++ [s]) vars = s.exec? interp a vars₁ := by
  unfold execAll? at h ⊢
  simp [List.foldlM_append, h]

end Statement

/-! ## Pending reads -/

/-- What is known of a value on the stack: the variables it was computed from, and whether one of them was written since. -/
structure Pending where
  reads : List LocalId
  isStale : Bool

namespace Pending

/-- What is known of a value once a variable is written. -/
def written (x : LocalId) (p : Pending) : Pending := { p with isStale := p.isStale || p.reads.contains x }

/-- Keeps track of the reads behind each value on the stack. An instruction that stores a stale value is refused. -/
def step (ls : Locals) (index : Nat) : Insn → List Pending → Option (List Pending)
  | .constInt _, ps => some (⟨[], false⟩ :: ps)
  | .load _ slot, ps => (ls.resolve slot index).toOption.map fun x => ⟨[x], false⟩ :: ps
  | .store _ slot, p :: ps =>
    if p.isStale then none else (ls.resolve slot index).toOption.map fun x => ps.map (written x)
  | .increment slot _, ps => (ls.resolve slot index).toOption.map fun x => ps.map (written x)
  | .arith _ _, rhs :: lhs :: ps => some (⟨lhs.reads ++ rhs.reads, lhs.isStale || rhs.isStale⟩ :: ps)
  | .pop, _ :: ps => some ps
  | .dup, p :: ps => some (p :: p :: ps)
  | _, ps => some ps

section

variable {ls : Locals} {index slot : Nat} {kind : ValueKind} {ps : List Pending}

theorem step_load : step ls index (.load kind slot) ps =
    (ls.resolve slot index).toOption.map fun x => ⟨[x], false⟩ :: ps := rfl

theorem step_store {p : Pending} : step ls index (.store kind slot) (p :: ps) =
    if p.isStale then none else (ls.resolve slot index).toOption.map fun x => ps.map (written x) := rfl

theorem step_increment {amount : Int16} : step ls index (.increment slot amount) ps =
    (ls.resolve slot index).toOption.map fun x => ps.map (written x) := rfl

end

/-- An expression on the stack stands for a value: unless the value is stale, it is what the expression evaluates to for as long
as the variables it was computed from are not written. -/
def StandsFor (interp : Interpretation) (a : Arena) (vars : Store) (p : Pending) (id : ExprId) (v : Int32) : Prop :=
  p.isStale = false → ∀ vars', (∀ x ∈ p.reads, vars' x = vars x) → a.value? interp vars' id = some v

variable {interp : Interpretation} {a : Arena} {vars : Store} {p : Pending} {id : ExprId} {v : Int32}

/-- A value that is not stale is what its expression evaluates to. -/
theorem StandsFor.value (h : p.StandsFor interp a vars id v) (hp : p.isStale = false) : a.value? interp vars id = some v :=
  h hp vars fun _ _ => rfl

/-- A new expression changes nothing for the values on the stack. -/
theorem StandsFor.push (h : p.StandsFor interp a vars id v) (e : Expr) : p.StandsFor interp (a.push e) vars id v := by
  intro hp vars' hvars
  exact Arena.value?_push (h hp vars' hvars)

/-- Writing a variable changes no value on the stack, but makes those stale that were computed from it. -/
theorem StandsFor.write (h : p.StandsFor interp a vars id v) (x : LocalId) (w : Int32) :
    (p.written x).StandsFor interp a (Function.update vars x w) id v := by
  intro hp vars' hvars
  obtain ⟨hp, hx⟩ : p.isStale = false ∧ x ∉ p.reads := by simpa [written] using hp
  refine h hp vars' fun y hy => ?_
  have hne : y ≠ x := by
    rintro rfl
    exact hx hy
  rw [hvars y hy, Function.update_of_ne hne]

/-- Arithmetic on two values stands for what the machine computes. -/
theorem StandsFor.arith {op : ArithOp} {lhs rhs : Pending} {l r : ExprId} {u w : Int32} (hl : lhs.StandsFor interp a vars l u)
    (hr : rhs.StandsFor interp a vars r w) :
    StandsFor interp (a.push (.arith op l r)) vars ⟨lhs.reads ++ rhs.reads, lhs.isStale || rhs.isStale⟩ a.size
      (interp op u w) := by
  intro hstale vars' hvars
  obtain ⟨hls, hrs⟩ := Bool.or_eq_false_iff.1 hstale
  refine Arena.value?_arith (hl hls vars' fun x hx => ?_) (hr hrs vars' fun x hx => ?_)
  · exact hvars x (List.mem_append_left _ hx)
  · exact hvars x (List.mem_append_right _ hx)

/-- The expressions on the stack of a frame stand for the values on the stack of a machine, one by one. -/
inductive Stacks (interp : Interpretation) (a : Arena) (vars : Store) : List Pending → List ExprId → List Int32 → Prop where
  | nil : Stacks interp a vars [] [] []
  | cons {p : Pending} {id : ExprId} {v : Int32} {ps : List Pending} {ids : List ExprId} {vs : List Int32}
      (top : p.StandsFor interp a vars id v) (rest : Stacks interp a vars ps ids vs) :
      Stacks interp a vars (p :: ps) (id :: ids) (v :: vs)

variable {ps : List Pending} {ids : List ExprId} {vs : List Int32}

/-- A new expression changes nothing for the whole stack. -/
theorem Stacks.push (h : Stacks interp a vars ps ids vs) (e : Expr) : Stacks interp (a.push e) vars ps ids vs := by
  induction h with
  | nil => exact .nil
  | cons top _ ih => exact .cons (top.push e) ih

/-- Writing a variable keeps the whole stack, up to values that are stale now. -/
theorem Stacks.write (h : Stacks interp a vars ps ids vs) (x : LocalId) (w : Int32) :
    Stacks interp a (Function.update vars x w) (ps.map (written x)) ids vs := by
  induction h with
  | nil => exact .nil
  | cons top _ ih => exact .cons (top.write x w) ih

end Pending

/-! ## One instruction -/

/-- A frame under construction tracks a machine: its stack stands for the stack of the machine, and its statements have led from
the first values of the variables to those of the machine. -/
structure Frame.Tracks (interp : Interpretation) (start : Store) (a : Arena) (f : Frame) (ps : List Pending) (m : Machine) :
    Prop where
  stack : Pending.Stacks interp a m.vars ps f.stack m.stack
  out : Statement.execAll? interp a f.out start = some m.vars
  effectFree : ∀ e ∈ a, e.hasEffects = false

namespace Frame.Tracks

variable {interp : Interpretation} {start : Store} {a : Arena} {f : Frame} {ps : List Pending} {m : Machine}

/-- An expression made for a value that is pushed. -/
theorem pushNew (h : f.Tracks interp start a ps m) {e : Expr} (he : e.hasEffects = false) {p : Pending} {v : Int32}
    (hv : p.StandsFor interp (a.push e) m.vars a.size v) :
    (f.push a.size).Tracks interp start (a.push e) (p :: ps) ⟨v :: m.stack, m.vars⟩ := by
  refine ⟨.cons hv (h.stack.push e), Statement.execAll?_push h.out, ?_⟩
  intro e' he'
  rcases Array.mem_push.1 he' with he' | rfl
  · exact h.effectFree e' he'
  · exact he

/-- A statement that writes a variable. -/
theorem emit (h : f.Tracks interp start a ps m) {s : Statement} {x : LocalId} {v : Int32}
    (hs : s.exec? interp a m.vars = some (Function.update m.vars x v)) :
    (f.emit s).Tracks interp start a (ps.map (Pending.written x)) ⟨m.stack, Function.update m.vars x v⟩ :=
  ⟨h.stack.write x v, (Statement.execAll?_concat h.out s).trans hs, h.effectFree⟩

end Frame.Tracks

namespace Build

variable {interp : Interpretation} {start : Store} {a a' : Arena} {f f' : Frame} {ps ps' : List Pending} {m : Machine}

/-- An instruction of integer code that does not store a stale value does to the frame what it does to the machine. -/
theorem Ran.tracks {ls : Locals} {index : Nat} {i : Insn} (h : Ran ls index i a f a' f') (hinteger : i.isInteger = true)
    (hps : Pending.step ls index i ps = some ps') (hf : f.Tracks interp start a ps m) :
    ∃ m', Machine.step interp ls index i m = some m' ∧ f'.Tracks interp start a' ps' m' := by
  obtain ⟨stack, vars⟩ := m
  have hresolved : ∀ {slot x}, ls.resolve slot index = .ok x → (ls.resolve slot index).toOption = some x := by
    intro slot x hx
    rw [hx]
    rfl
  cases h with
  | label name =>
    cases hps
    exact ⟨_, rfl, hf⟩
  | line number =>
    cases hps
    exact ⟨_, rfl, hf⟩
  | nop =>
    cases hps
    exact ⟨_, rfl, hf⟩
  | constInt value =>
    cases hps
    exact ⟨_, rfl, hf.pushNew rfl fun _ _ _ => Arena.value?_size⟩
  | @load kind slot x _ _ hx =>
    cases kind <;> cases hinteger
    simp only [Pending.step_load, hresolved hx, Option.map_some, Option.some.injEq] at hps
    subst hps
    refine ⟨⟨vars x :: stack, vars⟩, by simp only [Machine.step_load, hresolved hx, Option.map_some], hf.pushNew rfl ?_⟩
    intro _ vars' hvars
    rw [Arena.value?_size, Expr.value?, hvars x List.mem_cons_self]
  | @store kind slot x _ value ids out hx =>
    cases kind <;> cases hinteger
    obtain ⟨hstack, hout, heffects⟩ := hf
    cases hstack with
    | @cons p _ v ps _ vs top rest =>
      by_cases hstale : p.isStale = true
      · simp only [Pending.step_store, if_pos hstale, reduceCtorEq] at hps
      · simp only [Pending.step_store, if_neg hstale, hresolved hx, Option.map_some, Option.some.injEq] at hps
        subst hps
        have hvalue := top.value (Bool.eq_false_iff.2 hstale)
        have htracks : Frame.Tracks interp start a ⟨ids, out⟩ ps ⟨vs, vars⟩ := ⟨rest, hout, heffects⟩
        refine ⟨⟨vs, Function.update vars x v⟩, by simp only [Machine.step_store, hresolved hx, Option.map_some],
          htracks.emit ?_⟩
        simp only [Statement.exec?, hvalue, Option.map_some]
  | @increment slot amount x _ _ hx =>
    simp only [Pending.step_increment, hresolved hx, Option.map_some, Option.some.injEq] at hps
    subst hps
    exact ⟨⟨stack, Function.update vars x (vars x + amount.toInt32)⟩,
      by simp only [Machine.step_increment, hresolved hx, Option.map_some], hf.emit rfl⟩
  | arith kind op _ lhs rhs ids out =>
    cases kind <;> cases hinteger
    obtain ⟨hstack, hout, heffects⟩ := hf
    cases hstack with
    | cons hr hstack =>
      cases hstack with
      | @cons _ _ _ ps _ vs hl rest =>
        cases hps
        have htracks : Frame.Tracks interp start a ⟨ids, out⟩ ps ⟨vs, vars⟩ := ⟨rest, hout, heffects⟩
        exact ⟨_, rfl, htracks.pushNew rfl (hl.arith hr)⟩
  | @pop _ value e ids out he =>
    obtain ⟨hstack, hout, heffects⟩ := hf
    cases hstack with
    | cons _ rest =>
      cases hps
      have heffect : e.hasEffects = false := heffects e (Array.mem_of_getElem? he)
      refine ⟨_, rfl, ⟨rest, ?_, heffects⟩⟩
      rw [if_neg (Bool.eq_false_iff.1 heffect)]
      exact hout
  | dup _ value ids out =>
    obtain ⟨hstack, hout, heffects⟩ := hf
    cases hstack with
    | cons top rest =>
      cases hps
      exact ⟨_, rfl, ⟨.cons top (.cons top rest), hout, heffects⟩⟩
  | _ => cases hinteger

/-! ## Straight code -/

/-- The frame tracks a machine that has the instructions at the given indices still to run. They are integer code and store no
stale value, and running them ends the run of the machine as `last` says. -/
def Ahead (src : Source) (interp : Interpretation) (start : Store) (last : Option Machine) (indices : List Nat) (a : Arena)
    (f : Frame) : Prop :=
  src.isIntegerCode indices = true ∧
    ∃ ps m, f.Tracks interp start a ps m ∧ (runEach src.method.code (Pending.step src.locals) indices ps).isSome = true ∧
      runEach src.method.code (Machine.step interp src.locals) indices m = last

variable {src : Source} {last : Option Machine}

/-- The first of the instructions ahead is run. -/
theorem Ahead.step {index : Nat} {rest : List Nat} {i : Insn} (h : Ahead src interp start last (index :: rest) a f)
    (hi : src.method.code[index]? = some i) (hran : Ran src.locals index i a f a' f') :
    Ahead src interp start last rest a' f' := by
  obtain ⟨hinteger, ps, m, hf, hfresh, hlast⟩ := h
  obtain ⟨hi_integer, hinteger⟩ := (Source.isIntegerCode_cons hi).1 hinteger
  obtain ⟨ps', hps, hfresh⟩ := (isSome_runEach_cons hi).1 hfresh
  obtain ⟨m', hm, hf'⟩ := hran.tracks hi_integer hps hf
  rw [runEach_cons hi, hm] at hlast
  exact ⟨hinteger, ps', m', hf', hfresh, hlast⟩

/-- The instructions of a body that is ahead are run. -/
theorem body_ahead {span : Span} {rest : List Nat} {b b' : Builder} (h : body src span f b = .ok f' b')
    (hf : Ahead src interp start last (span.indices ++ rest) b.arena f) : Ahead src interp start last rest b'.arena f' := by
  refine straight_preserves (P := fun indices => Ahead src interp start last (indices ++ rest)) ?_ ?_ h hf
  · intro index indices i a f a' f' hi _ hran hahead
    exact hahead.step hi hran
  · intro index indices i a f hi hgoto hahead
    have hinteger := ((Source.isIntegerCode_cons hi).1 hahead.1).1
    cases i with
    | goto target => cases hinteger
    | _ => cases hgoto

/-- Bodies in a row are run until nothing is ahead. -/
theorem sectionsInto_ahead {settings : Settings} {spans : List Span} {b b' : Builder}
    (h : sectionsInto src settings (spans.map .body) f b = .ok f' b')
    (hf : Ahead src interp start last (spans.flatMap Span.indices) b.arena f) :
    Ahead src interp start last [] b'.arena f' := by
  induction spans generalizing f b with
  | nil =>
    simp only [List.map_nil, sectionsInto] at h
    cases h
    exact hf
  | cons span rest ih =>
    simp only [List.map_cons, sectionsInto, sectionInto] at h
    obtain ⟨f₁, b₁, hbody, hrest⟩ := run_bind_eq_ok.1 h
    rw [List.flatMap_cons] at hf
    exact ih hrest (body_ahead hbody hf)

end Build

/-- Whether the instructions at the given indices store no value computed from a variable that was written after it was read. -/
def Source.storesFresh (src : Source) (indices : List Nat) : Bool :=
  (runEach src.method.code (Pending.step src.locals) indices []).isSome

/-- The statements of straight integer code that stores no stale value compute what its instructions compute. -/
theorem integer_code_computes (src : Source) (settings : Settings) (spans : List Span) (events events' : List Event) (body : Body)
    (hbody : src.body settings (spans.map .body) events = .ok body events') (hlifted : Statement.CommentFree body.statements)
    (hinteger : src.isIntegerCode (spans.flatMap Span.indices) = true)
    (hfresh : src.storesFresh (spans.flatMap Span.indices) = true) (interp : Interpretation) (vars : Store) :
    ∃ m, runEach src.method.code (Machine.step interp src.locals) (spans.flatMap Span.indices) ⟨[], vars⟩ = some m ∧
      Statement.execAll? interp body.arena body.statements vars = some m.vars := by
  have hfree : Section.CommentFree (spans.map .body) := by
    clear hbody hinteger hfresh
    induction spans with
    | nil => exact Section.commentFree_nil
    | cons span rest ih => exact Section.commentFree_cons.2 ⟨rfl, ih⟩
  have hstrict := (src.body_eq_ok_iff { settings with commentOnError := false } settings rfl hfree).2 ⟨hbody, hlifted⟩
  have hrun := Build.list_eq_ok rfl (Source.body_eq_ok.1 hstrict)
  have hahead : Build.Ahead src interp vars _ (spans.flatMap Span.indices) #[] ⟨[], []⟩ :=
    ⟨hinteger, [], ⟨[], vars⟩, ⟨.nil, rfl, by simp⟩, hfresh, rfl⟩
  obtain ⟨_, ps, m, hf, _, hm⟩ := Build.sectionsInto_ahead hrun hahead
  exact ⟨m, hm.symm, hf.out⟩

/-- A method with two integer parameters. -/
def twoParameters (code : List Insn) : Source where
  method :=
    { owner := "A", name := "m", descriptor := "(II)V", isStatic := true
      code
      variableTable := []
      handlerTable := [] }
  labels := []
  locals := (Locals.empty.add ⟨0, "param0", "I", none, ⟨0, code.length⟩, .parameter⟩).add
    ⟨1, "param1", "I", none, ⟨0, code.length⟩, .parameter⟩

/-- Keeps its first parameter on the stack while it writes the second one, and writes the first one before it drops the copies. -/
def keptOperand : Source :=
  twoParameters [.load .int 0, .dup, .load .int 1, .arith .int .sub, .store .int 1, .line 7, .increment 1 3, .dup,
    .increment 0 1, .pop, .pop]

/-- The operand that stays on the stack goes stale, but only after it was last used. -/
theorem integer_code_computes_kept :
    ∃ body, keptOperand.body .standard [.body ⟨0, 5⟩, .body ⟨5, 11⟩] [] = .ok body [] ∧ body.statements.length = 3 ∧
      ∀ interp vars, ∃ m,
        runEach keptOperand.method.code (Machine.step interp keptOperand.locals) (List.range 11) ⟨[], vars⟩ = some m ∧
          Statement.execAll? interp body.arena body.statements vars = some m.vars := by
  refine ⟨⟨#[.var 0, .var 1, .arith .sub 0 1], [.assign 1 2, .increment 1 3, .increment 0 1]⟩, rfl, rfl, ?_⟩
  intro interp vars
  exact integer_code_computes keptOperand .standard [⟨0, 5⟩, ⟨5, 11⟩] [] [] _ rfl rfl (by decide) (by decide) interp vars

/-- Stores its first parameter in the second one, with the first one incremented in between. -/
def pendingRead : Source := twoParameters [.load .int 0, .increment 0 1, .store .int 1]

/-- The statement that stores the operand comes after the increment, and reads the variable only then. -/
theorem pending_read_is_overwritten :
    ∃ body, pendingRead.body .standard [.body ⟨0, 3⟩] [] = .ok body [] ∧ pendingRead.isIntegerCode [0, 1, 2] = true ∧
      ∃ m vars,
        runEach pendingRead.method.code (Machine.step (fun _ lhs rhs => lhs + rhs) pendingRead.locals) [0, 1, 2]
            ⟨[], fun _ => 0⟩ = some m ∧
        Statement.execAll? (fun _ lhs rhs => lhs + rhs) body.arena body.statements (fun _ => 0) = some vars ∧
        m.vars 1 = 0 ∧ vars 1 = 1 :=
  ⟨⟨#[.var 0], [.increment 0 1, .assign 1 0]⟩, rfl, rfl, _, _, rfl, rfl, rfl, rfl⟩

end CodeLift
