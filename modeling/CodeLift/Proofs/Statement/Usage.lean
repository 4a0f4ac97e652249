import CodeLift.Proofs.Statement.Operands
import CodeLift.Proofs.Statement.Steps
import CodeLift.Proofs.Subtrees

/-!
# How often values are used

A value on the stack is an expression, and a copy of it is the same expression. So a value that holds a call must not be copied,
and an object under construction, which a constructor call turns into a call in place, must not be used before that.
`Usage.step` keeps track of this for the instructions of a line, that is for those that run on one operand stack. `Build.Flow` says
where the values go that an instruction takes from the stack.
-/

namespace CodeLift

/-- A method as a call names it. The class of a constructor is left out: the object is of the class that is named where it is made. -/
def MethodRef.called (method : MethodRef) : MethodRef := if method.isConstructor then { method with owner := "" } else method

theorem MethodRef.called_of_isConstructor {method : MethodRef} (h : method.isConstructor = true) :
    method.called = ⟨.special, "", "<init>", method.descriptor⟩ := by
  obtain ⟨kind, owner, name, descriptor⟩ := method
  simp only [isConstructor, Bool.and_eq_true, beq_iff_eq] at h
  obtain ⟨rfl, rfl⟩ := h
  rfl

namespace Insn

/-- The method that an instruction calls, if it calls one. -/
def calls : Insn → List MethodRef
  | .invoke method => [method.called]
  | _ => []

/-- Whether an instruction only takes values from the stack and leaves its result there. -/
def isOrdinary : Insn → Bool
  | .pop | .dup | .new _ => false
  | _ => true

end Insn

/-- How often a value on the stack may be used. -/
inductive Usage where
  /-- Any number of times: evaluating it calls nothing. -/
  | free
  | once
  /-- Not before its constructor has been called: it is the object under construction made at `site`. -/
  | building (site : Nat)
  deriving DecidableEq, Repr

namespace Usage

/-- Whether a value may be used. -/
def isReady : Usage → Bool
  | .building _ => false
  | _ => true

/-- What becomes of a value when the constructor of the object made at a site is called. -/
def complete (site : Nat) (v : Usage) : Usage := if v = .building site then .once else v

/-- The site of the object under construction whose constructor an instruction calls, given the values it takes. -/
def completed? (used : List Usage) : Insn → Option Nat
  | .invoke method =>
    match used.getLast? with
    | some (.building site) => if method.isConstructor then some site else none
    | _ => none
  | _ => none

/-- How often the result of an instruction may be used, given the values it takes. -/
def result (used : List Usage) (i : Insn) : Usage := if i.calls ≠ [] ∨ .once ∈ used then .once else .free

/-- Keeps track of how often the values on the stack may be used. An instruction is refused that copies a value which may be used
once only, that uses an object before its constructor was called, or that leaves more than one copy of an object it constructs. -/
def step (index : Nat) : Insn → List Usage → Option (List Usage)
  | .pop, _ :: vs => some vs
  | .dup, v :: vs => if v = .once then none else some (v :: v :: vs)
  | .new _, vs => if vs.contains (.building index) then none else some (.building index :: vs)
  | i, vs => i.effect.toOption.bind fun effect => apply i effect.pushes (vs.take effect.pops) (vs.drop effect.pops)
where
  /-- The stack after an instruction that pushes so many values, given the values it takes and those below. -/
  apply (i : Insn) (pushes : Nat) (used rest : List Usage) : Option (List Usage) :=
    match completed? used i with
    | some site =>
      if used.dropLast.all isReady && decide (rest.count (.building site) ≤ 1) then some (rest.map (complete site)) else none
    | none => if used.all isReady then some (List.replicate pushes (result used i) ++ rest) else none

theorem step_of_isOrdinary {i : Insn} (h : i.isOrdinary = true) {index pops pushes : Nat} {used rest : List Usage}
    (heffect : i.effect = .ok ⟨pops, pushes⟩) (hlen : used.length = pops) :
    step index i (used ++ rest) = step.apply i pushes used rest := by
  have hstep : step index i (used ++ rest) =
      i.effect.toOption.bind fun effect => step.apply i effect.pushes ((used ++ rest).take effect.pops)
        ((used ++ rest).drop effect.pops) := by
    cases i <;> simp_all [step, Insn.isOrdinary]
  rw [hstep, heffect]
  simp [Except.toOption, ← hlen]

theorem completed?_of_calls_nil {i : Insn} (h : i.calls = []) (used : List Usage) : completed? used i = none := by
  cases i with
  | invoke method => cases h
  | _ => rfl

/-- An instruction that completes no object uses values that may be used. -/
theorem apply_of_completed?_none {i : Insn} {pushes : Nat} {used rest vs : List Usage} (hnone : completed? used i = none)
    (h : step.apply i pushes used rest = some vs) :
    (∀ v ∈ used, v.isReady = true) ∧ vs = List.replicate pushes (result used i) ++ rest := by
  simp only [step.apply, hnone] at h
  split at h
  · rename_i hready
    cases h
    exact ⟨List.all_eq_true.1 hready, rfl⟩
  · cases h

/-- A constructor call leaves at most one reference to the object it completes. -/
theorem apply_of_completed?_some {i : Insn} {pushes site : Nat} {used rest vs : List Usage}
    (hsome : completed? used i = some site) (h : step.apply i pushes used rest = some vs) :
    (∀ v ∈ used.dropLast, v.isReady = true) ∧ rest.count (.building site) ≤ 1 ∧ vs = rest.map (complete site) := by
  simp only [step.apply, hsome] at h
  split at h
  · rename_i hready
    cases h
    rw [Bool.and_eq_true, List.all_eq_true, decide_eq_true_eq] at hready
    exact ⟨hready.1, hready.2, rfl⟩
  · cases h

theorem isReady_result (used : List Usage) (i : Insn) : (result used i).isReady = true := by
  unfold result
  split <;> rfl

end Usage

/-! ## Lines -/

namespace Section

/-- The instructions of a section that run on the stack of the list it stands in. -/
def line : Section → List Nat
  | .body span => span.indices
  | .branch guard _ _ => guard.spans.flatMap Span.indices
  | .switch key _ => key.indices
  | _ => []

/-- The instructions that run on the stack of a list of sections. -/
def lines (sections : List Section) : List Nat := sections.flatMap line

/-- The lines that run on stacks of their own inside a section, each with the stack it starts with. -/
def innerLines (code : List Insn) : Section → List (List Usage × List Nat)
  | .branch _ thenPart elsePart => [([], lines thenPart), ([], lines elsePart)]
  | .loop .doWhile (some guard) loopBody _ => [([], lines loopBody ++ guard.spans.flatMap Span.indices)]
  | .loop _ guard loopBody update =>
    [([], (guard.map fun g => g.spans.flatMap Span.indices).getD []), ([], lines loopBody), ([], lines update)]
  | .switch _ cases => cases.map fun c => ([], lines c.body)
  | .tryCatch tried clauses =>
    ([], lines tried) ::
      clauses.map fun c => (if (c.header.slice code).any (!·.isMarker) then [] else [.free], lines c.body)
  | _ => []

/-- Whether a line uses its values only as often as they may be used. -/
def isLinear (code : List Insn) (start : List Usage) (line : List Nat) : Bool := (runEach code Usage.step line start).isSome

/-- Whether all lines of a tree use their values only as often as they may be used. -/
def isLinearAll (code : List Insn) (sections : List Section) : Bool :=
  isLinear code [] (lines sections) &&
    everywhereAll (fun _ s => (s.innerLines code).all fun (start, line) => isLinear code start line) .outermost sections

end Section

namespace Expr

/-- The expression is a call: of a method, or of the constructor of an object. -/
inductive IsCall : Expr → Prop where
  | call (method : MethodRef) (object : Option ExprId) (arguments : List ExprId) : IsCall (.call method object arguments)
  | new (className descriptor : String) (arguments : List ExprId) : IsCall (.new className descriptor arguments)

/-- What has effects of its own is a call, and nothing else is. -/
theorem hasEffects_iff {e : Expr} : e.hasEffects = true ↔ e.IsCall := by
  constructor
  · intro h
    cases e with
    | call method object arguments => exact .call method object arguments
    | new className descriptor arguments => exact .new className descriptor arguments
    | _ => cases h
  · rintro (_ | _) <;> rfl

/-- The method that evaluating an expression calls, its operands apart, if it calls one. -/
def calls : Expr → List MethodRef
  | .call method _ _ => [method.called]
  | .new _ descriptor _ => [⟨.special, "", "<init>", descriptor⟩]
  | _ => []

theorem calls_ne_nil {e : Expr} (h : e.hasEffects = true) : e.calls ≠ [] := by
  cases e <;> simp_all [calls, hasEffects]

/-- Whether an expression is an object under construction. -/
def isBuilding : Expr → Bool
  | .newUninitialized _ => true
  | _ => false

end Expr

/-! ## Where values go -/

namespace Build

/-- Where the values on the stack go when an instruction runs. -/
inductive Flow : Insn → Arena → Frame → Arena → Frame → Prop where
  /-- Values become operands of statements. -/
  | spend {i : Insn} (a : Arena) (used rest : List ExprId) (out more : List Statement) (hordinary : i.isOrdinary = true)
      (hcalls : i.calls = []) (heffect : i.effect = .ok ⟨used.length, 0⟩) (hmore : (Statement.roots more).Perm used) :
      Flow i a ⟨used ++ rest, out⟩ a ⟨rest, out ++ more⟩
  /-- Values become operands of an expression, which goes on the stack or becomes a statement. -/
  | make {i : Insn} (a : Arena) (used rest : List ExprId) (out : List Statement) (e : Expr) (pushes : Bool)
      (hordinary : i.isOrdinary = true) (heffect : i.effect = .ok ⟨used.length, pushes.toNat⟩)
      (hchildren : e.children.Perm used) (hcalls : e.calls = i.calls) (hbuilding : e.isBuilding = false)
      (hother : ∀ method, i = .invoke method → method.isConstructor = true → ∀ id, used.getLast? = some id → ∀ e, a[id]? = some e →
        e.isBuilding = false) :
      Flow i a ⟨used ++ rest, out⟩ (a.push e) (if pushes then ⟨a.size :: rest, out⟩ else ⟨rest, out ++ [.expr a.size]⟩)
  | pop {a : Arena} {value : ExprId} {e : Expr} {rest : List ExprId} {out : List Statement} (he : a[value]? = some e) :
      Flow .pop a ⟨value :: rest, out⟩ a ⟨rest, if e.hasEffects then out ++ [.expr value] else out⟩
  | dup {a : Arena} {value : ExprId} {rest : List ExprId} {out : List Statement} :
      Flow .dup a ⟨value :: rest, out⟩ a ⟨value :: value :: rest, out⟩
  | new {className : String} {a : Arena} {f : Frame} :
      Flow (.new className) a f (a.push (.newUninitialized className)) (f.push a.size)
  /-- An object under construction takes values as the arguments of its constructor. -/
  | complete {method : MethodRef} {a : Arena} {arguments : List ExprId} {id : ExprId} {className : String} (rest : List ExprId)
      (out : List Statement) (pushes : Nat) (heffect : (Insn.invoke method).effect = .ok ⟨arguments.length + 1, pushes⟩)
      (hconstructor : method.isConstructor = true) (hid : a[id]? = some (.newUninitialized className)) :
      Flow (.invoke method) a ⟨arguments.reverse ++ id :: rest, out⟩
        (a.setIfInBounds id (.new className method.descriptor arguments))
        ⟨rest, if rest.contains id then out else out ++ [.expr id]⟩

theorem Flow.idle {i : Insn} (a : Arena) (f : Frame) (hordinary : i.isOrdinary = true) (hcalls : i.calls = [])
    (heffect : i.effect = .ok ⟨0, 0⟩) : Flow i a f a f := by
  have hflow := Flow.spend a [] f.stack f.out [] hordinary hcalls heffect (.refl _)
  rw [List.append_nil] at hflow
  exact hflow

theorem Flow.leaf {i : Insn} (a : Arena) (f : Frame) {e : Expr} (hordinary : i.isOrdinary = true) (hcalls : i.calls = [])
    (heffect : i.effect = .ok ⟨0, 1⟩) (hchildren : e.children = []) (hcalls' : e.calls = []) (hbuilding : e.isBuilding = false) :
    Flow i a f (a.push e) (f.push a.size) :=
  .make a [] f.stack f.out e true hordinary heffect (by rw [hchildren]) (by rw [hcalls, hcalls']) hbuilding (by simp)

theorem effect_invoke {method : MethodRef} {type : MethodType} (h : MethodType.parse method.descriptor = .ok type) :
    (Insn.invoke method).effect =
      .ok ⟨type.parameters.length + (if method.kind = .static then 0 else 1), type.result.isSome.toNat⟩ := by
  have heffect : (Insn.invoke method).effect =
      .ok ⟨type.parameters.length + (if method.kind = .static then 0 else 1), if type.result.isSome then 1 else 0⟩ := by
    rw [Insn.effect, h]
    rfl
  rw [heffect]
  cases type.result <;> rfl

theorem kind_ne_static {method : MethodRef} (h : method.isConstructor = true) : method.kind ≠ .static := by
  intro hkind
  simp [MethodRef.isConstructor, hkind] at h

/-- Every rule moves values in one of these ways. -/
theorem Ran.flow {ls : Locals} {index : Nat} {i : Insn} {a a' : Arena} {f f' : Frame} (h : Ran ls index i a f a' f') :
    Flow i a f a' f' := by
  cases h with
  | label name => exact .idle a f rfl rfl rfl
  | line number => exact .idle a f rfl rfl rfl
  | nop => exact .idle a f rfl rfl rfl
  | constNull => exact .leaf a f rfl rfl rfl rfl rfl rfl
  | constInt value => exact .leaf a f rfl rfl rfl rfl rfl rfl
  | constString value => exact .leaf a f rfl rfl rfl rfl rfl rfl
  | load => exact .leaf a f rfl rfl rfl rfl rfl rfl
  | store _ value stack out => exact .spend a [value] stack out _ rfl rfl rfl (.refl _)
  | increment => exact .spend a [] f.stack f.out _ rfl rfl rfl (.refl _)
  | arith kind op _ lhs rhs stack out =>
    exact .make a [rhs, lhs] stack out _ true rfl rfl (List.Perm.swap rhs lhs []) rfl rfl (by simp)
  | pop stack out he => exact .pop he
  | dup => exact .dup
  | new => exact .new
  | @getField field object _ stack out hobject =>
    refine .make a object.toList stack out _ true rfl ?_ (.refl _) rfl rfl (by simp)
    cases object <;> simp_all [Insn.effect]
  | @putField field object _ value stack out hobject =>
    refine .spend a (value :: object.toList) stack out _ rfl rfl ?_ ?_
    · cases object <;> simp_all [Insn.effect]
    · simp [Statement.roots, Statement.operands]
  | @complete method type _ arguments id className stack out htype hlen hconstructor hid =>
    refine .complete stack out type.result.isSome.toNat ?_ hconstructor hid
    rw [effect_invoke htype, hlen, if_neg (kind_ne_static hconstructor)]
  | @call method type _ arguments object stack out htype hlen hobject hother =>
    have hflow : Flow (.invoke method) a _ _ _ :=
      .make a (arguments.reverse ++ object.toList) stack out (.call method object arguments) type.result.isSome rfl ?_ ?_ rfl rfl ?_
    · rw [List.append_assoc] at hflow
      exact hflow
    · rw [effect_invoke htype]
      cases object <;> simp_all
    · exact List.perm_append_comm.trans (.append_right _ (List.reverse_perm arguments).symm)
    · rintro _ ⟨⟩ hconstructor id hid e he
      have hsome : object.isSome = true := by simp [hobject, kind_ne_static hconstructor]
      obtain ⟨o, rfl⟩ := Option.isSome_iff_exists.1 hsome
      obtain rfl : o = id := by simpa using hid
      have hne := hother hconstructor o rfl
      cases e <;> simp_all [Expr.isBuilding]
  | ret => exact .spend a [] f.stack f.out _ rfl rfl rfl (.refl _)
  | retValue kind _ value stack out => exact .spend a [value] stack out _ rfl rfl rfl (.refl _)
  | throw _ value stack out => exact .spend a [value] stack out _ rfl rfl rfl (.refl _)

end Build

end CodeLift
