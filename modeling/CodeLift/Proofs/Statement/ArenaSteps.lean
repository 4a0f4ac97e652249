import CodeLift.Proofs.Safety.Locals
import CodeLift.Proofs.Statement.Folds
import CodeLift.Proofs.Statement.Ledger
import CodeLift.Proofs.Statement.Making
import CodeLift.Proofs.Structuring.Parts

/-!
# Building makes expressions and folds

The theorem of this module, `Source.steps_folds`, says that the arena of a method is what its folds make of the empty arena. With
it go the bounds that hold along the way: stacks hold expressions of the arena, and statements name variables of the method.
-/

namespace CodeLift

open Building

namespace Statement

/-- The variables that a statement names, the statements inside it and its expressions apart. -/
def ownTargets : Statement → List LocalId
  | .assign x _ | .increment x _ => [x]
  | .tryCatch _ clauses => clauses.filterMap Catch.boundTo
  | _ => []

/-- The variables that statements, and all statements inside them, name. -/
def targets (statements : List Statement) : List LocalId := (subtrees statements).flatMap ownTargets

end Statement

/-! ## Instructions -/

namespace Frame.Sound

variable {n : Nat}

/-- What is left after values are taken off the stack. -/
theorem drop (used : List ExprId) {stack : List ExprId} {out : List Statement} (h : Sound n ⟨used ++ stack, out⟩) :
    Sound n ⟨stack, out⟩ := by
  intro id hid
  refine h id ?_
  rw [held, List.append_assoc]
  exact List.mem_append_right _ hid

/-- What is used of a stack is in the arena. -/
theorem lt_of_mem (used : List ExprId) {stack : List ExprId} {out : List Statement} (h : Sound n ⟨used ++ stack, out⟩) {id : ExprId}
    (hid : id ∈ used) : id < n := h id (List.mem_append_left _ (List.mem_append_left _ hid))

/-- Values that are taken off the stack become operands of a statement. -/
theorem spend (used : List ExprId) {stack : List ExprId} {out : List Statement} (h : Sound n ⟨used ++ stack, out⟩) {s : Statement}
    (hs : s.isSimple = true) (hoperands : ∀ id ∈ s.operands, id ∈ used) : Sound n ⟨stack, out ++ [s]⟩ :=
  (h.drop used).emit hs fun id hid => h.lt_of_mem used (hoperands id hid)

/-- An expression made from values on the stack takes their place there. -/
theorem make (used : List ExprId) {stack : List ExprId} {out : List Statement} {k : Nat} {a : Arena} {e : Expr}
    (h : Sound a.size ⟨used ++ stack, out⟩) (hmade : e.IsMade k) (hchildren : ∀ child ∈ e.children, child ∈ used) :
    a.Steps k [] (a.push e) ∧ Sound (a.push e).size ⟨a.size :: stack, out⟩ := by
  have hsize := a.size_lt_push e
  refine ⟨.make .refl hmade fun child hchild => h.lt_of_mem used (hchildren child hchild), ?_⟩
  exact ((h.drop used).mono (Nat.le_of_lt hsize)).push hsize

end Frame.Sound

theorem Locals.lt_size_of_resolve {ls : Locals} {slot index : Nat} {x : LocalId} (h : ls.resolve slot index = .ok x) :
    x < ls.size := by
  unfold Locals.resolve at h
  split at h
  · rename_i hfind
    cases h
    exact Locals.lt_size_of_find? hfind
  · cases h

namespace Build

/-- A constructor that completes an object is one fold. -/
theorem foldOf_complete {method : MethodRef} {type : MethodType} (htype : MethodType.parse method.descriptor = .ok type) {a : Arena}
    {arguments stack : List ExprId} (hlen : arguments.length = type.parameters.length) (hconstructor : method.isConstructor = true)
    {id : ExprId} {className : String} (hid : a[id]? = some (.newUninitialized className)) :
    foldOf a (arguments.reverse ++ id :: stack) (.invoke method) = [⟨a, id, arguments⟩] := by
  have hlen : arguments.reverse.length = type.parameters.length := by rw [List.length_reverse, hlen]
  simp only [foldOf, htype]
  rw [List.drop_left' hlen, List.take_left' hlen, List.reverse_reverse]
  simp [hconstructor, hid, Expr.isBuilding]

/-- Any other call is no fold. -/
theorem foldOf_call {method : MethodRef} {type : MethodType} (htype : MethodType.parse method.descriptor = .ok type) {a : Arena}
    {arguments stack : List ExprId} (hlen : arguments.length = type.parameters.length) {object : Option ExprId}
    (hobject : object.isSome = (method.kind != .static))
    (hother : method.isConstructor = true → ∀ id ∈ object, ∀ className, a[id]? ≠ some (.newUninitialized className)) :
    foldOf a (arguments.reverse ++ (object.toList ++ stack)) (.invoke method) = [] := by
  have hlen : arguments.reverse.length = type.parameters.length := by rw [List.length_reverse, hlen]
  simp only [foldOf, htype]
  rw [List.drop_left' hlen]
  by_cases hconstructor : method.isConstructor = true
  · obtain ⟨id, rfl⟩ : ∃ id, object = some id := Option.isSome_iff_exists.1 (by simp [hobject, kind_ne_static hconstructor])
    have hid := hother hconstructor id rfl
    cases he : a[id]? with
    | none => simp [he]
    | some e => cases e <;> simp_all [Expr.isBuilding]
  · split
    · simp [hconstructor]
    · rfl

/-- An instruction does to the arena what its fold says, and what the frame holds is in the arena then. -/
theorem Ran.steps {ls : Locals} {index : Nat} {i : Insn} {a a' : Arena} {f f' : Frame} (h : Ran ls index i a f a' f')
    (hf : f.Sound a.size) : a.Steps ls.size (foldOf a f.stack i) a' ∧ f'.Sound a'.size := by
  cases h with
  | label => exact ⟨.refl, hf⟩
  | line => exact ⟨.refl, hf⟩
  | nop => exact ⟨.refl, hf⟩
  | constNull => exact hf.make [] trivial (by simp [Expr.children])
  | constInt => exact hf.make [] trivial (by simp [Expr.children])
  | constString => exact hf.make [] trivial (by simp [Expr.children])
  | load _ _ hx => exact hf.make [] (Locals.lt_size_of_resolve hx) (by simp [Expr.children])
  | store _ value stack out hx => exact ⟨.refl, hf.spend [value] rfl (by simp [Statement.operands])⟩
  | increment _ _ hx => exact ⟨.refl, hf.emit rfl (by simp [Statement.operands])⟩
  | arith kind op _ lhs rhs stack out => exact hf.make [rhs, lhs] trivial (by simp [Expr.children])
  | @pop _ value e stack out he =>
    refine ⟨.refl, ?_⟩
    split
    · exact hf.spend [value] rfl (by simp [Statement.operands])
    · exact hf.drop [value]
  | dup _ value stack out => exact ⟨.refl, hf.push (hf.lt_of_mem [value] (by simp))⟩
  | new => exact hf.make [] trivial (by simp [Expr.children])
  | @getField _ object _ stack out hobject => exact hf.make object.toList trivial (by simp [Expr.children])
  | @putField _ object _ value stack out hobject =>
    exact ⟨.refl, hf.spend (value :: object.toList) rfl (by simp [Statement.operands, or_comm])⟩
  | @complete method type _ arguments id className stack out htype hlen hconstructor hid =>
    have harguments : ∀ argument ∈ arguments, argument < a.size := fun argument h =>
      hf.lt_of_mem arguments.reverse (List.mem_reverse.2 h)
    rw [foldOf_complete htype hlen hconstructor hid, Array.size_setIfInBounds]
    refine ⟨.fold .refl method.descriptor hid harguments, ?_⟩
    have hrest : Frame.Sound a.size ⟨[id] ++ stack, out⟩ := hf.drop arguments.reverse
    split
    · exact hrest.drop [id]
    · exact hrest.spend [id] rfl (by simp [Statement.operands])
  | @call method type _ arguments object stack out htype hlen hobject hother =>
    rw [foldOf_call htype hlen hobject hother]
    rw [← List.append_assoc] at hf
    have hmake := hf.make (arguments.reverse ++ object.toList) (k := ls.size) (e := .call method object arguments) trivial
      (by simp [Expr.children, or_comm])
    refine ⟨hmake.1, ?_⟩
    split
    · exact hmake.2
    · exact hmake.2.spend [a.size] rfl (by simp [Statement.operands])
  | ret => exact ⟨.refl, hf.emit rfl (by simp [Statement.operands])⟩
  | retValue kind _ value stack out => exact ⟨.refl, hf.spend [value] rfl (by simp [Statement.operands])⟩
  | throw _ value stack out => exact ⟨.refl, hf.spend [value] rfl (by simp [Statement.operands])⟩

/-- The variables that an instruction names are those of the method. -/
theorem Ran.grows {ls : Locals} {index : Nat} {i : Insn} {a a' : Arena} {f f' : Frame} (h : Ran ls index i a f a' f') :
    f.Grows (fun s => s.ownTargets.all (· < ls.size) = true) f' := by
  have hadd : ∀ {stack stack' : List ExprId} {out : List Statement} {s : Statement}, (∀ x ∈ s.ownTargets, x < ls.size) →
      Frame.Grows (fun s => s.ownTargets.all (· < ls.size) = true) ⟨stack, out⟩ ⟨stack', out ++ [s]⟩ := by
    intro stack stack' out s hs
    refine ⟨[s], rfl, ?_⟩
    simpa using hs
  cases h with
  | store _ value stack out hx => exact hadd (by simpa [Statement.ownTargets] using Locals.lt_size_of_resolve hx)
  | increment _ _ hx => exact hadd (by simpa [Statement.ownTargets] using Locals.lt_size_of_resolve hx)
  | pop stack out he =>
    split
    · exact hadd nofun
    · exact .of_out_eq rfl
  | putField _ value stack out hobject => exact hadd nofun
  | complete stack out htype hlen hconstructor hid =>
    split
    · exact .of_out_eq rfl
    · exact hadd nofun
  | call stack out htype hlen hobject hother =>
    split
    · exact .of_out_eq rfl
    · exact hadd nofun
  | ret => exact hadd nofun
  | retValue kind _ value stack out => exact hadd nofun
  | throw _ value stack out => exact hadd nofun
  | _ => exact .of_out_eq rfl

end Build

/-! ## Trees -/

/-- What no instruction makes is made as it is. -/
theorem Expr.isMade_of_isImplicit {e : Expr} {k : Nat} (h : e.isImplicit = true) : e.IsMade k := by
  cases e with
  | int | null | caught => trivial
  | _ => cases h

/-- What is held is in the arena, which comes from the empty arena by the folds entered. -/
def Ledger.folds (src : Source) (settings : Settings) : Ledger src settings where
  Entry := Fold
  entries := Build.foldOf
  Holds held a log := Arena.Steps src.locals.size #[] log a ∧ ∀ id ∈ held, id < a.size
  Tolerates _ := True
  tolerates_values _ := trivial
  exchange hiff h := ⟨h.1, fun id hid => h.2 id ((hiff id).2 hid)⟩
  forget _ _ _ _ _ h := ⟨h.1, fun id hid => h.2 id (List.mem_append_right _ hid)⟩
  make {e held a _} he h := by
    have hsize := a.size_lt_push e
    refine ⟨.make h.1 ?_ ?_, List.forall_mem_cons.2 ⟨hsize, fun id hid => Nat.lt_trans (h.2 id hid) hsize⟩⟩
    · exact Expr.isMade_of_isImplicit he
    · simp [Expr.children_of_isImplicit he]
  insn {index i f b others log} _ _ h := by
    obtain ⟨hf, hothers⟩ := List.forall_mem_append.1 h.2
    cases hrun : Build.insn src.locals index i f b with
    | ok f' b' =>
      obtain ⟨hsteps, hf'⟩ := (Build.insn_ran hrun).1.steps hf
      refine ⟨h.1.trans hsteps, List.forall_mem_append.2 ⟨hf', fun id hid => ?_⟩⟩
      exact Nat.lt_of_lt_of_le (hothers id hid) hsteps.size_le
    | error e b' => trivial

/-- The clauses bind some of the first `k` variables. -/
def Section.BindsBelow (k : Nat) (handlings : List Handling) : Prop := ∀ handling ∈ handlings, ∀ x ∈ handling.clause.boundTo, x < k

/-- Whether the clauses of a section itself bind some of the first `k` variables. -/
def Section.bindsBelow (k : Nat) : Section → Bool
  | .tryCatch _ clauses => clauses.all fun c => c.boundTo.all (· < k)
  | _ => true

namespace Section

variable {k : Nat}

theorem bindsBelow_append {xs ys : List Handling} : BindsBelow k (xs ++ ys) ↔ BindsBelow k xs ∧ BindsBelow k ys :=
  List.forall_mem_append

mutual

/-- Where handlers bind variables of the table, all sections inside do. -/
theorem BindsBelow.everywhere (scope : Scope) (s : Section) (h : BindsBelow k s.handlers) :
    Section.everywhere (fun _ => bindsBelow k) scope s = true := by
  cases s with
  | branch guard thenPart elsePart =>
    simp only [handlers, bindsBelow_append] at h
    simp [bindsBelow, BindsBelow.everywhereAll _ thenPart h.1, BindsBelow.everywhereAll _ elsePart h.2]
  | loop kind guard loopBody update =>
    simp only [handlers, bindsBelow_append] at h
    simp [bindsBelow, BindsBelow.everywhereAll _ loopBody h.1, BindsBelow.everywhereAll _ update h.2]
  | switch key cases => simp [bindsBelow, BindsBelow.everywhereCases _ cases h]
  | tryCatch tried clauses =>
    simp only [handlers, bindsBelow_append] at h
    have hown : bindsBelow k (.tryCatch tried clauses) = true := by
      simpa [bindsBelow, Option.all_eq_true] using fun c hc => h.1.2 ⟨tried, c⟩ (List.mem_map_of_mem hc)
    simp [hown, BindsBelow.everywhereAll _ tried h.1.1, BindsBelow.everywhereClauses _ clauses h.2]
  | _ => rfl

/-- Where no clause binds another variable, no section has one that does. -/
theorem BindsBelow.everywhereAll (scope : Scope) (sections : List Section) (h : BindsBelow k (handlersAll sections)) :
    Section.everywhereAll (fun _ => bindsBelow k) scope sections = true := by
  cases sections with
  | nil => rfl
  | cons s rest =>
    simp only [handlersAll, bindsBelow_append] at h
    simp only [Section.everywhereAll, BindsBelow.everywhere _ s h.1, BindsBelow.everywhereAll _ rest h.2, Bool.and_self]

/-- The same for cases. -/
theorem BindsBelow.everywhereCases (scope : Scope) (cases : List (Case (List Section))) (h : BindsBelow k (handlersCases cases)) :
    Section.everywhereCases (fun _ => bindsBelow k) scope cases = true := by
  cases cases with
  | nil => rfl
  | cons c rest =>
    simp only [handlersCases, bindsBelow_append] at h
    simp only [Section.everywhereCases, BindsBelow.everywhereAll _ c.body h.1, BindsBelow.everywhereCases _ rest h.2, Bool.and_self]

/-- The same for clauses. -/
theorem BindsBelow.everywhereClauses (scope : Scope) (clauses : List (CatchSection (List Section)))
    (h : BindsBelow k (handlersClauses clauses)) : Section.everywhereClauses (fun _ => bindsBelow k) scope clauses = true := by
  cases clauses with
  | nil => rfl
  | cons c rest =>
    simp only [handlersClauses, bindsBelow_append] at h
    simp only [Section.everywhereClauses, BindsBelow.everywhereAll _ c.body h.1, BindsBelow.everywhereClauses _ rest h.2,
      Bool.and_self]

end

end Section

/-- Statements name variables of the method. -/
def Making.inScope (src : Source) : Making src where
  allows _ := Section.bindsBelow src.locals.size
  wants _ s := s.ownTargets.all (· < src.locals.size)
  insn _ _ hrun := (Build.insn_ran hrun).1.grows
  madeInto {scope s t} hs h := by
    cases h with
    | @tryCatch tried clauses triedOut clausesOut hbound =>
      have hall : (clausesOut.map Catch.boundTo).all (Option.all (· < src.locals.size)) = true := by
        rw [hbound, List.all_map]
        exact hs
      rw [List.all_map, List.all_eq_true] at hall
      simp only [Statement.ownTargets, List.all_eq_true, List.mem_filterMap, forall_exists_index, and_imp]
      intro x c hc hx
      have hc := hall c hc
      rw [Function.comp_apply, hx] at hc
      exact hc
    | _ => rfl
  comment := rfl

/-- The arena of a method is what its folds make of the empty arena, and its statements name its variables only. -/
theorem Source.steps_folds {src : Source} {settings : Settings} {sections : List Section} {events events' : List Event}
    {body : Body} (hs : Section.BindsBelow src.locals.size (Section.handlersAll sections))
    (h : src.body settings sections events = .ok body events') :
    Arena.Steps src.locals.size #[] (src.folds settings sections events) body.arena ∧
      ∀ x ∈ Statement.targets body.statements, x < src.locals.size := by
  have hkeeps := (Ledger.folds src settings).list_keeps sections (.inr fun _ => trivial) ⟨.refl, by simp⟩ events
  have hlist := Source.body_eq_ok.1 h
  have hwanted := (Making.inScope src).list_makes (Section.BindsBelow.everywhereAll .outermost sections hs) _ _ hlist
  rw [hlist] at hkeeps
  refine ⟨hkeeps.1, fun x hx => ?_⟩
  obtain ⟨s, hs, hx⟩ := List.mem_flatMap.1 hx
  obtain ⟨_, hown⟩ := Statement.everywhereAll_subtrees hwanted hs
  simp only [Making.inScope, List.all_eq_true, decide_eq_true_eq] at hown
  exact hown x hx

end CodeLift
