import CodeLift.Proofs.Comments.Lifting
import CodeLift.Proofs.Statement.CallsOnce
import CodeLift.Proofs.Statement.Discards
import CodeLift.Proofs.Statement.Increments

/-!
# Calls are kept, or discarded with a value

Where comments are not allowed, every call that is made for a method is reached from one of its statements or from a value that has
been popped without a statement (`calls_reached_unless_discarded`). The second happens: a sum is no call, but its operands can be.
-/

namespace CodeLift

/-! ## The pass over the statements -/

namespace Statement

variable {R : Statement → Statement → Prop} {x : ExprId}

mutual

/-- What a changed tree does not refer to any more stems from a statement whose change lost it. -/
theorem ChangedBy.exists_of_not_mem_roots {s t : Statement} (h : ChangedBy R s t) (hx : x ∈ roots [s]) (hnot : x ∉ roots [t]) :
    ∃ u v, R u v ∧ x ∈ roots [u] ∧ x ∉ roots [v] := by
  cases s with
  | branch condition thenPart elsePart =>
    rw [ChangedBy] at h
    obtain ⟨thenPart', elsePart', rfl, hthen, helse⟩ := h
    simp only [roots_branch, List.mem_append, not_or] at hx hnot
    rcases hx with hx | hx | hx
    · exact absurd hx hnot.1
    · exact ChangedAllBy.exists_of_not_mem_roots hthen hx hnot.2.1
    · exact ChangedAllBy.exists_of_not_mem_roots helse hx hnot.2.2
  | whileDo condition body =>
    rw [ChangedBy] at h
    obtain ⟨body', rfl, hbody⟩ := h
    simp only [roots_whileDo, List.mem_append, not_or] at hx hnot
    exact ChangedAllBy.exists_of_not_mem_roots hbody (hx.resolve_left hnot.1) hnot.2
  | doWhile condition body =>
    rw [ChangedBy] at h
    obtain ⟨body', rfl, hbody⟩ := h
    simp only [roots_doWhile, List.mem_append, not_or] at hx hnot
    exact ChangedAllBy.exists_of_not_mem_roots hbody (hx.resolve_left hnot.1) hnot.2
  | forUpdate condition update body =>
    rw [ChangedBy] at h
    obtain ⟨update', body', rfl, hupdate, hbody⟩ := h
    simp only [roots_forUpdate, List.mem_append, not_or] at hx hnot
    rcases hx with hx | hx | hx
    · exact absurd hx hnot.1
    · exact ChangedAllBy.exists_of_not_mem_roots hbody hx hnot.2.1
    · exact ChangedAllBy.exists_of_not_mem_roots hupdate hx hnot.2.2
  | switch key cases =>
    rw [ChangedBy] at h
    obtain ⟨cases', rfl, hcases⟩ := h
    simp only [roots_switch, List.mem_cons, not_or] at hx hnot
    exact ChangedCasesBy.exists_of_not_mem_roots hcases (hx.resolve_left hnot.1) hnot.2
  | tryCatch body clauses =>
    rw [ChangedBy] at h
    obtain ⟨body', clauses', rfl, hbody, hclauses⟩ := h
    simp only [roots_tryCatch, List.mem_append, not_or] at hx hnot
    rcases hx with hx | hx
    · exact ChangedAllBy.exists_of_not_mem_roots hbody hx hnot.1
    · exact ChangedClausesBy.exists_of_not_mem_roots hclauses hx hnot.2
  | _ =>
    simp only [ChangedBy] at h
    exact ⟨_, t, h, hx, hnot⟩
termination_by structural s

theorem ChangedAllBy.exists_of_not_mem_roots {ss ts : List Statement} (h : ChangedAllBy R ss ts) (hx : x ∈ roots ss)
    (hnot : x ∉ roots ts) : ∃ u v, R u v ∧ x ∈ roots [u] ∧ x ∉ roots [v] := by
  cases ss with
  | nil => cases hx
  | cons s rest =>
    rw [ChangedAllBy] at h
    obtain ⟨t, rest', rfl, hs, hrest⟩ := h
    rw [← List.singleton_append, roots_append, List.mem_append] at hx hnot
    rw [not_or] at hnot
    rcases hx with hx | hx
    · exact ChangedBy.exists_of_not_mem_roots hs hx hnot.1
    · exact ChangedAllBy.exists_of_not_mem_roots hrest hx hnot.2
termination_by structural ss

theorem ChangedCasesBy.exists_of_not_mem_roots {cases cases' : List (Case (List Statement))} (h : ChangedCasesBy R cases cases')
    (hx : x ∈ rootsCases cases) (hnot : x ∉ rootsCases cases') : ∃ u v, R u v ∧ x ∈ roots [u] ∧ x ∉ roots [v] := by
  match cases with
  | [] => cases hx
  | ⟨values, isDefault, body⟩ :: rest =>
    rw [ChangedCasesBy] at h
    obtain ⟨body', rest', rfl, hbody, hrest⟩ := h
    simp only [rootsCases_cons, List.mem_append, not_or] at hx hnot
    rcases hx with hx | hx
    · exact ChangedAllBy.exists_of_not_mem_roots hbody hx hnot.1
    · exact ChangedCasesBy.exists_of_not_mem_roots hrest hx hnot.2
termination_by structural cases

theorem ChangedClausesBy.exists_of_not_mem_roots {clauses clauses' : List (Catch (List Statement))}
    (h : ChangedClausesBy R clauses clauses') (hx : x ∈ rootsClauses clauses) (hnot : x ∉ rootsClauses clauses') :
    ∃ u v, R u v ∧ x ∈ roots [u] ∧ x ∉ roots [v] := by
  match clauses with
  | [] => cases hx
  | ⟨catches, boundTo, body⟩ :: rest =>
    rw [ChangedClausesBy] at h
    obtain ⟨body', rest', rfl, hbody, hrest⟩ := h
    simp only [rootsClauses_cons, List.mem_append, not_or] at hx hnot
    rcases hx with hx | hx
    · exact ChangedAllBy.exists_of_not_mem_roots hbody hx hnot.1
    · exact ChangedClausesBy.exists_of_not_mem_roots hrest hx hnot.2
termination_by structural clauses

end

end Statement

namespace Pass

variable {a : Arena}

/-- A variable plus a constant is made of two expressions without operands. -/
theorem AddsConstant.exists_arith {target : LocalId} {amount : Int32} {value : ExprId} (h : AddsConstant a target amount value) :
    ∃ op lhs rhs, a[value]? = some (.arith op lhs rhs) ∧
      ∀ operand ∈ [lhs, rhs], ∃ e, a[operand]? = some e ∧ e.children = [] ∧ e.hasEffects = false := by
  cases h with
  | right hvalue hx hc => exact ⟨.add, _, _, hvalue, by simp [hx, hc, Expr.children, Expr.hasEffects]⟩
  | left hvalue hc hx => exact ⟨.add, _, _, hvalue, by simp [hx, hc, Expr.children, Expr.hasEffects]⟩
  | minus hvalue hx hc _ => exact ⟨.sub, _, _, hvalue, by simp [hx, hc, Expr.children, Expr.hasEffects]⟩

/-- A variable plus a constant holds no call. -/
theorem AddsConstant.not_hasEffects {target : LocalId} {amount : Int32} {value id : ExprId} {e : Expr}
    (h : AddsConstant a target amount value) (hpath : Relation.ReflTransGen a.Refers value id) (he : a[id]? = some e) :
    e.hasEffects = false := by
  obtain ⟨op, lhs, rhs, hvalue, hoperands⟩ := h.exists_arith
  rcases Relation.ReflTransGen.cases_head_iff.1 hpath with rfl | ⟨operand, ⟨sum, hsum, hchild⟩, hrest⟩
  · rw [hvalue] at he
    cases he
    rfl
  · rw [hvalue] at hsum
    cases hsum
    obtain ⟨leaf, hleaf, hchildren, heffects⟩ := hoperands operand hchild
    rcases Relation.ReflTransGen.cases_head_iff.1 hrest with rfl | ⟨_, ⟨e', he', hchild'⟩, _⟩
    · rw [hleaf] at he
      cases he
      exact heffects
    · rw [hleaf] at he'
      cases he'
      rw [hchildren] at hchild'
      cases hchild'

/-- The pass for increments loses no call. -/
theorem callsReached_of_changed {ss ts : List Statement} {others : List ExprId}
    (hchanged : Statement.ChangedAllBy (RewrittenTo a) ss ts) (h : a.CallsReached (Statement.roots ss ++ others)) :
    a.CallsReached (Statement.roots ts ++ others) := by
  intro id e he hcall
  obtain ⟨x, hx, hpath⟩ := h id e he hcall
  by_cases hkept : x ∈ Statement.roots ts ++ others
  · exact ⟨x, hkept, hpath⟩
  · rw [List.mem_append, not_or] at hkept
    have hroot : x ∈ Statement.roots ss := (List.mem_append.1 hx).resolve_right hkept.2
    obtain ⟨u, v, hrewritten, hu, hv⟩ := hchanged.exists_of_not_mem_roots hroot hkept.1
    cases hrewritten with
    | @increment target value amount hadds =>
      obtain rfl : x = value := by simpa [Statement.roots, Statement.operands] using hu
      have hnone := hadds.not_hasEffects hpath he
      rw [Expr.hasEffects_iff.2 hcall] at hnone
      cases hnone
    | kept _ => exact absurd hu hv

theorem callsReached_runAll (m : Method) (ls : Locals) (runPasses : Bool) {body : Body} {others : List ExprId}
    (h : body.arena.CallsReached (Statement.roots body.statements ++ others)) :
    body.arena.CallsReached
      (Statement.roots (runAll m ls (if runPasses then [increment] else []) body).1.statements ++ others) := by
  cases runPasses with
  | false => exact h
  | true => exact callsReached_of_changed (changedAllBy_mapEach body.arena body.statements) h

end Pass

/-! ## Lifted methods -/

/-- Where comments are not allowed, every call of a lifted method is reached from one of its statements or from a value that was
popped without a statement while these were built. So all calls are reached from the statements exactly if those are that the popped
values hold. -/
theorem calls_reached_unless_discarded (m : Method) (settings : Settings) (events events' : List Event) (r : Decompiled)
    (hstrict : settings.commentOnError = false) (h : (Decompiler.standard settings).decompile m events = .ok r events') :
    ∃ src events₁ body reported reported', m.source events = .ok src events₁ ∧
      src.body settings r.sections reported = .ok body reported' ∧ body.arena = r.body.arena ∧
      r.body.arena.CallsReached (Statement.roots r.body.statements ++ src.discards settings r.sections reported) ∧
      (r.body.arena.CallsReached (Statement.roots r.body.statements) ↔
        ∀ value ∈ src.discards settings r.sections reported, ∀ id e, r.body.arena[id]? = some e → e.IsCall →
          Relation.ReflTransGen r.body.arena.Refers value id → r.body.arena.IsReached (Statement.roots r.body.statements) id) := by
  obtain ⟨src, events₁, g, events₂, sections, events₃, body, events₄, hsrc, _, _, hbody, rfl, _⟩ := Decompiler.decompile_eq_ok.1 h
  have hreached := Pass.callsReached_runAll m src.locals settings.runPasses (Source.callsReached_of_body hstrict hbody)
  obtain ⟨harena, _⟩ := Pass.roots_runAll m src.locals settings.runPasses body
  rw [← harena] at hreached
  refine ⟨src, events₁, body, events₃, events₄, hsrc, hbody, harena.symm, hreached, ?_⟩
  constructor
  · intro hall value _ id e he hcall _
    exact hall id e he hcall
  · intro hdiscarded id e he hcall
    obtain ⟨x, hx, hpath⟩ := hreached id e he hcall
    rcases List.mem_append.1 hx with hx | hx
    · exact ⟨x, hx, hpath⟩
    · exact hdiscarded x hx id e he hcall hpath

/-- A method with a loop that discards a variable, and then an object constructed of the result of a call. -/
def discardsInLoop : Method where
  owner := "A"
  name := "m"
  descriptor := "(I)V"
  isStatic := true
  code := [.label ⟨0⟩, .load .int 0, .pop, .new "C", .dup, .invoke ⟨.static, "A", "f", "()I"⟩,
    .invoke ⟨.special, "C", "<init>", "(I)V"⟩, .pop, .invoke ⟨.static, "A", "g", "()Z"⟩, .jump .ne ⟨0⟩, .ret none]
  variableTable := []
  handlerTable := []

/-- The three calls of the method are reached. -/
theorem calls_reached_unless_discarded_loop :
    ∃ r events' src events₁ reported, (Decompiler.standard ⟨false, 10, true⟩).decompile discardsInLoop [] = .ok r events' ∧
      discardsInLoop.source [] = .ok src events₁ ∧ (Arena.calls r.body.arena).length = 3 ∧
      r.body.arena.CallsReached (Statement.roots r.body.statements ++ src.discards ⟨false, 10, true⟩ r.sections reported) := by
  have hlifts : succeedsWith (fun r => (Arena.calls r.body.arena).length == 3)
      ((Decompiler.standard ⟨false, 10, true⟩).decompile discardsInLoop []) = true := by decide +kernel
  obtain ⟨r, events', h, hcalls⟩ := exists_of_succeedsWith hlifts
  obtain ⟨src, events₁, _, reported, _, hsrc, _, _, hreached, _⟩ := calls_reached_unless_discarded _ _ _ _ r rfl h
  exact ⟨r, events', src, events₁, reported, h, hsrc, by simpa using hcalls, hreached⟩

/-- A method that adds to the result of a call and discards the sum. -/
def discardsSum : Method where
  owner := "A"
  name := "m"
  descriptor := "()V"
  isStatic := true
  code := [.invoke ⟨.static, "A", "f", "()I"⟩, .constInt 1, .arith .int .add, .pop, .ret none]
  variableTable := []
  handlerTable := []

/-- The call of the method is lost: the sum becomes no statement, since it is no call itself. -/
theorem discarded_sum_loses_call :
    ∃ r events, (Decompiler.standard ⟨false, 10, true⟩).decompile discardsSum [] = .ok r events ∧
      ∃ id e, r.body.arena[id]? = some e ∧ e.IsCall ∧
        ¬ r.body.arena.IsReached (Statement.roots r.body.statements) id := by
  have hlifts : succeedsWith
      (fun r => decide (Statement.roots r.body.statements = []) && r.body.arena[0]?.any Expr.hasEffects)
      ((Decompiler.standard ⟨false, 10, true⟩).decompile discardsSum []) = true := by decide +kernel
  obtain ⟨r, events, h, hlost⟩ := exists_of_succeedsWith hlifts
  rw [Bool.and_eq_true, decide_eq_true_eq, Option.any_eq_true] at hlost
  obtain ⟨hroots, e, he, heffects⟩ := hlost
  refine ⟨r, events, h, 0, e, he, Expr.hasEffects_iff.1 heffects, ?_⟩
  rintro ⟨x, hx, _⟩
  rw [hroots] at hx
  cases hx

end CodeLift
