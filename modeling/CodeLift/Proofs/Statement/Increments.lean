import CodeLift.Proofs.Statement.IntegerCode
import CodeLift.Proofs.Subtrees
import CodeLift.Statement.Pass

/-!
# What the pass for increments does

`Statement.ChangedBy` says that a tree is another one with the statements that hold no others changed in place, each as a relation
says. The pass for increments is such a change: it turns exactly the assignments that add a constant to their variable into
increments (`Pass.RewrittenTo`). All else is derived from that, the normal form it leaves as well as that a second run of it
changes nothing.
-/

namespace CodeLift

namespace Statement

/-! ## Changes in place -/

section

variable (R : Statement → Statement → Prop)

mutual

/-- The second statement is the first with every statement that holds no others, at any depth, changed as `R` says. -/
def ChangedBy : Statement → Statement → Prop
  | .branch condition thenPart elsePart, t =>
    ∃ thenPart' elsePart', t = .branch condition thenPart' elsePart' ∧ ChangedAllBy thenPart thenPart' ∧
      ChangedAllBy elsePart elsePart'
  | .whileDo condition body, t => ∃ body', t = .whileDo condition body' ∧ ChangedAllBy body body'
  | .doWhile condition body, t => ∃ body', t = .doWhile condition body' ∧ ChangedAllBy body body'
  | .forUpdate condition update body, t =>
    ∃ update' body', t = .forUpdate condition update' body' ∧ ChangedAllBy update update' ∧ ChangedAllBy body body'
  | .switch key cases, t => ∃ cases', t = .switch key cases' ∧ ChangedCasesBy cases cases'
  | .tryCatch body clauses, t =>
    ∃ body' clauses', t = .tryCatch body' clauses' ∧ ChangedAllBy body body' ∧ ChangedClausesBy clauses clauses'
  | s, t => R s t

/-- The statements of a list are changed one by one. -/
def ChangedAllBy : List Statement → List Statement → Prop
  | [], ts => ts = []
  | s :: rest, ts => ∃ t rest', ts = t :: rest' ∧ ChangedBy s t ∧ ChangedAllBy rest rest'

/-- The bodies of cases are changed one by one. -/
def ChangedCasesBy : List (Case (List Statement)) → List (Case (List Statement)) → Prop
  | [], cases' => cases' = []
  | ⟨values, isDefault, body⟩ :: rest, cases' =>
    ∃ body' rest', cases' = ⟨values, isDefault, body'⟩ :: rest' ∧ ChangedAllBy body body' ∧ ChangedCasesBy rest rest'

/-- The bodies of clauses are changed one by one. -/
def ChangedClausesBy : List (Catch (List Statement)) → List (Catch (List Statement)) → Prop
  | [], clauses' => clauses' = []
  | ⟨catches, boundTo, body⟩ :: rest, clauses' =>
    ∃ body' rest', clauses' = ⟨catches, boundTo, body'⟩ :: rest' ∧ ChangedAllBy body body' ∧ ChangedClausesBy rest rest'

end

end

section

variable {R : Statement → Statement → Prop}

/-! What a changed tree holds at its ends stems from the statements it was changed from. -/

mutual

/-- A simple statement of the result comes from one of the original. -/
theorem ChangedBy.exists_of_mem (hR : ∀ s t, s.subtree = [s] → R s t → t.subtree = [t]) {s t u : Statement} (h : ChangedBy R s t)
    (hu : u ∈ t.subtree) (hsimple : u.isSimple = true) : ∃ v, R v u := by
  cases s with
  | branch condition thenPart elsePart =>
    rw [ChangedBy] at h
    obtain ⟨thenPart', elsePart', rfl, hthen, helse⟩ := h
    simp only [subtree, List.mem_cons, List.mem_append] at hu
    rcases hu with rfl | hu | hu
    · cases hsimple
    · exact ChangedAllBy.exists_of_mem hR hthen hu hsimple
    · exact ChangedAllBy.exists_of_mem hR helse hu hsimple
  | whileDo condition body =>
    rw [ChangedBy] at h
    obtain ⟨body', rfl, hbody⟩ := h
    simp only [subtree, List.mem_cons] at hu
    rcases hu with rfl | hu
    · cases hsimple
    · exact ChangedAllBy.exists_of_mem hR hbody hu hsimple
  | doWhile condition body =>
    rw [ChangedBy] at h
    obtain ⟨body', rfl, hbody⟩ := h
    simp only [subtree, List.mem_cons] at hu
    rcases hu with rfl | hu
    · cases hsimple
    · exact ChangedAllBy.exists_of_mem hR hbody hu hsimple
  | forUpdate condition update body =>
    rw [ChangedBy] at h
    obtain ⟨update', body', rfl, hupdate, hbody⟩ := h
    simp only [subtree, List.mem_cons, List.mem_append] at hu
    rcases hu with rfl | hu | hu
    · cases hsimple
    · exact ChangedAllBy.exists_of_mem hR hbody hu hsimple
    · exact ChangedAllBy.exists_of_mem hR hupdate hu hsimple
  | switch key cases =>
    rw [ChangedBy] at h
    obtain ⟨cases', rfl, hcases⟩ := h
    simp only [subtree, List.mem_cons] at hu
    rcases hu with rfl | hu
    · cases hsimple
    · exact ChangedCasesBy.exists_of_mem hR hcases hu hsimple
  | tryCatch body clauses =>
    rw [ChangedBy] at h
    obtain ⟨body', clauses', rfl, hbody, hclauses⟩ := h
    simp only [subtree, List.mem_cons, List.mem_append] at hu
    rcases hu with rfl | hu | hu
    · cases hsimple
    · exact ChangedAllBy.exists_of_mem hR hbody hu hsimple
    · exact ChangedClausesBy.exists_of_mem hR hclauses hu hsimple
  | _ =>
    simp only [ChangedBy] at h
    rw [hR _ _ (by simp) h, List.mem_singleton] at hu
    exact ⟨_, hu ▸ h⟩
termination_by structural s

/-- A simple statement of a changed list comes from one of the original list. -/
theorem ChangedAllBy.exists_of_mem (hR : ∀ s t, s.subtree = [s] → R s t → t.subtree = [t]) {ss ts : List Statement}
    {u : Statement} (h : ChangedAllBy R ss ts) (hu : u ∈ subtrees ts) (hsimple : u.isSimple = true) : ∃ v, R v u := by
  cases ss with
  | nil =>
    rw [ChangedAllBy] at h
    subst h
    cases hu
  | cons s rest =>
    rw [ChangedAllBy] at h
    obtain ⟨t, rest', rfl, hs, hrest⟩ := h
    rcases List.mem_append.1 hu with hu | hu
    · exact ChangedBy.exists_of_mem hR hs hu hsimple
    · exact ChangedAllBy.exists_of_mem hR hrest hu hsimple
termination_by structural ss

/-- A simple statement of changed cases comes from one of the original cases. -/
theorem ChangedCasesBy.exists_of_mem (hR : ∀ s t, s.subtree = [s] → R s t → t.subtree = [t])
    {cases cases' : List (Case (List Statement))} {u : Statement} (h : ChangedCasesBy R cases cases')
    (hu : u ∈ subtreesCases cases') (hsimple : u.isSimple = true) : ∃ v, R v u := by
  match cases with
  | [] =>
    rw [ChangedCasesBy] at h
    subst h
    cases hu
  | ⟨values, isDefault, body⟩ :: rest =>
    rw [ChangedCasesBy] at h
    obtain ⟨body', rest', rfl, hbody, hrest⟩ := h
    rcases List.mem_append.1 hu with hu | hu
    · exact ChangedAllBy.exists_of_mem hR hbody hu hsimple
    · exact ChangedCasesBy.exists_of_mem hR hrest hu hsimple
termination_by structural cases

/-- A simple statement of changed clauses comes from one of the original clauses. -/
theorem ChangedClausesBy.exists_of_mem (hR : ∀ s t, s.subtree = [s] → R s t → t.subtree = [t])
    {clauses clauses' : List (Catch (List Statement))} {u : Statement} (h : ChangedClausesBy R clauses clauses')
    (hu : u ∈ subtreesClauses clauses') (hsimple : u.isSimple = true) : ∃ v, R v u := by
  match clauses with
  | [] =>
    rw [ChangedClausesBy] at h
    subst h
    cases hu
  | ⟨catches, boundTo, body⟩ :: rest =>
    rw [ChangedClausesBy] at h
    obtain ⟨body', rest', rfl, hbody, hrest⟩ := h
    rcases List.mem_append.1 hu with hu | hu
    · exact ChangedAllBy.exists_of_mem hR hbody hu hsimple
    · exact ChangedClausesBy.exists_of_mem hR hrest hu hsimple
termination_by structural clauses

end

/-! A change that keeps every statement of a tree keeps the tree. -/

mutual

/-- Where no statement can change, the result is the original. -/
theorem ChangedBy.eq_of_forall {s t : Statement} (h : ChangedBy R s t) (hR : ∀ u ∈ s.subtree, ∀ v, R u v → v = u) : t = s := by
  cases s with
  | branch condition thenPart elsePart =>
    rw [ChangedBy] at h
    obtain ⟨thenPart', elsePart', rfl, hthen, helse⟩ := h
    rw [ChangedAllBy.eq_of_forall hthen fun u hu => hR u (by simp [hu]),
      ChangedAllBy.eq_of_forall helse fun u hu => hR u (by simp [hu])]
  | whileDo condition body =>
    rw [ChangedBy] at h
    obtain ⟨body', rfl, hbody⟩ := h
    rw [ChangedAllBy.eq_of_forall hbody fun u hu => hR u (by simp [hu])]
  | doWhile condition body =>
    rw [ChangedBy] at h
    obtain ⟨body', rfl, hbody⟩ := h
    rw [ChangedAllBy.eq_of_forall hbody fun u hu => hR u (by simp [hu])]
  | forUpdate condition update body =>
    rw [ChangedBy] at h
    obtain ⟨update', body', rfl, hupdate, hbody⟩ := h
    rw [ChangedAllBy.eq_of_forall hupdate fun u hu => hR u (by simp [hu]),
      ChangedAllBy.eq_of_forall hbody fun u hu => hR u (by simp [hu])]
  | switch key cases =>
    rw [ChangedBy] at h
    obtain ⟨cases', rfl, hcases⟩ := h
    rw [ChangedCasesBy.eq_of_forall hcases fun u hu => hR u (by simp [hu])]
  | tryCatch body clauses =>
    rw [ChangedBy] at h
    obtain ⟨body', clauses', rfl, hbody, hclauses⟩ := h
    rw [ChangedAllBy.eq_of_forall hbody fun u hu => hR u (by simp [hu]),
      ChangedClausesBy.eq_of_forall hclauses fun u hu => hR u (by simp [hu])]
  | _ =>
    simp only [ChangedBy] at h
    exact hR _ (by simp) _ h
termination_by structural s

/-- A list in which no statement can change stays as it is. -/
theorem ChangedAllBy.eq_of_forall {ss ts : List Statement} (h : ChangedAllBy R ss ts)
    (hR : ∀ u ∈ subtrees ss, ∀ v, R u v → v = u) : ts = ss := by
  cases ss with
  | nil =>
    rw [ChangedAllBy] at h
    exact h
  | cons s rest =>
    rw [ChangedAllBy] at h
    obtain ⟨t, rest', rfl, hs, hrest⟩ := h
    rw [ChangedBy.eq_of_forall hs fun u hu => hR u (by simp [hu]),
      ChangedAllBy.eq_of_forall hrest fun u hu => hR u (by simp [hu])]
termination_by structural ss

/-- Cases in which no statement can change stay as they are. -/
theorem ChangedCasesBy.eq_of_forall {cases cases' : List (Case (List Statement))} (h : ChangedCasesBy R cases cases')
    (hR : ∀ u ∈ subtreesCases cases, ∀ v, R u v → v = u) : cases' = cases := by
  match cases with
  | [] =>
    rw [ChangedCasesBy] at h
    exact h
  | ⟨values, isDefault, body⟩ :: rest =>
    rw [ChangedCasesBy] at h
    obtain ⟨body', rest', rfl, hbody, hrest⟩ := h
    rw [ChangedAllBy.eq_of_forall hbody fun u hu => hR u (by simp [hu]),
      ChangedCasesBy.eq_of_forall hrest fun u hu => hR u (by simp [hu])]
termination_by structural cases

/-- Clauses in which no statement can change stay as they are. -/
theorem ChangedClausesBy.eq_of_forall {clauses clauses' : List (Catch (List Statement))}
    (h : ChangedClausesBy R clauses clauses') (hR : ∀ u ∈ subtreesClauses clauses, ∀ v, R u v → v = u) : clauses' = clauses := by
  match clauses with
  | [] =>
    rw [ChangedClausesBy] at h
    exact h
  | ⟨catches, boundTo, body⟩ :: rest =>
    rw [ChangedClausesBy] at h
    obtain ⟨body', rest', rfl, hbody, hrest⟩ := h
    rw [ChangedAllBy.eq_of_forall hbody fun u hu => hR u (by simp [hu]),
      ChangedClausesBy.eq_of_forall hrest fun u hu => hR u (by simp [hu])]
termination_by structural clauses

end

end

end Statement

namespace Pass

/-! ## Assignments that add a constant -/

/-- The expression is the variable plus a constant, in either order, or the variable minus one that can be negated; the amount
is what it adds to the variable. -/
inductive AddsConstant (a : Arena) (x : LocalId) : Int32 → ExprId → Prop where
  | right {value lhs rhs : ExprId} {c : Int32} (hvalue : a[value]? = some (.arith .add lhs rhs)) (hx : a[lhs]? = some (.var x))
      (hc : a[rhs]? = some (.int c)) : AddsConstant a x c value
  | left {value lhs rhs : ExprId} {c : Int32} (hvalue : a[value]? = some (.arith .add lhs rhs)) (hc : a[lhs]? = some (.int c))
      (hx : a[rhs]? = some (.var x)) : AddsConstant a x c value
  | minus {value lhs rhs : ExprId} {c : Int32} (hvalue : a[value]? = some (.arith .sub lhs rhs)) (hx : a[lhs]? = some (.var x))
      (hc : a[rhs]? = some (.int c)) (hmin : c ≠ Int32.minValue) : AddsConstant a x (-c) value

section

variable {a : Arena} {x : LocalId} {amount : Int32} {value id : ExprId}

/-- A constant is an integer literal. -/
theorem constant?_eq_some {c : Int32} : constant? a id = some c ↔ a[id]? = some (.int c) := by
  unfold constant?
  split
  case h_1 n h => simp [h]
  case h_2 h => simpa using fun heq => h c heq

theorem isVar_iff : isVar a x id = true ↔ a[id]? = some (.var x) := by simp [isVar]

/-- Every constant but the least can be negated. -/
theorem negate?_eq_some {c : Int32} : negate? c = some amount ↔ c ≠ Int32.minValue ∧ -c = amount := by simp [negate?]

/-- The amount is found exactly where the value adds a constant to the variable. -/
theorem addedAmount?_eq_some : addedAmount? a x value = some amount ↔ AddsConstant a x amount value := by
  constructor
  · intro h
    unfold addedAmount? at h
    split at h
    case h_1 lhs rhs hvalue =>
      split at h
      case isTrue hx => exact .right hvalue (isVar_iff.1 hx) (constant?_eq_some.1 h)
      case isFalse =>
        split at h
        case isTrue hx => exact .left hvalue (constant?_eq_some.1 h) (isVar_iff.1 hx)
        case isFalse => cases h
    case h_2 lhs rhs hvalue =>
      split at h
      case isTrue hx =>
        obtain ⟨c, hc, hneg⟩ := Option.bind_eq_some_iff.1 h
        obtain ⟨hmin, rfl⟩ := negate?_eq_some.1 hneg
        exact .minus hvalue (isVar_iff.1 hx) (constant?_eq_some.1 hc) hmin
      case isFalse => cases h
    case h_3 => cases h
  · intro h
    cases h with
    | right hvalue hx hc => simp [addedAmount?, hvalue, isVar_iff.2 hx, constant?_eq_some.2 hc]
    | left hvalue hc hx => simp [addedAmount?, hvalue, isVar, hc, hx, constant?_eq_some.2 hc]
    | minus hvalue hx hc hmin => simp [addedAmount?, hvalue, isVar_iff.2 hx, constant?_eq_some.2 hc, negate?_eq_some.2 ⟨hmin, rfl⟩]

end

/-- What becomes of a statement: an assignment that adds a constant to its variable becomes an increment of that variable, and
all else is kept. -/
inductive RewrittenTo (a : Arena) : Statement → Statement → Prop where
  | increment {x : LocalId} {value : ExprId} {amount : Int32} (h : AddsConstant a x amount value) :
      RewrittenTo a (.assign x value) (.increment x amount)
  | kept {s : Statement} (h : ∀ x value amount, s = .assign x value → ¬ AddsConstant a x amount value) : RewrittenTo a s s

/-- One statement is rewritten if it can be, and kept otherwise. -/
theorem rewrittenTo_toIncrement (a : Arena) (s : Statement) : RewrittenTo a s (toIncrement a s) := by
  cases s with
  | assign x value =>
    cases h : addedAmount? a x value with
    | some amount =>
      simp only [toIncrement, h]
      exact .increment (addedAmount?_eq_some.1 h)
    | none =>
      simp only [toIncrement, h]
      refine .kept ?_
      rintro _ _ amount ⟨⟩ hadds
      rw [addedAmount?_eq_some.2 hadds] at h
      cases h
  | _ => exact .kept (by rintro _ _ _ ⟨⟩)

/-- No assignment of the result adds a constant to its variable. -/
theorem RewrittenTo.not_addsConstant {a : Arena} {s : Statement} {x : LocalId} {value : ExprId} {amount : Int32}
    (h : RewrittenTo a s (.assign x value)) : ¬ AddsConstant a x amount value := by
  cases h with
  | kept h => exact h x value amount rfl

/-! ## The pass as a change in place -/

section

variable (a : Arena)

mutual

/-- The pass rewrites a statement after all that it holds. -/
theorem changedBy_mapInner (s : Statement) : s.ChangedBy (RewrittenTo a)
    (toIncrement a (Id.run (s.mapInner fun statements => pure (statements.map (toIncrement a))))) := by
  cases s with
  | branch condition thenPart elsePart =>
    simp only [Statement.mapInner, Statement.ChangedBy, Id.run_bind, Id.run_pure]
    exact ⟨_, _, rfl, changedAllBy_mapEach thenPart, changedAllBy_mapEach elsePart⟩
  | whileDo condition body =>
    simp only [Statement.mapInner, Statement.ChangedBy, Id.run_bind, Id.run_pure]
    exact ⟨_, rfl, changedAllBy_mapEach body⟩
  | doWhile condition body =>
    simp only [Statement.mapInner, Statement.ChangedBy, Id.run_bind, Id.run_pure]
    exact ⟨_, rfl, changedAllBy_mapEach body⟩
  | forUpdate condition update body =>
    simp only [Statement.mapInner, Statement.ChangedBy, Id.run_bind, Id.run_pure]
    exact ⟨_, _, rfl, changedAllBy_mapEach update, changedAllBy_mapEach body⟩
  | switch key cases =>
    simp only [Statement.mapInner, Statement.ChangedBy, Id.run_bind, Id.run_pure]
    exact ⟨_, rfl, changedCasesBy_mapCases cases⟩
  | tryCatch body clauses =>
    simp only [Statement.mapInner, Statement.ChangedBy, Id.run_bind, Id.run_pure]
    exact ⟨_, _, rfl, changedAllBy_mapEach body, changedClausesBy_mapClauses clauses⟩
  | _ =>
    simp only [Statement.mapInner, Statement.ChangedBy, Id.run_pure]
    exact rewrittenTo_toIncrement a _

/-- The pass rewrites every statement of a list. -/
theorem changedAllBy_mapEach (ss : List Statement) : Statement.ChangedAllBy (RewrittenTo a) ss
    ((Id.run (Statement.mapEach (fun statements => pure (statements.map (toIncrement a))) ss)).map (toIncrement a)) := by
  cases ss with
  | nil =>
    simp only [Statement.mapEach, Statement.ChangedAllBy, Id.run_pure, List.map_nil]
  | cons s rest =>
    simp only [Statement.mapEach, Statement.ChangedAllBy, Id.run_bind, Id.run_pure, List.map_cons]
    exact ⟨_, _, rfl, changedBy_mapInner s, changedAllBy_mapEach rest⟩

/-- The pass rewrites the bodies of all cases. -/
theorem changedCasesBy_mapCases (cases : List (Case (List Statement))) : Statement.ChangedCasesBy (RewrittenTo a) cases
    (Id.run (Statement.mapCases (fun statements => pure (statements.map (toIncrement a))) cases)) := by
  match cases with
  | [] => simp only [Statement.mapCases, Statement.ChangedCasesBy, Id.run_pure]
  | ⟨values, isDefault, body⟩ :: rest =>
    simp only [Statement.mapCases, Statement.ChangedCasesBy, Id.run_bind, Id.run_pure]
    exact ⟨_, _, rfl, changedAllBy_mapEach body, changedCasesBy_mapCases rest⟩

/-- The pass rewrites the bodies of all clauses. -/
theorem changedClausesBy_mapClauses (clauses : List (Catch (List Statement))) : Statement.ChangedClausesBy (RewrittenTo a) clauses
    (Id.run (Statement.mapClauses (fun statements => pure (statements.map (toIncrement a))) clauses)) := by
  match clauses with
  | [] => simp only [Statement.mapClauses, Statement.ChangedClausesBy, Id.run_pure]
  | ⟨catches, boundTo, body⟩ :: rest =>
    simp only [Statement.mapClauses, Statement.ChangedClausesBy, Id.run_bind, Id.run_pure]
    exact ⟨_, _, rfl, changedAllBy_mapEach body, changedClausesBy_mapClauses rest⟩

end

end

/-- The pass never fails, keeps the expressions, and changes statements in place. -/
theorem increment_run (m : Method) (ls : Locals) (body : Body) :
    ∃ statements, increment.run m ls body = .ok ⟨body.arena, statements⟩ ∧
      Statement.ChangedAllBy (RewrittenTo body.arena) body.statements statements :=
  ⟨_, rfl, changedAllBy_mapEach body.arena body.statements⟩

end Pass

/-! ## What assignments and increments do -/

/-- The operators add and subtract modulo 2 to the 32nd. -/
def Interpretation.Wraps (interp : Interpretation) : Prop :=
  (∀ l r, interp .add l r = l + r) ∧ ∀ l r, interp .sub l r = l - r

/-- An expression of integers has a value, wherever in the arena its operands stand. -/
inductive Arena.HasValue (interp : Interpretation) (vars : Store) (a : Arena) : ExprId → Int32 → Prop where
  | var {id : ExprId} {x : LocalId} (h : a[id]? = some (.var x)) : HasValue interp vars a id (vars x)
  | int {id : ExprId} {n : Int32} (h : a[id]? = some (.int n)) : HasValue interp vars a id n
  | arith {id lhs rhs : ExprId} {op : ArithOp} {l r : Int32} (h : a[id]? = some (.arith op lhs rhs))
      (hl : HasValue interp vars a lhs l) (hr : HasValue interp vars a rhs r) : HasValue interp vars a id (interp op l r)

/-- What assignments and increments do to the variables. -/
inductive Statement.Does (interp : Interpretation) (a : Arena) : Statement → Store → Store → Prop where
  | assign {x : LocalId} {value : ExprId} {v : Int32} {vars : Store} (h : a.HasValue interp vars value v) :
      Does interp a (.assign x value) vars (Function.update vars x v)
  | increment {x : LocalId} {amount : Int32} {vars : Store} :
      Does interp a (.increment x amount) vars (Function.update vars x (vars x + amount))

section

variable {interp : Interpretation} {vars vars' : Store} {a : Arena} {id : ExprId} {x : LocalId} {v amount : Int32}

/-- A variable has the value of the variable. -/
theorem Arena.hasValue_var (h : a[id]? = some (.var x)) : a.HasValue interp vars id v ↔ v = vars x := by
  constructor
  · intro hv
    cases hv <;> simp_all
  · rintro rfl
    exact .var h

/-- A literal has its own value. -/
theorem Arena.hasValue_int {n : Int32} (h : a[id]? = some (.int n)) : a.HasValue interp vars id v ↔ v = n := by
  constructor
  · intro hv
    cases hv <;> simp_all
  · rintro rfl
    exact .int h

/-- Arithmetic has the value that its operator gives for its operands. -/
theorem Arena.hasValue_arith {op : ArithOp} {lhs rhs : ExprId} (h : a[id]? = some (.arith op lhs rhs)) :
    a.HasValue interp vars id v ↔ ∃ l r, a.HasValue interp vars lhs l ∧ a.HasValue interp vars rhs r ∧ v = interp op l r := by
  constructor
  · intro hv
    cases hv with
    | var hid => simp_all
    | int hid => simp_all
    | arith hid hl hr =>
      obtain ⟨rfl, rfl, rfl⟩ : _ ∧ _ ∧ _ := by simpa [h] using hid
      exact ⟨_, _, hl, hr, rfl⟩
  · rintro ⟨l, r, hl, hr, rfl⟩
    exact .arith h hl hr

/-- An expression that adds a constant to a variable has the value of that sum and no other. -/
theorem Pass.AddsConstant.hasValue_iff (h : Pass.AddsConstant a x amount id) (hwraps : interp.Wraps) :
    a.HasValue interp vars id v ↔ v = vars x + amount := by
  cases h with
  | right hid hx hc => simp [Arena.hasValue_arith hid, Arena.hasValue_var hx, Arena.hasValue_int hc, hwraps.1]
  | left hid hc hx => simp [Arena.hasValue_arith hid, Arena.hasValue_var hx, Arena.hasValue_int hc, hwraps.1, Int32.add_comm]
  | minus hid hx hc => simp [Arena.hasValue_arith hid, Arena.hasValue_var hx, Arena.hasValue_int hc, hwraps.2, Int32.sub_eq_add_neg]

/-- An assignment stores the value of its expression. -/
theorem Statement.does_assign : (Statement.assign x id).Does interp a vars vars' ↔
    ∃ v, a.HasValue interp vars id v ∧ vars' = Function.update vars x v := by
  constructor
  · rintro ⟨h⟩
    exact ⟨_, h, rfl⟩
  · rintro ⟨v, h, rfl⟩
    exact .assign h

/-- An increment adds its amount to the variable. -/
theorem Statement.does_increment : (Statement.increment x amount).Does interp a vars vars' ↔
    vars' = Function.update vars x (vars x + amount) := by
  constructor
  · rintro ⟨⟩
    rfl
  · rintro rfl
    exact .increment

/-- An assignment that adds a constant does what the increment does. -/
theorem Pass.AddsConstant.does_assign (h : Pass.AddsConstant a x amount id) (hwraps : interp.Wraps) :
    (Statement.assign x id).Does interp a vars vars' ↔ vars' = Function.update vars x (vars x + amount) := by
  simp [Statement.does_assign, h.hasValue_iff hwraps]

end

namespace Pass

/-! ## The normal form -/

section

variable {a : Arena}

/-- Rewriting a statement that holds none gives one that holds none. -/
theorem RewrittenTo.subtree_eq {s t : Statement} (hs : s.subtree = [s]) (h : RewrittenTo a s t) : t.subtree = [t] := by
  cases h with
  | increment => simp
  | kept => exact hs

/-- No assignment that adds a constant to its variable is left in a tree that the pass has changed. -/
theorem not_addsConstant_of_changed {ss ts : List Statement} (h : Statement.ChangedAllBy (RewrittenTo a) ss ts) {x : LocalId}
    {value : ExprId} (hmem : .assign x value ∈ Statement.subtrees ts) (amount : Int32) : ¬ AddsConstant a x amount value := by
  obtain ⟨s, hs⟩ := Statement.ChangedAllBy.exists_of_mem (fun _ _ => RewrittenTo.subtree_eq) h hmem rfl
  exact hs.not_addsConstant

/-- The pass keeps a tree without such assignments. -/
theorem eq_of_changed {ss ts : List Statement} (h : Statement.ChangedAllBy (RewrittenTo a) ss ts)
    (hss : ∀ x value amount, .assign x value ∈ Statement.subtrees ss → ¬ AddsConstant a x amount value) : ts = ss := by
  refine Statement.ChangedAllBy.eq_of_forall h fun s hs t ht => ?_
  cases ht with
  | increment hadds => exact absurd hadds (hss _ _ _ hs)
  | kept => rfl

/-- Subtracting the least constant is not adding a constant: it has no negative. -/
theorem not_addsConstant_minValue {x : LocalId} {amount : Int32} {value lhs rhs : ExprId}
    (hvalue : a[value]? = some (.arith .sub lhs rhs)) (hrhs : a[rhs]? = some (.int Int32.minValue)) :
    ¬ AddsConstant a x amount value := by
  intro h
  cases h with
  | right h => simp [hvalue] at h
  | left h => simp [hvalue] at h
  | minus h _ hc hmin =>
    obtain ⟨rfl, rfl⟩ : _ ∧ _ := by simpa [hvalue] using h
    rw [hrhs] at hc
    cases hc
    exact hmin rfl

end

/-- The pass for increments changes assignments in place and nothing else. Those it changes add a constant to their variable, as
the increment does that replaces them; subtracting the least integer is not among them. It leaves no such assignment, so that a
second run changes nothing. -/
theorem increments_keep_meaning (m : Method) (ls : Locals) (body : Body) :
    ∃ statements, increment.run m ls body = .ok ⟨body.arena, statements⟩ ∧
      Statement.ChangedAllBy (RewrittenTo body.arena) body.statements statements ∧
      (∀ x value amount, AddsConstant body.arena x amount value → ∀ interp : Interpretation, interp.Wraps → ∀ vars vars',
        ((Statement.assign x value).Does interp body.arena vars vars' ↔ vars' = Function.update vars x (vars x + amount)) ∧
        ((Statement.increment x amount).Does interp body.arena vars vars' ↔ vars' = Function.update vars x (vars x + amount))) ∧
      (∀ x value lhs rhs t, body.arena[value]? = some (.arith .sub lhs rhs) → body.arena[rhs]? = some (.int Int32.minValue) →
        RewrittenTo body.arena (.assign x value) t → t = .assign x value) ∧
      (∀ x value amount, .assign x value ∈ Statement.subtrees statements → ¬ AddsConstant body.arena x amount value) ∧
      increment.run m ls ⟨body.arena, statements⟩ = .ok ⟨body.arena, statements⟩ := by
  obtain ⟨statements, hrun, hchanged⟩ := increment_run m ls body
  have hnormal : ∀ x value amount, .assign x value ∈ Statement.subtrees statements → ¬ AddsConstant body.arena x amount value :=
    fun x value amount hmem => not_addsConstant_of_changed hchanged hmem amount
  obtain ⟨again, hagain, hunchanged⟩ := increment_run m ls ⟨body.arena, statements⟩
  refine ⟨statements, hrun, hchanged, ?_, ?_, hnormal, ?_⟩
  · intro x value amount hadds interp hwraps vars vars'
    exact ⟨hadds.does_assign hwraps, Statement.does_increment⟩
  · intro x value lhs rhs t hvalue hrhs ht
    cases ht with
    | increment hadds => exact absurd hadds (not_addsConstant_minValue hvalue hrhs)
    | kept => rfl
  · rw [hagain, eq_of_changed hunchanged hnormal]

end Pass

end CodeLift
