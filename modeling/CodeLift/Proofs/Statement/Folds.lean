import CodeLift.Proofs.Statement.Acyclic
import CodeLift.Proofs.Statement.Log
import CodeLift.Proofs.Statement.Usage

/-!
# How an arena comes about

While a method is built its arena changes in two ways: an expression is made, or a constructor call completes an object under
construction. `Source.folds` lists the second ones in the order in which they happen, each with the arena that it finds, for all
the code that is run: also for the code of a list that fails later and becomes a comment, since what it has made stays.
`Arena.Steps` relates two arenas of a run by the folds between them.
-/

namespace CodeLift

/-- A constructor call that completes an object: the arena that it finds, the object, and the arguments. -/
structure Fold where
  arena : Arena
  object : ExprId
  arguments : List ExprId

/-- No argument of the call leads to the object, in the arena that the call finds. -/
def Fold.IsHarmless (fold : Fold) : Prop :=
  ∀ argument ∈ fold.arguments, ¬ Relation.ReflTransGen fold.arena.Refers argument fold.object

/-! ## The folds of a run -/

namespace Build

/-- The fold that an instruction is, given the arena and the stack that it finds. -/
def foldOf (a : Arena) (stack : List ExprId) : Insn → List Fold
  | .invoke method =>
    match MethodType.parse method.descriptor with
    | .ok type =>
      match stack.drop type.parameters.length with
      | object :: _ =>
        if method.isConstructor && a[object]?.any Expr.isBuilding then
          [⟨a, object, (stack.take type.parameters.length).reverse⟩]
        else []
      | [] => []
    | .error _ => []
  | _ => []

end Build

/-- The folds of a method, in the order in which they happen while its statements are built. -/
def Source.folds (src : Source) (settings : Settings) (sections : List Section) (events : List Event) : List Fold :=
  src.log settings Build.foldOf sections events

/-! ## What building does to an arena -/

/-- An expression that building makes: it is no object with its arguments, and a variable is one of the first `k`. -/
def Expr.IsMade (k : Nat) : Expr → Prop
  | .var x => x < k
  | .new _ _ _ => False
  | _ => True

/-- The second arena comes from the first by making expressions and by the folds of the list, in order. -/
inductive Arena.Steps (k : Nat) (a : Arena) : List Fold → Arena → Prop where
  | refl : Steps k a [] a
  | make {log : List Fold} {a' : Arena} (h : Steps k a log a') {e : Expr} (hmade : e.IsMade k)
      (hchildren : ∀ child ∈ e.children, child < a'.size) : Steps k a log (a'.push e)
  | fold {log : List Fold} {a' : Arena} (h : Steps k a log a') {object : ExprId} {className : String} (descriptor : String)
      {arguments : List ExprId} (hobject : a'[object]? = some (.newUninitialized className))
      (harguments : ∀ argument ∈ arguments, argument < a'.size) :
      Steps k a (log ++ [⟨a', object, arguments⟩]) (a'.setIfInBounds object (.new className descriptor arguments))

namespace Arena.Steps

variable {k : Nat} {a a' a'' : Arena} {log log' : List Fold}

theorem trans (h : a.Steps k log a') (h' : a'.Steps k log' a'') : a.Steps k (log ++ log') a'' := by
  induction h' with
  | refl =>
    rw [List.append_nil]
    exact h
  | make _ hmade hchildren ih => exact .make ih hmade hchildren
  | fold _ descriptor hobject harguments ih =>
    rw [← List.append_assoc]
    exact .fold ih descriptor hobject harguments

theorem size_le (h : a.Steps k log a') : a.size ≤ a'.size := by
  induction h with
  | refl => exact Nat.le_refl _
  | make _ _ _ ih =>
    rw [Array.size_push]
    exact Nat.le_succ_of_le ih
  | fold _ _ _ _ ih =>
    rw [Array.size_setIfInBounds]
    exact ih

/-! ## What is known of the arena then -/

theorem isClosed (h : a.Steps k log a') (ha : a.IsClosed) : a'.IsClosed := by
  induction h with
  | refl => exact ha
  | make _ _ hchildren ih => exact ih.push hchildren
  | fold _ _ _ harguments ih =>
    refine ih.set ?_ _
    exact harguments

/-- The variables are among the first `k`. -/
theorem lt_of_var (h : Arena.Steps k #[] log a) {id : ExprId} {x : LocalId} (hx : a[id]? = some (.var x)) : x < k := by
  induction h with
  | refl => simp at hx
  | make _ hmade _ ih =>
    rw [Array.getElem?_push] at hx
    split at hx
    · cases hx
      exact hmade
    · exact ih hx
  | @fold _ a' _ object _ _ _ hobject _ ih =>
    rw [Array.getElem?_setIfInBounds] at hx
    split at hx
    · split at hx <;> cases hx
    · exact ih hx

/-- The objects with arguments are those of the folds. -/
theorem exists_new_iff (h : Arena.Steps k #[] log a) {id : ExprId} {arguments : List ExprId} :
    (∃ className descriptor, a[id]? = some (.new className descriptor arguments)) ↔
      ∃ fold ∈ log, fold.object = id ∧ fold.arguments = arguments := by
  induction h with
  | refl => simp
  | @make log a' _ e hmade _ ih =>
    rw [← ih]
    by_cases hid : id = a'.size
    · subst hid
      cases e <;> simp_all [Expr.IsMade]
    · simp [Array.getElem?_push, hid]
  | @fold log a' _ object className descriptor arguments' hobject _ ih =>
    have hlt : object < a'.size := (Array.getElem?_eq_some_iff.1 hobject).1
    by_cases hid : object = id
    · subst hid
      have hnone : ¬ ∃ fold ∈ log, fold.object = object ∧ fold.arguments = arguments := by
        rw [← ih, hobject]
        simp
      simp_all
    · rw [Array.getElem?_setIfInBounds_ne hid, ih]
      simp [hid]

/-- Folds close a cycle exactly where one of them does: its arguments lead to its object, when it happens. -/
theorem acyclic_iff (h : Arena.Steps k #[] log a) : a.Acyclic ↔ ∀ fold ∈ log, fold.IsHarmless := by
  induction h with
  | refl => simp [Arena.Acyclic.empty]
  | make hsteps _ hchildren ih =>
    rw [← ih]
    constructor
    · intro h
      exact h.of_refers fun id child hrefers => Arena.refers_push.2 (.inr hrefers)
    · intro h
      exact h.push (hsteps.isClosed .empty) hchildren
  | @fold log a' hsteps object className descriptor arguments hobject _ ih =>
    have hlt : object < a'.size := (Array.getElem?_eq_some_iff.1 hobject).1
    have hkept : ∀ id child, a'.Refers id child →
        Arena.Refers (a'.setIfInBounds object (.new className descriptor arguments)) id child :=
      fun _ _ hrefers => hrefers.replace hobject
    rw [List.forall_mem_append, List.forall_mem_singleton, ← ih]
    constructor
    · intro h
      refine ⟨h.of_refers hkept, fun argument hargument hreaches => ?_⟩
      have hback : Arena.Refers (a'.setIfInBounds object (.new className descriptor arguments)) object argument :=
        (Arena.refers_set hlt).2 (.inl ⟨rfl, hargument⟩)
      exact h object (.head' hback (Relation.ReflTransGen.mono hkept argument object hreaches))
    · rintro ⟨h, harmless⟩
      exact h.set hlt harmless

end Arena.Steps

end CodeLift
