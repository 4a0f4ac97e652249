import CodeLift.Proofs.Statement.Acyclic
import CodeLift.Proofs.Statement.Ledger
import CodeLift.Proofs.Statement.Usage

/-!
# Values that are discarded

A value that is popped becomes a statement if it is a call, and is forgotten otherwise, also if one of its operands is a call.
`Source.discards` lists the values that are forgotten while a method is built. Nothing else is: while the method is built, every
call is still reached from a stack, from a condition or a statement, or from a value of that list.
-/

namespace CodeLift

/-! ## Which calls are reached -/

namespace Arena

variable {a a' : Arena} {xs ys : List ExprId} {id : ExprId}

/-- References lead to an expression from one of those of a list. -/
def IsReached (a : Arena) (xs : List ExprId) (id : ExprId) : Prop := ∃ x ∈ xs, Relation.ReflTransGen a.Refers x id

/-- References lead from the expressions of a list to every call. -/
def CallsReached (a : Arena) (xs : List ExprId) : Prop := ∀ id e, a[id]? = some e → e.IsCall → a.IsReached xs id

theorem isReached_of_mem (h : id ∈ xs) : a.IsReached xs id := ⟨id, h, .refl⟩

theorem CallsReached.subset (h : a.CallsReached xs) (hsubset : xs ⊆ ys) : a.CallsReached ys := by
  intro id e he hcall
  obtain ⟨x, hx, hpath⟩ := h id e he hcall
  exact ⟨x, hsubset hx, hpath⟩

/-- Calls stay reached while references are added, if whatever reached them is reached itself. -/
theorem CallsReached.of_refers (h : a.CallsReached xs) (hrefers : ∀ x y, a.Refers x y → a'.Refers x y)
    (hxs : ∀ x ∈ xs, a'.IsReached ys x)
    (hcalls : ∀ id e, a'[id]? = some e → e.IsCall → a[id]? = some e ∨ a'.IsReached ys id) : a'.CallsReached ys := by
  intro id e he hcall
  rcases hcalls id e he hcall with hold | hreached
  · obtain ⟨x, hx, hpath⟩ := h id e hold hcall
    obtain ⟨y, hy, hpath'⟩ := hxs x hx
    exact ⟨y, hy, hpath'.trans (Relation.ReflTransGen.mono hrefers x id hpath)⟩
  · exact hreached

/-- An expression that is made stands for its operands. -/
theorem CallsReached.push {e : Expr} (h : a.CallsReached xs) (hmade : a.size ∈ ys) (hxs : ∀ x ∈ xs, x ∈ e.children ∨ x ∈ ys) :
    CallsReached (a.push e) ys := by
  refine h.of_refers (fun x y hxy => refers_push.2 (.inr hxy)) ?_ ?_
  · intro x hx
    rcases hxs x hx with hchild | hx
    · exact ⟨a.size, hmade, .single (refers_push.2 (.inl ⟨rfl, hchild⟩))⟩
    · exact isReached_of_mem hx
  · intro id e' he' _
    rw [Array.getElem?_push] at he'
    split at he'
    · rename_i hid
      exact .inr (hid ▸ isReached_of_mem hmade)
    · exact .inl he'

/-- An object that gets its arguments stands for them. -/
theorem CallsReached.complete {object : ExprId} {className : String} (descriptor : String) {arguments : List ExprId}
    (h : a.CallsReached xs) (hbuilding : a[object]? = some (.newUninitialized className)) (hobject : object ∈ ys)
    (hxs : ∀ x ∈ xs, x ∈ arguments ∨ x ∈ ys) :
    CallsReached (a.setIfInBounds object (.new className descriptor arguments)) ys := by
  have hlt : object < a.size := (Array.getElem?_eq_some_iff.1 hbuilding).1
  refine h.of_refers (fun x y hxy => hxy.replace hbuilding) ?_ ?_
  · intro x hx
    rcases hxs x hx with hargument | hx
    · exact ⟨object, hobject, .single ((refers_set hlt).2 (.inl ⟨rfl, hargument⟩))⟩
    · exact isReached_of_mem hx
  · intro id e he _
    by_cases hid : object = id
    · exact .inr (hid ▸ isReached_of_mem hobject)
    · rw [Array.getElem?_setIfInBounds_ne hid] at he
      exact .inl he

end Arena

/-! ## The discards of a run -/

namespace Build

/-- The value that an instruction discards without a statement, given the arena and the stack that it finds. -/
def discardOf (a : Arena) (stack : List ExprId) : Insn → List ExprId
  | .pop =>
    match stack with
    | value :: _ => if a[value]?.any Expr.hasEffects then [] else [value]
    | [] => []
  | _ => []

end Build

/-- The values that are popped without a statement while the statements of a method are built, in order. -/
def Source.discards (src : Source) (settings : Settings) (sections : List Section) (events : List Event) : List ExprId :=
  src.log settings Build.discardOf sections events

open Build in
/-- Only a pop makes a frame hold less than before. -/
theorem Build.Flow.callsReached {i : Insn} {a a' : Arena} {f f' : Frame} (h : Flow i a f a' f') {others : List ExprId}
    (hreached : a.CallsReached (f.held ++ others)) : a'.CallsReached (f'.held ++ (discardOf a f.stack i ++ others)) := by
  cases h with
  | spend _ used rest out more _ _ _ hmore =>
    refine hreached.subset fun id hid => ?_
    simp only [List.mem_append, Frame.mem_held, Statement.roots_append, hmore.mem_iff] at hid ⊢
    tauto
  | make _ used rest out e pushes _ _ hchildren =>
    cases pushes with
    | true =>
      refine hreached.push (by simp [Frame.mem_held]) fun id hid => ?_
      simp only [List.mem_append, Frame.mem_held, hchildren.mem_iff, if_true, List.mem_cons] at hid ⊢
      tauto
    | false =>
      refine hreached.push (by simp [Frame.mem_held]) fun id hid => ?_
      simp only [List.mem_append, Frame.mem_held, Statement.roots_append, hchildren.mem_iff, Bool.false_eq_true, if_false] at hid ⊢
      tauto
  | @pop _ value e rest out he =>
    refine hreached.subset fun id hid => ?_
    simp only [List.mem_append, Frame.mem_held, List.mem_cons] at hid
    cases heffects : e.hasEffects with
    | true =>
      simp only [List.mem_append, Frame.mem_held, if_true, Statement.roots_append, Statement.roots_expr, List.mem_singleton]
      tauto
    | false =>
      simp only [List.mem_append, Frame.mem_held, discardOf, he, Option.any_some, heffects, Bool.false_eq_true, if_false,
        List.mem_singleton]
      tauto
  | dup =>
    refine hreached.subset fun id hid => ?_
    simp only [List.mem_append, Frame.mem_held, List.mem_cons] at hid ⊢
    tauto
  | new =>
    refine hreached.push (by simp [Frame.mem_held, Frame.push]) fun id hid => .inr ?_
    simp only [List.mem_append, Frame.mem_held, Frame.push, List.mem_cons] at hid ⊢
    tauto
  | @complete method _ arguments object className rest out _ _ _ hobject =>
    by_cases hcopied : rest.contains object = true
    · rw [if_pos hcopied]
      have hmem : object ∈ rest := List.contains_iff_mem.1 hcopied
      refine hreached.complete method.descriptor hobject (by simp [Frame.mem_held, hmem]) fun id hid => ?_
      simp only [List.mem_append, Frame.mem_held, List.mem_reverse, List.mem_cons] at hid ⊢
      rcases hid with ((hid | rfl | hid) | hid) | hid <;> tauto
    · rw [if_neg hcopied]
      refine hreached.complete method.descriptor hobject (by simp [Frame.mem_held]) fun id hid => ?_
      simp only [List.mem_append, Frame.mem_held, List.mem_reverse, List.mem_cons, Statement.roots_append,
        Statement.roots_expr] at hid ⊢
      tauto

/-- Every call is reached from what is held, or from what has been discarded. -/
def Ledger.discards (src : Source) {settings : Settings} (hstrict : settings.commentOnError = false) : Ledger src settings where
  Entry := ExprId
  entries := Build.discardOf
  Holds held a log := a.CallsReached (held ++ log)
  Tolerates _ := True
  tolerates_values _ := trivial
  exchange hiff h := h.subset fun id hid => by simpa only [List.mem_append, hiff] using hid
  forget hcomment := absurd hcomment (by simp [hstrict])
  make _ h := h.push List.mem_cons_self fun id hid => .inr (List.mem_cons_of_mem _ hid)
  insn {index i f b others log} _ _ h := by
    cases hrun : Build.insn src.locals index i f b with
    | ok f' b' =>
      rw [List.append_assoc] at h
      refine ((Build.insn_ran hrun).1.flow.callsReached h).subset fun id hid => ?_
      simp only [List.mem_append] at hid ⊢
      tauto
    | error e b' => trivial

/-- Nothing is reached before a method is built. -/
theorem Arena.callsReached_empty : CallsReached #[] [] := by
  intro id e he
  simp at he

/-- Every call of a method is reached from its statements, or from what has been discarded while they were built. -/
theorem Source.callsReached_of_body {src : Source} {settings : Settings} (hstrict : settings.commentOnError = false)
    {sections : List Section} {events events' : List Event} {body : Body}
    (h : src.body settings sections events = .ok body events') :
    body.arena.CallsReached (Statement.roots body.statements ++ src.discards settings sections events) := by
  have hkeeps := (Ledger.discards src hstrict).list_keeps sections (.inr fun _ => trivial) Arena.callsReached_empty events
  rw [Source.body_eq_ok.1 h] at hkeeps
  exact hkeeps

end CodeLift
