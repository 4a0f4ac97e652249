import CodeLift.Expr.Text
import CodeLift.Proofs.Statement.Operands
import Mathlib.Data.List.Chain
import Mathlib.Data.List.Perm.Subperm
import Mathlib.Logic.Relation

/-!
# Arenas without cycles

An expression that is made refers to expressions made before it, but an object under construction gets its arguments later, and
then refers to expressions that can be younger than itself. An arena stays without cycles if none of the arguments leads back to
the object. Where there are no cycles, references can be followed to their end: the printer never meets its bound.
-/

namespace CodeLift

namespace Arena

variable {a : Arena} {e : Expr} {id child : ExprId}

/-- One expression refers to another. -/
def Refers (a : Arena) (id child : ExprId) : Prop := ∃ e, a[id]? = some e ∧ child ∈ e.children

/-- No expression refers to itself, directly or through others. -/
def Acyclic (a : Arena) : Prop := ∀ id, ¬ Relation.TransGen a.Refers id id

theorem Refers.lt_size (h : a.Refers id child) : id < a.size := by
  obtain ⟨e, he, _⟩ := h
  exact (Array.getElem?_eq_some_iff.1 he).1

/-! ## How references change -/

theorem refers_push : Refers (a.push e) id child ↔ id = a.size ∧ child ∈ e.children ∨ a.Refers id child := by
  by_cases hid : id = a.size
  · subst hid
    simp [Refers]
  · simp [Refers, Array.getElem?_push, hid]

theorem refers_set {object : ExprId} (hobject : object < a.size) : Refers (a.setIfInBounds object e) id child ↔
    id = object ∧ child ∈ e.children ∨ id ≠ object ∧ a.Refers id child := by
  by_cases hid : id = object
  · subst hid
    simp [Refers, hobject]
  · simp [Refers, Array.getElem?_setIfInBounds_ne (Ne.symm hid), hid]

/-- An object under construction has no references, so that none are lost when it is replaced. -/
theorem Refers.replace {object : ExprId} {className : String} (hobject : a[object]? = some (.newUninitialized className))
    (h : a.Refers id child) : Refers (a.setIfInBounds object e) id child := by
  refine (refers_set (Array.getElem?_eq_some_iff.1 hobject).1).2 (.inr ⟨?_, h⟩)
  rintro rfl
  obtain ⟨e', he', hchild⟩ := h
  rw [hobject] at he'
  cases he'
  simp [Expr.children] at hchild

/-- Fewer references make no cycles. -/
theorem Acyclic.of_refers {a' : Arena} (h : a'.Acyclic) (hrefers : ∀ id child, a.Refers id child → a'.Refers id child) :
    a.Acyclic :=
  fun id hcycle => h id (Relation.TransGen.mono hrefers id id hcycle)

theorem Acyclic.empty : Acyclic #[] := by
  intro id hcycle
  obtain ⟨child, hchild, _⟩ := Relation.TransGen.head'_iff.1 hcycle
  exact absurd hchild.lt_size (Nat.not_lt_zero _)

/-- From an expression of a closed arena, references lead to expressions of the arena, also after more are made. -/
theorem transGen_of_push (hclosed : a.IsClosed) (hid : id < a.size) (h : Relation.TransGen (Refers (a.push e)) id child) :
    Relation.TransGen a.Refers id child ∧ child < a.size := by
  have hstep : ∀ {x y}, x < a.size → Refers (a.push e) x y → a.Refers x y ∧ y < a.size := by
    intro x y hx hxy
    rcases refers_push.1 hxy with ⟨rfl, _⟩ | hxy
    · exact absurd hx (Nat.lt_irrefl _)
    · obtain ⟨e', he', hy⟩ := hxy
      exact ⟨⟨e', he', hy⟩, hclosed x e' he' y hy⟩
  induction h with
  | single hxy => exact ⟨.single (hstep hid hxy).1, (hstep hid hxy).2⟩
  | tail _ hyz ih => exact ⟨ih.1.tail (hstep ih.2 hyz).1, (hstep ih.2 hyz).2⟩

/-- An expression that refers to expressions of the arena closes no cycle. -/
theorem Acyclic.push (h : a.Acyclic) (hclosed : a.IsClosed) (he : ∀ child ∈ e.children, child < a.size) :
    Acyclic (a.push e) := by
  intro id hcycle
  have hlt : id < a.size := by
    obtain ⟨before, _, hbefore⟩ := Relation.TransGen.tail'_iff.1 hcycle
    rcases refers_push.1 hbefore with ⟨_, hid⟩ | ⟨e', he', hid⟩
    · exact he id hid
    · exact hclosed before e' he' id hid
  exact h id (transGen_of_push hclosed hlt hcycle).1

/-- What leads to an object once it has its arguments leads to it before that. -/
theorem reflTransGen_of_set {object : ExprId} (hobject : object < a.size)
    (h : Relation.ReflTransGen (Refers (a.setIfInBounds object e)) id object) : Relation.ReflTransGen a.Refers id object := by
  induction h using Relation.ReflTransGen.head_induction_on with
  | refl => exact .refl
  | head hstep _ ih =>
    rcases (refers_set hobject).1 hstep with ⟨rfl, _⟩ | ⟨_, hstep⟩
    · exact .refl
    · exact .head hstep ih

/-- A way along references, after an object has got its arguments, is one from before or passes through one of the arguments. -/
theorem transGen_of_set {object : ExprId} (hobject : object < a.size)
    (h : Relation.TransGen (Refers (a.setIfInBounds object e)) id child) :
    Relation.TransGen a.Refers id child ∨ Relation.ReflTransGen (Refers (a.setIfInBounds object e)) id object ∧
      ∃ argument ∈ e.children, Relation.ReflTransGen (Refers (a.setIfInBounds object e)) argument child := by
  induction h with
  | single hstep =>
    rcases (refers_set hobject).1 hstep with ⟨rfl, hargument⟩ | ⟨_, hstep⟩
    · exact .inr ⟨.refl, _, hargument, .refl⟩
    · exact .inl (.single hstep)
  | tail hbefore hstep ih =>
    rcases ih with hold | ⟨hfrom, argument, hargument, hrest⟩
    · rcases (refers_set hobject).1 hstep with ⟨rfl, hargument⟩ | ⟨_, hstep⟩
      · exact .inr ⟨hbefore.to_reflTransGen, _, hargument, .refl⟩
      · exact .inl (hold.tail hstep)
    · exact .inr ⟨hfrom, argument, hargument, hrest.tail hstep⟩

/-- An object that gets its arguments closes no cycle if none of them leads to it. -/
theorem Acyclic.set (h : a.Acyclic) {object : ExprId} (hobject : object < a.size)
    (harmless : ∀ argument ∈ e.children, ¬ Relation.ReflTransGen a.Refers argument object) :
    Acyclic (a.setIfInBounds object e) := by
  intro id hcycle
  rcases transGen_of_set hobject hcycle with hold | ⟨hfrom, argument, hargument, hto⟩
  · exact h id hold
  · exact harmless argument hargument (reflTransGen_of_set hobject (hto.trans hfrom))

/-! ## Following references -/

/-- Whether references can be followed from an expression to their end, through as many expressions at most. -/
def endsWithin (a : Arena) : (count : Nat) → ExprId → Bool
  | 0, _ => false
  | count + 1, id => a[id]?.all fun e => e.children.all (endsWithin a count)

theorem endsWithin_succ {count : Nat} :
    a.endsWithin (count + 1) id = true ↔ ∀ child, a.Refers id child → a.endsWithin count child = true := by
  cases he : a[id]? with
  | none => simp [endsWithin, Refers, he]
  | some e => simp [endsWithin, Refers, he]

/-- Where references go on, there is a chain of them through as many expressions. -/
theorem exists_chain_of_not_endsWithin {count : Nat} (h : ¬ a.endsWithin count id = true) :
    ∃ chain : List ExprId, chain.length = count ∧ chain.IsChain a.Refers ∧ (∀ x ∈ chain, x < a.size) ∧
      ∀ x ∈ chain.head?, x = id := by
  induction count generalizing id with
  | zero => exact ⟨[], rfl, .nil, by simp, by simp⟩
  | succ count ih =>
    simp only [endsWithin_succ, not_forall] at h
    obtain ⟨child, hchild, h⟩ := h
    obtain ⟨chain, hlength, hchain, hin, hhead⟩ := ih h
    refine ⟨id :: chain, by rw [List.length_cons, hlength], ?_, List.forall_mem_cons.2 ⟨hchild.lt_size, hin⟩, by simp⟩
    refine List.isChain_cons.2 ⟨?_, hchain⟩
    intro next hnext
    rw [hhead next hnext]
    exact hchild

/-- In an arena without cycles no chain of references is longer than the arena. -/
theorem Acyclic.endsWithin_size (h : a.Acyclic) (id : ExprId) : a.endsWithin (a.size + 1) id = true := by
  by_contra hends
  obtain ⟨chain, hlength, hchain, hin, _⟩ := exists_chain_of_not_endsWithin hends
  have hpairwise : chain.Pairwise (Relation.TransGen a.Refers) :=
    List.isChain_iff_pairwise.1 (hchain.imp fun _ _ => Relation.TransGen.single)
  have hne : ∀ {x y}, Relation.TransGen a.Refers x y → x ≠ y := by
    rintro x _ hxx rfl
    exact h x hxx
  have hnodup : chain.Nodup := hpairwise.imp hne
  have hle := (List.Nodup.subperm hnodup fun x hx => List.mem_range.2 (hin x hx)).length_le
  rw [List.length_range, hlength] at hle
  omega

/-- What ends comes before what leads to it. -/
theorem acc_of_endsWithin {count : Nat} (h : a.endsWithin count id = true) : Acc (fun child id => a.Refers id child) id := by
  induction count generalizing id with
  | zero => cases h
  | succ count ih => exact ⟨id, fun child hchild => ih (endsWithin_succ.1 h child hchild)⟩

/-- Without cycles the expressions can be worked through from their operands up. -/
theorem Acyclic.wellFounded (h : a.Acyclic) : WellFounded fun child id => a.Refers id child :=
  ⟨fun id => acc_of_endsWithin (h.endsWithin_size id)⟩

/-- Whether there are cycles is found by following the references of each expression. -/
theorem acyclic_iff_endsWithin : a.Acyclic ↔ ∀ id < a.size, a.endsWithin (a.size + 1) id = true := by
  constructor
  · intro h id _
    exact h.endsWithin_size id
  · intro h id hcycle
    have hlt : id < a.size := by
      obtain ⟨child, hchild, _⟩ := Relation.TransGen.head'_iff.1 hcycle
      exact hchild.lt_size
    have hacc := acc_of_endsWithin (h id hlt)
    clear hlt
    -- What an expression on a cycle refers to along the cycle is on the cycle too.
    induction hacc with
    | intro id _ ih =>
      obtain ⟨child, hchild, hback⟩ := Relation.TransGen.head'_iff.1 hcycle
      exact ih child hchild (.tail' hback hchild)

instance : Decidable a.Acyclic := decidable_of_iff _ acyclic_iff_endsWithin.symm

end Arena

/-! ## Printing -/

/-- How an expression is printed depends on how the expressions it refers to are. -/
theorem Expr.text_congr {ls : Locals} {value value' : ExprId → String} {e : Expr}
    (h : ∀ child ∈ e.children, value child = value' child) : e.text ls value = e.text ls value' := by
  have hobject : ∀ object : Option ExprId, (∀ child ∈ object.toList, value child = value' child) →
      object.map value = object.map value' := by
    intro object hobject
    cases object with
    | none => rfl
    | some child => simp [hobject child (by simp)]
  cases e with
  | field object owner name => exact congrArg (ownerText · owner ++ "." ++ name) (hobject object h)
  | call method object arguments =>
    have hvalue := hobject object fun child hchild => h child (List.mem_append_left _ hchild)
    have hvalues : arguments.map value = arguments.map value' :=
      List.map_congr_left fun child hchild => h child (List.mem_append_right _ hchild)
    exact congrArg₂ (ownerText · method.owner ++ "." ++ _ ++ method.name ++ argumentsText ·) hvalue hvalues
  | new className descriptor arguments =>
    have hvalues : arguments.map value = arguments.map value' := List.map_congr_left h
    exact congrArg ("new " ++ Descriptor.simpleName className ++ argumentsText ·) hvalues
  | arith op lhs rhs =>
    have hlhs := h lhs (by simp [children])
    have hrhs := h rhs (by simp [children])
    exact congrArg₂ ("(" ++ · ++ " " ++ op.symbol ++ " " ++ · ++ ")") hlhs hrhs
  | _ => rfl

namespace Arena

variable {a : Arena} {ls : Locals}

/-- A bound that is not met does not matter. -/
theorem textWithin_of_endsWithin {count bound : Nat} {id : ExprId} (h : a.endsWithin count id = true) (hle : count ≤ bound) :
    a.textWithin ls bound id = a.textWithin ls count id := by
  induction count generalizing id bound with
  | zero => cases h
  | succ count ih =>
    obtain ⟨bound, rfl⟩ : ∃ k, bound = k + 1 := ⟨bound - 1, by omega⟩
    rw [textWithin, textWithin]
    cases he : a[id]? with
    | none => rfl
    | some e =>
      refine Expr.text_congr fun child hchild => ih (endsWithin_succ.1 h child ⟨e, he, hchild⟩) ?_
      omega

/-- Without cycles every expression is printed in full, whatever the bound of the printer beyond the size of the arena: its text is
made of the texts of the expressions it refers to. -/
theorem Acyclic.text_eq (h : a.Acyclic) {id : ExprId} {e : Expr} (he : a[id]? = some e) :
    a.text ls id = e.text ls (a.text ls) ∧ ∀ bound, a.size < bound → a.textWithin ls bound id = a.text ls id := by
  have hbound : ∀ id bound, a.size < bound → a.textWithin ls bound id = a.text ls id := fun id bound hlt =>
    textWithin_of_endsWithin (h.endsWithin_size id) hlt
  refine ⟨?_, hbound id⟩
  rw [← hbound id (a.size + 2) (by omega), textWithin, he]
  rfl

end Arena

end CodeLift
