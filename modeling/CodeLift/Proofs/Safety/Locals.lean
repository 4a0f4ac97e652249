import CodeLift.Handler.Scope
import CodeLift.Proofs.Descriptor
import CodeLift.Proofs.Labels
import CodeLift.Proofs.Locals.Binding
import Mathlib.Algebra.GroupWithZero.Nat

/-!
# Binding variables is safe

A type is split off a descriptor that holds it. Labels stand in the code, so declared variables start in it, and moving their
starts back to the stores that initialize them keeps them there. The slots of the parameters are counted up from zero, none past
what all of them need. The binding of a handler is an instruction of the code, and the handler ends after it.
-/

namespace CodeLift

/-! ## The types of a descriptor -/

/-- A field type that is split off a text is a front of it that is not empty. -/
theorem Descriptor.append_of_splitFieldType {cs type rest : List Char} (h : splitFieldType cs = some (type, rest)) :
    type ≠ [] ∧ type ++ rest = cs := by
  obtain ⟨htype, rfl⟩ := isFieldType_of_splitFieldType h
  exact ⟨htype.ne_nil, rfl⟩

namespace Method

/-! ## The slots of parameters -/

/-- How many slots the parameters of a method need. -/
def slotsNeeded (m : Method) (type : MethodType) : Nat := ((m.parameters type).map fun p => Descriptor.width p.type).sum

theorem parameterLocal_slot (codeLength entry slot : Nat) (p : Parameter) (declared : List Local) :
    (parameterLocal codeLength entry slot p declared).slot = slot := by
  unfold parameterLocal
  split
  · rename_i l hl
    have hfound := List.find?_some hl
    simp only [declaresParameter, Bool.and_eq_true, beq_iff_eq] at hfound
    exact hfound.1
  · rfl

theorem width_pos (type : String) : 0 < Descriptor.width type := by
  unfold Descriptor.width
  split <;> omega

/-- The slots of parameters lie between the first of them and what all of them need. -/
theorem slot_of_mem_claimParameters {codeLength entry slot : Nat} {ps : List Parameter} {declared : List Local} {l : Local}
    (h : l ∈ (claimParameters codeLength entry slot ps declared).1) :
    slot ≤ l.slot ∧ l.slot < slot + (ps.map fun p => Descriptor.width p.type).sum := by
  induction ps generalizing slot declared with
  | nil => cases h
  | cons p rest ih =>
    have hwidth := width_pos p.type
    rw [List.map_cons, List.sum_cons]
    simp only [claimParameters] at h
    rcases List.mem_cons.1 h with rfl | h
    · rw [parameterLocal_slot]
      omega
    · have hrest := ih h
      omega

/-! ## Where declared variables start -/

/-- A declared instance starts before `n`. -/
def StartsBefore (n : Nat) (l : Local) : Prop := l.origin = .declared → l.span.start < n

/-- The label of a method that resolves stands in its code. -/
theorem index_lt {m : Method} {labels : Labels} (h : m.labels = .ok labels) {label : Label} {index : Nat}
    (hindex : labels.index label = .ok index) : index < m.code.length :=
  (List.getElem?_eq_some_iff.1 ((index_eq_ok h).1 hindex)).1

/-- A declared variable starts before the end of the code. -/
theorem startsBefore_of_declared {m : Method} {labels : Labels} (hlabels : m.labels = .ok labels) {declared : List Local}
    (h : m.variableTable.mapM (declaredLocal labels) = .ok declared) {l : Local} (hl : l ∈ declared) :
    StartsBefore m.code.length l := by
  obtain ⟨entry, _, hentry⟩ := exists_mem_of_forall₂_right (forall₂_of_mapM_ok h) hl
  obtain ⟨start, hstart, hentry⟩ := bind_eq_ok.1 hentry
  obtain ⟨stop, _, hentry⟩ := bind_eq_ok.1 hentry
  cases hentry
  exact fun _ => index_lt hlabels hstart

/-- Parameters are taken out of the declared instances, and are themselves none. -/
theorem startsBefore_claimParameters {n codeLength entry slot : Nat} {ps : List Parameter} {declared : List Local}
    (h : ∀ l ∈ declared, StartsBefore n l) :
    (∀ l ∈ (claimParameters codeLength entry slot ps declared).1, StartsBefore n l) ∧
      ∀ l ∈ (claimParameters codeLength entry slot ps declared).2, StartsBefore n l := by
  induction ps generalizing slot declared with
  | nil => exact ⟨fun l hl => (by cases hl), h⟩
  | cons p rest ih =>
    simp only [claimParameters]
    have hrest := @ih (slot + Descriptor.width p.type) (declared.eraseP (declaresParameter entry slot))
      fun l hl => h l (List.mem_of_mem_eraseP hl)
    refine ⟨?_, hrest.2⟩
    intro l hl
    rcases List.mem_cons.1 hl with rfl | hl
    · intro horigin
      unfold parameterLocal at horigin
      split at horigin <;> cases horigin
    · exact hrest.1 l hl

theorem startsBefore_offerAll {n : Nat} {b : Binding} {ls : List Local} (hb : ∀ l ∈ b.locals.all, StartsBefore n l)
    (h : ∀ l ∈ ls, StartsBefore n l) : ∀ l ∈ (b.offerAll ls).locals.all, StartsBefore n l := by
  refine List.foldlRecOn (motive := fun b : Binding => ∀ l ∈ b.locals.all, StartsBefore n l) ls Binding.offer hb ?_
  intro b hb new hnew
  unfold Binding.offer
  split
  · rename_i locals hinsert
    rw [Locals.eq_add_of_insert? hinsert]
    intro l hl
    rw [Locals.add_all] at hl
    rcases List.mem_append.1 hl with hl | hl
    · exact hb l hl
    · rw [List.mem_singleton.1 hl]
      exact h new hnew
  · exact hb

/-- Moving a start back keeps it before the end of the code. -/
theorem startsBefore_extendLocal {n : Nat} {code : List Insn} {ls : Locals} (h : ∀ l ∈ ls.all, StartsBefore n l) (id : LocalId) :
    ∀ l ∈ (extendLocal code ls id).all, StartsBefore n l := by
  unfold extendLocal
  split
  · exact h
  · rename_i l hl
    split
    · rename_i horigin
      split
      · rename_i index hindex
        split
        · exact h
        · intro l' hl'
          rcases List.mem_or_eq_of_mem_set hl' with hl' | rfl
          · exact h l' hl'
          · intro _
            exact (initialStore?_lt hindex).trans (h l (List.mem_of_getElem? hl) horigin)
      · exact h
    · exact h

/-- However many starts have been moved, all declared instances start in the code. -/
theorem startsBefore_extended {m : Method} {labels : Labels} (hlabels : m.labels = .ok labels) (type : MethodType)
    {declared : List Local} (h : m.variableTable.mapM (declaredLocal labels) = .ok declared) (count : Nat) :
    ∀ l ∈ ((List.range count).foldl (extendLocal m.code) (m.bindDeclared type declared).locals).all, StartsBefore m.code.length l := by
  refine List.foldlRecOn (motive := fun ls : Locals => ∀ l ∈ ls.all, StartsBefore m.code.length l) _ _ ?_
    fun _ hls id _ => startsBefore_extendLocal hls id
  have hclaims := @startsBefore_claimParameters m.code.length m.code.length (entryPoint m.code) 0 (m.parameters type) declared
    fun l hl => startsBefore_of_declared hlabels h hl
  refine startsBefore_offerAll (startsBefore_offerAll ?_ hclaims.1) hclaims.2
  intro l hl
  cases hl

/-! ## The tables that arise -/

/-- What a binding can become while the variables of a method are bound, step by step. -/
inductive Reaches (m : Method) : Binding → Prop
  | empty : Reaches m .empty
  | offer {b : Binding} (l : Local) (h : Reaches m b) : Reaches m (b.offer l)
  | extend {b : Binding} (id : LocalId) (h : Reaches m b) : Reaches m { b with locals := extendLocal m.code b.locals id }
  | copy {b : Binding} (pair : (Insn × Insn) × Nat) (h : Reaches m b) : Reaches m (bindCopy b pair)
  | report {b : Binding} (h : Reaches m b) : Reaches m { b with events := [] }

/-- The tables that binding reaches are disjoint. -/
theorem Reaches.disjoint {m : Method} {b : Binding} (h : m.Reaches b) : b.locals.Disjoint := by
  induction h with
  | empty => exact Locals.disjoint_empty
  | offer l _ ih => exact Binding.offer_disjoint ih l
  | extend id _ ih => exact extendLocal_disjoint ih m.code id
  | copy pair _ ih => exact bindCopy_disjoint ih pair
  | report _ ih => exact ih

theorem Reaches.offerAll {m : Method} {b : Binding} (h : m.Reaches b) (ls : List Local) : m.Reaches (b.offerAll ls) :=
  List.foldlRecOn (motive := m.Reaches) ls Binding.offer h fun _ hb l _ => hb.offer l

theorem reaches_bindDeclared (m : Method) (type : MethodType) (declared : List Local) : m.Reaches (m.bindDeclared type declared) :=
  (Reaches.empty.offerAll _).offerAll _

/-- The steps of binding lead from each table to the next. -/
theorem reaches_bindKnown (m : Method) (type : MethodType) (declared : List Local) : m.Reaches (m.bindKnown type declared) := by
  have hextended : ∀ ids : List LocalId, m.Reaches { m.bindDeclared type declared with
      locals := ids.foldl (extendLocal m.code) (m.bindDeclared type declared).locals } := by
    intro ids
    refine List.foldlRecOn (motive := fun ls => m.Reaches { m.bindDeclared type declared with locals := ls }) ids _
      (m.reaches_bindDeclared type declared) fun _ hls id _ => hls.extend id
  exact List.foldlRecOn (motive := m.Reaches) _ bindCopy (hextended _) fun _ hb pair _ => hb.copy pair

/-- The two instructions that may make a copy stand next to each other. -/
theorem getElem?_of_mem_pairs {code : List Insn} {pair : (Insn × Insn) × Nat} (h : pair ∈ (code.zip code.tail).zipIdx 1) :
    0 < pair.2 ∧ code[pair.2 - 1]? = some pair.1.1 ∧ code[pair.2]? = some pair.1.2 := by
  obtain ⟨⟨first, second⟩, index⟩ := pair
  obtain ⟨hle, hpair⟩ := List.mk_mem_zipIdx_iff_le_and_getElem?_sub.1 h
  obtain ⟨hfirst, hsecond⟩ := List.getElem?_zip_eq_some.1 hpair
  rw [List.getElem?_tail, Nat.sub_add_cancel hle] at hsecond
  exact ⟨hle, hfirst, hsecond⟩

end Method

/-- An instance that is found is in the table. -/
theorem Locals.lt_size_of_find? {ls : Locals} {slot index : Nat} {id : LocalId} (h : ls.find? slot index = some id) :
    id < ls.size := by
  obtain ⟨_, l, hl, _⟩ := get?_of_find? h
  exact (List.getElem?_eq_some_iff.1 hl).1

/-! ## Handlers -/

/-- The binding of a handler is an instruction of the code. -/
theorem handlerBinding?_lt {code : List Insn} {handler binding : Nat} (h : handlerBinding? code handler = some binding) :
    binding < code.length := by
  obtain ⟨index, hindex, h⟩ := Option.bind_eq_some_iff.1 h
  split at h
  · rename_i hinsn
    cases h
    exact (List.getElem?_eq_some_iff.1 hinsn).1
  · rename_i hinsn
    cases h
    exact (List.getElem?_eq_some_iff.1 hinsn).1
  · cases h

/-- A drain ends after its start, inside the code. -/
theorem drain?_bounds {lastUse depth index stop : Nat} {rest : List Insn} (h : drain? lastUse depth index rest = some stop) :
    index < stop ∧ stop ≤ index + rest.length := by
  induction rest generalizing depth index with
  | nil => cases h
  | cons insn rest ih =>
    rw [List.length_cons]
    unfold drain? at h
    split at h
    · cases h
    · split at h
      · cases h
      · dsimp only at h
        split at h
        · cases h
        · split at h
          · cases h
            omega
          · have hrest := ih h
            omega

/-- The scope of a caught exception ends after its binding and in the code. -/
theorem handlerScopeEnd?_bounds {code : List Insn} {ls : Locals} {binding stop : Nat}
    (h : handlerScopeEnd? code ls binding = some stop) : binding + 1 < stop ∧ stop ≤ code.length := by
  unfold handlerScopeEnd? at h
  split at h
  · obtain ⟨id, _, h⟩ := Option.bind_eq_some_iff.1 h
    obtain ⟨bound, _, h⟩ := Option.bind_eq_some_iff.1 h
    dsimp only at h
    split at h
    · rename_i hlast
      simp only [Bool.and_eq_true, decide_eq_true_eq] at hlast
      have hbounds := drain?_bounds h
      rw [List.length_drop] at hbounds
      omega
    · cases h
  · cases h

end CodeLift
