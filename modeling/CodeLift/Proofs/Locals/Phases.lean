import CodeLift.Proofs.Locals.Binding

/-!
# What a phase of binding leaves alone

Binding goes from the parameters to the declared variables, the copies and the runs of accesses that are left. Each phase adds
instances of its own origin only, and moves the starts of declared instances at most. `Locals.AgreeOn` says of two tables that they
have the same instances of an origin, at the same places; a phase keeps the table in this sense for every origin but its own.
-/

namespace CodeLift

namespace Locals

/-- The two tables have the same instances of an origin, at the same places. -/
def AgreeOn (origin : Origin) (ls ls' : Locals) : Prop :=
  ∀ id l, l.origin = origin → (ls'.get? id = some l ↔ ls.get? id = some l)

namespace AgreeOn

variable {origin : Origin} {ls ls' ls'' : Locals}

theorem refl (ls : Locals) : AgreeOn origin ls ls := fun _ _ _ => Iff.rfl

/-- Tables agree in a row. -/
theorem trans (h : AgreeOn origin ls ls') (h' : AgreeOn origin ls' ls'') : AgreeOn origin ls ls'' :=
  fun id l hl => (h' id l hl).trans (h id l hl)

/-- Instances of other origins are added at the end. -/
theorem addAll (ls : Locals) {new : List Local} (hnew : ∀ l ∈ new, l.origin ≠ origin) : AgreeOn origin ls (ls.addAll new) := by
  intro id l hl
  rw [get?, get?, addAll_all]
  by_cases hid : id < ls.all.length
  · rw [List.getElem?_append_left hid]
  · have hge := Nat.le_of_not_lt hid
    rw [List.getElem?_append_right hge, List.getElem?_eq_none hge]
    constructor
    · intro h
      exact absurd hl (hnew l (List.mem_of_getElem? h))
    · intro h
      cases h

/-- An instance is replaced, and neither the old nor the new one is of the origin. -/
theorem set {id : LocalId} {old new : Local} (hold : ls.get? id = some old) (horigin : old.origin ≠ origin)
    (hnew : new.origin ≠ origin) : AgreeOn origin ls { ls with all := ls.all.set id new } := by
  intro j l hl
  have hid : id < ls.all.length := (List.getElem?_eq_some_iff.1 hold).1
  rw [get?, List.getElem?_set, if_pos hid]
  by_cases hj : id = j
  · subst hj
    rw [if_pos rfl, hold]
    constructor
    · intro h
      cases h
      exact absurd hl hnew
    · intro h
      cases h
      exact absurd hl horigin
  · rw [if_neg hj]
    exact Iff.rfl

end AgreeOn

end Locals

namespace Binding

variable {origin : Origin} {b : Binding}

/-- Offering a variable of another origin changes none of this origin. -/
theorem offer_agreeOn {l : Local} (hl : l.origin ≠ origin) : Locals.AgreeOn origin b.locals (b.offer l).locals := by
  unfold offer
  split
  · rename_i hinsert
    rw [Locals.eq_add_of_insert? hinsert]
    have hnew : ∀ l' ∈ [l], l'.origin ≠ origin := by simpa using hl
    exact .addAll b.locals hnew
  · exact .refl _

/-- Offering variables of other origins changes none of this origin. -/
theorem offerAll_agreeOn {xs : List Local} (hxs : ∀ l ∈ xs, l.origin ≠ origin) :
    Locals.AgreeOn origin b.locals (b.offerAll xs).locals := by
  refine List.foldlRecOn (motive := fun b' : Binding => Locals.AgreeOn origin b.locals b'.locals) xs offer (.refl _) ?_
  intro b' hb' l hl
  exact hb'.trans (offer_agreeOn (hxs l hl))

end Binding

namespace Method

variable {origin : Origin}

/-! ## The declared instances -/

/-- A table entry declares an instance that starts where its first label stands, with its slot, name and types. -/
theorem declaredLocal_eq_ok {labels : Labels} {entry : VariableEntry} {l : Local} (h : declaredLocal labels entry = .ok l) :
    ∃ start stop, labels.index entry.start = .ok start ∧ labels.index entry.stop = .ok stop ∧
      l = ⟨entry.slot, entry.name, entry.descriptor, entry.signature, ⟨start, max stop start⟩, .declared⟩ := by
  obtain ⟨start, hstart, h⟩ := bind_eq_ok.1 h
  obtain ⟨stop, hstop, h⟩ := bind_eq_ok.1 h
  cases h
  exact ⟨start, stop, hstart, hstop, rfl⟩

/-- The variables of the table are declared ones. -/
theorem origin_of_declared {labels : Labels} {table : List VariableEntry} {declared : List Local}
    (h : table.mapM (declaredLocal labels) = .ok declared) {l : Local} (hl : l ∈ declared) : l.origin = .declared := by
  obtain ⟨entry, _, hentry⟩ := exists_mem_of_forall₂_right (forall₂_of_mapM_ok h) hl
  obtain ⟨_, _, _, _, rfl⟩ := declaredLocal_eq_ok hentry
  rfl

theorem origin_parameterLocal (codeLength entry slot : Nat) (p : Parameter) (declared : List Local) :
    (parameterLocal codeLength entry slot p declared).origin = .parameter := by
  unfold parameterLocal
  split
  · rfl
  · rfl

/-- Parameters are taken out of the declared instances, and become instances of their own origin. -/
theorem claimParameters_origins (codeLength entry slot : Nat) (ps : List Parameter) (declared : List Local) :
    (∀ l ∈ (claimParameters codeLength entry slot ps declared).1, l.origin = .parameter) ∧
      ∀ l ∈ (claimParameters codeLength entry slot ps declared).2, l ∈ declared := by
  induction ps generalizing slot declared with
  | nil =>
    refine ⟨?_, fun _ hl => hl⟩
    intro l hl
    cases hl
  | cons p rest ih =>
    obtain ⟨hclaimed, hleft⟩ := ih (slot + Descriptor.width p.type) (declared.eraseP (declaresParameter entry slot))
    simp only [claimParameters]
    refine ⟨?_, fun l hl => List.mem_of_mem_eraseP (hleft l hl)⟩
    intro l hl
    rcases List.mem_cons.1 hl with rfl | hl
    · exact origin_parameterLocal _ _ _ _ _
    · exact hclaimed l hl

/-! ## The phases -/

/-- Extending a declared variable changes none of another origin. -/
theorem extendLocal_agreeOn (horigin : origin ≠ .declared) (code : List Insn) (ls : Locals) (id : LocalId) :
    Locals.AgreeOn origin ls (extendLocal code ls id) := by
  unfold extendLocal
  split
  · exact .refl ls
  · rename_i l hl
    split
    · rename_i hdeclared
      have hne : l.origin ≠ origin := by
        intro h
        exact horigin (h.symm.trans hdeclared)
      split
      · split
        · exact .refl ls
        · exact .set hl hne hne
      · exact .refl ls
    · exact .refl ls

/-- Moving the starts of declared instances changes no other. -/
theorem extendLocals_agreeOn (horigin : origin ≠ .declared) (code : List Insn) (ls : Locals) :
    Locals.AgreeOn origin ls (extendLocals code ls) := by
  refine List.foldlRecOn (motive := Locals.AgreeOn origin ls) _ (extendLocal code) (.refl ls) ?_
  intro ls' hls' id _
  exact hls'.trans (extendLocal_agreeOn horigin code ls' id)

/-- Binding a copy changes none of another origin. -/
theorem bindCopy_agreeOn (horigin : origin ≠ .copied) (b : Binding) (pair : (Insn × Insn) × Nat) :
    Locals.AgreeOn origin b.locals (bindCopy b pair).locals := by
  unfold bindCopy
  split
  · split
    · exact .refl _
    · split
      · exact .refl _
      · exact Binding.offer_agreeOn horigin.symm
  · exact .refl _

/-- Binding copies adds copies only. -/
theorem bindCopies_agreeOn (horigin : origin ≠ .copied) (code : List Insn) (b : Binding) :
    Locals.AgreeOn origin b.locals (bindCopies code b).locals := by
  refine List.foldlRecOn (motive := fun b' : Binding => Locals.AgreeOn origin b.locals b'.locals) _ bindCopy (.refl _) ?_
  intro b' hb' pair _
  exact hb'.trans (bindCopy_agreeOn horigin b' pair)

/-- Binding what is known changes only declared and copied variables. -/
theorem bindKnown_agreeOn (hdeclared : origin ≠ .declared) (hcopied : origin ≠ .copied) (m : Method) (type : MethodType)
    (declared : List Local) :
    Locals.AgreeOn origin (m.bindDeclared type declared).locals (m.bindKnown type declared).locals :=
  (extendLocals_agreeOn hdeclared m.code _).trans
    (bindCopies_agreeOn hcopied m.code ⟨extendLocals m.code (m.bindDeclared type declared).locals, _⟩)

/-- No instance is synthesized before all others are known. -/
theorem origin_of_known {m : Method} {type : MethodType} {labels : Labels} {declared : List Local}
    (h : m.variableTable.mapM (declaredLocal labels) = .ok declared) {l : Local} (hl : l ∈ (m.bindKnown type declared).locals.all) :
    l.origin ≠ .synthesized := by
  intro hsynthesized
  obtain ⟨hclaimed, hleft⟩ := claimParameters_origins m.code.length (entryPoint m.code) 0 (m.parameters type) declared
  have hparameters : Locals.AgreeOn .synthesized Locals.empty
      (Binding.empty.offerAll (claimParameters m.code.length (entryPoint m.code) 0 (m.parameters type) declared).1).locals := by
    refine Binding.offerAll_agreeOn (b := Binding.empty) ?_
    intro l hl
    rw [hclaimed l hl]
    decide
  have hdeclared : Locals.AgreeOn .synthesized Locals.empty (m.bindDeclared type declared).locals := by
    refine hparameters.trans (Binding.offerAll_agreeOn ?_)
    intro l hl
    rw [origin_of_declared h (hleft l hl)]
    decide
  have hknown := hdeclared.trans (bindKnown_agreeOn (by decide) (by decide) m type declared)
  obtain ⟨id, hid⟩ := List.mem_iff_getElem?.1 hl
  have hempty := (hknown id l hsynthesized).1 hid
  simp [Locals.empty, Locals.get?] at hempty

/-- What is synthesized has this origin. -/
theorem origin_of_mem_synthesized {types : Keyed Nat String} {known : Locals} {code : List Insn} {l : Local}
    (h : l ∈ synthesized types known code) : l.origin = .synthesized := by
  obtain ⟨_, _, _, _, _, hl⟩ := exists_group_of_mem_synthesized h
  rw [hl]
  rfl

end Method

end CodeLift
