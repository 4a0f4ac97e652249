import CodeLift.Proofs.Locals.Phases
import CodeLift.Proofs.Safety.Locals

/-!
# Parameters get their instances

The parameters of a method are bound first and in order, so they have the first places of the table. Their slots are counted up by
the widths of their types; no two parameters compete for an entry of the table of declared variables, since an entry stands for a
parameter of its own slot only. No later phase of binding changes the instance of a parameter.
-/

namespace CodeLift

/-- What is taken out of a list does not matter to a test that it does not pass. -/
theorem filter_eraseP {α : Type} {p q : α → Bool} (h : ∀ a, p a = true → q a = false) (xs : List α) :
    (xs.eraseP p).filter q = xs.filter q := by
  induction xs with
  | nil => rfl
  | cons x xs ih =>
    by_cases hp : p x = true
    · rw [List.eraseP_cons_of_pos hp, List.filter_cons_of_neg (by simp [h x hp])]
    · rw [List.eraseP_cons_of_neg hp, List.filter_cons, List.filter_cons, ih]

/-- Lists that are related member by member have related first members that pass a test, if the test does not tell them apart. -/
theorem find?_of_forall₂ {α β : Type} {R : α → β → Prop} {p : α → Bool} {q : β → Bool} {xs : List α} {ys : List β}
    (h : List.Forall₂ R xs ys) (hpq : ∀ x y, R x y → p x = q y) : Option.Rel R (xs.find? p) (ys.find? q) := by
  induction h with
  | nil => exact .none
  | @cons x y xs ys hxy _ ih =>
    rw [List.find?_cons, List.find?_cons, hpq x y hxy]
    cases q y with
    | true => exact .some hxy
    | false => exact ih

namespace Method

/-! ## Entries for parameters -/

/-- Whether an index is in the code or at its end, with nothing but markers before it. -/
def isAtEntry (code : List Insn) (index : Nat) : Bool :=
  decide (index ≤ code.length) && (code.take index).all Insn.isMarker

/-- The first entry of the table of declared variables that is for a slot and starts no later than the first instruction. -/
def parameterEntry? (m : Method) (labels : Labels) (slot : Nat) : Option VariableEntry :=
  m.variableTable.find? fun e => e.slot == slot && (labels.index e.start).toOption.any (isAtEntry m.code)

theorem le_entryPoint_iff {code : List Insn} {index : Nat} : index ≤ entryPoint code ↔ isAtEntry code index = true := by
  simp only [isAtEntry, Bool.and_eq_true, decide_eq_true_eq, List.all_eq_true, entryPoint, firstUnmarked?, List.drop_zero]
  cases hfirst : code.findIdx? fun i => !i.isMarker with
  | none =>
    rw [List.findIdx?_eq_none_iff] at hfirst
    simp only [Option.map_none, Option.getD_none]
    constructor
    · intro hle
      refine ⟨hle, ?_⟩
      intro i hi
      simpa using hfirst i (List.mem_of_mem_take hi)
    · rintro ⟨hle, _⟩
      exact hle
  | some first =>
    obtain ⟨hlt, hfirst, hbefore⟩ := List.findIdx?_eq_some_iff_getElem.1 hfirst
    simp only [Option.map_some, Option.getD_some, Nat.zero_add]
    constructor
    · intro hle
      refine ⟨by omega, ?_⟩
      intro i hi
      obtain ⟨k, hk, rfl⟩ := List.mem_take_iff_getElem.1 hi
      have hmarker := hbefore k (by omega)
      simpa using hmarker
    · rintro ⟨_, hmarkers⟩
      -- The first instruction would be among the markers before the index.
      by_contra hgt
      have hmem : code[first] ∈ code.take index := List.mem_take_iff_getElem.2 ⟨first, by omega, rfl⟩
      rw [hmarkers _ hmem] at hfirst
      cases hfirst

/-- The declared instance that stands for a parameter comes from the entry that does. -/
theorem find?_declaresParameter {m : Method} {labels : Labels} {declared : List Local}
    (h : m.variableTable.mapM (declaredLocal labels) = .ok declared) (slot : Nat) :
    Option.Rel (fun e l => declaredLocal labels e = .ok l) (m.parameterEntry? labels slot)
      (declared.find? (declaresParameter (entryPoint m.code) slot)) := by
  refine find?_of_forall₂ (forall₂_of_mapM_ok h) ?_
  intro e l hl
  obtain ⟨start, stop, hstart, _, rfl⟩ := declaredLocal_eq_ok hl
  rw [Bool.eq_iff_iff]
  simp [declaresParameter, hstart, Except.toOption, le_entryPoint_iff]

/-! ## The instances of parameters -/

/-- The slot of the `j`th parameter: the widths of those before it. -/
def slotOf (ps : List Parameter) (j : Nat) : Nat := ((ps.take j).map fun p => Descriptor.width p.type).sum

/-- An instance carries what is known of the parameter in its slot: what its entry says, or a name made up and the type of the
parameter. -/
def Describes (m : Method) (labels : Labels) (p : Parameter) (l : Local) : Prop :=
  match m.parameterEntry? labels l.slot with
  | some e => l.name = e.name ∧ l.descriptor = e.descriptor ∧ l.signature = e.signature
  | none => l.name = (if p.isReceiver then "this" else "param" ++ toString l.slot) ∧ l.descriptor = p.type ∧ l.signature = none

theorem parameterLocal_span (codeLength entry slot : Nat) (p : Parameter) (declared : List Local) :
    (parameterLocal codeLength entry slot p declared).span.start = 0 ∧
      0 < (parameterLocal codeLength entry slot p declared).span.stop := by
  have hspan : ∀ stop, (parameterSpan stop).start = 0 ∧ 0 < (parameterSpan stop).stop := by
    intro stop
    unfold parameterSpan
    refine ⟨rfl, ?_⟩
    dsimp only
    split
    · omega
    · omega
  unfold parameterLocal
  split
  · exact hspan _
  · exact hspan _

theorem describes_parameterLocal {m : Method} {labels : Labels} {declared : List Local}
    (h : m.variableTable.mapM (declaredLocal labels) = .ok declared) (codeLength slot : Nat) (p : Parameter) :
    m.Describes labels p (parameterLocal codeLength (entryPoint m.code) slot p declared) := by
  have hentry := find?_declaresParameter h slot
  unfold Describes
  rw [parameterLocal_slot]
  unfold parameterLocal
  cases hfind : declared.find? (declaresParameter (entryPoint m.code) slot) with
  | none =>
    rw [hfind] at hentry
    cases hentry' : m.parameterEntry? labels slot with
    | none => exact ⟨rfl, rfl, rfl⟩
    | some e =>
      rw [hentry'] at hentry
      cases hentry
  | some l =>
    rw [hfind] at hentry
    cases hentry' : m.parameterEntry? labels slot with
    | none =>
      rw [hentry'] at hentry
      cases hentry
    | some e =>
      rw [hentry'] at hentry
      cases hentry with
      | some hl =>
        obtain ⟨_, _, _, _, rfl⟩ := declaredLocal_eq_ok hl
        exact ⟨rfl, rfl, rfl⟩

/-- An entry for one slot does not matter to the parameter in another. -/
theorem parameterLocal_eraseP {slot slot' : Nat} (hne : slot' ≠ slot) (codeLength entry : Nat) (p : Parameter)
    (declared : List Local) :
    parameterLocal codeLength entry slot p (declared.eraseP (declaresParameter entry slot')) =
      parameterLocal codeLength entry slot p declared := by
  have hother : ∀ l : Local, declaresParameter entry slot' l = true → (l.slot == slot) = false := by
    intro l hl
    simp only [declaresParameter, Bool.and_eq_true, beq_iff_eq] at hl
    rw [hl.1]
    simpa using hne
  have hfind : (declared.eraseP (declaresParameter entry slot')).find? (declaresParameter entry slot) =
      declared.find? (declaresParameter entry slot) := by
    rw [← List.head?_filter, ← List.head?_filter, filter_eraseP]
    intro l hl
    rw [declaresParameter, hother l hl, Bool.false_and]
  unfold parameterLocal undeclaredParameter
  rw [hfind, filter_eraseP hother]

/-- Each parameter is bound as if it were the only one. -/
theorem getElem?_claimParameters {codeLength entry slot : Nat} {ps : List Parameter} {declared : List Local} {j : Nat}
    {p : Parameter} (hp : ps[j]? = some p) :
    (claimParameters codeLength entry slot ps declared).1[j]? =
      some (parameterLocal codeLength entry (slot + slotOf ps j) p declared) := by
  induction ps generalizing slot declared j with
  | nil => cases hp
  | cons first rest ih =>
    simp only [claimParameters]
    cases j with
    | zero =>
      obtain rfl : first = p := by simpa using hp
      simp [slotOf]
    | succ j =>
      rw [List.getElem?_cons_succ] at hp ⊢
      have hwidth := width_pos first.type
      have hslot : slot + Descriptor.width first.type + slotOf rest j = slot + slotOf (first :: rest) (j + 1) := by
        simp [slotOf, Nat.add_assoc]
      rw [ih hp, hslot, parameterLocal_eraseP]
      omega

theorem length_claimParameters (codeLength entry slot : Nat) (ps : List Parameter) (declared : List Local) :
    (claimParameters codeLength entry slot ps declared).1.length = ps.length := by
  induction ps generalizing slot declared with
  | nil => rfl
  | cons p rest ih => simp [claimParameters, ih]

/-- The slots of parameters ascend. -/
theorem claimParameters_ascending (codeLength entry slot : Nat) (ps : List Parameter) (declared : List Local) :
    (claimParameters codeLength entry slot ps declared).1.Pairwise fun l l' => l.slot < l'.slot := by
  induction ps generalizing slot declared with
  | nil => exact .nil
  | cons p rest ih =>
    simp only [claimParameters]
    refine List.pairwise_cons.2 ⟨?_, ih _ _⟩
    intro l hl
    have hwidth := width_pos p.type
    have hbounds := slot_of_mem_claimParameters hl
    rw [parameterLocal_slot]
    omega

/-- The table takes all parameters. -/
theorem offerAll_claimParameters (codeLength entry : Nat) (ps : List Parameter) (declared : List Local) :
    (Binding.empty.offerAll (claimParameters codeLength entry 0 ps declared).1).locals =
      Locals.empty.addAll (claimParameters codeLength entry 0 ps declared).1 := by
  have hinsert : (claimParameters codeLength entry 0 ps declared).1.foldlM Locals.insert? Locals.empty =
      some (Locals.empty.addAll (claimParameters codeLength entry 0 ps declared).1) := by
    refine Locals.disjoint_empty.foldlM_insert?_eq _ ?_ ?_ ?_
    · intro l hl
      obtain ⟨j, hj⟩ := List.mem_iff_getElem?.1 hl
      have hlt : j < ps.length := length_claimParameters codeLength entry 0 ps declared ▸ (List.getElem?_eq_some_iff.1 hj).1
      rw [getElem?_claimParameters (List.getElem?_eq_getElem hlt), Option.some.injEq] at hj
      obtain ⟨hstart, hstop⟩ := parameterLocal_span codeLength entry (0 + slotOf ps j) ps[j] declared
      rw [← hj, hstart]
      exact hstop
    · intro l _ x hx
      cases hx
    · refine (claimParameters_ascending codeLength entry 0 ps declared).imp ?_
      intro l l' hlt heq
      omega
  rw [Binding.offerAll_of_foldlM (b := Binding.empty) hinsert]

/-! ## The whole table -/

/-- The tables of instances after the parameters are bound, after the declared variables are, after the starts of those are moved,
and after the copies are bound. -/
def bindingPhases (m : Method) (type : MethodType) (declared : List Local) : List Locals :=
  [(Binding.empty.offerAll (claimParameters m.code.length (entryPoint m.code) 0 (m.parameters type) declared).1).locals,
    (m.bindDeclared type declared).locals, extendLocals m.code (m.bindDeclared type declared).locals,
    (m.bindKnown type declared).locals]

/-- The table of the parameters alone. -/
def parameterTable (m : Method) (type : MethodType) (declared : List Local) : Locals :=
  Locals.empty.addAll (claimParameters m.code.length (entryPoint m.code) 0 (m.parameters type) declared).1

theorem get?_parameterTable (m : Method) (type : MethodType) (declared : List Local) (id : LocalId) :
    (m.parameterTable type declared).get? id =
      (claimParameters m.code.length (entryPoint m.code) 0 (m.parameters type) declared).1[id]? := by
  rw [Locals.get?, parameterTable, Locals.addAll_all, Locals.empty, List.nil_append]

theorem bindDeclared_agreeOn (m : Method) (type : MethodType) {labels : Labels} {declared : List Local}
    (h : m.variableTable.mapM (declaredLocal labels) = .ok declared) :
    Locals.AgreeOn .parameter (m.parameterTable type declared) (m.bindDeclared type declared).locals := by
  rw [parameterTable, ← offerAll_claimParameters]
  refine Binding.offerAll_agreeOn ?_
  intro l hl
  rw [origin_of_declared h ((claimParameters_origins _ _ _ _ _).2 l hl)]
  decide

/-- Every phase has the same parameters, and so has the whole table. -/
theorem agreeOn_bindingPhases {m : Method} {type : MethodType} {labels : Labels} {declared : List Local}
    (h : m.variableTable.mapM (declaredLocal labels) = .ok declared) {table : Locals}
    (htable : table ∈ m.bindingPhases type declared) :
    Locals.AgreeOn .parameter (m.parameterTable type declared) table := by
  have hdeclared := m.bindDeclared_agreeOn type h
  simp only [bindingPhases, List.mem_cons, List.not_mem_nil, or_false] at htable
  rcases htable with rfl | rfl | rfl | rfl
  · rw [offerAll_claimParameters]
    exact .refl _
  · exact hdeclared
  · exact hdeclared.trans (extendLocals_agreeOn (by decide) m.code _)
  · exact hdeclared.trans (bindKnown_agreeOn (by decide) (by decide) m type declared)

/-- What the `j`th parameter of a method is bound to. -/
def parameterAt (m : Method) (type : MethodType) (declared : List Local) (j : Nat) (p : Parameter) : Local :=
  parameterLocal m.code.length (entryPoint m.code) (slotOf (m.parameters type) j) p declared

theorem origin_parameterAt (m : Method) (type : MethodType) (declared : List Local) (j : Nat) (p : Parameter) :
    (m.parameterAt type declared j p).origin = .parameter := origin_parameterLocal _ _ _ _ _

theorem get?_parameterAt {m : Method} {type : MethodType} (declared : List Local) {j : Nat} {p : Parameter}
    (hp : (m.parameters type)[j]? = some p) :
    (m.parameterTable type declared).get? j = some (m.parameterAt type declared j p) := by
  rw [get?_parameterTable, getElem?_claimParameters hp, Nat.zero_add]
  rfl

theorem agreeOn_synthesized (m : Method) (type : MethodType) {labels : Labels} {declared : List Local}
    (h : m.variableTable.mapM (declaredLocal labels) = .ok declared) (types : Keyed Nat String) :
    Locals.AgreeOn .parameter (m.parameterTable type declared)
      ((m.bindKnown type declared).locals.addAll (synthesized types (m.bindKnown type declared).locals m.code)) := by
  have hphase : (m.bindKnown type declared).locals ∈ m.bindingPhases type declared := by simp [bindingPhases]
  have hknown := agreeOn_bindingPhases h hphase
  refine hknown.trans (.addAll _ ?_)
  intro l hl
  rw [origin_of_mem_synthesized hl]
  decide

end Method

/-- The parameters of a method, the receiver first, have the first places of its table, and no other instance is one of a parameter.
The slot of each is the widths of those before it; the instance starts with the code, is found there, and carries what the first
entry of its slot that starts no later than the first instruction says of it, or else a name made up and its own type. It is in the
table as it was when the parameters were bound. -/
theorem parameters_have_first_places (m : Method) (labels : Labels) (events events' : List Event) (ls : Locals)
    (h : m.bindLocals labels events = .ok ls events') :
    ∃ type declared, MethodType.parse m.descriptor = .ok type ∧
      m.variableTable.mapM (Method.declaredLocal labels) = .ok declared ∧
      (∀ id l, ls.get? id = some l → (l.origin = .parameter ↔ id < (m.parameters type).length)) ∧
      ∀ j p, (m.parameters type)[j]? = some p → ∃ l, ls.get? j = some l ∧
        l.slot = Method.slotOf (m.parameters type) j ∧ l.span.start = 0 ∧ ls.find? l.slot 0 = some j ∧ m.Describes labels p l ∧
        ∀ table ∈ m.bindingPhases type declared, table.get? j = some l := by
  obtain ⟨type, declared, types, htype, hdeclared, _, rfl⟩ := Method.bindLocals_eq_addAll h
  have hagree := m.agreeOn_synthesized type hdeclared types
  refine ⟨type, declared, htype, hdeclared, ?_, ?_⟩
  · intro id l hl
    constructor
    · intro hparameter
      rw [← Method.length_claimParameters m.code.length (Method.entryPoint m.code) 0 (m.parameters type) declared]
      have hfirst := (hagree id l hparameter).1 hl
      rw [Method.get?_parameterTable] at hfirst
      exact (List.getElem?_eq_some_iff.1 hfirst).1
    · intro hlt
      have hid := (hagree id _ (m.origin_parameterAt type declared id _)).2
        (Method.get?_parameterAt declared (List.getElem?_eq_getElem hlt))
      rw [Option.some.inj (hl.symm.trans hid)]
      exact m.origin_parameterAt type declared id _
  · intro j p hp
    have horigin := m.origin_parameterAt type declared j p
    have hclaimed := Method.get?_parameterAt declared hp
    have hget := (hagree j _ horigin).2 hclaimed
    have hslot : (m.parameterAt type declared j p).slot = Method.slotOf (m.parameters type) j :=
      Method.parameterLocal_slot _ _ _ _ _
    obtain ⟨hstart, hstop⟩ : (m.parameterAt type declared j p).span.start = 0 ∧ 0 < (m.parameterAt type declared j p).span.stop :=
      Method.parameterLocal_span _ _ _ _ _
    have hdisjoint := Method.disjoint_addAll_synthesized (m.bindKnown_disjoint type declared) types m.code
    refine ⟨_, hget, hslot, hstart, ?_, Method.describes_parameterLocal hdeclared _ _ p, ?_⟩
    · exact hdisjoint.find?_eq_some.2 ⟨_, hget, rfl, Nat.le_of_eq hstart, hstop⟩
    · intro table htable
      exact (Method.agreeOn_bindingPhases hdeclared htable j _ horigin).2 hclaimed

/-- An instance method with a wide parameter and an array, in whose table of declared variables the entry of the array is listed
twice and that of the wide parameter is the wrong way round. -/
def crowdedTable : Method where
  owner := "A"
  name := "m"
  descriptor := "(J[JI)V"
  isStatic := false
  code := [.label ⟨0⟩, .line 1, .label ⟨1⟩, .load .int 4, .pop, .label ⟨2⟩, .ret none]
  variableTable := [⟨4, "late", "I", none, ⟨2⟩, ⟨2⟩⟩, ⟨3, "xs", "[J", some "T", ⟨1⟩, ⟨2⟩⟩, ⟨3, "ys", "[J", none, ⟨0⟩, ⟨2⟩⟩,
    ⟨1, "wide", "J", none, ⟨1⟩, ⟨0⟩⟩]
  handlerTable := []

/-- The parameters have the slots 0, 1, 3 and 4; the last has no entry that starts in time. -/
theorem parameters_have_first_places_crowded :
    ∃ ls events, crowdedTable.bindLocals [(⟨0⟩, 0), (⟨1⟩, 2), (⟨2⟩, 5)] [] = .ok ls events ∧
      ls.all.map (fun l => (l.slot, l.name, l.span)) = [(0, "this", ⟨0, 7⟩), (1, "wide", ⟨0, 2⟩), (3, "xs", ⟨0, 5⟩),
        (4, "param4", ⟨0, 5⟩)] ∧
      (∀ id l, ls.get? id = some l → (l.origin = .parameter ↔ id < 4)) ∧ ls.find? 3 0 = some 2 := by
  have hbinds : succeedsWith (fun ls => decide (ls.all.map (fun l => (l.slot, l.name, l.span)) = [(0, "this", ⟨0, 7⟩),
      (1, "wide", ⟨0, 2⟩), (3, "xs", ⟨0, 5⟩), (4, "param4", ⟨0, 5⟩)]))
      (crowdedTable.bindLocals [(⟨0⟩, 0), (⟨1⟩, 2), (⟨2⟩, 5)] []) = true := by decide +kernel
  obtain ⟨ls, events, h, hall⟩ := exists_of_succeedsWith hbinds
  obtain ⟨type, declared, htype, _, hfirst, hbound⟩ := parameters_have_first_places _ _ _ _ _ h
  obtain rfl : type = ⟨["J", "[J", "I"], none⟩ := by
    have hparse : MethodType.parse crowdedTable.descriptor = .ok ⟨["J", "[J", "I"], none⟩ := by decide +kernel
    exact Except.ok.inj (htype.symm.trans hparse)
  obtain ⟨l, _, hslot, _, hfind, _⟩ := hbound 2 ⟨"[J", false⟩ rfl
  refine ⟨ls, events, h, of_decide_eq_true hall, hfirst, ?_⟩
  rw [show l.slot = 3 from hslot] at hfind
  exact hfind

end CodeLift
