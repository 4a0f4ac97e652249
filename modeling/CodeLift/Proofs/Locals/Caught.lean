import CodeLift.Proofs.Locals.Runs

/-!
# The type of a caught variable

A store with which handlers bind what they catch starts a variable of the class they catch, if all of them catch the same class,
and of the type of all exceptions else. That is a matter of which classes are caught at the store and not of the order in which
the table lists the handlers, so a table in another order gives the same variables.
-/

namespace CodeLift

open Method (Access Run accesses runs uncovered runLocal synthesized caughtDescriptor? explainRuns)

/-- What the entries catch whose handlers bind at an index, in the order of the table. -/
def Method.caughtAt (m : Method) (labels : Labels) (index : Nat) : List CatchType :=
  (m.handlerTable.filter fun entry => m.bindingOf? labels entry == some index).map (·.catches)

section

variable {m : Method} {labels : Labels} {types : Keyed Nat String} {known : Locals}

/-! ## What is stored at an index -/

/-- At a store, what is stored is what the entries catch whose handlers bind there. -/
theorem Method.storedAt_of_store {index : Nat} (h : storesAt m.code index = true) :
    m.storedAt labels m.handlerTable index = m.caughtAt labels index := by
  rw [storedAt, caughtAt]
  refine congrArg (List.map _) (List.filter_congr ?_)
  intro entry _
  rw [Bool.eq_iff_iff, beq_iff_eq, beq_iff_eq, storeOf?, Option.filter_eq_some_iff]
  exact ⟨fun hstore => hstore.1, fun hbinding => ⟨hbinding, h⟩⟩

/-- Where there is no store, nothing is stored. -/
theorem Method.storedAt_of_not_store {index : Nat} (h : storesAt m.code index = false) :
    m.storedAt labels m.handlerTable index = [] := by
  rw [storedAt, List.map_eq_nil_iff, List.filter_eq_nil_iff]
  intro entry _ hstore
  rw [beq_iff_eq, storeOf?, Option.filter_eq_some_iff, h] at hstore
  exact Bool.false_ne_true hstore.2

/-! ## Tables in another order -/

/-- The types matter for the synthesized instances by what they give to each store. -/
theorem explainRuns_congr {types' : Keyed Nat String} (h : ∀ index, types.find? index = types'.find? index) (previous : Option Nat)
    (n : Nat) (listed : List (Nat × Run)) : explainRuns types previous n listed = explainRuns types' previous n listed := by
  induction listed generalizing previous n with
  | nil => rfl
  | cons run rest ih => simp only [explainRuns, runLocal, h, ih]

/-- A table of handlers in another order gives each store the same type. -/
theorem Method.caughtTypes_perm {table : List HandlerEntry} (hperm : table.Perm m.handlerTable)
    (h : m.caughtTypes labels = .ok types) :
    ∃ types', ({ m with handlerTable := table } : Method).caughtTypes labels = .ok types' ∧
      ∀ index, types.find? index = types'.find? index := by
  obtain ⟨hlabels, htypes⟩ := caughtTypes_eq_ok h
  have hnoted : table.foldlM (m.noteEntry labels) .empty = .ok (m.noteAll labels .empty table) :=
    foldlM_noteEntry_eq_ok.2 ⟨fun entry hentry => hlabels entry (hperm.mem_iff.1 hentry), rfl⟩
  have hcaught : ({ m with handlerTable := table } : Method).caughtTypes labels = .ok ((m.noteAll labels .empty table).map (·.2)) :=
    bind_eq_ok.2 ⟨_, hnoted, rfl⟩
  refine ⟨_, hcaught, ?_⟩
  intro index
  rw [htypes index, (caughtTypes_eq_ok hcaught).2 index]
  exact (caughtDescriptor?_perm ((hperm.filter _).map _)).symm

/-- Binding reads the table of handlers for the types of what they catch only. -/
theorem Method.bindLocals_perm {table : List HandlerEntry} (hperm : table.Perm m.handlerTable) {events events' : List Event}
    {ls : Locals} (h : m.bindLocals labels events = .ok ls events') :
    ({ m with handlerTable := table } : Method).bindLocals labels events = .ok ls events' := by
  unfold bindLocals at h ⊢
  obtain ⟨type, _, htype, h⟩ := run_bind_eq_ok.1 h
  obtain ⟨declared, _, hdeclared, h⟩ := run_bind_eq_ok.1 h
  obtain ⟨_, _, hknown, h⟩ := run_bind_eq_ok.1 h
  obtain ⟨types, _, htypes, hrest⟩ := run_bind_eq_ok.1 h
  obtain ⟨hcaught, rfl⟩ := Traced.ofExcept_eq_ok.1 htypes
  obtain ⟨types', hcaught', hsame⟩ := caughtTypes_perm hperm (mapError_eq_ok.1 hcaught)
  refine run_bind_eq_ok.2 ⟨type, _, htype, run_bind_eq_ok.2 ⟨declared, _, hdeclared, run_bind_eq_ok.2 ⟨_, _, hknown,
    run_bind_eq_ok.2 ⟨types', _, Traced.ofExcept_eq_ok.2 ⟨mapError_eq_ok.2 hcaught', rfl⟩, ?_⟩⟩⟩⟩
  rw [synthesized, ← explainRuns_congr hsame]
  exact hrest

/-! ## Synthesized instances -/

/-- The type of a synthesized instance is that of what is caught at its first access, if that is a store of a reference at which
handlers bind, and the type of the kind of value it holds else. -/
structure Local.TypedByFirst (m : Method) (labels : Labels) (insn : Insn) (kind : ValueKind) (l : Local) : Prop where
  same : insn = .store .reference l.slot → m.caughtAt labels l.span.start ≠ [] →
    ∀ c, (∀ d ∈ m.caughtAt labels l.span.start, d = c) → l.descriptor = c.descriptor
  differ : insn = .store .reference l.slot → (¬∃ c, ∀ d ∈ m.caughtAt labels l.span.start, d = c) →
    l.descriptor = "Ljava/lang/Throwable;"
  other : insn ≠ .store .reference l.slot ∨ m.caughtAt labels l.span.start = [] → l.descriptor = kind.descriptor

/-- An instance of a run that starts with an access is typed by it. -/
theorem typedByFirst_runLocal (h : m.caughtTypes labels = .ok types) {run : Run} {insn : Insn} {slot n : Nat}
    (hinsn : m.code[run.first]? = some insn) (haccess : insn.access = some (slot, run.kind)) :
    (runLocal types slot n run).TypedByFirst m labels insn run.kind := by
  have hfind := (Method.caughtTypes_eq_ok h).2 run.first
  have hdescriptor : run.kind = .reference →
      (runLocal types slot n run).descriptor = (types.find? run.first).getD run.kind.descriptor := by
    intro hkind
    rw [runLocal, if_pos hkind]
  -- A store of a reference has the type of what is caught there.
  have hstored : insn = .store .reference slot →
      (runLocal types slot n run).descriptor = (caughtDescriptor? (m.caughtAt labels run.first)).getD run.kind.descriptor := by
    rintro rfl
    have hstores : Method.storesAt m.code run.first = true := by rw [Method.storesAt, hinsn]
    simp only [Insn.access, Option.some.injEq, Prod.mk.injEq, true_and] at haccess
    rw [hdescriptor haccess.symm, hfind, Method.storedAt_of_store hstores]
  refine ⟨?_, ?_, ?_⟩
  · intro hstore hne c hsame
    have htype : caughtDescriptor? (m.caughtAt labels run.first) = some c.descriptor := Method.caughtDescriptor?_of_same hne hsame
    rw [hstored hstore, htype, Option.getD_some]
  · intro hstore hdiffer
    have htype : caughtDescriptor? (m.caughtAt labels run.first) = some CatchType.any.descriptor :=
      Method.caughtDescriptor?_of_differ hdiffer
    rw [hstored hstore, htype]
    rfl
  · intro hother
    by_cases hstore : insn = .store .reference slot
    · have hnone : m.caughtAt labels run.first = [] := hother.resolve_left fun hne => hne hstore
      rw [hstored hstore, hnone]
      rfl
    · by_cases hkind : run.kind = .reference
      · have hstores : Method.storesAt m.code run.first = false := by
          rw [Method.storesAt, hinsn]
          split
          · rename_i kind slot' heq
            cases heq
            simp only [Insn.access, Option.some.injEq, Prod.mk.injEq] at haccess
            rw [haccess.1, haccess.2, hkind] at hstore
            exact absurd rfl hstore
          · rfl
        rw [hdescriptor hkind, hfind, Method.storedAt_of_not_store hstores]
        rfl
      · rw [runLocal, if_neg hkind, Option.getD_none]

end

/-- A synthesized instance starts at an access of its slot. If that is a reference store at which handlers bind what they catch, the
instance has the type of the class they catch when they all catch the same, and the type of all exceptions when they do not; any
other synthesized instance has the type of the kind of value it holds. So the order of the table of handlers does not matter: in any
other order the same instances are bound, and the same is reported. -/
theorem caught_types_ignore_table_order (m : Method) (labels : Labels) (events events' : List Event) (ls : Locals)
    (h : m.bindLocals labels events = .ok ls events') :
    (∀ l ∈ ls.all, l.origin = .synthesized → ∃ insn kind, m.code[l.span.start]? = some insn ∧
      insn.access = some (l.slot, kind) ∧ l.TypedByFirst m labels insn kind) ∧
    ∀ table, table.Perm m.handlerTable →
      ({ m with handlerTable := table } : Method).bindLocals labels events = .ok ls events' := by
  constructor
  · intro l hl horigin
    obtain ⟨type, declared, types, _, hdeclared, htypes, rfl⟩ := Method.bindLocals_eq_addAll h
    rw [Locals.addAll_all] at hl
    rcases List.mem_append.1 hl with hl | hl
    · exact absurd horigin (Method.origin_of_known hdeclared hl)
    · obtain ⟨n, group, run, hgroup, hrun, hl'⟩ := Method.exists_group_of_mem_synthesized hl
      obtain ⟨first, hfirst, hindex, hkind⟩ := hrun.first
      obtain ⟨hmissing, hslot⟩ := (Method.mem_runs (List.mem_of_getElem? hgroup)).2.2 first (List.mem_of_head? hfirst)
      obtain ⟨insn, hinsn, haccess⟩ := Method.mem_accesses.1 (List.mem_filter.1 hmissing).1
      rw [hindex] at hinsn
      rw [hslot, hkind] at haccess
      have htyped := typedByFirst_runLocal (n := n) htypes hinsn haccess
      rw [← hl'] at htyped
      have hstart : l.span.start = run.first := congrArg (fun x => x.span.start) hl'
      exact ⟨insn, run.kind, hstart ▸ hinsn, haccess, htyped⟩
  · intro table hperm
    exact Method.bindLocals_perm hperm h

/-- A method with two stores of caught exceptions: handlers for different classes share the first, handlers for one class the
second. -/
def sharedStores : Method where
  owner := "A"
  name := "m"
  descriptor := "()V"
  isStatic := true
  code := [.label ⟨0⟩, .constInt 1, .store .int 2, .label ⟨1⟩, .ret none, .label ⟨2⟩, .store .reference 0, .ret none, .label ⟨3⟩,
    .store .reference 1, .ret none]
  variableTable := []
  handlerTable := [⟨⟨0⟩, ⟨1⟩, ⟨2⟩, .ofClass "B"⟩, ⟨⟨0⟩, ⟨1⟩, ⟨3⟩, .ofClass "D"⟩, ⟨⟨0⟩, ⟨1⟩, ⟨2⟩, .ofClass "C"⟩,
    ⟨⟨0⟩, ⟨1⟩, ⟨3⟩, .ofClass "D"⟩]

/-- The first store gets the type of all exceptions, the second that of its class, and the table read backwards changes nothing. -/
theorem caught_types_ignore_table_order_shared :
    ∃ ls events, sharedStores.bindLocals [(⟨0⟩, 0), (⟨1⟩, 3), (⟨2⟩, 5), (⟨3⟩, 8)] [] = .ok ls events ∧
      ls.all.map (fun l => (l.name, l.descriptor)) = [("var0", "Ljava/lang/Throwable;"), ("var1", "LD;"), ("var2", "I")] ∧
      ({ sharedStores with handlerTable := sharedStores.handlerTable.reverse } : Method).bindLocals
        [(⟨0⟩, 0), (⟨1⟩, 3), (⟨2⟩, 5), (⟨3⟩, 8)] [] = .ok ls events := by
  have hbinds : succeedsWith (fun ls => decide (ls.all.map (fun l => (l.name, l.descriptor)) =
      [("var0", "Ljava/lang/Throwable;"), ("var1", "LD;"), ("var2", "I")]))
      (sharedStores.bindLocals [(⟨0⟩, 0), (⟨1⟩, 3), (⟨2⟩, 5), (⟨3⟩, 8)] []) = true := by decide +kernel
  obtain ⟨ls, events, h, hls⟩ := exists_of_succeedsWith hbinds
  exact ⟨ls, events, h, of_decide_eq_true hls,
    (caught_types_ignore_table_order _ _ _ _ _ h).2 _ (List.reverse_perm _)⟩

end CodeLift
