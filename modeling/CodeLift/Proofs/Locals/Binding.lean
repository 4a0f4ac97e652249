import CodeLift.Locals.Binding
import CodeLift.Proofs.Actions
import CodeLift.Proofs.Locals.Groups
import CodeLift.Proofs.Locals.Table

/-!
# Binding splits slots into disjoint instances

Each phase of binding keeps the table of instances disjoint and the instances of a slot in order: the table refuses what would
overlap, moving a start back over a store goes no further than the gap before the instance, so it leaves the instance where it is
listed, and the runs that explain the remaining accesses lie in the gaps between the known instances. So every access of the code is
explained by exactly one instance (`instances_explain_accesses`).
-/

namespace CodeLift

namespace Binding

theorem offer_disjoint {b : Binding} (h : b.locals.Disjoint) (l : Local) : (b.offer l).locals.Disjoint := by
  unfold offer
  split
  · rename_i hinsert
    exact h.insert hinsert
  · exact h

theorem offerAll_disjoint {b : Binding} (h : b.locals.Disjoint) (ls : List Local) : (b.offerAll ls).locals.Disjoint :=
  List.foldlRecOn (motive := fun b => b.locals.Disjoint) ls offer h fun _ hb l _ => offer_disjoint hb l

/-- Instances that the table accepts are all bound, and nothing is reported. -/
theorem offerAll_of_foldlM {b : Binding} {xs : List Local} {ls : Locals} (h : xs.foldlM Locals.insert? b.locals = some ls) :
    b.offerAll xs = { b with locals := ls } := by
  induction xs generalizing b with
  | nil =>
    simp only [List.foldlM_nil, Option.pure_def, Option.some.injEq] at h
    rw [← h]
    rfl
  | cons x xs ih =>
    rw [List.foldlM_cons, Option.bind_eq_bind, Option.bind_eq_some_iff] at h
    obtain ⟨ls', hx, h⟩ := h
    have hoffer : b.offer x = { b with locals := ls' } := by simp only [offer, hx]
    have hrest : offerAll { b with locals := ls' } xs = { b with locals := ls } := ih h
    rw [← hrest, ← hoffer]
    rfl

end Binding

namespace Method

/-! ## Known instances -/

/-- The store that initializes an instance stands before it. -/
theorem initialStore?_lt {code : List Insn} {l : Local} {index : Nat} (h : initialStore? code l = some index) :
    index < l.span.start := by
  unfold initialStore? at h
  split at h
  · rename_i kind slot before hbefore
    split at h
    · cases h
      have hlen := (List.dropWhile_suffix (l := (code.take l.span.start).reverse) (·.isMarker)).length_le
      rw [hbefore] at hlen
      simp only [List.length_cons, List.length_reverse, List.length_take] at hlen
      omega
    · cases h
  · cases h

/-- An instance of a table reaches further back, over code that no other instance of its slot holds. -/
theorem disjoint_extend {ls : Locals} (h : ls.Disjoint) {id : LocalId} {l : Local} (hl : ls.get? id = some l) {index : Nat}
    (hlt : index < l.span.start) (hgap : ls.overlaps l.slot ⟨index, l.span.start⟩ = false) :
    Locals.Disjoint { ls with all := ls.all.set id { l with span := ⟨index, l.span.stop⟩ } } := by
  have hid : id < ls.all.length := (List.getElem?_eq_some_iff.1 hl).1
  have hne := h.nonempty hl
  have hget : ∀ j : LocalId, Locals.get? { ls with all := ls.all.set id { l with span := ⟨index, l.span.stop⟩ } } j =
      if id = j then some { l with span := ⟨index, l.span.stop⟩ } else ls.get? j := by
    intro j
    rw [Locals.get?, List.getElem?_set, if_pos hid]
    rfl
  refine ⟨?_, ?_, ?_⟩
  · intro j x hx
    rw [hget] at hx
    split at hx
    · cases hx
      exact Nat.lt_trans hlt hne
    · exact h.nonempty hx
  · intro slot j
    rw [hget]
    by_cases hj : id = j
    · subst hj
      rw [if_pos rfl]
      refine h.listed.trans ?_
      simp [hl]
    · rw [if_neg hj]
      exact h.listed
  · -- The list of the slot is not sorted again: an instance that was listed before still ends before the new start.
    intro slot
    refine (h.ordered slot).imp_of_mem ?_
    rintro i j hi hj ⟨a, b, ha, hb, hstart, hstop⟩
    obtain ⟨a', ha', haslot⟩ := h.listed.1 hi
    obtain ⟨b', hb', hbslot⟩ := h.listed.1 hj
    obtain rfl : a = a' := Option.some.inj (ha.symm.trans ha')
    obtain rfl : b = b' := Option.some.inj (hb.symm.trans hb')
    by_cases hidi : id = i
    · subst hidi
      obtain rfl : l = a := Option.some.inj (hl.symm.trans ha)
      have hidj : id ≠ j := by
        rintro rfl
        rw [hl, Option.some.injEq] at hb
        subst hb
        omega
      exact ⟨_, b, (hget id).trans (if_pos rfl), by rw [hget, if_neg hidj, hb], Nat.lt_trans hlt hstart, hstop⟩
    · by_cases hidj : id = j
      · subst hidj
        obtain rfl : l = b := Option.some.inj (hl.symm.trans hb)
        have hout := h.overlaps_eq_false.1 hgap a (List.mem_of_getElem? ha) (haslot.trans hbslot.symm)
        have hna := h.nonempty ha
        dsimp only at hout
        have hbefore : a.span.stop ≤ index := by omega
        exact ⟨a, _, by rw [hget, if_neg hidi, ha], (hget id).trans (if_pos rfl), Nat.lt_of_lt_of_le hna hbefore, hbefore⟩
      · exact ⟨a, b, by rw [hget, if_neg hidi, ha], by rw [hget, if_neg hidj, hb], hstart, hstop⟩

theorem extendLocal_disjoint {ls : Locals} (h : ls.Disjoint) (code : List Insn) (id : LocalId) :
    (extendLocal code ls id).Disjoint := by
  unfold extendLocal
  split
  · exact h
  · rename_i l hl
    split
    · split
      · rename_i index hindex
        split
        · exact h
        · rename_i hgap
          exact disjoint_extend h hl (initialStore?_lt hindex) (Bool.not_eq_true _ ▸ hgap)
      · exact h
    · exact h

theorem extendLocals_disjoint {ls : Locals} (h : ls.Disjoint) (code : List Insn) : (extendLocals code ls).Disjoint :=
  List.foldlRecOn (motive := Locals.Disjoint) _ (extendLocal code) h fun _ hls id _ => extendLocal_disjoint hls code id

theorem bindCopy_disjoint {b : Binding} (h : b.locals.Disjoint) (pair : (Insn × Insn) × Nat) :
    (bindCopy b pair).locals.Disjoint := by
  unfold bindCopy
  split
  · split
    · exact h
    · split
      · exact h
      · exact Binding.offer_disjoint h _
  · exact h

theorem bindCopies_disjoint {b : Binding} (h : b.locals.Disjoint) (code : List Insn) : (bindCopies code b).locals.Disjoint :=
  List.foldlRecOn (motive := fun b => b.locals.Disjoint) _ bindCopy h fun _ hb pair _ => bindCopy_disjoint hb pair

/-- The table accepts an instance at an index that nothing covers, if it ends no later than the next instance of the slot starts. -/
theorem offer_events_of_gap {b : Binding} (h : b.locals.Disjoint) {l : Local} (hne : l.span.start < l.span.stop)
    (hfree : b.locals.find? l.slot l.span.start = none)
    (hstop : ∀ next, b.locals.nextStart? l.slot l.span.start = some next → l.span.stop ≤ next) : (b.offer l).events = b.events := by
  have hinsert : b.locals.insert? l = some (b.locals.add l) := by
    refine h.insert?_eq_some.2 ⟨hne, ?_, rfl⟩
    intro x hx hslot
    have hout := h.find?_eq_none.1 hfree x hx hslot
    rw [Span.mem_def] at hout
    by_cases hlater : l.span.start < x.span.start
    · right
      cases hnext : b.locals.nextStart? l.slot l.span.start with
      | none =>
        have hnot := List.find?_eq_none.1 hnext x.span.start (h.mem_startsOf.2 ⟨x, hx, hslot, rfl⟩)
        simp [hlater] at hnot
      | some next =>
        have hleast := (h.nextStart?_eq_some hnext).2.2 x hx hslot hlater
        have hle := hstop next hnext
        omega
    · omega
  rw [Binding.offer, hinsert]

/-- A copy is bound up to the next instance of its slot at most, so the table accepts every copy. -/
theorem bindCopy_events {b : Binding} (h : b.locals.Disjoint) (pair : (Insn × Insn) × Nat) : (bindCopy b pair).events = b.events := by
  unfold bindCopy
  split
  · split
    · rfl
    · rename_i hfree
      rw [Bool.not_eq_true, Option.isSome_eq_false_iff, Option.isNone_iff_eq_none] at hfree
      split
      · rfl
      · refine offer_events_of_gap h ?_ hfree ?_
        · dsimp only
          split
          · rename_i next hnext
            exact Nat.lt_min.2 ⟨Nat.lt_of_lt_of_le (Nat.lt_succ_self _) (Nat.le_max_right _ _), (h.nextStart?_eq_some hnext).2.1⟩
          · exact Nat.lt_of_lt_of_le (Nat.lt_succ_self _) (Nat.le_max_right _ _)
        · intro next hnext
          dsimp only at hnext ⊢
          rw [hnext]
          exact Nat.min_le_right _ _
  · rfl

/-- No copy is refused. -/
theorem bindCopies_events {b : Binding} (h : b.locals.Disjoint) (code : List Insn) : (bindCopies code b).events = b.events := by
  have hboth : (bindCopies code b).locals.Disjoint ∧ (bindCopies code b).events = b.events := by
    refine List.foldlRecOn (motive := fun b' : Binding => b'.locals.Disjoint ∧ b'.events = b.events) _ bindCopy ⟨h, rfl⟩ ?_
    intro b' hb' pair _
    exact ⟨bindCopy_disjoint hb'.1 pair, (bindCopy_events hb'.1 pair).trans hb'.2⟩
  exact hboth.2

/-- The instances of the parameters and of the declared variables are disjoint, also when their starts have been moved. -/
theorem extendLocals_bindDeclared_disjoint (m : Method) (type : MethodType) (declared : List Local) :
    (extendLocals m.code (m.bindDeclared type declared).locals).Disjoint :=
  extendLocals_disjoint (Binding.offerAll_disjoint (Binding.offerAll_disjoint Locals.disjoint_empty _) _) m.code

/-- The instances of the parameters, of the declared variables and of the copies are disjoint. -/
theorem bindKnown_disjoint (m : Method) (type : MethodType) (declared : List Local) :
    (m.bindKnown type declared).locals.Disjoint :=
  bindCopies_disjoint (m.extendLocals_bindDeclared_disjoint type declared) m.code

/-! ## Runs of accesses -/

/-- A known instance of the slot lies before or after a run of accesses that it does not cover. -/
theorem run_apart {ls : Locals} (h : ls.Disjoint) {l : Local} (hl : l ∈ ls.all) {first last : Access} {rest : List Access}
    (hchain : (first :: rest).IsChain fun a b => sameRun ls a b = true)
    (hout : ∀ a ∈ first :: rest, a.slot = l.slot ∧ a.index ∉ l.span) (hlast : (first :: rest).getLast? = some last) :
    l.span.stop ≤ first.index ∨ last.index < l.span.start := by
  obtain ⟨id, hid⟩ := List.mem_iff_getElem?.1 hl
  have hne := h.nonempty hid
  induction rest generalizing first with
  | nil =>
    obtain rfl : first = last := by simpa using hlast
    have := (hout first List.mem_cons_self).2
    rw [Span.mem_def] at this
    omega
  | cons next rest ih =>
    rw [List.isChain_cons_cons] at hchain
    rw [List.getLast?_cons_cons] at hlast
    rcases ih hchain.2 (fun a ha => hout a (List.mem_cons_of_mem _ ha)) hlast with hbefore | hafter
    · -- The instance starts before the second access, so it starts before the first one.
      obtain ⟨hslot, hnot⟩ := hout first List.mem_cons_self
      have hsame := hchain.1
      simp only [sameRun, Bool.and_eq_true, Bool.not_eq_true', List.any_eq_false, beq_iff_eq, decide_eq_true_eq] at hsame
      have hbetween := hsame.2 l.span.start (h.mem_startsOf.2 ⟨l, hl, hslot.symm, rfl⟩)
      rw [Span.mem_def] at hnot
      omega
    · exact .inr hafter

/-- An access of a run lies between the first and the last one. -/
theorem bounds_of_mem_run {run : List Access} (h : run.Pairwise (·.index < ·.index)) {first last a : Access}
    (hfirst : run.head? = some first) (hlast : run.getLast? = some last) (ha : a ∈ run) :
    first.index ≤ a.index ∧ a.index ≤ last.index := by
  obtain ⟨rest, rfl⟩ := List.head?_eq_some_iff.1 hfirst
  refine ⟨?_, ?_⟩
  · rcases List.mem_cons.1 ha with rfl | ha
    · exact Nat.le_refl _
    · exact Nat.le_of_lt ((List.pairwise_cons.1 h).1 a ha)
  · obtain ⟨before, hbefore⟩ := List.getLast?_eq_some_iff.1 hlast
    rw [hbefore] at h ha
    rcases List.mem_append.1 ha with ha | ha
    · exact Nat.le_of_lt ((List.pairwise_append.1 h).2.2 a ha last (List.mem_singleton.2 rfl))
    · rw [List.mem_singleton.1 ha]

/-! ## Synthesized instances -/

section

variable {types : Keyed Nat String} {ls : Locals} {code : List Insn}

/-- A synthesized instance spans a run of accesses of its slot. -/
structure SpansRun (ls : Locals) (missing : List Access) (run : List Access) (l : Local) : Prop where
  run_mem : run ∈ runs ls missing l.slot
  exists_bounds : ∃ first last, run.head? = some first ∧ run.getLast? = some last ∧
    l.span = ⟨first.index, last.index + 1⟩

/-- The instance that explains the `n`th group of accesses of a slot is synthesized. -/
theorem exists_mem_synthesized (types : Keyed Nat String) {slot n : Nat} {group : List Access}
    (h : (runs ls (uncovered ls code) slot)[n]? = some group) :
    ∃ run : Run, run.Spans group ∧ runLocal types slot n run ∈ synthesized types ls code := by
  have hmem : (group, n) ∈ (runs ls (uncovered ls code) slot).zipIdx := List.mem_zipIdx_iff_getElem?.2 h
  obtain ⟨l, hl, run, hrun, rfl⟩ := exists_mem_of_forall₂ (synthesized_explains_runs types ls code slot) hmem
  exact ⟨run, hrun, (List.mem_filter.1 hl).1⟩

/-- A synthesized instance explains a group of accesses of its slot. -/
theorem exists_group_of_mem_synthesized {l : Local} (h : l ∈ synthesized types ls code) :
    ∃ (n : Nat) (group : List Access) (run : Run), (runs ls (uncovered ls code) l.slot)[n]? = some group ∧ run.Spans group ∧
      l = runLocal types l.slot n run := by
  have hfilter : l ∈ (synthesized types ls code).filter (·.slot == l.slot) := List.mem_filter.2 ⟨h, by simp⟩
  obtain ⟨⟨group, n⟩, hgroup, run, hrun, hl⟩ :=
    exists_mem_of_forall₂_right (synthesized_explains_runs types ls code l.slot) hfilter
  exact ⟨n, group, run, List.mem_zipIdx_iff_getElem?.1 hgroup, hrun, hl⟩

/-- A run that spans a group gives the bounds of its instance. -/
theorem Run.Spans.spansRun {slot n : Nat} {group : List Access} {run : Run} (hrun : run.Spans group)
    (h : group ∈ runs ls (uncovered ls code) slot) : SpansRun ls (uncovered ls code) group (runLocal types slot n run) := by
  obtain ⟨first, hfirst, hfirstIndex, _⟩ := hrun.first
  obtain ⟨last, hlast, hlastIndex, _⟩ := hrun.last
  exact ⟨h, first, last, hfirst, hlast, by rw [hfirstIndex, hlastIndex, runLocal]⟩

theorem mem_synthesized {l : Local} (h : l ∈ synthesized types ls code) : ∃ run, SpansRun ls (uncovered ls code) run l := by
  obtain ⟨n, group, run, hgroup, hrun, hl⟩ := exists_group_of_mem_synthesized h
  rw [hl]
  exact ⟨group, hrun.spansRun (List.mem_of_getElem? hgroup)⟩

theorem SpansRun.mem_span {run : List Access} {l : Local} (h : SpansRun ls (uncovered ls code) run l) {a : Access}
    (ha : a ∈ run) : a.index ∈ l.span := by
  obtain ⟨first, last, hfirst, hlast, hspan⟩ := h.exists_bounds
  have hrun := (runs_ascending (uncovered_ascending ls code) ls l.slot).1 run h.run_mem
  have hbounds := bounds_of_mem_run hrun hfirst hlast ha
  rw [hspan, Span.mem_def]
  exact ⟨hbounds.1, Nat.lt_succ_of_le hbounds.2⟩

theorem SpansRun.nonempty {run : List Access} {l : Local} (h : SpansRun ls (uncovered ls code) run l) :
    l.span.start < l.span.stop := by
  obtain ⟨a, ha⟩ := List.exists_mem_of_ne_nil run (mem_runs h.run_mem).1
  have := h.mem_span ha
  rw [Span.mem_def] at this
  omega

/-- A synthesized instance is apart from the known ones. -/
theorem SpansRun.apart_known {run : List Access} {l known : Local} (hdisjoint : ls.Disjoint)
    (h : SpansRun ls (uncovered ls code) run l) (hknown : known ∈ ls.all) : known.Apart l := by
  intro hslot
  obtain ⟨_, hchain, hmem⟩ := mem_runs h.run_mem
  obtain ⟨first, last, hfirst, hlast, hspan⟩ := h.exists_bounds
  obtain ⟨rest, rfl⟩ := List.head?_eq_some_iff.1 hfirst
  have hout : ∀ a ∈ first :: rest, a.slot = known.slot ∧ a.index ∉ known.span := by
    intro a ha
    obtain ⟨hmissing, haslot⟩ := hmem a ha
    have hnone := (List.mem_filter.1 hmissing).2
    rw [Option.isNone_iff_eq_none] at hnone
    exact ⟨haslot.trans hslot.symm, hdisjoint.find?_eq_none.1 hnone known hknown (hslot.trans haslot.symm)⟩
  rw [hspan]
  rcases run_apart hdisjoint hknown hchain hout hlast with hbefore | hafter
  · exact .inl hbefore
  · exact .inr hafter

/-- Instances are related in the order of a list if those of different slots are, and those of each slot are in their order. -/
theorem pairwise_of_slots {R : Local → Local → Prop} {xs : List Local} (hslots : ∀ a ∈ xs, ∀ b ∈ xs, a.slot ≠ b.slot → R a b)
    (h : ∀ slot, (xs.filter (·.slot == slot)).Pairwise R) : xs.Pairwise R := by
  induction xs with
  | nil => exact .nil
  | cons x xs ih =>
    refine List.pairwise_cons.2 ⟨?_, ih (fun a ha b hb => hslots a (List.mem_cons_of_mem x ha) b (List.mem_cons_of_mem x hb))
      fun slot => (h slot).sublist ((List.sublist_cons_self x xs).filter _)⟩
    intro y hy
    by_cases hslot : x.slot = y.slot
    · have hfirst := h x.slot
      rw [List.filter_cons_of_pos (by simp)] at hfirst
      exact (List.pairwise_cons.1 hfirst).1 y (List.mem_filter.2 ⟨hy, by simp [hslot]⟩)
    · exact hslots x List.mem_cons_self y (List.mem_cons_of_mem x hy) hslot

/-- Synthesized instances are apart from each other. -/
theorem synthesized_apart : (synthesized types ls code).Pairwise Local.Apart := by
  refine pairwise_of_slots (fun a _ b _ hne hslot => absurd hslot hne) ?_
  intro slot
  have hzip : (runs ls (uncovered ls code) slot).zipIdx.Pairwise fun x y => ∀ a ∈ x.1, ∀ b ∈ y.1, a.index < b.index := by
    have hruns := (runs_ascending (uncovered_ascending ls code) ls slot).2
    rw [← List.zipIdx_map_fst 0 (runs ls (uncovered ls code) slot)] at hruns
    exact List.pairwise_map.1 hruns
  refine pairwise_of_forall₂ (synthesized_explains_runs types ls code slot) hzip ?_
  rintro group _ group' _ ⟨run, hrun, rfl⟩ ⟨run', hrun', rfl⟩ hbefore _
  obtain ⟨last, hlast, hlastIndex, _⟩ := hrun.last
  obtain ⟨first, hfirst, hfirstIndex, _⟩ := hrun'.first
  have hlt := hbefore last (List.mem_of_getLast? hlast) first (List.mem_of_head? hfirst)
  left
  simp only [runLocal]
  omega

/-- The table of known instances accepts every synthesized one. -/
theorem foldlM_insert?_synthesized (h : ls.Disjoint) :
    (synthesized types ls code).foldlM Locals.insert? ls = some (ls.addAll (synthesized types ls code)) := by
  refine h.foldlM_insert?_eq _ ?_ ?_ synthesized_apart
  · intro l hl
    obtain ⟨run, hrun⟩ := mem_synthesized hl
    exact hrun.nonempty
  · intro l hl known hknown
    obtain ⟨run, hrun⟩ := mem_synthesized hl
    exact hrun.apart_known h hknown

/-- The synthesized instances lie apart from each other and from the known ones. -/
theorem disjoint_addAll_synthesized (h : ls.Disjoint) (types : Keyed Nat String) (code : List Insn) :
    (ls.addAll (synthesized types ls code)).Disjoint :=
  h.foldlM_insert? (foldlM_insert?_synthesized h)

/-- An access that no known instance covers lies in a group of its slot, for which there is a synthesized instance. -/
theorem exists_runLocal (types : Keyed Nat String) {a : Access} (ha : a ∈ uncovered ls code) :
    ∃ (group : List Access) (n : Nat) (run : Run), a ∈ group ∧ group ∈ runs ls (uncovered ls code) a.slot ∧ run.Spans group ∧
      runLocal types a.slot n run ∈ synthesized types ls code := by
  have hflat : a ∈ (runs ls (uncovered ls code) a.slot).flatten := by
    rw [runs, List.flatten_splitBy, List.mem_filter]
    exact ⟨ha, by simp⟩
  obtain ⟨group, hgroup, hagroup⟩ := List.mem_flatten.1 hflat
  obtain ⟨n, hn⟩ := List.mem_iff_getElem?.1 hgroup
  obtain ⟨run, hrun, hmem⟩ := exists_mem_synthesized types hn
  exact ⟨group, n, run, hagroup, hgroup, hrun, hmem⟩

/-- An access that no known instance covers is covered by a synthesized one. -/
theorem exists_synthesized {a : Access} (ha : a ∈ uncovered ls code) :
    ∃ l ∈ synthesized types ls code, l.slot = a.slot ∧ a.index ∈ l.span := by
  obtain ⟨group, n, run, hagroup, hgroup, hrun, hmem⟩ := exists_runLocal types ha
  exact ⟨_, hmem, rfl, (hrun.spansRun hgroup).mem_span hagroup⟩

end

/-! ## The whole table -/

/-- Binding is its phases: what is known is bound first, and what is left of the accesses is explained by synthesized instances. -/
theorem bindLocals_cases {m : Method} {labels : Labels} {events events' : List Event} {ls : Locals}
    (h : m.bindLocals labels events = .ok ls events') :
    ∃ type declared types, MethodType.parse m.descriptor = .ok type ∧
      m.variableTable.mapM (declaredLocal labels) = .ok declared ∧ m.caughtTypes labels = .ok types ∧
      ls = ((Binding.mk (m.bindKnown type declared).locals []).offerAll
        (synthesized types (m.bindKnown type declared).locals m.code)).locals := by
  unfold bindLocals at h
  obtain ⟨type, _, htype, h⟩ := run_bind_eq_ok.1 h
  obtain ⟨declared, _, hdeclared, h⟩ := run_bind_eq_ok.1 h
  obtain ⟨_, _, _, h⟩ := run_bind_eq_ok.1 h
  obtain ⟨types, _, htypes, h⟩ := run_bind_eq_ok.1 h
  obtain ⟨_, _, _, h⟩ := run_bind_eq_ok.1 h
  obtain ⟨htype, _⟩ := Traced.ofExcept_eq_ok.1 htype
  obtain ⟨hdeclared, _⟩ := Traced.ofExcept_eq_ok.1 hdeclared
  obtain ⟨htypes, _⟩ := Traced.ofExcept_eq_ok.1 htypes
  refine ⟨type, declared, types, mapError_eq_ok.1 htype, mapError_eq_ok.1 hdeclared, mapError_eq_ok.1 htypes, ?_⟩
  cases h
  rfl

/-- The table of a method is that of its known instances with the synthesized ones after them. -/
theorem bindLocals_eq_addAll {m : Method} {labels : Labels} {events events' : List Event} {ls : Locals}
    (h : m.bindLocals labels events = .ok ls events') :
    ∃ type declared types, MethodType.parse m.descriptor = .ok type ∧
      m.variableTable.mapM (declaredLocal labels) = .ok declared ∧ m.caughtTypes labels = .ok types ∧
      ls = (m.bindKnown type declared).locals.addAll (synthesized types (m.bindKnown type declared).locals m.code) := by
  obtain ⟨type, declared, types, htype, hdeclared, htypes, hls⟩ := bindLocals_cases h
  refine ⟨type, declared, types, htype, hdeclared, htypes, ?_⟩
  have hinsert : (synthesized types (m.bindKnown type declared).locals m.code).foldlM Locals.insert?
      (m.bindKnown type declared).locals = some _ := foldlM_insert?_synthesized (m.bindKnown_disjoint type declared)
  rw [Binding.offerAll_of_foldlM (b := ⟨_, []⟩) hinsert] at hls
  exact hls

end Method

/-- The instances of a table split the slots of the code among them, and each access has its instance. -/
structure Locals.Explains (ls : Locals) (code : List Insn) : Prop where
  nonempty : ∀ id l, ls.get? id = some l → l.span.start < l.span.stop
  /-- An instance is listed among the instances of its own slot and of no other. -/
  listed : ∀ slot id, id ∈ ls.ofSlot slot ↔ ∃ l, ls.get? id = some l ∧ l.slot = slot
  once : ∀ slot, (ls.ofSlot slot).Nodup
  /-- The instances of a slot are listed in the order of the code and share no index. -/
  ordered : ∀ slot, (ls.ofSlot slot).Pairwise ls.Precedes
  /-- The instance found for a load, store or increment is the one instance of its slot that holds its index. -/
  covered : ∀ (index : Nat) insn slot kind, code[index]? = some insn → insn.access = some (slot, kind) →
    ∃ id, ls.find? slot index = some id ∧ ∀ id', (∃ l, ls.get? id' = some l ∧ l.slot = slot ∧ index ∈ l.span) ↔ id' = id

/-- A disjoint table that covers every access explains them. -/
theorem Locals.Disjoint.explains {ls : Locals} {code : List Insn} (h : ls.Disjoint)
    (hcover : ∀ a ∈ Method.accesses code, ∃ l ∈ ls.all, l.slot = a.slot ∧ a.index ∈ l.span) : ls.Explains code := by
  refine ⟨fun _ _ => h.nonempty, fun _ _ => h.listed, h.nodup_ofSlot, h.ordered, ?_⟩
  intro index insn slot kind hinsn haccess
  obtain ⟨l, hl, hslot, hin⟩ := hcover ⟨index, slot, kind⟩ (Method.mem_accesses.2 ⟨insn, hinsn, haccess⟩)
  obtain ⟨id, hid⟩ := List.mem_iff_getElem?.1 hl
  have hfind : ls.find? slot index = some id := h.find?_eq_some.2 ⟨l, hid, hslot, hin⟩
  refine ⟨id, hfind, ?_⟩
  intro id'
  rw [← h.find?_eq_some, hfind, Option.some.injEq, eq_comm]

/-- Together with the synthesized instances, disjoint known instances explain every access. -/
theorem Method.synthesized_explains {types : Keyed Nat String} {known : Locals} {code : List Insn} (h : known.Disjoint) :
    (known.addAll (synthesized types known code)).Explains code := by
  refine (disjoint_addAll_synthesized h types code).explains ?_
  intro a ha
  rw [Locals.addAll_all]
  by_cases hmissing : a ∈ uncovered known code
  · obtain ⟨l, hl, hslot, hin⟩ : ∃ l ∈ synthesized types known code, l.slot = a.slot ∧ a.index ∈ l.span :=
      exists_synthesized hmissing
    exact ⟨l, List.mem_append_right _ hl, hslot, hin⟩
  · have hfound : known.find? a.slot a.index ≠ none := by
      intro hnone
      exact hmissing (List.mem_filter.2 ⟨ha, by rw [hnone]; rfl⟩)
    obtain ⟨id, hid⟩ := Option.ne_none_iff_exists'.1 hfound
    obtain ⟨l, hl, hslot, hin⟩ := h.find?_eq_some.1 hid
    exact ⟨l, List.mem_append_left _ (List.mem_of_getElem? hl), hslot, hin⟩

/-- Binding gives every load, store and increment exactly one instance of its slot: the instances of a slot are not empty, are
listed in order and share no index. The table refuses parameters and declared variables at most: all copies are accepted, and the
instances synthesized last are accepted by the table of those known before. -/
theorem instances_explain_accesses (m : Method) (labels : Labels) (events events' : List Event) (ls : Locals)
    (h : m.bindLocals labels events = .ok ls events') :
    ls.Explains m.code ∧ ∃ type declared types, MethodType.parse m.descriptor = .ok type ∧
      m.variableTable.mapM (Method.declaredLocal labels) = .ok declared ∧ m.caughtTypes labels = .ok types ∧
      (m.bindKnown type declared).events = (m.bindDeclared type declared).events ∧
      (Method.synthesized types (m.bindKnown type declared).locals m.code).foldlM Locals.insert?
        (m.bindKnown type declared).locals = some ls := by
  obtain ⟨type, declared, types, htype, hdeclared, htypes, rfl⟩ := Method.bindLocals_eq_addAll h
  have hknown := m.bindKnown_disjoint type declared
  have hcopies : (m.bindKnown type declared).events = (m.bindDeclared type declared).events :=
    Method.bindCopies_events (b := ⟨_, _⟩) (m.extendLocals_bindDeclared_disjoint type declared) m.code
  exact ⟨Method.synthesized_explains hknown, type, declared, types, htype, hdeclared, htypes, hcopies,
    Method.foldlM_insert?_synthesized hknown⟩

/-- A method that uses one slot for references, for a declared variable and for a number, and copies its receiver. -/
def reusedSlot : Method where
  owner := "A"
  name := "m"
  descriptor := "(J)V"
  isStatic := false
  code := [.label ⟨0⟩, .load .reference 0, .store .reference 4, .constNull, .store .reference 3, .constInt 1, .store .int 3,
    .label ⟨1⟩, .load .int 3, .pop, .label ⟨2⟩, .constNull, .store .reference 3, .load .reference 3, .pop, .constInt 2,
    .store .int 3, .ret none]
  variableTable := [⟨3, "x", "I", none, ⟨1⟩, ⟨2⟩⟩]
  handlerTable := []

/-- The receiver, its copy, the parameter and the four variables of the slot that is used again. The first of these is bound after the
declared one and listed before it. -/
theorem instances_explain_accesses_reused :
    ∃ ls events, reusedSlot.bindLocals [(⟨0⟩, 0), (⟨1⟩, 7), (⟨2⟩, 10)] [] = .ok ls events ∧
      ls.all.map (fun l => (l.name, l.span)) = [("this", ⟨0, 18⟩), ("param1", ⟨0, 18⟩), ("x", ⟨6, 10⟩), ("this", ⟨2, 18⟩),
        ("var3", ⟨4, 5⟩), ("var3_1", ⟨12, 14⟩), ("var3_2", ⟨16, 17⟩)] ∧
      ls.ofSlot 3 = [4, 2, 5, 6] ∧ ls.Explains reusedSlot.code := by
  have hbinds : succeedsWith (fun ls => decide (ls.all.map (fun l => (l.name, l.span)) = [("this", ⟨0, 18⟩), ("param1", ⟨0, 18⟩),
      ("x", ⟨6, 10⟩), ("this", ⟨2, 18⟩), ("var3", ⟨4, 5⟩), ("var3_1", ⟨12, 14⟩), ("var3_2", ⟨16, 17⟩)]) &&
      decide (ls.ofSlot 3 = [4, 2, 5, 6])) (reusedSlot.bindLocals [(⟨0⟩, 0), (⟨1⟩, 7), (⟨2⟩, 10)] []) = true := by decide +kernel
  obtain ⟨ls, events, h, hls⟩ := exists_of_succeedsWith hbinds
  rw [Bool.and_eq_true, decide_eq_true_eq, decide_eq_true_eq] at hls
  exact ⟨ls, events, h, hls.1, hls.2, (instances_explain_accesses _ _ _ _ _ h).1⟩

end CodeLift
