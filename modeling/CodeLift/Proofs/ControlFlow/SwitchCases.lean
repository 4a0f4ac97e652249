import CodeLift.Proofs.Actions
import CodeLift.Proofs.ControlFlow.Switch
import CodeLift.Proofs.Structuring.Parts
import CodeLift.Structuring.Flatten

/-!
# The cases of a switch

The cases of a recognized switch are made of slices of the region that follow each other from the switch to its end. A key selects
the case whose slice starts where the key's target is located. A key whose target is located at the end selects no case, or one
that only breaks out of the switch.
-/

namespace CodeLift

/-- The slices that start at the given places, each of which ends where the next one starts and the last of which ends at `stop`. -/
def slicesFrom (stop : Nat) : List Nat → List Span
  | [] => []
  | start :: rest => ⟨start, rest.head?.getD stop⟩ :: slicesFrom stop rest

theorem start_slicesFrom (stop : Nat) (places : List Nat) : (slicesFrom stop places).map (·.start) = places := by
  induction places with
  | nil => rfl
  | cons start rest ih => simp [slicesFrom, ih]

/-- Slices at ascending places hold a block each and follow each other up to their end. -/
theorem slicesFrom_abut {stop : Nat} {places : List Nat} (hsorted : places.Pairwise (· < ·)) (hlt : ∀ place ∈ places, place < stop) :
    Span.Abut (places.head?.getD stop) (slicesFrom stop places) stop ∧
      ∀ slice ∈ slicesFrom stop places, slice.start < slice.stop := by
  induction places with
  | nil => exact ⟨rfl, by simp [slicesFrom]⟩
  | cons start rest ih =>
    obtain ⟨hfirst, hrest⟩ := List.pairwise_cons.1 hsorted
    obtain ⟨habut, hnonempty⟩ := ih hrest fun place hplace => hlt place (List.mem_cons_of_mem _ hplace)
    have hnext : start < rest.head?.getD stop := by
      rcases rest with _ | ⟨next, rest⟩
      · exact hlt start List.mem_cons_self
      · exact hfirst next List.mem_cons_self
    refine ⟨⟨rfl, Nat.le_of_lt hnext, habut⟩, ?_⟩
    intro slice hslice
    rcases List.mem_cons.1 hslice with rfl | hslice
    · exact hnext
    · exact hnonempty slice hslice

namespace Recognizer

/-- Structures a slice of a region as a case of a switch that ends at `stop`. -/
def caseBody (subject : Subject) (nested : Nested) (r : Region) (stop : Nat) (slice : Span) : Structuring (List Section) :=
  nested.breakable subject (r.sub slice.start slice.stop (r.blockOrFollow? slice.stop)) (r.blockOrFollow? stop)

namespace SwitchLayout

/-- The values of a case are those that lead to a place, and it is the default if the default leads there. -/
def Labels (s : SwitchLayout) (c : Case (List Section)) (place : Nat) : Prop :=
  c.values = s.valuesAt place ∧ c.isDefault = (s.defaultAt == place)

/-- The places of all cases: the places where they start, and the end of the switch if values that lead there need a case. -/
def places (s : SwitchLayout) (stop : Nat) : List Nat := s.starts stop ++ if (s.skippedCases stop).isEmpty then [] else [stop]

end SwitchLayout

/-- The bodies of the cases are structured slice by slice. -/
theorem switchCases_eq_ok {subject : Subject} {nested : Nested} {r : Region} {layout : SwitchLayout} {stop : Nat} {places : List Nat}
    {cases : List (Case (List Section))} {s s' : Session}
    (h : switchCases subject nested r stop (places.map layout.caseAt) s = .ok cases s') :
    (slicesFrom stop places).mapM (caseBody subject nested r stop) s = .ok (cases.map (·.body)) s' ∧
      List.Forall₂ layout.Labels cases places := by
  induction places generalizing cases s with
  | nil =>
    cases h
    exact ⟨rfl, .nil⟩
  | cons start rest ih =>
    rw [List.map_cons, SwitchLayout.caseAt, switchCases, SwitchLayout.map_head?_caseAt] at h
    obtain ⟨region, t, hslice, h⟩ := run_bind_eq_ok.1 h
    obtain ⟨body, u, hbody, h⟩ := run_bind_eq_ok.1 h
    obtain ⟨others, v, hothers, h⟩ := run_bind_eq_ok.1 h
    cases h
    obtain ⟨rfl, rfl⟩ := Region.slice_eq_ok hslice
    obtain ⟨hbodies, hlabels⟩ := ih hothers
    have hfirst : caseBody subject nested r stop ⟨start, rest.head?.getD stop⟩ t = .ok body u := hbody
    refine ⟨?_, .cons ⟨rfl, rfl⟩ hlabels⟩
    rw [slicesFrom, List.mapM_cons, run_bind_of_ok hfirst, run_bind_of_ok hbodies]
    rfl

/-! ## The case a key selects -/

namespace SwitchLayout

variable {s : SwitchLayout} {stop : Nat}

theorem nodup_places (s : SwitchLayout) (stop : Nat) : (s.places stop).Nodup := by
  have hstarts : (s.starts stop).Nodup := (s.starts_pairwise_lt stop).imp Nat.ne_of_lt
  unfold places
  split
  · rwa [List.append_nil]
  · refine List.nodup_append.2 ⟨hstarts, List.nodup_singleton _, ?_⟩
    rintro place hplace _ hstop rfl
    exact Nat.ne_of_lt (lt_of_mem_starts hplace) (List.mem_singleton.1 hstop)

theorem labels_skippedCases (hlast : s.lastCase ≤ stop) :
    List.Forall₂ s.Labels (s.skippedCases stop) (if (s.skippedCases stop).isEmpty then [] else [stop]) := by
  rw [skippedCases_eq (arms_le hlast)]
  split
  · rename_i hneeded
    have hdefault : s.defaultAt ≠ stop := by
      simp only [hasDefault, Bool.and_eq_true, decide_eq_true_eq] at hneeded
      exact Nat.ne_of_lt hneeded.1
    exact .cons ⟨rfl, by simp [hdefault]⟩ .nil
  · exact .nil

/-- Of values that differ, each leads to one place only. -/
theorem mem_valuesAt_iff (hnodup : (s.arms.map (·.1)).Nodup) {key : Int32} {place : Nat} :
    key ∈ s.valuesAt place ↔ (key, s.placeOf key) ∈ s.arms ∧ s.placeOf key = place := by
  rw [mem_valuesAt]
  constructor
  · intro hmem
    have hplace := placeOf_of_mem hnodup hmem
    exact ⟨hplace ▸ hmem, hplace⟩
  · rintro ⟨hmem, rfl⟩
    exact hmem

section

variable {cases : List (Case (List Section))} {places : List Nat}

/-- No two cases have a value in common. -/
theorem nodup_values (hnodup : (s.arms.map (·.1)).Nodup) (hplaces : places.Nodup) (hlabels : List.Forall₂ s.Labels cases places) :
    (cases.flatMap (·.values)).Nodup := by
  have hvalues : cases.flatMap (·.values) = places.flatMap s.valuesAt := by
    induction hlabels with
    | nil => rfl
    | cons hc _ ih => rw [List.flatMap_cons, List.flatMap_cons, hc.1, ih (List.nodup_cons.1 hplaces).2]
  rw [hvalues]
  refine List.nodup_flatMap.2 ⟨fun place _ => ?_, hplaces.imp fun hne key hkey hkey' => ?_⟩
  · exact hnodup.sublist (List.filter_sublist.map _)
  · exact hne (((mem_valuesAt_iff hnodup).1 hkey).2.symm.trans ((mem_valuesAt_iff hnodup).1 hkey').2)

/-- One case at most is the default. -/
theorem countP_isDefault_le (hplaces : places.Nodup) (hlabels : List.Forall₂ s.Labels cases places) :
    cases.countP (·.isDefault) ≤ 1 := by
  have hcount : cases.countP (·.isDefault) = places.count s.defaultAt := by
    induction hlabels with
    | nil => rfl
    | @cons c place _ _ hc _ ih =>
      rw [List.countP_cons, List.count_cons, ih (List.nodup_cons.1 hplaces).2, hc.2, Bool.beq_comm]
  exact hcount ▸ List.nodup_iff_count_le_one.1 hplaces s.defaultAt

/-- Leaving out cases up to the one at a place, by a test that only the case at that place passes. -/
theorem dropWhile_eq_drop {test : Case (List Section) → Bool} {target : Nat} (hplaces : places.Nodup)
    (hlabels : List.Forall₂ s.Labels cases places)
    (htest : ∀ c place, s.Labels c place → (test c = true ↔ place = target)) {i : Nat} (hi : places[i]? = some target) :
    cases.dropWhile (fun c => !test c) = cases.drop i ∧ i < cases.length := by
  induction hlabels generalizing i with
  | nil => simp at hi
  | @cons c place cases places hc _ ih =>
    obtain ⟨hnot, hplaces⟩ := List.nodup_cons.1 hplaces
    rcases i with _ | i
    · simp only [List.getElem?_cons_zero, Option.some.injEq] at hi
      simp [(htest c place hc).2 hi]
    · simp only [List.getElem?_cons_succ] at hi
      have hne : test c = false := by
        rw [Bool.eq_false_iff, Ne, htest c place hc]
        rintro rfl
        exact hnot (List.mem_of_getElem? hi)
      simpa [hne] using ih hplaces hi

theorem dropWhile_values_eq_nil (hnodup : (s.arms.map (·.1)).Nodup) (hlabels : List.Forall₂ s.Labels cases places) {key : Int32}
    (hnone : (key, s.placeOf key) ∈ s.arms → s.placeOf key ∉ places) :
    cases.dropWhile (fun c => !c.values.contains key) = [] := by
  refine List.dropWhile_eq_nil_iff.2 fun c hc => ?_
  obtain ⟨place, hplace, hvalues, _⟩ := exists_mem_of_forall₂ hlabels hc
  rw [hvalues, Bool.not_eq_true', ← Bool.not_eq_true, List.contains_iff_mem, mem_valuesAt_iff hnodup]
  rintro ⟨hmem, rfl⟩
  exact hnone hmem hplace

/-- A key selects the cases from the one at its place on. -/
theorem selectFrom_eq_drop (hnodup : (s.arms.map (·.1)).Nodup) (hplaces : places.Nodup) (hlabels : List.Forall₂ s.Labels cases places)
    {key : Int32} {i : Nat} (hi : places[i]? = some (s.placeOf key)) : selectFrom key cases = cases.drop i := by
  by_cases hmem : (key, s.placeOf key) ∈ s.arms
  · -- Only the case at the place of the key has the key among its values.
    have htest : ∀ c place, s.Labels c place → (c.values.contains key = true ↔ place = s.placeOf key) := by
      intro c place hc
      rw [List.contains_iff_mem, hc.1, mem_valuesAt_iff hnodup]
      simp [hmem, eq_comm]
    obtain ⟨hdrop, hlt⟩ := dropWhile_eq_drop hplaces hlabels htest hi
    unfold selectFrom
    split
    · rename_i hnil
      rw [hdrop, List.drop_eq_nil_iff] at hnil
      omega
    · exact hdrop
  · -- No case has the key, so the default is selected, and the key leads where the default does.
    have hdefault : s.placeOf key = s.defaultAt := (s.placeOf_cases key).resolve_left hmem
    have htest : ∀ c place, s.Labels c place → (c.isDefault = true ↔ place = s.placeOf key) := by
      intro c place hc
      rw [hc.2, beq_iff_eq, hdefault, eq_comm]
    unfold selectFrom
    rw [dropWhile_values_eq_nil hnodup hlabels fun h => absurd h hmem]
    exact (dropWhile_eq_drop hplaces hlabels htest hi).1

/-- A key that leads to no case selects none if there is no default either. -/
theorem selectFrom_eq_nil (hnodup : (s.arms.map (·.1)).Nodup) (hlabels : List.Forall₂ s.Labels cases places) {key : Int32}
    (hplace : s.placeOf key ∉ places) (hdefault : s.defaultAt ∉ places) : selectFrom key cases = [] := by
  unfold selectFrom
  rw [dropWhile_values_eq_nil hnodup hlabels fun _ => hplace]
  refine List.dropWhile_eq_nil_iff.2 fun c hc => ?_
  obtain ⟨place, hmem, _, hisDefault⟩ := exists_mem_of_forall₂ hlabels hc
  have hne : s.defaultAt ≠ place := by
    rintro rfl
    exact hdefault hmem
  simp [hisDefault, hne]

end

section

variable {cases : List (Case (List Section))}

/-- The cases with slices of their own, and the one for the values that lead to the end. -/
theorem labels_places (hlast : s.lastCase ≤ stop) (hlabels : List.Forall₂ s.Labels cases (s.starts stop)) :
    List.Forall₂ s.Labels (cases ++ s.skippedCases stop) (s.places stop) :=
  List.rel_append hlabels (labels_skippedCases hlast)

/-- A key that leads to a place before the end of the switch selects the cases from the one on whose slice starts there. -/
theorem selectFrom_slice (hnodup : (s.arms.map (·.1)).Nodup) (hlabels : List.Forall₂ s.Labels cases (s.starts stop))
    (hlast : s.lastCase ≤ stop) {key : Int32} (hlt : s.placeOf key < stop) :
    ∃ (i : Nat) (slice : Span), (slicesFrom stop (s.starts stop))[i]? = some slice ∧
      slice.start = s.placeOf key ∧ i < cases.length ∧
        selectFrom key (cases ++ s.skippedCases stop) = (cases ++ s.skippedCases stop).drop i := by
  obtain ⟨i, hi⟩ := List.mem_iff_getElem?.1 (placeOf_mem_starts hlt)
  have hbound := (List.getElem?_eq_some_iff.1 hi).1
  have hslice := congrArg (·[i]?) (start_slicesFrom stop (s.starts stop))
  rw [hi, List.getElem?_map] at hslice
  obtain ⟨slice, hslice, hstart⟩ := Option.map_eq_some_iff.1 hslice
  have hplace : (s.places stop)[i]? = some (s.placeOf key) := by
    rw [places, List.getElem?_append_left hbound, hi]
  exact ⟨i, slice, hslice, hstart, hlabels.length_eq ▸ hbound,
    selectFrom_eq_drop hnodup (s.nodup_places stop) (labels_places hlast hlabels) hplace⟩

/-- A key that leads to the end of the switch selects no case, or the one that is there for such keys. -/
theorem selectFrom_end (hnodup : (s.arms.map (·.1)).Nodup) (hlabels : List.Forall₂ s.Labels cases (s.starts stop))
    (hlast : s.lastCase ≤ stop) {key : Int32} (hkey : s.placeOf key = stop) :
    selectFrom key (cases ++ s.skippedCases stop) = [] ∨
      ∃ values, selectFrom key (cases ++ s.skippedCases stop) = [⟨values, false, [.breakOut 0 none]⟩] := by
  by_cases hneeded : s.defaultAt < stop ∧ s.valuesAt stop ≠ []
  · have hskipped : s.skippedCases stop = [⟨s.valuesAt stop, false, [.breakOut 0 none]⟩] := by
      simp [skippedCases_eq (arms_le hlast), hasDefault, hneeded]
    have hi : (s.places stop)[cases.length]? = some (s.placeOf key) := by
      simp [places, hskipped, hlabels.length_eq, hkey]
    right
    rw [selectFrom_eq_drop hnodup (s.nodup_places stop) (labels_places hlast hlabels) hi, List.drop_left, hskipped]
    exact ⟨_, rfl⟩
  · left
    have hskipped : s.skippedCases stop = [] := by
      simpa [skippedCases_eq (arms_le hlast), hasDefault] using hneeded
    have hnot : stop ∉ s.places stop := by
      rw [places, hskipped]
      simpa using fun hmem => Nat.lt_irrefl _ (lt_of_mem_starts hmem)
    refine selectFrom_eq_nil hnodup (labels_places hlast hlabels) (hkey ▸ hnot) ?_
    -- The key leads to the end by its own arm only if the default leads there too.
    have hdefault : s.defaultAt = stop := by
      rcases s.placeOf_cases key with hmem | hdefault
      · rw [hkey] at hmem
        have hvalues : s.valuesAt stop ≠ [] := List.ne_nil_of_mem (mem_valuesAt.2 hmem)
        have hle := (defaultAt_le_lastCase (s := s)).trans hlast
        exact Nat.le_antisymm hle (Nat.le_of_not_lt fun hlt => hneeded ⟨hlt, hvalues⟩)
      · rw [← hdefault, hkey]
    exact hdefault ▸ hnot

end

theorem firstCase_le_placeOf (s : SwitchLayout) (key : Int32) : s.firstCase ≤ s.placeOf key := by
  rcases s.placeOf_cases key with hmem | hdefault
  · exact firstCase_le hmem
  · exact hdefault ▸ firstCase_le_defaultAt

end SwitchLayout

/-! ## Recognized switches -/

/-- How a switch became a section: slices of the region became its cases, and each key selects the case made of the slice that
starts where the key's target is located. -/
structure SwitchDispatch (subject : Subject) (nested : Nested) (r : Region) (index : Nat) (key : Span)
    (arms : List (Int32 × BlockId)) (otherwise : BlockId) (s : Session) (found : Match) (s' : Session) (slices : List Span)
    (cases skipped : List (Case (List Section))) : Prop where
  sections : found.sections = [.switch key (cases ++ skipped)]
  resume_le : found.resume ≤ r.length
  /-- The slices follow each other from the switch to its end. -/
  tile : Span.Abut (index + 1) slices found.resume
  nonempty : ∀ slice ∈ slices, slice.start < slice.stop
  bodies : slices.mapM (caseBody subject nested r found.resume) s = .ok (cases.map (·.body)) s'
  skips : skipped = [] ∨ ∃ values, skipped = [⟨values, false, [.breakOut 0 none]⟩]
  oneDefault : (cases ++ skipped).countP (·.isDefault) ≤ 1
  distinct : ((cases ++ skipped).flatMap (·.values)).Nodup
  selects : ∀ value, ∃ place, r.locate? subject.graph ((arms.lookup value).getD otherwise) = some place ∧
    index < place ∧ place ≤ found.resume ∧
    (place < found.resume → ∃ (i : Nat) (slice : Span), slices[i]? = some slice ∧ slice.start = place ∧ i < cases.length ∧
      selectFrom value (cases ++ skipped) = (cases ++ skipped).drop i) ∧
    (place = found.resume → selectFrom value (cases ++ skipped) = [] ∨
      ∃ values, selectFrom value (cases ++ skipped) = [⟨values, false, [.breakOut 0 none]⟩])

/-- A recognized switch whose values differ sends each key to the slice that its target starts. -/
theorem switch_keys_select_slices (subject : Subject) (nested : Nested) (r : Region) (index : Nat) (id : BlockId) (key : Span)
    (arms : List (Int32 × BlockId)) (otherwise : BlockId) (s s' : Session) (found : Match) (hid : r.blocks[index]? = some id)
    (hblock : subject.graph.block? id = some ⟨key, .switch arms otherwise⟩) (hdistinct : (arms.map (·.1)).Nodup)
    (hfound : switch subject nested r index s = .ok (some found) s') :
    ∃ slices cases skipped, SwitchDispatch subject nested r index key arms otherwise s found s' slices cases skipped := by
  obtain ⟨layout, t, hsearch, hfound⟩ := run_bind_eq_ok.1 hfound
  obtain ⟨hlayout, rfl⟩ := Structuring.ofExcept_eq_ok hsearch
  rcases layout with _ | ⟨key', layout, stop⟩
  · cases hfound
  · dsimp only at hfound
    rw [SwitchLayout.labels_eq (switchLayout_arms_le hlayout)] at hfound
    obtain ⟨cases, u, hcases, hfound⟩ := run_bind_eq_ok.1 hfound
    cases hfound
    obtain ⟨id', arms', otherwise', hid', hblock', hlocates, hfirst, hlast, hstop⟩ := switchLayout_cases hlayout
    cases hid.symm.trans hid'
    cases hblock.symm.trans hblock'
    have hnodup : (layout.arms.map (·.1)).Nodup := map_fst_eq_of_forall₂ hlocates.arms ▸ hdistinct
    obtain ⟨hbodies, hlabels⟩ := switchCases_eq_ok hcases
    have hall := SwitchLayout.labels_places hlast hlabels
    have hplaces := layout.nodup_places stop
    obtain ⟨habut, hnonempty⟩ := slicesFrom_abut (layout.starts_pairwise_lt stop)
      fun place => SwitchLayout.lt_of_mem_starts
    rw [head?_starts (SwitchLayout.firstCase_le_lastCase.trans hlast), hfirst] at habut
    refine ⟨_, cases, _, rfl, hstop, habut, hnonempty, hbodies, ?_, SwitchLayout.countP_isDefault_le hplaces hall,
      SwitchLayout.nodup_values hnodup hplaces hall, ?_⟩
    · unfold SwitchLayout.skippedCases
      split
      · exact .inr ⟨_, rfl⟩
      · exact .inl rfl
    · intro value
      have hafter : index < layout.placeOf value := by
        have := layout.firstCase_le_placeOf value
        omega
      exact ⟨layout.placeOf value, hlocates.placeOf value, hafter, (layout.placeOf_le_lastCase value).trans hlast,
        SwitchLayout.selectFrom_slice hnodup hlabels hlast, SwitchLayout.selectFrom_end hnodup hlabels hlast⟩

/-- A switch with a default that its first case shares, and an arm that leads to the end, where the first case jumps. -/
def sharedDefault : Subject where
  method :=
    { owner := "A", name := "m", descriptor := "(I)V", isStatic := true
      code := [.load .int 0, .switch ⟨0⟩ [(1, ⟨0⟩), (2, ⟨1⟩), (3, ⟨2⟩)], .label ⟨0⟩, .goto ⟨2⟩, .label ⟨1⟩, .increment 0 1, .label ⟨2⟩,
        .ret none]
      variableTable := []
      handlerTable := [] }
  labels := [(⟨0⟩, 2), (⟨1⟩, 4), (⟨2⟩, 6)]
  locals := Locals.empty.add ⟨0, "param0", "I", none, ⟨0, 8⟩, .parameter⟩
  graph :=
    { blocks := #[⟨⟨0, 2⟩, .switch [(1, 1), (2, 2), (3, 3)] 1⟩, ⟨⟨2, 4⟩, .goto 3⟩, ⟨⟨4, 6⟩, .body (some 3)⟩, ⟨⟨6, 8⟩, .exit⟩]
      codeBlocks := 4
      order := [0, 1, 2, 3] }
  settings := .standard

/-- The two cases are made of one block each, and a third one is there for the value that leads to the end. -/
theorem switch_keys_select_slices_shared :
    ∃ found s', switch sharedDefault (flattenWithin sharedDefault all 2) ⟨[0, 1, 2, 3], none⟩ 0 (.start []) = .ok (some found) s' ∧
      found.resume = 3 ∧ ∃ slices cases skipped, SwitchDispatch sharedDefault (flattenWithin sharedDefault all 2)
        ⟨[0, 1, 2, 3], none⟩ 0 ⟨0, 2⟩ [(1, 1), (2, 2), (3, 3)] 1 (.start []) found s' slices cases skipped := by
  have hfinds : succeedsWith (fun found => (found.map (·.resume)) == some 3)
      (switch sharedDefault (flattenWithin sharedDefault all 2) ⟨[0, 1, 2, 3], none⟩ 0 (.start [])) = true := by decide +kernel
  obtain ⟨found, s', hfound, hresume⟩ := exists_of_succeedsWith hfinds
  rcases found with _ | found
  · cases hresume
  · exact ⟨found, s', hfound, by simpa using hresume, switch_keys_select_slices _ _ _ _ 0 _ _ _ _ _ _ rfl rfl (by decide) hfound⟩

end Recognizer

end CodeLift
