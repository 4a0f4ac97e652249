import CodeLift.Proofs.ControlFlow.Constructs
import CodeLift.Proofs.Structuring.Taken

/-!
# Switches run as control walks

A key leads a switch to a place of its region. The case that the key selects is the one that starts at that place, if one does; from
there control falls through the cases that follow it, up to the end of the switch.
-/

namespace CodeLift

/-! ## Where a key leads -/

namespace Recognizer.SwitchLayout

variable {g : Graph} {r : Region} {index : Nat} {s : SwitchLayout} {stop : Nat}

/-- The place a key leads to. -/
def placeOf (s : SwitchLayout) (key : Int32) : Nat := (s.arms.lookup key).getD s.defaultAt

theorem mem_valuesAt {key : Int32} {place : Nat} : key ∈ s.valuesAt place ↔ (key, place) ∈ s.arms := by
  simp [valuesAt, valuesTo]

/-- The target of a key is located where the layout says. -/
theorem Locates.placeOf {arms : List (Int32 × BlockId)} {otherwise : BlockId} (h : s.Locates g r index arms otherwise)
    (key : Int32) : r.locate? g ((arms.lookup key).getD otherwise) = some (s.placeOf key) := by
  obtain ⟨hforall, hdefault, _⟩ := h
  unfold SwitchLayout.placeOf
  generalize s.arms = places at hforall
  induction hforall with
  | nil => exact hdefault
  | @cons arm place arms places hp _ ih =>
    obtain ⟨value, target⟩ := arm
    obtain ⟨value', at'⟩ := place
    obtain ⟨rfl, hloc, _⟩ := hp
    rw [List.lookup_cons, List.lookup_cons]
    cases key == value' with
    | true => exact hloc
    | false => exact ih

theorem placeOf_of_mem (h : (s.arms.map (·.1)).Nodup) {key : Int32} {place : Nat} (hmem : (key, place) ∈ s.arms) :
    s.placeOf key = place := by
  rw [placeOf, (lookup_eq_some_iff h).2 hmem, Option.getD_some]

/-- A key without an arm leads to the default. -/
theorem placeOf_cases (s : SwitchLayout) (key : Int32) : (key, s.placeOf key) ∈ s.arms ∨ s.placeOf key = s.defaultAt := by
  unfold placeOf
  cases hlookup : s.arms.lookup key with
  | none => exact .inr rfl
  | some place =>
    obtain ⟨l₁, l₂, heq, _⟩ := List.lookup_eq_some_iff.1 hlookup
    rw [heq]
    exact .inl (List.mem_append_right _ List.mem_cons_self)

theorem mem_starts {place : Nat} :
    place ∈ s.starts stop ↔ place < stop ∧ (s.defaultAt = place ∨ ∃ key, (key, place) ∈ s.arms) := by
  simp [starts]

theorem placeOf_le_lastCase (s : SwitchLayout) (key : Int32) : s.placeOf key ≤ s.lastCase := by
  rcases s.placeOf_cases key with hmem | hdefault
  · exact place_le_lastCase hmem
  · exact hdefault ▸ defaultAt_le_lastCase

/-- The place a key leads to starts a case, or it is the end of the switch. -/
theorem placeOf_mem_starts {key : Int32} (hlt : s.placeOf key < stop) : s.placeOf key ∈ s.starts stop := by
  refine mem_starts.2 ⟨hlt, ?_⟩
  rcases s.placeOf_cases key with hmem | hdefault
  · exact .inr ⟨key, hmem⟩
  · exact .inl hdefault.symm

theorem head?_dropWhile_ne (l : List Nat) (place : Nat) :
    (l.dropWhile (· != place)).head? = if place ∈ l then some place else none := by
  induction l with
  | nil => rfl
  | cons a l ih =>
    rw [List.dropWhile_cons]
    by_cases ha : a = place
    · subst ha
      simp
    · have hne : (a != place) = true := bne_iff_ne.2 ha
      rw [if_pos hne, ih]
      simp [Ne.symm ha]

end Recognizer.SwitchLayout

/-! ## Falling through cases -/

section

variable {c : Run.Context} {subject : Subject} {around : List Breakable} {r : Region} {s : Recognizer.SwitchLayout} {stop : Nat}

theorem runCases_append {code : List Insn} {oracle : Oracle} {rounds : Nat} (xs ys : List (Case (List Section))) :
    Section.runCases code oracle rounds (xs ++ ys) =
      Section.runCases code oracle rounds xs ++ Section.runCases code oracle rounds ys := by
  induction xs with
  | nil => simp [Section.runCases]
  | cons x xs ih =>
    obtain ⟨values, isDefault, body⟩ := x
    simp only [List.cons_append, Section.runCases, ih]

/-- From the first of some cases control falls through them all, and through what comes after them. -/
theorem CasesTaken.simulates (hset : subject.settings.commentOnError = false) (hfalls : Falls c.graph r) {places : List Nat}
    {cases : List (Case (List Section))} (hc : CasesTaken subject (Preserved c) around r s stop places cases)
    {tail : List (Case (Nat → Run))}
    (htail : Simulates c (⟨r.blockOrFollow? stop, none⟩ :: around) (r.blockOrFollow? stop) (r.blockOrFollow? stop) False
      (fallThrough tail)) :
    Simulates c (⟨r.blockOrFollow? stop, none⟩ :: around) (r.blockOrFollow? (places.head?.getD stop)) (r.blockOrFollow? stop) False
      (fallThrough (Section.runCases c.code c.oracle c.rounds cases ++ tail)) := by
  induction hc with
  | nil =>
    rw [Section.runCases]
    exact htail
  | @cons start rest body cases hstart hstop hbody _ ih =>
    have hone := (hbody.of_strict hset).sub hfalls hstart hstop (.inl rfl)
    rw [Section.runCases]
    exact (hone.andThen ih).weaken False.elim

/-- Leaving out cases at the front, by a test that looks at where they start only. -/
theorem CasesTaken.dropWhile {P : RegionProperty} {places : List Nat} {cases : List (Case (List Section))}
    {test : Case (Nat → Run) → Bool} {skips : Nat → Bool}
    (htest : ∀ place body, test ⟨s.valuesAt place, s.defaultAt == place, body⟩ = skips place)
    (hc : CasesTaken subject P around r s stop places cases) :
    ∃ kept, CasesTaken subject P around r s stop (places.dropWhile skips) kept ∧
      (Section.runCases c.code c.oracle c.rounds cases).dropWhile test = Section.runCases c.code c.oracle c.rounds kept := by
  induction hc with
  | nil => exact ⟨[], .nil, by simp [Section.runCases]⟩
  | @cons start rest body cases hstart hstop hbody hrest ih =>
    simp only [Section.runCases, List.dropWhile_cons, htest]
    split
    · exact ih
    · exact ⟨_, .cons hstart hstop hbody hrest, by rw [Section.runCases]⟩

/-- The case for values that lead to the end of the switch breaks out of it. -/
theorem skippedCases_simulates {exit : Option BlockId} {tail : List (Case (Nat → Run))}
    (htail : tail <:+ Section.runCases c.code c.oracle c.rounds (s.skippedCases stop)) :
    Simulates c (⟨exit, none⟩ :: around) exit exit False (fallThrough tail) := by
  have hnil : Simulates c (⟨exit, none⟩ :: around) exit exit False (fallThrough []) := .nil
  unfold Recognizer.SwitchLayout.skippedCases at htail
  split at htail
  · rw [Section.runCases, Section.runCases] at htail
    rcases List.suffix_cons_iff.1 htail with rfl | htail
    · have hbreak : Section.runAll c.code c.oracle c.rounds [.breakOut 0 none] = fun clock => ⟨[], clock, .broke 0⟩ := by
        funext clock
        rw [Section.runAll_singleton, Section.run]
      rw [hbreak]
      exact .broke
    · rw [List.suffix_nil.1 htail]
      exact hnil
  · rw [Section.runCases] at htail
    rw [List.suffix_nil.1 htail]
    exact hnil

/-- Cases from the one that starts at a place on, or none if the place is the end of the switch. -/
theorem CasesTaken.dropWhile_simulates (hset : subject.settings.commentOnError = false) (hfalls : Falls c.graph r)
    {cases : List (Case (List Section))} (hc : CasesTaken subject (Preserved c) around r s stop (s.starts stop) cases) {place : Nat}
    (hle : place ≤ stop) (hmem : place < stop → place ∈ s.starts stop) {test : Case (Nat → Run) → Bool}
    (htest : ∀ other body, test ⟨s.valuesAt other, s.defaultAt == other, body⟩ = (other != place)) :
    Simulates c (⟨r.blockOrFollow? stop, none⟩ :: around) (r.blockOrFollow? place) (r.blockOrFollow? stop) False
      (fallThrough ((Section.runCases c.code c.oracle c.rounds (cases ++ s.skippedCases stop)).dropWhile test)) := by
  obtain ⟨kept, hkept, hdrop⟩ := hc.dropWhile (c := c) htest
  have hplace : ((s.starts stop).dropWhile (· != place)).head?.getD stop = place := by
    rw [Recognizer.SwitchLayout.head?_dropWhile_ne]
    split
    · rfl
    · rename_i hnot
      exact Nat.le_antisymm (Nat.le_of_not_lt fun hlt => hnot (hmem hlt)) hle
  have hsim : ∀ tail, tail <:+ Section.runCases c.code c.oracle c.rounds (s.skippedCases stop) →
      Simulates c (⟨r.blockOrFollow? stop, none⟩ :: around) (r.blockOrFollow? place) (r.blockOrFollow? stop) False
        (fallThrough (Section.runCases c.code c.oracle c.rounds kept ++ tail)) := by
    intro tail htail
    have hsim := hkept.simulates hset hfalls (skippedCases_simulates htail)
    rw [hplace] at hsim
    exact hsim
  rw [runCases_append, List.dropWhile_append, hdrop]
  split
  · rename_i hempty
    rw [List.isEmpty_iff.1 hempty] at hsim
    exact hsim _ (List.dropWhile_suffix _)
  · exact hsim _ (List.suffix_refl _)

/-- The values of the cases are those that lead to their places. -/
theorem CasesTaken.values {P : RegionProperty} {places : List Nat} {cases : List (Case (List Section))}
    (hc : CasesTaken subject P around r s stop places cases) :
    (Section.runCases c.code c.oracle c.rounds cases).map (·.values) = places.map s.valuesAt := by
  induction hc with
  | nil => simp [Section.runCases]
  | cons _ _ _ _ ih => rw [Section.runCases, List.map_cons, List.map_cons, ih]

theorem values_skippedCases (hlast : s.lastCase ≤ stop) :
    (Section.runCases c.code c.oracle c.rounds (s.skippedCases stop)).map (·.values) =
      if s.defaultAt < stop ∧ s.valuesAt stop ≠ [] then [s.valuesAt stop] else [] := by
  rw [Recognizer.SwitchLayout.skippedCases_eq (Recognizer.SwitchLayout.arms_le hlast)]
  by_cases h : s.defaultAt < stop ∧ s.valuesAt stop ≠ []
  · rw [if_pos h, if_pos (by simpa [Recognizer.SwitchLayout.hasDefault] using h)]
    simp [Section.runCases]
  · rw [if_neg h, if_neg (by simpa [Recognizer.SwitchLayout.hasDefault] using h)]
    simp [Section.runCases]

theorem CasesTaken.exists_place {P : RegionProperty} (hlast : s.lastCase ≤ stop) {places : List Nat}
    {cases : List (Case (List Section))} (hc : CasesTaken subject P around r s stop places cases) {selected : Case (Nat → Run)}
    (hmem : selected ∈ Section.runCases c.code c.oracle c.rounds (cases ++ s.skippedCases stop)) :
    ∃ place, selected.values = s.valuesAt place := by
  have hvalues := List.mem_map_of_mem (f := (·.values)) hmem
  rw [runCases_append, List.map_append, hc.values, values_skippedCases hlast, List.mem_append] at hvalues
  rcases hvalues with hvalues | hvalues
  · obtain ⟨place, _, hplace⟩ := List.mem_map.1 hvalues
    exact ⟨place, hplace.symm⟩
  · split at hvalues
    · exact ⟨stop, List.mem_singleton.1 hvalues⟩
    · cases hvalues

/-- If no case takes a key, the key leads where the default does. -/
theorem CasesTaken.placeOf_eq_defaultAt {P : RegionProperty} (hlast : s.lastCase ≤ stop) {cases : List (Case (List Section))}
    (hc : CasesTaken subject P around r s stop (s.starts stop) cases) {key : Int32}
    (hnone : ∀ selected ∈ Section.runCases c.code c.oracle c.rounds (cases ++ s.skippedCases stop), key ∉ selected.values) :
    s.placeOf key = s.defaultAt := by
  rcases s.placeOf_cases key with hmem | hdefault
  · have hvalues := Recognizer.SwitchLayout.mem_valuesAt.2 hmem
    have hnot : s.valuesAt (s.placeOf key) ∉
        (Section.runCases c.code c.oracle c.rounds (cases ++ s.skippedCases stop)).map (·.values) := by
      intro hin
      obtain ⟨selected, hselected, heq⟩ := List.mem_map.1 hin
      exact hnone selected hselected (heq ▸ hvalues)
    rw [runCases_append, List.map_append, hc.values, values_skippedCases hlast, List.mem_append, not_or] at hnot
    have hstop : s.placeOf key = stop := by
      refine Nat.le_antisymm ((s.placeOf_le_lastCase key).trans hlast) (Nat.le_of_not_lt fun hlt => hnot.1 ?_)
      exact List.mem_map_of_mem (Recognizer.SwitchLayout.placeOf_mem_starts hlt)
    rw [hstop] at hnot hvalues ⊢
    refine Nat.le_antisymm (Nat.le_of_not_lt fun hlt => hnot.2 ?_) (Recognizer.SwitchLayout.defaultAt_le_lastCase.trans hlast)
    rw [if_pos ⟨hlt, List.ne_nil_of_mem hvalues⟩]
    exact List.mem_singleton.2 rfl
  · exact hdefault

/-- The cases that a key selects run as control walks from the place that the key leads to. -/
theorem CasesTaken.select_simulates (hset : subject.settings.commentOnError = false) (hfalls : Falls c.graph r)
    (hnodup : (s.arms.map (·.1)).Nodup) (hlast : s.lastCase ≤ stop) {cases : List (Case (List Section))}
    (hc : CasesTaken subject (Preserved c) around r s stop (s.starts stop) cases) (key : Int32) :
    Simulates c (⟨r.blockOrFollow? stop, none⟩ :: around) (r.blockOrFollow? (s.placeOf key)) (r.blockOrFollow? stop) False
      (fallThrough (selectFrom key (Section.runCases c.code c.oracle c.rounds (cases ++ s.skippedCases stop)))) := by
  have hle := (s.placeOf_le_lastCase key).trans hlast
  unfold selectFrom
  split
  · rename_i hnone
    rw [List.dropWhile_eq_nil_iff] at hnone
    have hdefault := hc.placeOf_eq_defaultAt hlast fun selected hselected => by simpa using hnone selected hselected
    refine hc.dropWhile_simulates hset hfalls hle Recognizer.SwitchLayout.placeOf_mem_starts fun other body => ?_
    rw [hdefault, bne, Bool.beq_comm]
  · rename_i hsome
    -- Some case takes the key, so it has an arm, and only the case at its place takes it.
    have hmem : (key, s.placeOf key) ∈ s.arms := by
      by_contra hnot
      refine hsome (List.dropWhile_eq_nil_iff.2 fun selected hselected => ?_)
      obtain ⟨place, hplace⟩ := hc.exists_place hlast hselected
      have hkey : key ∉ selected.values := fun hkey => by
        have harm := Recognizer.SwitchLayout.mem_valuesAt.1 (hplace ▸ hkey)
        exact hnot (Recognizer.SwitchLayout.placeOf_of_mem hnodup harm ▸ harm)
      simpa using hkey
    refine hc.dropWhile_simulates hset hfalls hle Recognizer.SwitchLayout.placeOf_mem_starts fun other body => ?_
    have hiff : key ∈ s.valuesAt other ↔ other = s.placeOf key := by
      rw [Recognizer.SwitchLayout.mem_valuesAt]
      exact ⟨fun h => (Recognizer.SwitchLayout.placeOf_of_mem hnodup h).symm, fun h => h ▸ hmem⟩
    refine congrArg Bool.not (Bool.eq_iff_iff.2 ?_)
    rw [List.contains_iff_mem, beq_iff_eq, hiff]

/-- A switch leads to the cases that its key selects. -/
theorem Simulates.switch {start exit : Option BlockId} {trace : List Nat} {target : Int32 → Option BlockId}
    {cases : Int32 → Nat → Run}
    (hwalk : ∀ clock, c.graph.Walks c.code c.oracle 1 ⟨start, clock⟩ trace ⟨target (c.oracle clock).key, clock + 1⟩)
    (h : ∀ key, Simulates c (⟨exit, none⟩ :: around) (target key) exit False (cases key)) :
    Simulates c around start exit True fun clock => ((cases (c.oracle clock).key (clock + 1)).leaveSwitch).after trace := by
  intro clock
  obtain ⟨n, place, hrest, hlands, _⟩ := (h (c.oracle clock).key).leaveSwitch (clock + 1)
  exact ⟨1 + n, place, (hwalk clock).trans hrest, (hlands.add 1).mono (Nat.le_add_right _ _),
    fun _ _ => Nat.add_pos_left Nat.one_pos n⟩

theorem switch_simulates (hp : Plain c.graph c.code) (hset : subject.settings.commentOnError = false) (hfalls : Falls c.graph r)
    {index : Nat} {key : Span} {cases : List (Case (List Section))}
    (hlayout : Recognizer.switchLayout c.graph r index = .ok (some (key, s, stop)))
    (hcases : CasesTaken subject (Preserved c) around r s stop (s.starts stop) cases) :
    Simulates c around (r.blockOrFollow? index) (r.blockOrFollow? stop) True (Section.runAll c.code c.oracle c.rounds
      [.switch key (cases ++ s.skippedCases stop)]) := by
  obtain ⟨id, arms, otherwise, hid, hblock, hlocates, _, hlast, _⟩ := Recognizer.switchLayout_cases hlayout
  have hnodup : (s.arms.map (·.1)).Nodup := map_fst_eq_of_forall₂ hlocates.arms ▸ hp.arms id key arms otherwise hblock
  have hrun : Section.runAll c.code c.oracle c.rounds [.switch key (cases ++ s.skippedCases stop)] = fun clock =>
      ((fallThrough (selectFrom (c.oracle clock).key (Section.runCases c.code c.oracle c.rounds
        (cases ++ s.skippedCases stop))) (clock + 1)).leaveSwitch).after (executed c.code key) := by
    funext clock
    rw [Section.runAll_singleton, Section.run]
  have hwalk : ∀ clock, c.graph.Walks c.code c.oracle 1 ⟨some id, clock⟩ (executed c.code key)
      ⟨r.blockOrFollow? (s.placeOf (c.oracle clock).key), clock + 1⟩ := by
    intro clock
    rw [hp.unmarked.blockOrFollow?_of_locate? (hlocates.placeOf _)]
    exact .block hblock clock
  rw [hrun, Region.blockOrFollow?_of_getElem? hid]
  exact .switch hwalk (hcases.select_simulates hset hfalls hnodup hlast)

end

end CodeLift
