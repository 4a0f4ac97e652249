import CodeLift.Proofs.Lists
import CodeLift.Recognizer.Switch
import Mathlib.Data.List.Induction

/-!
# The labels of cases

The cases of a switch are kept in the order of their places while the arms are gone through one by one. In the end there is a case
at each place that an arm or the default leads to, before the end of the switch, and its labels are those that lead there
(`SwitchLayout.labels_eq`).
-/

namespace CodeLift.Recognizer

/-! ## Cases in the order of their places -/

namespace CaseLabels

/-- The cases at places from `start` on, `n` of them, with the labels that a function gives. -/
def listed (f : Nat → Option CaseLabels) (start n : Nat) : List (Nat × CaseLabels) :=
  (List.range' start n).filterMap fun place => (f place).map (place, ·)

/-- The first place comes first. -/
theorem listed_succ (f : Nat → Option CaseLabels) (start n : Nat) :
    listed f start (n + 1) = ((f start).map (start, ·)).toList ++ listed f (start + 1) n := by
  rw [listed, List.range'_succ, List.filterMap_cons]
  cases f start with
  | none => rfl
  | some labels => rfl

theorem listed_congr {f f' : Nat → Option CaseLabels} {start n : Nat}
    (h : ∀ place, start ≤ place → place < start + n → f place = f' place) :
    listed f start n = listed f' start n := by
  refine List.filterMap_congr fun place hplace => ?_
  obtain ⟨hle, hlt⟩ := List.mem_range'_1.1 hplace
  rw [h place hle hlt]

/-- A case before all others becomes the first. -/
theorem change_of_lt {place start n : Nat} (change' : CaseLabels → CaseLabels) (f : Nat → Option CaseLabels) (h : place < start) :
    change place change' (listed f start n) = (place, change' ⟨[], false⟩) :: listed f start n := by
  cases hcases : listed f start n with
  | nil => rfl
  | cons first rest =>
    have hmem : first ∈ listed f start n := hcases ▸ List.mem_cons_self
    obtain ⟨place', hplace', hfirst⟩ := List.mem_filterMap.1 hmem
    obtain ⟨labels, _, rfl⟩ := Option.map_eq_some_iff.1 hfirst
    rw [change, if_pos (Nat.lt_of_lt_of_le h (List.mem_range'_1.1 hplace').1)]

/-- Changing the labels of a case changes what the function gives for its place. -/
theorem change_listed (change' : CaseLabels → CaseLabels) (f : Nat → Option CaseLabels) {place start n : Nat}
    (hle : start ≤ place) (hlt : place < start + n) :
    change place change' (listed f start n) =
      listed (Function.update f place (some (change' ((f place).getD ⟨[], false⟩)))) start n := by
  induction n generalizing start with
  | zero => omega
  | succ n ih =>
    rw [listed_succ, listed_succ]
    rcases Nat.lt_or_eq_of_le hle with hlt' | rfl
    · rw [Function.update_of_ne (Nat.ne_of_lt hlt'), ← ih hlt' (by omega)]
      cases f start with
      | none => rfl
      | some labels =>
        simp only [Option.map_some, Option.toList_some, List.singleton_append]
        rw [change, if_neg (Nat.not_lt.2 hle), if_neg (Nat.ne_of_gt hlt')]
    · have hrest : listed (Function.update f start (some (change' ((f start).getD ⟨[], false⟩)))) (start + 1) n =
          listed f (start + 1) n :=
        listed_congr fun place hplace _ => Function.update_of_ne (Nat.ne_of_gt hplace) _ _
      rw [Function.update_self, hrest]
      cases f start with
      | none =>
        simp only [Option.map_none, Option.toList_none, List.nil_append, Option.map_some, Option.toList_some, List.singleton_append]
        exact change_of_lt change' f (Nat.lt_succ_self start)
      | some labels =>
        simp only [Option.map_some, Option.toList_some, List.singleton_append]
        rw [change, if_neg (Nat.lt_irrefl start), if_pos rfl]
        rfl

end CaseLabels

namespace SwitchLayout

variable {s : SwitchLayout} {stop : Nat}

/-! ## What the labels are -/

/-- The values of arms that lead to a place. -/
def valuesTo (arms : List (Int32 × Nat)) (place : Nat) : List Int32 := (arms.filter (·.2 == place)).map (·.1)

/-- The values whose arm leads to a place. -/
def valuesAt (s : SwitchLayout) (place : Nat) : List Int32 := valuesTo s.arms place

/-- The case at a place with its labels. -/
def caseAt (s : SwitchLayout) (place : Nat) : Nat × CaseLabels := (place, ⟨s.valuesAt place, s.defaultAt == place⟩)

/-- Cases start at their places. -/
theorem map_head?_caseAt (s : SwitchLayout) (starts : List Nat) : (starts.map s.caseAt).head?.map (·.1) = starts.head? := by
  cases starts with
  | nil => rfl
  | cons start rest => rfl

/-- The places where cases start, ascending, for a switch that ends at `stop`. -/
def starts (s : SwitchLayout) (stop : Nat) : List Nat :=
  (List.range stop).filter fun place => s.defaultAt == place || s.arms.any (·.2 == place)

theorem starts_pairwise_lt (s : SwitchLayout) (stop : Nat) : (s.starts stop).Pairwise (· < ·) := List.pairwise_lt_range.filter _

theorem lt_of_mem_starts {place : Nat} (h : place ∈ s.starts stop) : place < stop := List.mem_range.1 (List.mem_filter.1 h).1

/-- The labels that arms give a place. -/
def armLabels (arms : List (Int32 × Nat)) (place : Nat) : Option CaseLabels :=
  if arms.any (·.2 == place) then some ⟨valuesTo arms place, false⟩ else none

/-- Arms give a place the values that lead there, and no other label. -/
theorem getD_armLabels (arms : List (Int32 × Nat)) (place : Nat) :
    (armLabels arms place).getD ⟨[], false⟩ = ⟨valuesTo arms place, false⟩ := by
  unfold armLabels
  split
  · rfl
  · rename_i hany
    have hnone : arms.filter (·.2 == place) = [] :=
      List.filter_eq_nil_iff.2 fun arm harm heq => hany (List.any_eq_true.2 ⟨arm, harm, heq⟩)
    rw [valuesTo, hnone]
    rfl

/-- One more arm adds its value at the place to which it leads. -/
theorem valuesTo_concat (arms : List (Int32 × Nat)) (arm : Int32 × Nat) (place : Nat) :
    valuesTo (arms ++ [arm]) place = valuesTo arms place ++ if arm.2 = place then [arm.1] else [] := by
  rw [valuesTo, List.filter_append, List.map_append, valuesTo]
  by_cases hplace : arm.2 = place
  · simp [hplace]
  · simp [hplace]

/-- An arm changes nothing at the places to which it does not lead. -/
theorem armLabels_concat_of_ne {arm : Int32 × Nat} {place : Nat} (h : arm.2 ≠ place) (arms : List (Int32 × Nat)) :
    armLabels (arms ++ [arm]) place = armLabels arms place := by
  rw [armLabels, valuesTo_concat, if_neg h, List.append_nil, List.any_append, List.any_cons, List.any_nil, Bool.or_false,
    beq_eq_false_iff_ne.2 h, Bool.or_false, armLabels]

theorem armLabels_concat_self (arms : List (Int32 × Nat)) (arm : Int32 × Nat) :
    armLabels (arms ++ [arm]) arm.2 = some (.add arm.1 ⟨valuesTo arms arm.2, false⟩) := by
  rw [armLabels, valuesTo_concat, if_pos rfl, List.any_append, List.any_cons, beq_self_eq_true, Bool.true_or, Bool.or_true,
    if_pos rfl]
  rfl

/-- Going through the arms gives each place the values of the arms that lead there. -/
theorem foldl_enter (arms : List (Int32 × Nat)) (h : ∀ arm ∈ arms, arm.2 ≤ stop) :
    arms.foldl (enter stop) ⟨[], []⟩ = ⟨CaseLabels.listed (armLabels arms) 0 stop, valuesTo arms stop⟩ := by
  induction arms using List.reverseRecOn with
  | nil =>
    have hnone : CaseLabels.listed (armLabels []) 0 stop = [] := by simp [CaseLabels.listed, armLabels]
    rw [hnone]
    rfl
  | append_singleton arms arm ih =>
    have hle := h arm (List.mem_append_right _ List.mem_cons_self)
    rw [List.foldl_append, ih fun a ha => h a (List.mem_append_left _ ha), List.foldl_cons, List.foldl_nil, enter,
      valuesTo_concat arms arm stop]
    split
    · congr 1
      exact CaseLabels.listed_congr fun place _ hlt => (armLabels_concat_of_ne (by omega) arms).symm
    · rw [List.append_nil]
      congr 1
      rw [CaseLabels.change_listed _ _ (Nat.zero_le _) (by omega), getD_armLabels]
      refine CaseLabels.listed_congr fun place _ _ => ?_
      by_cases hplace : place = arm.2
      · rw [hplace, Function.update_self, armLabels_concat_self]
      · rw [Function.update_of_ne hplace, armLabels_concat_of_ne (Ne.symm hplace)]

/-- The cases at the places that satisfy a test. -/
theorem listed_eq_map_filter {f : Nat → Option CaseLabels} {p : Nat → Bool} {labels : Nat → CaseLabels}
    (h : ∀ place, place < stop → f place = if p place then some (labels place) else none) :
    CaseLabels.listed f 0 stop = ((List.range stop).filter p).map fun place => (place, labels place) := by
  rw [CaseLabels.listed, ← List.range_eq_range', ← List.filterMap_eq_map, List.filterMap_filter]
  refine List.filterMap_congr fun place hplace => ?_
  rw [h place (List.mem_range.1 hplace)]
  split
  · rfl
  · rfl

/-- There is a case at each place that an arm or the default leads to, with the labels that lead there. -/
theorem labels_eq (h : ∀ arm ∈ s.arms, arm.2 ≤ stop) :
    s.labels stop = ⟨(s.starts stop).map s.caseAt, s.valuesAt stop⟩ := by
  have hlabels : ∀ place, place ≠ s.defaultAt → armLabels s.arms place =
      if s.defaultAt == place || s.arms.any (·.2 == place) then some ⟨s.valuesAt place, s.defaultAt == place⟩ else none := by
    intro place hplace
    have hne : (s.defaultAt == place) = false := beq_eq_false_iff_ne.2 (Ne.symm hplace)
    rw [hne, Bool.false_or]
    rfl
  unfold labels
  rw [foldl_enter s.arms h]
  dsimp only
  split
  · rename_i hdefault
    have hlt : s.defaultAt < stop := by simpa [hasDefault] using hdefault
    rw [CaseLabels.change_listed _ _ (Nat.zero_le _) (by omega), getD_armLabels]
    congr 1
    refine listed_eq_map_filter fun place _ => ?_
    by_cases hplace : place = s.defaultAt
    · subst hplace
      simp [valuesAt]
    · rw [Function.update_of_ne hplace]
      exact hlabels place hplace
  · rename_i hdefault
    have hle : stop ≤ s.defaultAt := by simpa [hasDefault] using hdefault
    congr 1
    exact listed_eq_map_filter fun place hplace => hlabels place (by omega)

/-- The case for the values that lead to the end. -/
theorem skippedCases_eq (h : ∀ arm ∈ s.arms, arm.2 ≤ stop) :
    s.skippedCases stop =
      if s.hasDefault stop && !(s.valuesAt stop).isEmpty then [⟨s.valuesAt stop, false, [.breakOut 0 none]⟩] else [] := by
  rw [skippedCases, labels_eq h]

end SwitchLayout

end CodeLift.Recognizer
