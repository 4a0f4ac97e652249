import CodeLift.Bisect

/-!
# What a search by halving finds

In a list in which the members that pass come first, the place at which the halving stops is the last of them, or the first place
of the window if there is none. So the point of partition counts the members that pass.
-/

namespace CodeLift

/-- Where the places that pass are those before `count`, the halving stops at the last of them, or where it starts if there is none
in the window. -/
theorem bisect_eq {passes : Nat → Bool} {base size count : Nat}
    (hpasses : ∀ place, base ≤ place → place < base + size → (passes place = true ↔ place < count)) (hsize : 0 < size)
    (hcount : count ≤ base + size) : bisect passes base size = max base (count - 1) := by
  fun_induction bisect passes base size with
  | case1 base size hlt half hpass ih =>
    -- The window goes on with its upper half, which starts at a place that passes.
    have hhalf : 0 < half ∧ half < size := by omega
    have hupper := (hpasses (base + half) (by omega) (by omega)).1 hpass
    rw [ih (fun place _ _ => hpasses place (by omega) (by omega)) (by omega) (by omega)]
    omega
  | case2 base size hlt half hpass ih =>
    have hhalf : 0 < half ∧ half < size := by omega
    have hlower : ¬base + half < count := fun h => hpass ((hpasses (base + half) (by omega) (by omega)).2 h)
    exact ih (fun place hle _ => hpasses place hle (by omega)) (by omega) (by omega)
  | case3 base size hle => omega

/-- In a list whose members that pass come first, the places that pass are those before the first member that does not. -/
theorem any_getElem?_iff {α : Type} {p : α → Bool} {xs : List α} (h : xs.Pairwise fun x y => p y = true → p x = true) {place : Nat}
    (hlt : place < xs.length) : (xs[place]?.any p) = true ↔ place < (xs.takeWhile p).length := by
  induction xs generalizing place with
  | nil => exact absurd hlt (Nat.not_lt_zero place)
  | cons x xs ih =>
    obtain ⟨hfirst, hrest⟩ := List.pairwise_cons.1 h
    by_cases hx : p x = true
    · rw [List.takeWhile_cons_of_pos hx, List.length_cons]
      cases place with
      | zero => simp [hx]
      | succ place =>
        rw [List.getElem?_cons_succ, ih hrest (Nat.lt_of_succ_lt_succ hlt)]
        omega
    · rw [List.takeWhile_cons_of_neg hx]
      have hnone : ∀ y ∈ x :: xs, ¬p y = true := by
        intro y hy
        rcases List.mem_cons.1 hy with rfl | hy
        · exact hx
        · exact fun hpy => hx (hfirst y hy hpy)
      rw [List.getElem?_eq_getElem hlt, Option.any_some]
      simpa using hnone _ (List.getElem_mem hlt)

/-- In a list whose members that pass come first, the halving stops at the last of them. -/
theorem bisect_eq_length_takeWhile {α : Type} {p : α → Bool} {xs : List α} (h : xs.Pairwise fun x y => p y = true → p x = true)
    (hpos : 0 < xs.length) : bisect (fun place => xs[place]?.any p) 0 xs.length = (xs.takeWhile p).length - 1 := by
  have hle := (List.takeWhile_sublist p (l := xs)).length_le
  rw [bisect_eq (fun place _ hlt => any_getElem?_iff h (by omega)) hpos (by omega), Nat.zero_max]

/-- In a list whose members that pass come first, the point of partition counts them. -/
theorem partitionPoint_eq {α : Type} {p : α → Bool} {xs : List α} (h : xs.Pairwise fun x y => p y = true → p x = true) :
    partitionPoint p xs = (xs.takeWhile p).length := by
  unfold partitionPoint
  split
  · rename_i hempty
    rw [List.isEmpty_iff.1 hempty]
    rfl
  · rename_i hne
    have hpos : 0 < xs.length := List.length_pos_iff.2 (by simpa using hne)
    have hle := (List.takeWhile_sublist p (l := xs)).length_le
    dsimp only
    rw [bisect_eq_length_takeWhile h hpos]
    split
    · rename_i hpass
      have := (any_getElem?_iff h (by omega)).1 hpass
      omega
    · rename_i hpass
      have hzero : ¬(xs.takeWhile p).length - 1 < (xs.takeWhile p).length :=
        fun hlt => hpass ((any_getElem?_iff h (by omega)).2 hlt)
      omega

/-- In a list whose members that pass come first, none passes from the first on that does not. -/
theorem eq_false_of_mem_dropWhile {α : Type} {p : α → Bool} {xs : List α} (h : xs.Pairwise fun x y => p y = true → p x = true)
    {a : α} (ha : a ∈ xs.dropWhile p) : p a = false := by
  induction xs with
  | nil => cases ha
  | cons x xs ih =>
    obtain ⟨hfirst, hrest⟩ := List.pairwise_cons.1 h
    by_cases hx : p x = true
    · rw [List.dropWhile_cons_of_pos hx] at ha
      exact ih hrest ha
    · rw [List.dropWhile_cons_of_neg hx] at ha
      rw [← Bool.not_eq_true]
      rcases List.mem_cons.1 ha with rfl | ha
      · exact hx
      · exact fun hpass => hx (hfirst a ha hpass)

/-- In a list in which the keys ascend, a search by halving finds what a search from the front does. -/
theorem bisectIdx?_eq {α : Type} {key : α → Nat} {xs : List α} (h : xs.Pairwise fun x y => key x < key y) (target : Nat) :
    bisectIdx? key target xs = xs.findIdx? (key · == target) := by
  have hpasses : xs.Pairwise fun x y => decide (key y ≤ target) = true → decide (key x ≤ target) = true := by
    refine h.imp fun {x y} hlt hy => ?_
    rw [decide_eq_true_eq] at hy ⊢
    omega
  rw [bisectIdx?]
  cases hfound : xs.findIdx? (key · == target) with
  | none =>
    rw [List.findIdx?_eq_none_iff] at hfound
    refine if_neg fun hany => ?_
    obtain ⟨x, hx, hkey⟩ := (Option.any_eq_true _ _).1 hany
    rw [hfound x (List.mem_of_getElem? hx)] at hkey
    cases hkey
  | some i =>
    obtain ⟨hi, hkey, _⟩ := List.findIdx?_eq_some_iff_getElem.1 hfound
    have hkey : key xs[i] = target := by simpa using hkey
    have hlt := (any_getElem?_iff hpasses hi).1 (by simp [List.getElem?_eq_getElem hi, hkey])
    have hle := (List.takeWhile_sublist (decide <| key · ≤ target) (l := xs)).length_le
    -- The members after the one with the key do not pass, so that one is the last that does.
    have hlast : (xs.takeWhile (key · ≤ target)).length - 1 ≤ i := by
      refine Nat.le_of_not_lt fun hlater => ?_
      have hpass := (any_getElem?_iff hpasses (by omega)).2 (Nat.sub_one_lt_of_lt hlt)
      rw [List.getElem?_eq_getElem (by omega), Option.any_some, decide_eq_true_eq] at hpass
      have hless := List.pairwise_iff_getElem.1 h _ _ hi (by omega) hlater
      omega
    rw [bisect_eq_length_takeWhile hpasses (by omega), show (xs.takeWhile (key · ≤ target)).length - 1 = i by omega,
      List.getElem?_eq_getElem hi]
    exact if_pos (by simp [hkey])

/-- A list is inserted into at its point of partition between the members that pass and the others. -/
theorem insertIdx_partitionPoint {α : Type} {p : α → Bool} {xs : List α} (h : xs.Pairwise fun x y => p y = true → p x = true)
    (a : α) : xs.insertIdx (partitionPoint p xs) a = xs.takeWhile p ++ a :: xs.dropWhile p := by
  rw [partitionPoint_eq h]
  clear h
  induction xs with
  | nil => rfl
  | cons x xs ih =>
    by_cases hx : p x = true
    · rw [List.takeWhile_cons_of_pos hx, List.dropWhile_cons_of_pos hx, List.length_cons, List.insertIdx_succ_cons, ih,
        List.cons_append]
    · rw [List.takeWhile_cons_of_neg hx, List.dropWhile_cons_of_neg hx]
      rfl

end CodeLift
