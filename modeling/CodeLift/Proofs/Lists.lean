import Mathlib.Data.List.TakeWhile
import Mathlib.Data.List.Forall2
import Mathlib.Data.List.Nodup

/-!
# Lists and results

Facts on lists and on results that can fail, from which the places of regions and the links of graphs are read off.
-/

namespace CodeLift

variable {α β ε : Type}

/-- What is inside the longest part at the front that satisfies a test satisfies the test. -/
theorem getElem?_of_lt_takeWhile {p : α → Bool} {l : List α} {i : Nat} (h : i < (l.takeWhile p).length) :
    ∃ a, l[i]? = some a ∧ p a = true := by
  obtain ⟨t, ht⟩ := List.takeWhile_prefix (l := l) p
  refine ⟨(l.takeWhile p).get ⟨i, h⟩, ?_, List.mem_takeWhile_imp (List.get_mem _ _)⟩
  conv_lhs => rw [← ht]
  rw [List.getElem?_append_left h]
  exact List.getElem?_eq_some_iff.2 ⟨h, rfl⟩

/-- Lists that are related member by member have related members at the same places. -/
theorem exists_of_forall₂ {R : α → β → Prop} {xs : List α} {ys : List β} (h : List.Forall₂ R xs ys) {i : Nat} {x : α}
    (hx : xs[i]? = some x) : ∃ y, ys[i]? = some y ∧ R x y := by
  obtain ⟨hi, rfl⟩ := List.getElem?_eq_some_iff.1 hx
  have hi' : i < ys.length := h.length_eq ▸ hi
  exact ⟨ys[i], List.getElem?_eq_getElem hi', List.Forall₂.get h hi hi'⟩

theorem exists_mem_of_forall₂ {R : α → β → Prop} {xs : List α} {ys : List β} (h : List.Forall₂ R xs ys) {x : α} (hx : x ∈ xs) :
    ∃ y ∈ ys, R x y := by
  obtain ⟨i, hi⟩ := List.mem_iff_getElem?.1 hx
  obtain ⟨y, hy, hxy⟩ := exists_of_forall₂ h hi
  exact ⟨y, List.mem_of_getElem? hy, hxy⟩

theorem exists_mem_of_forall₂_right {R : α → β → Prop} {xs : List α} {ys : List β} (h : List.Forall₂ R xs ys) {y : β}
    (hy : y ∈ ys) : ∃ x ∈ xs, R x y :=
  exists_mem_of_forall₂ (R := fun y x => R x y) h.flip hy

/-- A list that is mapped without a failure is mapped member by member. -/
theorem forall₂_of_mapM_some {f : α → Option β} {xs : List α} {ys : List β} (h : xs.mapM f = some ys) :
    List.Forall₂ (fun x y => f x = some y) xs ys := by
  induction xs generalizing ys with
  | nil =>
    rw [List.mapM_nil] at h
    cases h
    exact .nil
  | cons x xs ih =>
    simp only [List.mapM_cons, Option.bind_eq_bind, Option.bind_eq_some_iff, Option.pure_def, Option.some.injEq] at h
    obtain ⟨y, hy, ys', hys, rfl⟩ := h
    exact .cons hy (ih hys)

/-- A sequence of two steps succeeds when both do. -/
theorem bind_eq_ok {x : Except ε α} {f : α → Except ε β} {b : β} : x >>= f = .ok b ↔ ∃ a, x = .ok a ∧ f a = .ok b := by
  cases x with
  | error e =>
    constructor
    · intro h
      cases h
    · rintro ⟨_, h, _⟩
      cases h
  | ok a =>
    constructor
    · exact fun h => ⟨a, rfl, h⟩
    · rintro ⟨_, h, h'⟩
      cases h
      exact h'

/-- A sequence of two steps fails when the first does, or the second after it. -/
theorem bind_eq_error {x : Except ε α} {f : α → Except ε β} {e : ε} (h : x >>= f = .error e) :
    x = .error e ∨ ∃ a, x = .ok a ∧ f a = .error e := by
  cases x with
  | error e' =>
    cases h
    exact .inl rfl
  | ok a => exact .inr ⟨a, rfl, h⟩

theorem forall₂_of_mapM_ok {f : α → Except ε β} {xs : List α} {ys : List β} (h : xs.mapM f = .ok ys) :
    List.Forall₂ (fun x y => f x = .ok y) xs ys := by
  induction xs generalizing ys with
  | nil =>
    rw [List.mapM_nil] at h
    cases h
    exact .nil
  | cons x xs ih =>
    rw [List.mapM_cons] at h
    obtain ⟨y, hy, h⟩ := bind_eq_ok.1 h
    obtain ⟨ys', hys, h⟩ := bind_eq_ok.1 h
    cases h
    exact .cons hy (ih hys)

/-- A list that cannot be mapped has a member that cannot. -/
theorem exists_of_mapM_error {f : α → Except ε β} {xs : List α} {e : ε} (h : xs.mapM f = .error e) :
    ∃ x ∈ xs, f x = .error e := by
  induction xs with
  | nil => cases h
  | cons x xs ih =>
    rw [List.mapM_cons] at h
    rcases bind_eq_error h with hx | ⟨y, _, h⟩
    · exact ⟨x, List.mem_cons_self, hx⟩
    · rcases bind_eq_error h with hxs | ⟨ys, _, h⟩
      · obtain ⟨x', hx', hf⟩ := ih hxs
        exact ⟨x', List.mem_cons_of_mem _ hx', hf⟩
      · cases h

/-- What the parts of a mapped list hold together, if it is known what each of them holds. -/
theorem mem_flatten_of_mapM_ok {f : α → Except ε (List β)} {xs : List α} {parts : List (List β)} (h : xs.mapM f = .ok parts)
    {b : β} {R : α → Prop} (hR : ∀ x part, f x = .ok part → (b ∈ part ↔ R x)) : b ∈ parts.flatten ↔ ∃ x ∈ xs, R x := by
  have hparts := forall₂_of_mapM_ok h
  rw [List.mem_flatten]
  constructor
  · rintro ⟨part, hpart, hb⟩
    obtain ⟨x, hx, hf⟩ := exists_mem_of_forall₂_right hparts hpart
    exact ⟨x, hx, (hR x part hf).1 hb⟩
  · rintro ⟨x, hx, hrel⟩
    obtain ⟨part, hpart, hf⟩ := exists_mem_of_forall₂ hparts hx
    exact ⟨part, hpart, (hR x part hf).2 hrel⟩

/-- A pass that fails does so at a step, in a state that the steps before it keep as it was in some respect. -/
theorem exists_of_foldlM_error {f : β → α → Except ε β} {I : β → Prop} {xs : List α} {b : β} {e : ε}
    (hstep : ∀ b, ∀ x ∈ xs, ∀ b', I b → f b x = .ok b' → I b') (hb : I b) (h : xs.foldlM f b = .error e) :
    ∃ b', ∃ x ∈ xs, I b' ∧ f b' x = .error e := by
  induction xs generalizing b with
  | nil => cases h
  | cons x xs ih =>
    rw [List.foldlM_cons] at h
    rcases bind_eq_error h with hx | ⟨b₁, hx, h⟩
    · exact ⟨b, x, List.mem_cons_self, hb, hx⟩
    · obtain ⟨b', y, hy, hI, hf⟩ :=
        ih (fun c y hy => hstep c y (List.mem_cons_of_mem x hy)) (hstep b x List.mem_cons_self b₁ hb hx) h
      exact ⟨b', y, List.mem_cons_of_mem x hy, hI, hf⟩

/-- Lists that agree place by place do so with the places beside their members. -/
theorem forall₂_zipIdx {R : α → β → Prop} {l : List α} {l' : List β} (h : List.Forall₂ R l l') (n : Nat) :
    List.Forall₂ (fun a b => b.2 = a.2 ∧ R a.1 b.1) (l.zipIdx n) (l'.zipIdx n) := by
  induction h generalizing n with
  | nil => exact .nil
  | cons h _ ih => exact .cons ⟨rfl, h⟩ (ih (n + 1))

/-- Lists of pairs whose members have the same first parts, one by one. -/
theorem map_fst_eq_of_forall₂ {α β γ : Type} {R : α × β → α × γ → Prop} {xs : List (α × β)} {ys : List (α × γ)}
    (h : List.Forall₂ (fun x y => y.1 = x.1 ∧ R x y) xs ys) : ys.map (·.1) = xs.map (·.1) := by
  induction h with
  | nil => rfl
  | cons hp _ ih => rw [List.map_cons, List.map_cons, hp.1, ih]

theorem perm_append_append_append_comm {α : Type} (as bs cs ds : List α) :
    ((as ++ bs) ++ (cs ++ ds)).Perm ((as ++ cs) ++ (bs ++ ds)) := by
  rw [List.append_assoc, List.append_assoc, ← List.append_assoc bs, ← List.append_assoc cs]
  exact (List.perm_append_comm.append_right ds).append_left as

/-- In a list of pairs without repeated keys, a look-up finds the pair with the key. -/
theorem lookup_eq_some_iff {κ β : Type} [BEq κ] [LawfulBEq κ] {l : List (κ × β)} (h : (l.map (·.1)).Nodup) {key : κ} {b : β} :
    l.lookup key = some b ↔ (key, b) ∈ l := by
  induction l with
  | nil => simp
  | cons p l ih =>
    obtain ⟨k, a⟩ := p
    obtain ⟨hnot, hnodup⟩ := List.nodup_cons.1 h
    by_cases hk : key = k
    · subst hk
      have hmem : (key, b) ∉ l := fun hmem => hnot (List.mem_map.2 ⟨_, hmem, rfl⟩)
      simp [hmem, eq_comm]
    · rw [List.lookup_cons, beq_eq_false_iff_ne.2 hk]
      simp [ih hnodup, hk]

/-- In lists without repetitions each value stands in one list, at one place. -/
theorem place_unique {α : Type} {lists : List (List α)} (h : lists.flatten.Nodup) {i j k l : Nat} {xs ys : List α} {x : α}
    (hi : lists[i]? = some xs) (hk : xs[k]? = some x) (hj : lists[j]? = some ys) (hl : ys[l]? = some x) : i = j ∧ k = l := by
  obtain ⟨hnodup, hdisjoint⟩ := List.nodup_flatten.1 h
  obtain ⟨hilt, rfl⟩ := List.getElem?_eq_some_iff.1 hi
  obtain ⟨hjlt, rfl⟩ := List.getElem?_eq_some_iff.1 hj
  have hxi := List.mem_of_getElem? hk
  have hxj := List.mem_of_getElem? hl
  rcases Nat.lt_trichotomy i j with hlt | rfl | hlt
  · exact absurd hxj (List.pairwise_iff_getElem.1 hdisjoint i j hilt hjlt hlt hxi)
  · have hklt := (List.getElem?_eq_some_iff.1 hk).1
    exact ⟨rfl, (List.getElem?_inj hklt (hnodup _ (List.getElem_mem hilt))).1 (hk.trans hl.symm)⟩
  · exact absurd hxi (List.pairwise_iff_getElem.1 hdisjoint j i hjlt hilt hlt hxj)

/-- The last of some consecutive indices that passes a test. -/
theorem find?_reverse_range' {start n : Nat} {p : Nat → Bool} {i : Nat} : (List.range' start n).reverse.find? p = some i ↔
    (start ≤ i ∧ i < start + n) ∧ p i = true ∧ ∀ j, i < j → j < start + n → p j = false := by
  induction n with
  | zero =>
    constructor
    · intro h
      cases h
    · rintro ⟨hi, _⟩
      omega
  | succ n ih =>
    rw [List.range'_1_concat, List.reverse_append, List.reverse_singleton, List.singleton_append, List.find?_cons]
    cases hp : p (start + n) with
    | true =>
      constructor
      · intro h
        cases h
        exact ⟨by omega, hp, fun j hj hj' => by omega⟩
      · rintro ⟨hi, _, hrest⟩
        by_contra hne
        have hlt : i < start + n := by
          rcases Nat.lt_or_ge i (start + n) with hlt | hge
          · exact hlt
          · exact absurd (congrArg some (by omega : start + n = i)) hne
        rw [hrest _ hlt (by omega)] at hp
        cases hp
    | false =>
      dsimp only
      rw [ih]
      constructor
      · rintro ⟨hi, hpi, hrest⟩
        refine ⟨by omega, hpi, fun j hj hj' => ?_⟩
        by_cases hlast : j = start + n
        · rw [hlast]
          exact hp
        · exact hrest j hj (by omega)
      · rintro ⟨hi, hpi, hrest⟩
        have hne : i ≠ start + n := by
          rintro rfl
          rw [hpi] at hp
          cases hp
        exact ⟨by omega, hpi, fun j hj hj' => hrest j hj (by omega)⟩

theorem findIdx?_congr {p q : α → Bool} {l : List α} (h : ∀ x ∈ l, p x = q x) : l.findIdx? p = l.findIdx? q := by
  induction l with
  | nil => rfl
  | cons x l ih =>
    rw [List.findIdx?_cons, List.findIdx?_cons, h x List.mem_cons_self, ih fun y hy => h y (List.mem_cons_of_mem x hy)]

end CodeLift
