import CodeLift.Locals.Basic
import CodeLift.Proofs.Bisect
import CodeLift.Proofs.Keyed
import CodeLift.Proofs.Span
import Mathlib.Data.List.Pairwise

/-!
# Tables of disjoint instances

A table is disjoint if its instances are not empty, each is listed for its own slot, and the instances listed for a slot follow each
other in the code. In such a table a slot and an index name one instance at most, the one that `Locals.find?` gives. The table keeps
no order by itself: an instance is put where the search by halving finds its place, which is the right one only in a list that is in
order. Whatever `Locals.insert?` accepts keeps the table disjoint.
-/

namespace CodeLift

/-- Two instances of different slots, or of one slot and at different places of the code. -/
def Local.Apart (a b : Local) : Prop := a.slot = b.slot → a.span.stop ≤ b.span.start ∨ b.span.stop ≤ a.span.start

namespace Locals

variable {ls ls' : Locals} {l : Local}

/-- One instance of the table ends where another starts, or before. -/
def Precedes (ls : Locals) (i j : LocalId) : Prop :=
  ∃ a b, ls.get? i = some a ∧ ls.get? j = some b ∧ a.span.start < b.span.start ∧ a.span.stop ≤ b.span.start

/-- No instance is empty, each is listed for its slot, and those of a slot are listed in the order of the code. -/
structure Disjoint (ls : Locals) : Prop where
  nonempty : ∀ {id l}, ls.get? id = some l → l.span.start < l.span.stop
  listed : ∀ {slot id}, id ∈ ls.ofSlot slot ↔ ∃ l, ls.get? id = some l ∧ l.slot = slot
  ordered : ∀ slot, (ls.ofSlot slot).Pairwise ls.Precedes

/-- The table without instances is disjoint. -/
theorem disjoint_empty : Disjoint empty := by
  refine ⟨?_, ?_, ?_⟩
  · intro id l h
    simp [empty, get?] at h
  · intro slot id
    simp [empty, ofSlot, get?]
  · intro slot
    exact .nil

/-- Two instances of a slot lie one after the other. -/
theorem Disjoint.apart (h : ls.Disjoint) {i j : LocalId} {a b : Local} (ha : ls.get? i = some a) (hb : ls.get? j = some b)
    (hne : i ≠ j) : a.Apart b := by
  intro hslot
  have heither : (ls.ofSlot a.slot).Pairwise fun i j => ls.Precedes i j ∨ ls.Precedes j i :=
    (h.ordered a.slot).imp fun hprecedes => .inl hprecedes
  have hsymm : Std.Symm fun i j => ls.Precedes i j ∨ ls.Precedes j i := ⟨fun _ _ => Or.symm⟩
  have hcases := heither.forall (h.listed.2 ⟨a, ha, rfl⟩) (h.listed.2 ⟨b, hb, hslot.symm⟩) hne
  rcases hcases with ⟨a', b', ha', hb', _, hstop⟩ | ⟨b', a', hb', ha', _, hstop⟩
  · rw [ha, Option.some.injEq] at ha'
    rw [hb, Option.some.injEq] at hb'
    subst ha' hb'
    exact .inl hstop
  · rw [ha, Option.some.injEq] at ha'
    rw [hb, Option.some.injEq] at hb'
    subst ha' hb'
    exact .inr hstop

/-- Two instances of a slot that share an index are the same. -/
theorem Disjoint.unique (h : ls.Disjoint) {i j : LocalId} {a b : Local} {k : Nat} (ha : ls.get? i = some a)
    (hb : ls.get? j = some b) (hslot : a.slot = b.slot) (hka : k ∈ a.span) (hkb : k ∈ b.span) : i = j := by
  by_contra hne
  have hapart := h.apart ha hb hne hslot
  rw [Span.mem_def] at hka hkb
  omega

/-- No instance is listed twice. -/
theorem Disjoint.nodup_ofSlot (h : ls.Disjoint) (slot : Nat) : (ls.ofSlot slot).Nodup := by
  refine (h.ordered slot).imp ?_
  rintro i _ ⟨a, b, ha, hb, hlt, _⟩ rfl
  rw [ha, Option.some.injEq] at hb
  subst hb
  exact Nat.lt_irrefl _ hlt

/-- What is listed for a slot is found in the table. -/
theorem Disjoint.exists_of_mem_ofSlot (h : ls.Disjoint) {slot : Nat} {id : LocalId} (hid : id ∈ ls.ofSlot slot) :
    ∃ l, ls.get? id = some l ∧ l.slot = slot ∧ l ∈ ls.all := by
  obtain ⟨l, hl, hslot⟩ := h.listed.1 hid
  exact ⟨l, hl, hslot, List.mem_of_getElem? hl⟩

/-- An instance of the table is listed for its slot. -/
theorem Disjoint.exists_mem_ofSlot (h : ls.Disjoint) (hl : l ∈ ls.all) : ∃ id ∈ ls.ofSlot l.slot, ls.get? id = some l := by
  obtain ⟨id, hid⟩ := List.mem_iff_getElem?.1 hl
  exact ⟨id, h.listed.2 ⟨l, hid, rfl⟩, hid⟩

/-- The starts listed for a slot are those of its instances. -/
theorem Disjoint.mem_startsOf (h : ls.Disjoint) {slot start : Nat} :
    start ∈ ls.startsOf slot ↔ ∃ l ∈ ls.all, l.slot = slot ∧ l.span.start = start := by
  simp only [startsOf, List.mem_filterMap, Option.map_eq_some_iff]
  constructor
  · rintro ⟨id, hid, l, hl, rfl⟩
    obtain ⟨l', hl', hslot, hmem⟩ := h.exists_of_mem_ofSlot hid
    rw [hl, Option.some.injEq] at hl'
    subst hl'
    exact ⟨l, hmem, hslot, rfl⟩
  · rintro ⟨l, hl, rfl, rfl⟩
    obtain ⟨id, hid, hget⟩ := h.exists_mem_ofSlot hl
    exact ⟨id, hid, l, hget, rfl⟩

/-! ## Instances that the table accepts -/

/-- A span overlaps no instance of a slot if each of them ends before it or starts after it. -/
theorem Disjoint.overlaps_eq_false (h : ls.Disjoint) {slot : Nat} {span : Span} :
    ls.overlaps slot span = false ↔ ∀ x ∈ ls.all, x.slot = slot → x.span.stop ≤ span.start ∨ span.stop ≤ x.span.start := by
  simp only [overlaps, List.any_eq_false, Option.any_eq_true, not_exists, not_and, Span.overlaps, Bool.and_eq_true,
    decide_eq_true_eq]
  constructor
  · rintro hnone x hx rfl
    obtain ⟨id, hid, hget⟩ := h.exists_mem_ofSlot hx
    have := hnone id hid x hget
    omega
  · intro hall id hid x hget
    obtain ⟨x', hget', hslot, hmem⟩ := h.exists_of_mem_ofSlot hid
    rw [hget, Option.some.injEq] at hget'
    subst hget'
    have := hall x hmem hslot
    omega

/-- An accepted instance is added. -/
theorem eq_add_of_insert? (h : ls.insert? l = some ls') : ls' = ls.add l := by
  unfold insert? at h
  split at h
  · cases h
  · cases h
    rfl

/-- The table accepts what is not empty and apart from all its instances. -/
theorem Disjoint.insert?_eq_some (h : ls.Disjoint) :
    ls.insert? l = some ls' ↔ l.span.start < l.span.stop ∧ (∀ x ∈ ls.all, x.Apart l) ∧ ls' = ls.add l := by
  unfold insert?
  split
  · rename_i hrefused
    simp only [Bool.or_eq_true, Span.isEmpty, decide_eq_true_eq] at hrefused
    constructor
    · intro h
      cases h
    · rintro ⟨hne, hapart, _⟩
      rcases hrefused with hempty | hover
      · omega
      · rw [h.overlaps_eq_false.2 hapart] at hover
        cases hover
  · rename_i haccepted
    simp only [Bool.or_eq_true, Span.isEmpty, decide_eq_true_eq, not_or, Bool.not_eq_true] at haccepted
    obtain ⟨hne, hover⟩ := haccepted
    simp only [Option.some.injEq]
    constructor
    · rintro rfl
      exact ⟨by omega, h.overlaps_eq_false.1 hover, rfl⟩
    · rintro ⟨_, _, rfl⟩
      rfl

@[simp]
theorem add_all (ls : Locals) (l : Local) : (ls.add l).all = ls.all ++ [l] := rfl

/-- The instance that is added has the next place. -/
theorem get?_add (ls : Locals) (l : Local) (id : LocalId) :
    (ls.add l).get? id = if id = ls.size then some l else ls.get? id := by
  by_cases hid : id = ls.size
  · rw [if_pos hid, hid, get?, size, add_all, List.getElem?_concat_length]
  · rw [if_neg hid, get?, get?, add_all]
    rcases Nat.lt_or_gt_of_ne hid with hlt | hgt
    · rw [List.getElem?_append_left hlt]
    · have hlen : ls.all.length < id := hgt
      rw [List.getElem?_eq_none (by simp; omega), List.getElem?_eq_none (Nat.le_of_lt hlen)]

theorem startsBelow_of_get? {index : Nat} {id : LocalId} (h : ls.get? id = some l) :
    ls.startsBelow index id = true ↔ l.span.start < index := by
  rw [startsBelow, h, Option.any_some, decide_eq_true_eq]

/-- An instance that starts before an index stands before those that do not, as long as the list of its slot is in order. -/
theorem Disjoint.partitioned (h : ls.Disjoint) (slot index : Nat) : (ls.ofSlot slot).Pairwise fun i j =>
    ls.startsBelow index j = true → ls.startsBelow index i = true := by
  refine (h.ordered slot).imp ?_
  rintro i j ⟨a, b, ha, hb, hlt, _⟩ hj
  rw [startsBelow_of_get? hb] at hj
  rw [startsBelow_of_get? ha]
  omega

/-- The instance that is added is listed between those of its slot that start before it and the others. -/
theorem Disjoint.ofSlot_add (h : ls.Disjoint) (l : Local) (slot : Nat) : (ls.add l).ofSlot slot =
    if slot = l.slot then
      (ls.ofSlot slot).takeWhile (ls.startsBelow l.span.start) ++
        ls.size :: (ls.ofSlot slot).dropWhile (ls.startsBelow l.span.start)
    else ls.ofSlot slot := by
  rw [ofSlot, add, Keyed.find?_put]
  split
  · rename_i hslot
    subst hslot
    exact insertIdx_partitionPoint (h.partitioned l.slot l.span.start) ls.size
  · rfl

theorem Disjoint.mem_ofSlot_add (h : ls.Disjoint) {slot : Nat} {id : LocalId} :
    id ∈ (ls.add l).ofSlot slot ↔ id ∈ ls.ofSlot slot ∨ id = ls.size ∧ slot = l.slot := by
  rw [h.ofSlot_add]
  split
  · rename_i hslot
    have hmem : id ∈ ls.ofSlot slot ↔ id ∈ (ls.ofSlot slot).takeWhile (ls.startsBelow l.span.start) ∨
        id ∈ (ls.ofSlot slot).dropWhile (ls.startsBelow l.span.start) := by
      rw [← List.mem_append, List.takeWhile_append_dropWhile]
    rw [List.mem_append, List.mem_cons, hmem]
    tauto
  · rename_i hslot
    simp [hslot]

/-- What follows in a table still follows when an instance is added. -/
theorem Precedes.add {i j : LocalId} (h : ls.Precedes i j) (l : Local) : (ls.add l).Precedes i j := by
  obtain ⟨a, b, ha, hb, hlt, hstop⟩ := h
  have hold : ∀ {id x}, ls.get? id = some x → (ls.add l).get? id = some x := by
    intro id x hx
    have hid : id < ls.size := (List.getElem?_eq_some_iff.1 hx).1
    rw [get?_add, if_neg (Nat.ne_of_lt hid), hx]
  exact ⟨a, b, hold ha, hold hb, hlt, hstop⟩

/-- The new instance stands in the list of its slot after those that end before it starts and before those that start after it
ends. -/
theorem Disjoint.ordered_add (h : ls.Disjoint) (hne : l.span.start < l.span.stop) (hapart : ∀ x ∈ ls.all, x.Apart l) :
    (ls.add l).ofSlot l.slot |>.Pairwise (ls.add l).Precedes := by
  have hget : (ls.add l).get? ls.size = some l := by rw [get?_add, if_pos rfl]
  have hold : ∀ id ∈ ls.ofSlot l.slot, ∃ x, (ls.add l).get? id = some x ∧ ls.get? id = some x ∧ x.span.start < x.span.stop ∧
      (x.span.stop ≤ l.span.start ∨ l.span.stop ≤ x.span.start) := by
    intro id hid
    obtain ⟨x, hx, hslot, hmem⟩ := h.exists_of_mem_ofSlot hid
    have hlt : id < ls.size := (List.getElem?_eq_some_iff.1 hx).1
    exact ⟨x, by rw [get?_add, if_neg (Nat.ne_of_lt hlt), hx], hx, h.nonempty hx, hapart x hmem hslot⟩
  have hkept : (ls.ofSlot l.slot).Pairwise (ls.add l).Precedes := (h.ordered l.slot).imp fun hp => hp.add l
  rw [← List.takeWhile_append_dropWhile (p := ls.startsBelow l.span.start) (l := ls.ofSlot l.slot)] at hkept
  obtain ⟨htaken, hdropped, hbetween⟩ := List.pairwise_append.1 hkept
  rw [h.ofSlot_add, if_pos rfl]
  refine List.pairwise_append.2 ⟨htaken, List.pairwise_cons.2 ⟨?_, hdropped⟩, ?_⟩
  · intro id hid
    obtain ⟨x, hx, hxold, hxne, hx'⟩ := hold id ((List.dropWhile_sublist _).subset hid)
    have hstart : ¬x.span.start < l.span.start := by
      rw [← startsBelow_of_get? hxold, Bool.not_eq_true]
      exact eq_false_of_mem_dropWhile (h.partitioned l.slot l.span.start) hid
    exact ⟨l, x, hget, hx, by omega, by omega⟩
  · intro id hid other hother
    rcases List.mem_cons.1 hother with rfl | hother
    · obtain ⟨x, hx, hxold, hxne, hx'⟩ := hold id ((List.takeWhile_sublist _).subset hid)
      have hstart := (startsBelow_of_get? hxold).1 (List.all_eq_true.1 List.all_takeWhile id hid)
      exact ⟨x, l, hx, hget, hstart, by omega⟩
    · exact hbetween id hid other hother

/-- A table stays disjoint with one more instance that is not empty and apart from the others. -/
theorem Disjoint.add (h : ls.Disjoint) (hne : l.span.start < l.span.stop) (hapart : ∀ x ∈ ls.all, x.Apart l) :
    (ls.add l).Disjoint := by
  refine ⟨?_, ?_, ?_⟩
  · intro id x hx
    rw [get?_add] at hx
    split at hx
    · cases hx
      exact hne
    · exact h.nonempty hx
  · intro slot id
    rw [h.mem_ofSlot_add, h.listed, get?_add]
    by_cases hid : id = ls.size
    · subst hid
      have hnone : ls.get? ls.size = none := List.getElem?_eq_none (Nat.le_refl _)
      simp [hnone, eq_comm]
    · simp [hid]
  · intro slot
    by_cases hslot : slot = l.slot
    · subst hslot
      exact h.ordered_add hne hapart
    · rw [h.ofSlot_add, if_neg hslot]
      exact (h.ordered slot).imp fun hp => hp.add l

theorem Disjoint.insert (h : ls.Disjoint) (hinsert : ls.insert? l = some ls') : ls'.Disjoint := by
  obtain ⟨hne, hapart, rfl⟩ := h.insert?_eq_some.1 hinsert
  exact h.add hne hapart

/-- The table with instances added one after the other. -/
def addAll (ls : Locals) (xs : List Local) : Locals := xs.foldl add ls

@[simp]
theorem addAll_all (ls : Locals) (xs : List Local) : (ls.addAll xs).all = ls.all ++ xs := by
  induction xs generalizing ls with
  | nil => exact (List.append_nil _).symm
  | cons x xs ih =>
    have hrest : (ls.addAll (x :: xs)).all = ((ls.add x).addAll xs).all := rfl
    rw [hrest, ih, add_all, List.append_assoc, List.singleton_append]

theorem Disjoint.foldlM_insert? (h : ls.Disjoint) {xs : List Local} (hxs : xs.foldlM Locals.insert? ls = some ls') :
    ls'.Disjoint := by
  induction xs generalizing ls with
  | nil =>
    simp only [List.foldlM_nil, Option.pure_def, Option.some.injEq] at hxs
    exact hxs ▸ h
  | cons x xs ih =>
    rw [List.foldlM_cons, Option.bind_eq_bind, Option.bind_eq_some_iff] at hxs
    obtain ⟨ls₁, hx, hxs⟩ := hxs
    exact ih (h.insert hx) hxs

/-- A table accepts instances one after the other if they are not empty, apart from its own, and apart from each other. -/
theorem Disjoint.foldlM_insert?_eq (h : ls.Disjoint) (xs : List Local) (hne : ∀ x ∈ xs, x.span.start < x.span.stop)
    (hknown : ∀ x ∈ xs, ∀ y ∈ ls.all, y.Apart x) (hapart : xs.Pairwise Local.Apart) :
    xs.foldlM insert? ls = some (ls.addAll xs) := by
  induction xs generalizing ls with
  | nil => rfl
  | cons x xs ih =>
    obtain ⟨hfirst, hrest⟩ := List.pairwise_cons.1 hapart
    have hinsert : ls.insert? x = some (ls.add x) :=
      h.insert?_eq_some.2 ⟨hne x List.mem_cons_self, hknown x List.mem_cons_self, rfl⟩
    have hadded := h.insert hinsert
    rw [List.foldlM_cons, hinsert, Option.bind_eq_bind, Option.bind_some,
      ih hadded (fun y hy => hne y (List.mem_cons_of_mem x hy)) ?_ hrest]
    · rfl
    · intro y hy z hz
      rw [add_all] at hz
      rcases List.mem_append.1 hz with hz | hz
      · exact hknown y (List.mem_cons_of_mem x hy) z hz
      · rw [List.mem_singleton.1 hz]
        exact hfirst y hy

/-! ## The instance at an index -/

/-- An instance that is found holds the index. -/
theorem get?_of_find? {slot index : Nat} {id : LocalId} (h : ls.find? slot index = some id) :
    id ∈ ls.ofSlot slot ∧ ∃ l, ls.get? id = some l ∧ index ∈ l.span := by
  have hpass := List.find?_some h
  simp only [Option.any_eq_true, decide_eq_true_eq] at hpass
  obtain ⟨l, hl, hin⟩ := hpass
  exact ⟨List.mem_of_find?_eq_some h, l, hl, hin⟩

/-- Nothing is found where no instance of the slot holds the index. -/
theorem Disjoint.find?_eq_none (h : ls.Disjoint) {slot index : Nat} :
    ls.find? slot index = none ↔ ∀ x ∈ ls.all, x.slot = slot → index ∉ x.span := by
  simp only [find?, List.find?_eq_none, Option.any_eq_true, decide_eq_true_eq, not_exists, not_and]
  constructor
  · rintro hnone x hx rfl
    obtain ⟨id, hid, hget⟩ := h.exists_mem_ofSlot hx
    exact hnone id hid x hget
  · intro hall id hid x hget
    obtain ⟨x', hget', hslot, hmem⟩ := h.exists_of_mem_ofSlot hid
    rw [hget, Option.some.injEq] at hget'
    subst hget'
    exact hall x hmem hslot

/-- In a disjoint table the instance that is found is the only one of the slot that holds the index. -/
theorem Disjoint.find?_eq_some (h : ls.Disjoint) {slot index : Nat} {id : LocalId} :
    ls.find? slot index = some id ↔ ∃ l, ls.get? id = some l ∧ l.slot = slot ∧ index ∈ l.span := by
  have hsound : ∀ {i}, ls.find? slot index = some i → ∃ l, ls.get? i = some l ∧ l.slot = slot ∧ index ∈ l.span := by
    intro i hi
    obtain ⟨hmem, l, hl, hin⟩ := get?_of_find? hi
    obtain ⟨l', hl', hslot⟩ := h.listed.1 hmem
    rw [hl, Option.some.injEq] at hl'
    subst hl'
    exact ⟨l, hl, hslot, hin⟩
  constructor
  · exact hsound
  · rintro ⟨l, hl, hslot, hin⟩
    cases hfind : ls.find? slot index with
    | none => exact absurd hin (h.find?_eq_none.1 hfind l (List.mem_of_getElem? hl) hslot)
    | some i =>
      obtain ⟨x, hx, hxslot, hxin⟩ := hsound hfind
      rw [h.unique hx hl (hxslot.trans hslot.symm) hxin hin]

/-- The start found after an index is the least of the starts of the slot that lie after it. -/
theorem Disjoint.nextStart?_eq_some (h : ls.Disjoint) {slot index start : Nat} (hstart : ls.nextStart? slot index = some start) :
    (∃ l ∈ ls.all, l.slot = slot ∧ l.span.start = start) ∧ index < start ∧
      ∀ l ∈ ls.all, l.slot = slot → index < l.span.start → start ≤ l.span.start := by
  have hsorted : (ls.startsOf slot).Pairwise (· < ·) := by
    refine List.Pairwise.filterMap _ ?_ (h.ordered slot)
    rintro i j ⟨a, b, ha, hb, hlt, _⟩ x hx y hy
    rw [ha, Option.map_some, Option.some.injEq] at hx
    rw [hb, Option.map_some, Option.some.injEq] at hy
    omega
  obtain ⟨hlt, before, after, hsplit, hbefore⟩ := List.find?_eq_some_iff_append.1 hstart
  refine ⟨h.mem_startsOf.1 (List.mem_of_find?_eq_some hstart), of_decide_eq_true hlt, ?_⟩
  intro l hl hslot hafter
  have hmem := h.mem_startsOf.2 ⟨l, hl, hslot, rfl⟩
  rw [hsplit] at hmem hsorted
  rcases List.mem_append.1 hmem with hmem | hmem
  · have hnot := hbefore _ hmem
    simp only [Bool.not_eq_true', decide_eq_false_iff_not] at hnot
    exact absurd hafter hnot
  · rcases List.mem_cons.1 hmem with heq | hmem
    · omega
    · have := (List.pairwise_cons.1 (List.pairwise_append.1 hsorted).2.1).1 _ hmem
      omega

end Locals

end CodeLift
