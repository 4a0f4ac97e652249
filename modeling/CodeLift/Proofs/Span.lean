import CodeLift.Span
import Mathlib.Data.List.Perm.Subperm
import Mathlib.Data.List.Range

/-!
# Spans that follow each other, and spans that tile

`Span.Abut` says that spans stand one after the other without a gap: the blocks of a method do. The check `Span.tiles` succeeds
when the indices of the spans, taken together, are the first ones in some order, and so exactly when each of the first indices
is in one of the spans and no other index is in any.
-/

namespace CodeLift.Span

theorem mem_def {s : Span} {i : Nat} : i ∈ s ↔ s.start ≤ i ∧ i < s.stop := Iff.rfl

/-- The indices of a span are those in it. -/
theorem mem_indices {s : Span} {i : Nat} : i ∈ s.indices ↔ i ∈ s := by
  rw [indices, List.mem_range'_1, mem_def, length]
  omega

/-- A span has as many indices as its length. -/
theorem length_indices (s : Span) : s.indices.length = s.length := List.length_range'

@[simp] theorem indices_before (i : Nat) : (before i).indices = [] := by simp [indices, length, before]

@[simp] theorem indices_single (i : Nat) : (single i).indices = [i] := by
  simp [indices, length, single, List.range'_succ]

theorem indices_eq_nil {s : Span} (h : s.isEmpty = true) : s.indices = [] := by
  have h : s.stop ≤ s.start := by simpa [isEmpty] using h
  rw [indices, length, Nat.sub_eq_zero_of_le h, List.range'_zero]

/-- A span splits at any index between its ends. -/
theorem indices_split {a b c : Nat} (hab : a ≤ b) (hbc : b ≤ c) :
    (⟨a, b⟩ : Span).indices ++ (⟨b, c⟩ : Span).indices = (⟨a, c⟩ : Span).indices := by
  simp only [indices, length]
  obtain ⟨d, rfl⟩ := Nat.exists_eq_add_of_le hab
  obtain ⟨e, rfl⟩ := Nat.exists_eq_add_of_le hbc
  rw [show a + d - a = d by omega, show a + d + e - (a + d) = e by omega, show a + d + e - a = d + e by omega]
  exact List.range'_append_1

/-- The last index of a span comes after all others. -/
theorem indices_concat {s : Span} {last : Nat} (hstop : s.stop = last + 1) (hle : s.start ≤ last) :
    s.indices = (⟨s.start, last⟩ : Span).indices ++ [last] := by
  have hlast : (⟨last, s.stop⟩ : Span) = single last := by rw [single, hstop]
  rw [← indices_single, ← hlast, indices_split hle (by omega)]

/-! ## Spans one after the other -/

/-- The spans stand one after the other, the first from `lo` on and the last up to `hi`. -/
def Abut : Nat → List Span → Nat → Prop
  | lo, [], hi => lo = hi
  | lo, s :: rest, hi => s.start = lo ∧ s.start ≤ s.stop ∧ Abut s.stop rest hi

/-- Spans that abut run forwards. -/
theorem Abut.le {lo hi : Nat} {spans : List Span} (h : Abut lo spans hi) : lo ≤ hi := by
  induction spans generalizing lo with
  | nil => exact Nat.le_of_eq h
  | cons s rest ih =>
    obtain ⟨rfl, hle, hrest⟩ := h
    exact hle.trans (ih hrest)

/-- Spans abut in two parts that meet. -/
theorem abut_append {lo hi : Nat} {xs ys : List Span} : Abut lo (xs ++ ys) hi ↔ ∃ mid, Abut lo xs mid ∧ Abut mid ys hi := by
  induction xs generalizing lo with
  | nil => simp [Abut]
  | cons s xs ih =>
    simp only [List.cons_append, Abut, ih]
    constructor
    · rintro ⟨h1, h2, mid, h3, h4⟩
      exact ⟨mid, ⟨h1, h2, h3⟩, h4⟩
    · rintro ⟨mid, ⟨h1, h2, h3⟩, h4⟩
      exact ⟨h1, h2, mid, h3, h4⟩

/-- Spans that abut lie between their bounds. -/
theorem Abut.bounds {lo hi : Nat} {spans : List Span} (h : Abut lo spans hi) {s : Span} (hs : s ∈ spans) :
    lo ≤ s.start ∧ s.stop ≤ hi := by
  induction spans generalizing lo with
  | nil => cases hs
  | cons t rest ih =>
    obtain ⟨rfl, hle, hrest⟩ := h
    rcases List.mem_cons.1 hs with rfl | hs
    · exact ⟨Nat.le_refl _, hrest.le⟩
    · exact ⟨hle.trans (ih hrest hs).1, (ih hrest hs).2⟩

/-- No span of those that abut is reversed. -/
theorem Abut.start_le_stop {lo hi : Nat} {spans : List Span} (h : Abut lo spans hi) {s : Span} (hs : s ∈ spans) :
    s.start ≤ s.stop := by
  induction spans generalizing lo with
  | nil => cases hs
  | cons t rest ih =>
    obtain ⟨_, hle, hrest⟩ := h
    rcases List.mem_cons.1 hs with rfl | hs
    · exact hle
    · exact ih hrest hs

/-- The indices of spans that follow each other are consecutive. -/
theorem Abut.flatMap_indices {lo hi : Nat} {spans : List Span} (h : Abut lo spans hi) :
    spans.flatMap indices = List.range' lo (hi - lo) := by
  induction spans generalizing lo with
  | nil =>
    have h : lo = hi := h
    simp [h]
  | cons s rest ih =>
    obtain ⟨rfl, hle, hrest⟩ := h
    have hhi := hrest.le
    rw [List.flatMap_cons, ih hrest]
    exact indices_split hle hhi

/-- Of spans that follow each other, an earlier one ends before a later one starts. -/
theorem Abut.ordered {lo hi : Nat} {spans : List Span} (h : Abut lo spans hi) : spans.Pairwise fun s t => s.stop ≤ t.start := by
  induction spans generalizing lo with
  | nil => exact .nil
  | cons s rest ih =>
    obtain ⟨rfl, _, hrest⟩ := h
    refine .cons ?_ (ih hrest)
    intro t ht
    exact (hrest.bounds ht).1

/-- Spans still follow each other when empty ones among them are left out. -/
theorem Abut.filter {α : Type} {f : α → Span} {p : α → Bool} {lo hi : Nat} {xs : List α} (h : Abut lo (xs.map f) hi)
    (hempty : ∀ x ∈ xs, p x = false → (f x).isEmpty = true) : Abut lo ((xs.filter p).map f) hi := by
  induction xs generalizing lo with
  | nil => exact h
  | cons x xs ih =>
    obtain ⟨hstart, hle, hrest⟩ := h
    have hrest := ih hrest fun y hy => hempty y (List.mem_cons_of_mem x hy)
    cases hp : p x with
    | true =>
      rw [List.filter_cons_of_pos hp]
      exact ⟨hstart, hle, hrest⟩
    | false =>
      have hx : (f x).stop ≤ (f x).start := by simpa [isEmpty] using hempty x List.mem_cons_self hp
      rw [List.filter_cons_of_neg (by simp [hp]), ← hstart, Nat.le_antisymm hle hx]
      exact hrest

/-! ## Cutting -/

/-- Cutting after each of some ends gives spans that abut. -/
theorem go_abut (start : Nat) (ends : List Nat) (hsorted : ends.Pairwise (· < ·)) (hge : ∀ e ∈ ends, start ≤ e) :
    Abut start (cutAt.go start ends) (ends.getLast?.elim start (· + 1)) := by
  induction ends generalizing start with
  | nil => rfl
  | cons e ends ih =>
    obtain ⟨hfirst, hrest⟩ := List.pairwise_cons.1 hsorted
    have hlast : (e :: ends).getLast?.elim start (· + 1) = ends.getLast?.elim (e + 1) (· + 1) := by
      rw [List.getLast?_cons]
      cases ends.getLast? <;> rfl
    have hle : start ≤ e + 1 := (hge e List.mem_cons_self).trans (Nat.le_succ e)
    rw [hlast]
    exact ⟨rfl, hle, ih (e + 1) hrest fun e' he' => hfirst e' he'⟩

/-- A span that a cut makes is not empty, and none of the given ends lies inside it. -/
theorem mem_go {start : Nat} {ends : List Nat} {s : Span} (hsorted : ends.Pairwise (· < ·)) (hge : ∀ e ∈ ends, start ≤ e)
    (h : s ∈ cutAt.go start ends) :
    start ≤ s.start ∧ s.start < s.stop ∧ ∀ i, s.start ≤ i → i + 1 < s.stop → i ∉ ends := by
  induction ends generalizing start with
  | nil => cases h
  | cons e ends ih =>
    obtain ⟨hfirst, hrest⟩ := List.pairwise_cons.1 hsorted
    have hstart := hge e List.mem_cons_self
    rcases List.mem_cons.1 h with rfl | h
    · refine ⟨Nat.le_refl _, Nat.lt_succ_of_le hstart, fun i _ hi hmem => ?_⟩
      dsimp only at hi
      rcases List.mem_cons.1 hmem with rfl | hmem
      · omega
      · have := hfirst i hmem
        omega
    · obtain ⟨hle, hlt, hnot⟩ := ih hrest (fun e' he' => hfirst e' he') h
      refine ⟨by omega, hlt, fun i hi hi' hmem => ?_⟩
      rcases List.mem_cons.1 hmem with rfl | hmem
      · omega
      · exact hnot i hi hi' hmem

/-- The indices at which a cut ends spans. -/
theorem ends_spec (n : Nat) (lasts : List Nat) :
    ((List.range n).filter fun i => i + 1 == n || lasts.contains i).Pairwise (· < ·) ∧
      ((List.range n).filter fun i => i + 1 == n || lasts.contains i).getLast?.elim 0 (· + 1) = n := by
  refine ⟨List.pairwise_lt_range.filter _, ?_⟩
  cases n with
  | zero => rfl
  | succ n =>
    rw [List.range_succ, List.filter_append]
    simp

/-- A cut makes spans that follow each other from the start of the code to its end. -/
theorem cutAt_abut (n : Nat) (lasts : List Nat) : Abut 0 (cutAt n lasts) n := by
  obtain ⟨hsorted, hlast⟩ := ends_spec n lasts
  have h := go_abut 0 _ hsorted fun _ _ => Nat.zero_le _
  rw [hlast] at h
  exact h

/-- A cut ends a span at each given index. -/
theorem mem_cutAt {n : Nat} {lasts : List Nat} {s : Span} (h : s ∈ cutAt n lasts) :
    s.start < s.stop ∧ ∀ i, i < n → s.start ≤ i → i + 1 < s.stop → i ∉ lasts := by
  obtain ⟨_, hlt, hnot⟩ := mem_go (ends_spec n lasts).1 (fun _ _ => Nat.zero_le _) h
  refine ⟨hlt, fun i hin hi hi' hmem => hnot i hi hi' (List.mem_filter.2 ⟨List.mem_range.2 hin, ?_⟩)⟩
  simp [hmem]

/-- A span that a cut makes ends at one of the given indices or at the end. -/
theorem stop_of_mem_go {start : Nat} {ends : List Nat} {s : Span} (h : s ∈ cutAt.go start ends) : ∃ e ∈ ends, s.stop = e + 1 := by
  induction ends generalizing start with
  | nil => cases h
  | cons e ends ih =>
    rcases List.mem_cons.1 h with rfl | h
    · exact ⟨e, List.mem_cons_self, rfl⟩
    · obtain ⟨e', he', hstop⟩ := ih h
      exact ⟨e', List.mem_cons_of_mem e he', hstop⟩

/-- In a span that a cut makes, the last index is the one at which the cut was to end a span, or at the end. -/
theorem last_iff_of_mem_cutAt {n : Nat} {lasts : List Nat} {s : Span} (h : s ∈ cutAt n lasts) {i : Nat} (hi : i ∈ s) :
    i + 1 = s.stop ↔ i + 1 = n ∨ i ∈ lasts := by
  have hle : s.stop ≤ n := ((cutAt_abut n lasts).bounds h).2
  obtain ⟨hfrom, hto⟩ := hi
  constructor
  · intro hlast
    obtain ⟨e, he, hstop⟩ := stop_of_mem_go h
    obtain rfl : i = e := by omega
    simpa using (List.mem_filter.1 he).2
  · rintro (hend | hmem)
    · omega
    · by_contra hne
      exact (mem_cutAt h).2 i (by omega) hfrom (by omega) hmem

/-! ## Merging -/

/-- Joins to `opened` the spans of a list sorted by start that touch it, and so on from the first that does not. -/
def joinFrom (opened : Span) : List Span → List Span
  | [] => [opened]
  | s :: rest =>
    if s.start ≤ opened.stop then joinFrom ⟨opened.start, max opened.stop s.stop⟩ rest else opened :: joinFrom s rest

namespace Joining

/-- A span that is put after the result overwrites none that is still to be looked at. -/
theorem put_spec {j : Joining} {place : Nat} (hle : j.count ≤ place) (hlt : place < j.spans.length) (s : Span) :
    ∃ j', j.put s = some j' ∧ j'.result = j.result ++ [s] ∧ j'.count ≤ place + 1 ∧
      j'.spans.drop (place + 1) = j.spans.drop (place + 1) := by
  refine ⟨_, if_pos (hle.trans_lt hlt), ?_, Nat.succ_le_succ hle, List.drop_set_of_lt (Nat.lt_succ_of_le hle)⟩
  rw [result, result, List.take_add_one, List.take_set_of_le (Nat.le_refl _), List.getElem?_set_self (hle.trans_lt hlt)]
  rfl

/-- The spans from a place on are joined to the last one of the result as the recursion joins them, and no place is out of range. -/
theorem foldlM_step {rest : List Span} {j : Joining} {place : Nat} {before : List Span} {opened : Span}
    (hresult : j.result = before ++ [opened]) (hle : j.count ≤ place) (hrest : j.spans.drop place = rest) :
    ∃ j', (List.range' place rest.length).foldlM step j = some j' ∧ j'.result = before ++ joinFrom opened rest := by
  induction rest generalizing j place before opened with
  | nil => exact ⟨j, rfl, hresult⟩
  | cons s rest ih =>
    have hplace : j.spans[place]? = some s := by rw [← List.head?_drop, hrest]; rfl
    have hlt := (List.getElem?_eq_some_iff.1 hplace).1
    have hdrop : j.spans.drop (place + 1) = rest := by rw [← List.tail_drop, hrest]; rfl
    have hcount : j.count = before.length + 1 := by
      have hlength := congrArg List.length hresult
      rw [result, List.length_take, List.length_append, List.length_singleton] at hlength
      omega
    have hlast : j.spans[before.length]? = some opened := by
      have hget := congrArg (·[before.length]?) hresult
      simpa [result, hcount, List.getElem?_take] using hget
    have hstep : j.step place = if s.start ≤ opened.stop then
        some ⟨j.spans.set before.length ⟨opened.start, max opened.stop s.stop⟩, before.length + 1⟩ else j.put s := by
      unfold step
      simp [hplace, hcount, hlast]
    rw [List.length_cons, List.range'_succ, List.foldlM_cons, hstep, joinFrom]
    split
    · -- The last one of the result stands before the place, so the spans after the place are the same.
      refine ih ?_ (by dsimp only; omega) (by rw [← hdrop]; exact List.drop_set_of_lt (by omega))
      have hbefore : j.spans.take before.length = before := by
        have htake := congrArg (List.take before.length) hresult
        rwa [result, List.take_take, hcount, Nat.min_eq_left (Nat.le_succ _), List.take_left] at htake
      rw [result, List.take_add_one, List.take_set_of_le (Nat.le_refl _), hbefore, List.getElem?_set_self (by omega)]
      rfl
    · obtain ⟨j', hput, hresult', hle', hdrop'⟩ := put_spec hle hlt s
      obtain ⟨j'', hrun, hresult''⟩ := ih (hresult'.trans (by rw [hresult])) hle' (hdrop'.trans hdrop)
      refine ⟨j'', ?_, by rw [hresult'', List.append_assoc]; rfl⟩
      rw [hput]
      exact hrun

end Joining

/-- Merging in place is joining from the first one of the sorted spans on. -/
theorem merge_eq (spans : List Span) : merge spans =
    match (spans.filter (!·.isEmpty)).mergeSort startsBefore with
    | [] => []
    | s :: rest => joinFrom s rest := by
  unfold merge
  dsimp only
  generalize (spans.filter (!·.isEmpty)).mergeSort startsBefore = sorted
  cases sorted with
  | nil => rfl
  | cons s rest =>
    obtain ⟨j, hrun, hresult⟩ : ∃ j, (List.range' 1 rest.length).foldlM Joining.step ⟨s :: rest, 1⟩ = some j ∧
        j.result = [] ++ joinFrom s rest := Joining.foldlM_step rfl (Nat.le_refl 1) rfl
    have hfirst : Joining.step ⟨s :: rest, 0⟩ 0 = some ⟨s :: rest, 1⟩ := rfl
    rw [List.length_cons, List.range_eq_range', List.range'_succ, List.foldlM_cons, hfirst]
    change ((List.range' 1 rest.length).foldlM Joining.step ⟨s :: rest, 1⟩ |>.map Joining.result).getD [] = joinFrom s rest
    rw [hrun]
    exact hresult

/-- What joining gives: nonempty spans with gaps between them, from where the first one starts, that hold the same indices. -/
theorem joinFrom_spec (opened : Span) (spans : List Span) (hopened : opened.start < opened.stop)
    (hne : ∀ s ∈ spans, s.start < s.stop) (hsorted : (opened :: spans).Pairwise fun a b => a.start ≤ b.start) :
    (∀ s ∈ joinFrom opened spans, opened.start ≤ s.start ∧ s.start < s.stop) ∧
      (joinFrom opened spans).Pairwise (fun a b => a.stop < b.start) ∧
      ∀ i, (∃ s ∈ joinFrom opened spans, i ∈ s) ↔ i ∈ opened ∨ ∃ s ∈ spans, i ∈ s := by
  induction spans generalizing opened with
  | nil => simp [joinFrom, hopened]
  | cons s spans ih =>
    obtain ⟨hfirst, hrest⟩ := List.pairwise_cons.1 hsorted
    have hs : s.start < s.stop := hne s List.mem_cons_self
    have hos : opened.start ≤ s.start := hfirst s List.mem_cons_self
    have hne' : ∀ t ∈ spans, t.start < t.stop := fun t ht => hne t (List.mem_cons_of_mem _ ht)
    unfold joinFrom
    split
    · rename_i htouch
      have hsorted' : ((⟨opened.start, max opened.stop s.stop⟩ : Span) :: spans).Pairwise fun a b => a.start ≤ b.start :=
        List.pairwise_cons.2 ⟨fun t ht => hfirst t (List.mem_cons_of_mem _ ht), (List.pairwise_cons.1 hrest).2⟩
      have hopened' : opened.start < max opened.stop s.stop := by omega
      obtain ⟨h1, h2, h3⟩ := ih ⟨opened.start, max opened.stop s.stop⟩ hopened' hne' hsorted'
      refine ⟨h1, h2, fun i => (h3 i).trans ?_⟩
      have hjoined : i ∈ (⟨opened.start, max opened.stop s.stop⟩ : Span) ↔ i ∈ opened ∨ i ∈ s := by
        simp only [mem_def]
        omega
      rw [hjoined, or_assoc]
      simp
    · rename_i hgap
      obtain ⟨h1, h2, h3⟩ := ih s hs hne' hrest
      refine ⟨fun t ht => ?_, List.pairwise_cons.2 ⟨fun t ht => ?_, h2⟩, fun i => ?_⟩
      · rcases List.mem_cons.1 ht with rfl | ht
        · exact ⟨Nat.le_refl _, hopened⟩
        · exact ⟨hos.trans (h1 t ht).1, (h1 t ht).2⟩
      · exact (Nat.lt_of_not_le hgap).trans_le (h1 t ht).1
      · simp only [List.exists_mem_cons_iff, h3 i]

/-- Sorting by start gives ascending starts. -/
theorem mergeSort_ascending (spans : List Span) : (spans.mergeSort startsBefore).Pairwise fun a b => a.start ≤ b.start := by
  have hstarts : (spans.mergeSort startsBefore).Pairwise fun a b => startsBefore a b = true := by
    refine List.pairwise_mergeSort ?_ ?_ _
    · intro a b c hab hbc
      simp only [startsBefore, decide_eq_true_eq] at *
      omega
    · intro a b
      simp only [startsBefore, Bool.or_eq_true, decide_eq_true_eq]
      omega
  refine hstarts.imp ?_
  intro a b h
  simpa [startsBefore] using h

/-- Merged spans are not empty, have gaps between them, and hold the same indices. -/
theorem merge_spec (spans : List Span) :
    (∀ s ∈ merge spans, s.start < s.stop) ∧ (merge spans).Pairwise (fun a b => a.stop < b.start) ∧
      ∀ i, (∃ s ∈ merge spans, i ∈ s) ↔ ∃ s ∈ spans, i ∈ s := by
  have hsorted := mergeSort_ascending (spans.filter (!·.isEmpty))
  have hmem : ∀ s, s ∈ (spans.filter (!·.isEmpty)).mergeSort startsBefore ↔ s ∈ spans ∧ s.start < s.stop := by
    intro s
    simp [List.mem_mergeSort, isEmpty]
  have hcovered : ∀ i, (∃ s ∈ (spans.filter (!·.isEmpty)).mergeSort startsBefore, i ∈ s) ↔ ∃ s ∈ spans, i ∈ s := by
    refine fun i => exists_congr fun s => ?_
    rw [hmem]
    constructor
    · exact fun ⟨⟨hs, _⟩, hi⟩ => ⟨hs, hi⟩
    · exact fun ⟨hs, hi⟩ => ⟨⟨hs, Nat.lt_of_le_of_lt hi.1 hi.2⟩, hi⟩
  rw [merge_eq]
  split
  · rename_i hnil
    rw [hnil] at hcovered
    refine ⟨by simp, .nil, hcovered⟩
  · rename_i s rest hcons
    rw [hcons] at hsorted hmem hcovered
    have hne : ∀ t ∈ s :: rest, t.start < t.stop := fun t ht => ((hmem t).1 ht).2
    obtain ⟨h1, h2, h3⟩ := joinFrom_spec s rest (hne s List.mem_cons_self) (fun t ht => hne t (List.mem_cons_of_mem _ ht)) hsorted
    refine ⟨fun t ht => (h1 t ht).2, h2, fun i => (h3 i).trans ?_⟩
    rw [← hcovered i]
    simp

/-- Spans with gaps between them that hold the indices below `n` are one span, or none. -/
theorem eq_of_gaps {spans : List Span} {n : Nat} (hne : ∀ s ∈ spans, s.start < s.stop)
    (hgaps : spans.Pairwise fun a b => a.stop < b.start) (hmem : ∀ i, (∃ s ∈ spans, i ∈ s) ↔ i < n) :
    spans = [] ∧ n = 0 ∨ spans = [⟨0, n⟩] := by
  cases spans with
  | nil =>
    refine .inl ⟨rfl, ?_⟩
    have := (hmem 0).not
    simp at this
    omega
  | cons s rest =>
    have hs := hne s List.mem_cons_self
    obtain ⟨hgap, _⟩ := List.pairwise_cons.1 hgaps
    -- Whatever comes after the first span starts behind a gap, so an index in the gap is held by no span.
    have hout : ∀ i, i < s.start ∨ i = s.stop → ¬ i < n := by
      intro i hi hlt
      obtain ⟨t, ht, hit⟩ := (hmem i).2 hlt
      rw [mem_def] at hit
      rcases List.mem_cons.1 ht with rfl | ht
      · omega
      · have := hgap t ht
        omega
    have hin : s.stop - 1 < n := (hmem _).1 ⟨s, List.mem_cons_self, by rw [mem_def]; omega⟩
    have hstart : s.start = 0 := by
      by_contra h
      exact hout 0 (.inl (by omega)) (by omega)
    have hstop : s.stop = n := by
      have := hout s.stop (.inr rfl)
      omega
    have hrest : rest = [] := by
      cases rest with
      | nil => rfl
      | cons t rest =>
        have h1 := hgap t List.mem_cons_self
        have h2 := hne t (List.mem_cons_of_mem _ List.mem_cons_self)
        have h3 : t.start < n := (hmem _).1 ⟨t, List.mem_cons_of_mem _ List.mem_cons_self, by rw [mem_def]; omega⟩
        omega
    right
    rw [hrest, ← hstart, ← hstop]

/-- The total length counts the indices of all spans. -/
theorem length_flatMap_indices (spans : List Span) : (spans.flatMap indices).length = totalLength spans := by
  induction spans with
  | nil => rfl
  | cons s spans ih => rw [List.flatMap_cons, List.length_append, length_indices, ih, totalLength]

/-- Spans whose indices are the first `n` in some order tile them. -/
theorem tiles_of_perm {spans : List Span} {n : Nat} (h : (spans.flatMap indices).Perm (List.range n)) : tiles spans n = true := by
  have hsum : totalLength spans = n := by
    rw [← length_flatMap_indices, h.length_eq, List.length_range]
  obtain ⟨hne, hgaps, hmem⟩ := merge_spec spans
  have hmem' : ∀ i, (∃ s ∈ merge spans, i ∈ s) ↔ i < n := by
    intro i
    rw [hmem i, ← List.mem_range, ← h.mem_iff, List.mem_flatMap]
    simp only [mem_indices]
  unfold tiles
  rcases eq_of_gaps hne hgaps hmem' with ⟨hm, hn⟩ | hm
  · simp [hsum, hm, hn]
  · simp [hsum, hm]

/-- An index is held by exactly as many spans as it has places among their indices. -/
theorem countP_mem (spans : List Span) (i : Nat) :
    spans.countP (fun s => decide (i ∈ s)) = (spans.flatMap indices).count i := by
  induction spans with
  | nil => rfl
  | cons s spans ih =>
    have hs : s.indices.count i = if i ∈ s then 1 else 0 := by
      have hnodup : s.indices.Nodup := List.nodup_range'
      rw [hnodup.count]
      simp [mem_indices]
    rw [List.flatMap_cons, List.count_append, List.countP_cons, ih, hs, Nat.add_comm]
    simp

/-- Spans that tile the first `n` indices hold them and nothing else, in some order. -/
theorem perm_of_tiles {spans : List Span} {n : Nat} (h : tiles spans n = true) : (spans.flatMap indices).Perm (List.range n) := by
  obtain ⟨hsum, hmerged⟩ := Bool.and_eq_true_iff.1 h
  obtain ⟨_, _, hmem⟩ := merge_spec spans
  have hheld : List.range n ⊆ spans.flatMap indices := by
    intro i hi
    have hi : i < n := List.mem_range.1 hi
    rcases Bool.or_eq_true_iff.1 hmerged with hnone | hone
    · obtain ⟨_, hn⟩ := Bool.and_eq_true_iff.1 hnone
      have hn : n = 0 := eq_of_beq hn
      omega
    · have hone : merge spans = [⟨0, n⟩] := eq_of_beq hone
      obtain ⟨s, hs, his⟩ := (hmem i).1 ⟨⟨0, n⟩, by simp [hone], Nat.zero_le i, hi⟩
      exact List.mem_flatMap.2 ⟨s, hs, mem_indices.2 his⟩
  -- As many places as there are indices: none is held twice and no index is left for another number.
  refine ((List.subperm_of_subset List.nodup_range hheld).perm_of_length_le ?_).symm
  rw [length_flatMap_indices, List.length_range]
  exact Nat.le_of_eq (eq_of_beq hsum)

/-- Spans hold the first `n` indices in some order when they hold each of them once and no other index. -/
theorem perm_range_iff (spans : List Span) (n : Nat) :
    (spans.flatMap indices).Perm (List.range n) ↔
      (∀ i < n, spans.countP (fun s => decide (i ∈ s)) = 1) ∧ ∀ s ∈ spans, ∀ i ∈ s, i < n := by
  have hrange : ∀ i, (List.range n).count i = if i < n then 1 else 0 := by
    intro i
    rw [List.nodup_range.count]
    simp only [List.mem_range]
  constructor
  · intro h
    refine ⟨fun i hi => ?_, fun s hs i hi => ?_⟩
    · rw [countP_mem, h.count_eq, hrange, if_pos hi]
    · exact List.mem_range.1 (h.subset (List.mem_flatMap.2 ⟨s, hs, mem_indices.2 hi⟩))
  · rintro ⟨honce, hbelow⟩
    refine List.perm_iff_count.2 fun i => ?_
    rw [hrange]
    split
    · rename_i hi
      rw [← countP_mem, honce i hi]
    · rename_i hi
      refine List.count_eq_zero.2 fun hheld => ?_
      obtain ⟨s, hs, his⟩ := List.mem_flatMap.1 hheld
      exact hi (hbelow s hs i (mem_indices.1 his))

/-- The check of a cover is exact. Spans tile the first `n` indices when each index below `n` is in exactly one of them and none
holds an index from `n` on, whatever their order and however many of them are empty or reversed. The merged spans it looks at
stand in order of their starts, none is empty, each ends strictly before the next one starts, and together they hold the
indices that the spans held. -/
theorem tiles_iff_heldOnce_and_merge_separates (spans : List Span) (n : Nat) :
    (tiles spans n = true ↔ (∀ i < n, spans.countP (fun s => decide (i ∈ s)) = 1) ∧ ∀ s ∈ spans, ∀ i ∈ s, i < n) ∧
      (merge spans).Pairwise (fun a b => a.start < b.start) ∧
      (∀ s ∈ merge spans, s.start < s.stop) ∧
      (merge spans).Pairwise (fun a b => a.stop < b.start) ∧
      ∀ i, (∃ s ∈ merge spans, i ∈ s) ↔ ∃ s ∈ spans, i ∈ s := by
  obtain ⟨hne, hgaps, hmem⟩ := merge_spec spans
  refine ⟨?_, ?_, hne, hgaps, hmem⟩
  · rw [← perm_range_iff]
    exact ⟨perm_of_tiles, tiles_of_perm⟩
  · refine hgaps.imp_of_mem fun {a b} ha _ hab => ?_
    exact Nat.lt_trans (hne a ha) hab

end CodeLift.Span
