import CodeLift.Proofs.Coverage
import CodeLift.Proofs.Subtrees
import CodeLift.Statement.Build
import Mathlib.Data.List.Sort

/-!
# Comments list their code

`listing` gives the instructions that lie in some spans, each once and in the order of the code. The lines of a comment that stands
for a list of sections are the listing of their spans, because the spans of the sections of a method share no index. A comment
among sections stands for blocks of the layout in their order; its lines are a header and the listing of each of them.
-/

namespace CodeLift

/-- The instructions that lie in spans, each once and in the order of the code, as they are listed. -/
def listing (code : List Insn) (spans : List Span) : List String :=
  (code.zipIdx.filter fun entry => spans.any fun span => decide (entry.2 ∈ span)).map fun entry => entry.1.text

/-! ## Spans one after the other -/

namespace Span

/-- All indices of the first span are below all of the second. -/
def Before (a b : Span) : Prop := ∀ i ∈ a, ∀ j ∈ b, i < j

section

variable {α : Type} {xs : List α} {s : Span} {spans : List Span}

theorem slice_sublist (s : Span) (xs : List α) : (s.slice xs).Sublist xs :=
  (List.take_sublist _ _).trans (List.drop_sublist _ _)

theorem map_slice {β : Type} (f : α → β) (s : Span) (xs : List α) : (s.slice xs).map f = s.slice (xs.map f) := by
  rw [slice, List.map_take, List.map_drop, slice]

/-- A span of a list with its indices holds the entries whose indices it holds. -/
theorem mem_slice_zipIdx {entry : α × Nat} : entry ∈ s.slice xs.zipIdx ↔ entry ∈ xs.zipIdx ∧ entry.2 ∈ s := by
  obtain ⟨x, i⟩ := entry
  rw [List.mem_zipIdx_iff_getElem?, slice, List.mem_iff_getElem?, mem_def, length]
  constructor
  · rintro ⟨k, hk⟩
    rw [List.getElem?_take, List.getElem?_drop, List.getElem?_zipIdx] at hk
    split at hk
    · obtain ⟨y, hy, heq⟩ := Option.map_eq_some_iff.1 hk
      cases heq
      exact ⟨by simpa using hy, by omega⟩
    · cases hk
  · rintro ⟨hx, hstart, hstop⟩
    refine ⟨i - s.start, ?_⟩
    rw [List.getElem?_take_of_lt (by omega), List.getElem?_drop, List.getElem?_zipIdx, Nat.add_sub_cancel' hstart, hx]
    simp

theorem zipIdx_ascending (xs : List α) : xs.zipIdx.Pairwise fun a b => a.2 < b.2 := by
  refine List.pairwise_map.1 ?_
  rw [List.zipIdx_map_snd]
  exact List.pairwise_lt_range'

/-- Spans one after the other hold, together, what lies in any of them. -/
theorem flatMap_slice_zipIdx (h : spans.Pairwise Before) (xs : List α) :
    spans.flatMap (slice · xs.zipIdx) = xs.zipIdx.filter fun entry => spans.any fun span => decide (entry.2 ∈ span) := by
  have hirrefl : Std.Irrefl fun a b : α × Nat => a.2 < b.2 := ⟨fun a => Nat.lt_irrefl a.2⟩
  have hantisymm : Std.Antisymm fun a b : α × Nat => a.2 < b.2 := ⟨fun a b hab hba => absurd hba (Nat.lt_asymm hab)⟩
  refine List.Pairwise.eq_of_mem_iff (r := fun a b => a.2 < b.2) ?_ ((zipIdx_ascending xs).filter _) ?_
  · refine List.pairwise_flatMap.2 ⟨?_, ?_⟩
    · intro s _
      exact (zipIdx_ascending xs).sublist (slice_sublist s _)
    · refine h.imp ?_
      intro s t hbefore a ha b hb
      exact hbefore a.2 (mem_slice_zipIdx.1 ha).2 b.2 (mem_slice_zipIdx.1 hb).2
  · intro entry
    simp only [List.mem_flatMap, mem_slice_zipIdx, List.mem_filter, List.any_eq_true, decide_eq_true_eq]
    constructor
    · rintro ⟨s, hs, hentry, hin⟩
      exact ⟨hentry, s, hs, hin⟩
    · rintro ⟨hentry, s, hs, hin⟩
      exact ⟨s, hs, hentry, hin⟩

/-- Spans without a common index stand one after the other once they are sorted by their starts. -/
theorem before_mergeSort (h : (spans.flatMap indices).Nodup) : (spans.mergeSort startsBefore).Pairwise Before := by
  have hdisjoint : (spans.mergeSort startsBefore).Pairwise fun a b => ∀ i ∈ a, i ∉ b := by
    have hnodup := ((List.mergeSort_perm spans startsBefore).flatMap_right indices).nodup_iff.2 h
    refine (List.nodup_flatMap.1 hnodup).2.imp ?_
    intro a b hab i hia hib
    exact hab (mem_indices.2 hia) (mem_indices.2 hib)
  refine (mergeSort_ascending spans).imp₂ ?_ hdisjoint
  intro a b hstart hapart i hi j hj
  by_contra hle
  rw [mem_def] at hi hj
  exact hapart j (by rw [mem_def]; omega) hj

end

end Span

/-! ## Listings -/

/-- A listing is a matter of the indices that the spans hold. -/
theorem listing_congr {spans spans' : List Span} (h : ∀ i, (∃ s ∈ spans, i ∈ s) ↔ ∃ s ∈ spans', i ∈ s) (code : List Insn) :
    listing code spans = listing code spans' := by
  have htest : ∀ i, (spans.any fun span => decide (i ∈ span)) = spans'.any fun span => decide (i ∈ span) := by
    intro i
    rw [Bool.eq_iff_iff]
    simpa only [List.any_eq_true, decide_eq_true_eq] using h i
  simp only [listing, htest]

/-- Spans one after the other are listed one after the other. -/
theorem listing_eq_flatMap {spans : List Span} (h : spans.Pairwise Span.Before) (code : List Insn) :
    listing code spans = spans.flatMap fun span => (span.slice code).map Insn.text := by
  rw [listing, ← Span.flatMap_slice_zipIdx h, List.map_flatMap]
  refine List.flatMap_congr fun span _ => ?_
  have htexts : (span.slice code.zipIdx).map (fun entry => entry.1.text) =
      ((span.slice code.zipIdx).map Prod.fst).map Insn.text := by
    rw [List.map_map]
    rfl
  rw [htexts, Span.map_slice, List.zipIdx_map_fst]

/-- The lines of a comment that stands for sections without common code list that code. -/
theorem commentLines_eq_listing (src : Source) {sections : List Section} (h : (Section.covered sections).Nodup) :
    Build.commentLines src sections = listing src.method.code (Section.spansAll sections) := by
  rw [Build.commentLines, ← listing_eq_flatMap (Span.before_mergeSort h)]
  refine listing_congr ?_ _
  intro i
  simp only [List.mem_mergeSort]

/-! ## Comments among sections -/

/-- Each comment among sections stands for blocks of their region, in their order. -/
def ListsBlocks (subject : Subject) : RegionProperty := fun _ r sections =>
  ∀ lines spans, Section.comment lines spans ∈ Section.subtrees sections →
    ∃ inner : Region, inner.blocks.Sublist r.blocks ∧ Section.comment lines spans = commentSection subject inner

section

variable {subject : Subject} {around : List Breakable} {r : Region} {index : Nat} {lines : List String} {spans : List Span}

/-- What an inner region has become, if that stands for blocks in the order of a region around it. -/
theorem Inner.exists_comment {inner : Region} {sections : List Section}
    (h : Inner subject (ListsBlocks subject) around inner sections) (hsub : inner.blocks.Sublist r.blocks)
    (hmem : Section.comment lines spans ∈ Section.subtrees sections) :
    ∃ inner : Region, inner.blocks.Sublist r.blocks ∧ Section.comment lines spans = commentSection subject inner := by
  rcases h with h | ⟨_, rfl⟩
  · obtain ⟨inner', hinner, heq⟩ := h lines spans hmem
    exact ⟨inner', hinner.trans hsub, heq⟩
  · refine ⟨inner, hsub, ?_⟩
    simpa [commentSection] using hmem

theorem CasesTaken.exists_comment {s : Recognizer.SwitchLayout} {stop : Nat} {places : List Nat}
    {cases : List (Case (List Section))} (h : CasesTaken subject (ListsBlocks subject) around r s stop places cases)
    (hmem : Section.comment lines spans ∈ Section.subtreesCases cases) :
    ∃ inner : Region, inner.blocks.Sublist r.blocks ∧ Section.comment lines spans = commentSection subject inner := by
  induction h with
  | nil => cases hmem
  | cons _ _ hbody _ ih =>
    rcases List.mem_append.1 hmem with hmem | hmem
    · exact hbody.exists_comment (r.sub_sublist _ _ _) hmem
    · exact ih hmem

theorem ClausesTaken.exists_comment {exit : Option BlockId} {pending : List Marker} {cursor stop : Nat}
    {clauses : List (CatchSection (List Section))}
    (h : ClausesTaken subject (ListsBlocks subject) around r exit pending cursor clauses stop)
    (hmem : Section.comment lines spans ∈ Section.subtreesClauses clauses) :
    ∃ inner : Region, inner.blocks.Sublist r.blocks ∧ Section.comment lines spans = commentSection subject inner := by
  induction h with
  | nil => cases hmem
  | cons _ hbody _ ih =>
    rcases List.mem_append.1 hmem with hmem | hmem
    · exact hbody.exists_comment (r.sub_sublist _ _ _) hmem
    · exact ih hmem

theorem comment_not_mem_bodySections (span : Span) : Section.comment lines spans ∉ Section.subtrees (bodySections span) := by
  unfold bodySections
  split
  · simp
  · simp

theorem comment_not_mem_jump {g : Graph} {target : BlockId} {jump : Option Nat} {depth loops : Nat} {s : Section}
    (h : resolveFrom g target jump depth loops around = some s) : Section.comment lines spans ∉ s.subtree := by
  rcases resolveFrom_isJump h with ⟨_, rfl⟩ | ⟨_, rfl⟩
  · simp
  · simp

/-- The comments in what a step takes are those of its inner regions. -/
theorem Taken.listsBlocks {found : Match} (h : Taken subject (ListsBlocks subject) around r index found) :
    ListsBlocks subject around r found.sections := by
  intro lines spans hmem
  cases h with
  | straight => exact absurd hmem (comment_not_mem_bodySections _)
  | falling => exact absurd hmem (comment_not_mem_bodySections _)
  | jumping _ _ _ hjump =>
    rw [Section.subtrees_append, List.mem_append] at hmem
    rcases hmem with hmem | hmem
    · exact absurd hmem (comment_not_mem_bodySections _)
    · exact absurd hmem (by simpa using comment_not_mem_jump hjump)
  | leaving _ _ hjump => exact absurd hmem (by simpa using comment_not_mem_jump hjump)
  | branch _ _ _ hthen => exact hthen.exists_comment (r.sub_sublist _ _ _) (by simpa using hmem)
  | branchElse _ _ _ hthen helsePart =>
    simp only [Section.subtrees, Section.subtree, List.mem_append, List.mem_cons, reduceCtorEq, false_or, List.not_mem_nil,
      or_false] at hmem
    rcases hmem with hmem | hmem
    · exact hthen.exists_comment (r.sub_sublist _ _ _) hmem
    · exact helsePart.exists_comment (r.sub_sublist _ _ _) hmem
  | loop _ _ hbody => exact hbody.exists_comment (r.sub_sublist _ _ _) (by simpa using hmem)
  | entryLoop _ hbody => exact hbody.exists_comment (r.sub_sublist _ _ _) (by simpa using hmem)
  | entryLoopUpdate _ _ _ _ _ hbody hupdate =>
    simp only [Section.subtrees, Section.subtree, List.mem_append, List.mem_cons, reduceCtorEq, false_or, List.not_mem_nil,
      or_false] at hmem
    rcases hmem with hmem | hmem
    · exact hbody.exists_comment (r.sub_sublist _ _ _) hmem
    · exact Inner.exists_comment (.inl hupdate) (r.sub_sublist _ _ _) hmem
  | @switch _ s _ _ _ hcases =>
    simp only [Section.subtrees, Section.subtree, Section.subtreesCases_append, List.mem_append, List.mem_cons, reduceCtorEq,
      false_or, List.not_mem_nil, or_false] at hmem
    rcases hmem with hmem | hmem
    · exact hcases.exists_comment hmem
    · unfold Recognizer.SwitchLayout.skippedCases at hmem
      split at hmem
      · simp at hmem
      · simp at hmem
  | tryCatch _ _ hshape hbody hclauses =>
    simp only [Section.subtrees, Section.subtree, List.mem_append, List.mem_cons, reduceCtorEq, false_or, List.not_mem_nil,
      or_false] at hmem
    obtain ⟨last, stop, tail, hat⟩ := Recognizer.protectedShape_cases hshape
    rcases hmem with hmem | hmem
    · exact hbody.exists_comment hat.body_sublist hmem
    · exact hclauses.exists_comment hmem

theorem Scanned.listsBlocks {sections : List Section} (h : Scanned subject (ListsBlocks subject) around r index sections) :
    ListsBlocks subject around r sections := by
  induction h with
  | done => exact fun _ _ hmem => absurd hmem (by simp)
  | step htaken _ _ ih =>
    intro lines spans hmem
    rw [Section.subtrees_append, List.mem_append] at hmem
    exact hmem.elim (htaken.listsBlocks lines spans) (ih lines spans)

end

/-- The lines and spans of a comment that stands for blocks of the layout, in their order. The spans are those of the blocks that
hold code. There is one header for each block, followed by the listing of its code; without the headers, what is left lists the code
of all spans. -/
structure Graph.ListedAs (g : Graph) (code : List Insn) (blocks : List BlockId) (lines : List String) (spans : List Span) :
    Prop where
  sublist : blocks.Sublist g.order
  spans_eq : spans = (blocks.map g.spanOf).filter (!·.isEmpty)
  lines_eq : lines = blocks.flatMap fun id => g.header id :: listing code [g.spanOf id]
  listing_eq : (blocks.flatMap fun id => listing code [g.spanOf id]) = listing code spans

theorem Graph.Built.listedAs {subject : Subject} (hb : Graph.Built subject.toSource subject.graph) {r : Region}
    (hsub : r.blocks.Sublist subject.graph.order) {lines : List String} {spans : List Span}
    (h : Section.comment lines spans = commentSection subject r) :
    subject.graph.ListedAs subject.method.code r.blocks lines spans := by
  cases h
  have hsingle : ∀ span : Span, listing subject.method.code [span] = (span.slice subject.method.code).map Insn.text := by
    intro span
    rw [listing_eq_flatMap (List.pairwise_singleton _ _)]
    simp
  refine ⟨hsub, rfl, ?_, ?_⟩
  · simp only [hsingle]
  · have hbefore : (r.blocks.map subject.graph.spanOf).Pairwise Span.Before := by
      refine (hb.laidOut.abut.ordered.sublist (hsub.map _)).imp ?_
      intro s t hst i hi j hj
      exact Nat.lt_of_lt_of_le hi.2 (hst.trans hj.1)
    have hheld : ∀ i, (∃ s ∈ (r.blocks.map subject.graph.spanOf).filter (!·.isEmpty), i ∈ s) ↔
        ∃ s ∈ r.blocks.map subject.graph.spanOf, i ∈ s := by
      intro i
      refine exists_congr fun s => ?_
      rw [List.mem_filter]
      constructor
      · exact fun ⟨⟨hs, _⟩, hi⟩ => ⟨hs, hi⟩
      · intro ⟨hs, hi⟩
        have hlt : s.start < s.stop := Nat.lt_of_le_of_lt hi.1 hi.2
        exact ⟨⟨hs, by simpa [Span.isEmpty] using hlt⟩, hi⟩
    rw [listing_congr hheld, listing_eq_flatMap hbefore, List.flatMap_map]
    simp only [hsingle]

/-- Each comment among the sections of a method lists blocks. -/
theorem Subject.listedAs_of_sections {subject : Subject} (hb : Graph.Built subject.toSource subject.graph)
    {recognizers : List Recognizer} (hrec : ∀ recognizer ∈ recognizers, recognizer ∈ Recognizer.all) {s t : Session}
    {sections : List Section} (h : subject.sections recognizers s = .ok sections t) {lines : List String} {spans : List Span}
    (hmem : Section.comment lines spans ∈ Section.subtrees sections) :
    ∃ blocks, subject.graph.ListedAs subject.method.code blocks lines spans := by
  have hinner := Subject.inner_of_sections (P := ListsBlocks subject) (fun _ _ _ => Scanned.listsBlocks) hrec h
  obtain ⟨r, hsub, heq⟩ := hinner.exists_comment (List.Sublist.refl _) hmem
  exact ⟨r.blocks, hb.listedAs hsub heq⟩

end CodeLift
