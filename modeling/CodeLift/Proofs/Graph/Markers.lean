import CodeLift.Proofs.Graph.Link
import CodeLift.Proofs.Span

/-!
# Laying out markers

The producer of handlers puts three markers into the layout for each entry of the table, each right before a code block. The
layout stays a permutation of all blocks whose code follows each other, since a marker stands before the code it marks and has
none of its own.
-/

namespace CodeLift

namespace Graph

/-- A layout with another block in it holds that block and all others. -/
theorem insertBefore_perm {id target : BlockId} {order order' : List BlockId} (h : insertBefore id target order = some order') :
    order'.Perm (id :: order) := by
  induction order generalizing order' with
  | nil => cases h
  | cons b rest ih =>
    unfold insertBefore at h
    split at h
    · cases h
      exact .refl _
    · obtain ⟨rest', hrest, rfl⟩ := Option.map_eq_some_iff.1 h
      exact ((ih hrest).cons b).trans (.swap id b rest)

/-- Putting a block into a layout leaves the others in their order. -/
theorem insertBefore_filter {p : BlockId → Bool} {id target : BlockId} {order order' : List BlockId} (hid : p id = false)
    (h : insertBefore id target order = some order') : order'.filter p = order.filter p := by
  induction order generalizing order' with
  | nil => cases h
  | cons b rest ih =>
    unfold insertBefore at h
    split at h
    · cases h
      rw [List.filter_cons, hid]
      rfl
    · obtain ⟨rest', hrest, rfl⟩ := Option.map_eq_some_iff.1 h
      rw [List.filter_cons, List.filter_cons, ih hrest]

/-- Code that follows each other still does with a block without code put before one of them. -/
theorem insertBefore_abut {span : BlockId → Span} {id target : BlockId} {order order' : List BlockId} {lo hi : Nat}
    (h : insertBefore id target order = some order') (hid : span id = .before (span target).start)
    (habut : Span.Abut lo (order.map span) hi) : Span.Abut lo (order'.map span) hi := by
  induction order generalizing order' lo with
  | nil => cases h
  | cons b rest ih =>
    unfold insertBefore at h
    split at h
    · rename_i hb
      cases h
      have hstart : (span b).start = lo := habut.1
      rw [List.map_cons, hid, ← hb, hstart]
      exact ⟨rfl, Nat.le_refl _, habut⟩
    · obtain ⟨rest', hrest, rfl⟩ := Option.map_eq_some_iff.1 h
      exact ⟨habut.1, habut.2.1, ih hrest habut.2.2⟩

/-- The layout holds every block once, the code blocks in ascending order, and the code of its blocks follows each other up to the
end of the code. -/
structure LaidOut (g : Graph) (n : Nat) : Prop where
  codeBlocks_le : g.codeBlocks ≤ g.blocks.size
  perm : g.order.Perm (List.range g.blocks.size)
  ascending : g.order.filter (fun id : Nat => decide (id < g.codeBlocks)) = List.range g.codeBlocks
  abut : Span.Abut 0 (g.order.map g.spanOf) n

/-- A graph with all blocks of another, under their names. -/
structure Extends (g h : Graph) : Prop where
  codeBlocks : h.codeBlocks = g.codeBlocks
  size : g.blocks.size ≤ h.blocks.size
  block? : ∀ id : Nat, id < g.blocks.size → h.block? id = g.block? id

theorem Extends.refl (g : Graph) : g.Extends g := ⟨rfl, Nat.le_refl _, fun _ _ => rfl⟩

theorem Extends.trans {g h k : Graph} (hgh : g.Extends h) (hhk : h.Extends k) : g.Extends k :=
  ⟨hhk.codeBlocks.trans hgh.codeBlocks, hgh.size.trans hhk.size, fun id hid =>
    (hhk.block? id (hid.trans_le hgh.size)).trans (hgh.block? id hid)⟩

theorem Extends.spanOf {g h : Graph} (hgh : g.Extends h) {id : Nat} (hid : id < g.blocks.size) : h.spanOf id = g.spanOf id := by
  rw [Graph.spanOf, Graph.spanOf, hgh.block? id hid]

theorem Extends.sameCode {g h : Graph} (hgh : g.Extends h) (hle : g.codeBlocks ≤ g.blocks.size) : g.SameCode h := by
  refine ⟨hgh.codeBlocks, congrArg _ (List.ext_getElem? fun i => ?_)⟩
  rw [List.getElem?_take, List.getElem?_take, Array.getElem?_toList, Array.getElem?_toList]
  split
  · rename_i hi
    exact hgh.block? i (hi.trans_le hle)
  · rfl

/-- One more marker, before a code block. -/
theorem addMarker_spec {g h : Graph} {n : Nat} {mark : Marker} {target : Nat} (hg : g.LaidOut n) (htarget : target < g.codeBlocks)
    (hadd : g.addMarker mark target = .ok h) :
    h.LaidOut n ∧ g.Extends h ∧ h.blocks.size = g.blocks.size + 1 ∧
      h.block? g.blocks.size = some ⟨.before (g.spanOf target).start, .marker mark⟩ := by
  unfold addMarker at hadd
  split at hadd
  · rename_i b order hb horder
    cases hadd
    have hspan : g.spanOf target = b.span := by rw [spanOf, hb]; rfl
    have hpush : ∀ id : Nat, (g.blocks.push ⟨.before b.span.start, .marker mark⟩)[id]? =
        if id = g.blocks.size then some ⟨.before b.span.start, .marker mark⟩ else g.blocks[id]? := fun id => Array.getElem?_push
    have hext : g.Extends { g with blocks := g.blocks.push ⟨.before b.span.start, .marker mark⟩, order } := by
      refine ⟨rfl, by rw [Array.size_push]; exact Nat.le_succ _, fun id hid => ?_⟩
      rw [block?, hpush, if_neg (by omega)]
      rfl
    have hnew : block? { g with blocks := g.blocks.push ⟨.before b.span.start, .marker mark⟩, order } g.blocks.size =
        some ⟨.before b.span.start, .marker mark⟩ := by
      rw [block?, hpush, if_pos rfl]
    refine ⟨⟨?_, ?_, ?_, ?_⟩, hext, Array.size_push _, by rw [hnew, hspan]⟩
    · rw [Array.size_push]
      exact hg.codeBlocks_le.trans (Nat.le_succ _)
    · rw [Array.size_push, List.range_succ]
      exact (insertBefore_perm horder).trans ((hg.perm.cons _).trans (List.perm_append_singleton _ _).symm)
    · rw [← hg.ascending]
      exact insertBefore_filter (decide_eq_false (Nat.not_lt.2 hg.codeBlocks_le)) horder
    · have hsame : g.order.map (spanOf { g with blocks := g.blocks.push ⟨.before b.span.start, .marker mark⟩, order }) =
          g.order.map g.spanOf :=
        List.map_congr_left fun id hid => hext.spanOf (List.mem_range.1 (hg.perm.mem_iff.1 hid))
      refine insertBefore_abut horder ?_ (by rw [hsame]; exact hg.abut)
      rw [hext.spanOf (htarget.trans_le hg.codeBlocks_le), hspan, spanOf, hnew]
      rfl
  · cases hadd

/-- The three markers of an entry, the first of which has the given name, and the code blocks they stand before. -/
structure Triple (g : Graph) (first entry : Nat) (start stop handler : Nat) : Prop where
  atStart : g.block? first =
    some ⟨.before (g.spanOf start).start, .marker ⟨.tryStart, entry, first, first + 1, first + 2⟩⟩
  atStop : g.block? (first + 1) =
    some ⟨.before (g.spanOf stop).start, .marker ⟨.tryEnd, entry, first, first + 1, first + 2⟩⟩
  atHandler : g.block? (first + 2) =
    some ⟨.before (g.spanOf handler).start, .marker ⟨.handler, entry, first, first + 1, first + 2⟩⟩

theorem lt_size_of_block? {g : Graph} {id : Nat} {b : Block} (h : g.block? id = some b) : id < g.blocks.size :=
  (Array.getElem?_eq_some_iff.1 h).1

theorem Triple.extend {g h : Graph} {first entry start stop handler : Nat} (ht : g.Triple first entry start stop handler)
    (hgh : g.Extends h) (hstart : start < g.blocks.size) (hstop : stop < g.blocks.size) (hhandler : handler < g.blocks.size) :
    h.Triple first entry start stop handler := by
  refine ⟨?_, ?_, ?_⟩
  · rw [hgh.block? _ (lt_size_of_block? ht.atStart), hgh.spanOf hstart, ht.atStart]
  · rw [hgh.block? _ (lt_size_of_block? ht.atStop), hgh.spanOf hstop, ht.atStop]
  · rw [hgh.block? _ (lt_size_of_block? ht.atHandler), hgh.spanOf hhandler, ht.atHandler]

/-- The markers of one more entry. -/
theorem addTriple_spec {g h : Graph} {n entry start stop handler : Nat} (hg : g.LaidOut n) (hstart : start < g.codeBlocks)
    (hstop : stop < g.codeBlocks) (hhandler : handler < g.codeBlocks) (hadd : g.addTriple entry start stop handler = .ok h) :
    h.LaidOut n ∧ g.Extends h ∧ h.blocks.size = g.blocks.size + 3 ∧ h.Triple g.blocks.size entry start stop handler := by
  obtain ⟨g₁, h₁, hadd⟩ := bind_eq_ok.1 hadd
  obtain ⟨g₂, h₂, hadd⟩ := bind_eq_ok.1 hadd
  obtain ⟨hlaid₁, hext₁, hsize₁, hnew₁⟩ := addMarker_spec hg hstart h₁
  obtain ⟨hlaid₂, hext₂, hsize₂, hnew₂⟩ := addMarker_spec hlaid₁ (by rw [hext₁.codeBlocks]; exact hstop) h₂
  obtain ⟨hlaid₃, hext₃, hsize₃, hnew₃⟩ := addMarker_spec hlaid₂ (by rw [hext₂.codeBlocks, hext₁.codeBlocks]; exact hhandler) hadd
  have hle := hg.codeBlocks_le
  have hext := hext₁.trans (hext₂.trans hext₃)
  refine ⟨hlaid₃, hext, by omega, ⟨?_, ?_, ?_⟩⟩
  · rw [(hext₂.trans hext₃).block? _ (by omega), hnew₁, hext.spanOf (by omega)]
  · rw [hsize₁] at hnew₂
    rw [hext₃.block? _ (by omega), hnew₂, hext.spanOf (by omega), hext₁.spanOf (by omega)]
  · rw [hsize₂, hsize₁] at hnew₃
    rw [hnew₃, hext.spanOf (by omega), (hext₁.trans hext₂).spanOf (by omega)]

/-- The markers of several entries, each added in turn. -/
theorem foldlM_addTriple_spec {g h : Graph} {n : Nat} {work : List ((Nat × Nat × Nat) × Nat)} (hg : g.LaidOut n)
    (hwork : ∀ item ∈ work, item.1.1 < g.codeBlocks ∧ item.1.2.1 < g.codeBlocks ∧ item.1.2.2 < g.codeBlocks)
    (hfold : work.foldlM (fun g ((start, stop, handler), entry) => g.addTriple entry start stop handler) g = .ok h) :
    h.LaidOut n ∧ g.Extends h ∧ h.blocks.size = g.blocks.size + 3 * work.length ∧
      ∀ (i : Nat) start stop handler entry, work[i]? = some ((start, stop, handler), entry) →
        h.Triple (g.blocks.size + 3 * i) entry start stop handler := by
  induction work generalizing g with
  | nil =>
    cases hfold
    exact ⟨hg, .refl _, rfl, fun i _ _ _ _ hi => by simp at hi⟩
  | cons item work ih =>
    obtain ⟨⟨start, stop, handler⟩, entry⟩ := item
    obtain ⟨hstart, hstop, hhandler⟩ := hwork _ List.mem_cons_self
    dsimp only at hstart hstop hhandler
    rw [List.foldlM_cons] at hfold
    obtain ⟨g', hadd, hfold⟩ := bind_eq_ok.1 hfold
    obtain ⟨hlaid, hext, hsize, htriple⟩ := addTriple_spec hg hstart hstop hhandler hadd
    have hwork' : ∀ item ∈ work, item.1.1 < g'.codeBlocks ∧ item.1.2.1 < g'.codeBlocks ∧ item.1.2.2 < g'.codeBlocks := by
      rw [hext.codeBlocks]
      exact fun item hitem => hwork item (List.mem_cons_of_mem _ hitem)
    obtain ⟨hlaid', hext', hsize', htriples⟩ := ih hlaid hwork' hfold
    have hle := hg.codeBlocks_le
    refine ⟨hlaid', hext.trans hext', by rw [List.length_cons]; omega, fun i start' stop' handler' entry' hi => ?_⟩
    cases i with
    | zero =>
      cases hi
      exact htriple.extend hext' (by omega) (by omega) (by omega)
    | succ i =>
      have := htriples i start' stop' handler' entry' hi
      rw [hsize, show g.blocks.size + 3 + 3 * i = g.blocks.size + 3 * (i + 1) by omega] at this
      exact this

end Graph

/-- The producer of handlers finds the blocks of the labels of each entry and adds the markers of the last entry first. -/
theorem Producer.tries_link_cases {src : Source} {g h : Graph} (hlink : tries.link src g = .ok h) :
    ∃ targets : List (Nat × Nat × Nat),
      List.Forall₂ (fun (entry : HandlerEntry) (target : Nat × Nat × Nat) => src.Starts g entry.start target.1 ∧
        src.Starts g entry.stop target.2.1 ∧ src.Starts g entry.handler target.2.2) src.method.handlerTable targets ∧
      (∀ item ∈ targets.zipIdx.reverse, item.1.1 < g.codeBlocks ∧ item.1.2.1 < g.codeBlocks ∧ item.1.2.2 < g.codeBlocks) ∧
      targets.zipIdx.reverse.foldlM (fun g ((start, stop, handler), entry) => g.addTriple entry start stop handler) g = .ok h := by
  obtain ⟨targets, htargets, hfold⟩ := bind_eq_ok.1 hlink
  have hforall : List.Forall₂ (fun (entry : HandlerEntry) (target : Nat × Nat × Nat) => src.Starts g entry.start target.1 ∧
      src.Starts g entry.stop target.2.1 ∧ src.Starts g entry.handler target.2.2) src.method.handlerTable targets := by
    refine (forall₂_of_mapM_ok htargets).imp fun entry target h => ?_
    obtain ⟨start, hstart, h⟩ := bind_eq_ok.1 h
    obtain ⟨stop, hstop, h⟩ := bind_eq_ok.1 h
    obtain ⟨handler, hhandler, h⟩ := bind_eq_ok.1 h
    cases h
    exact ⟨Source.starts_of_labelBlock hstart, Source.starts_of_labelBlock hstop, Source.starts_of_labelBlock hhandler⟩
  refine ⟨targets, hforall, ?_, hfold⟩
  intro item hitem
  obtain ⟨i, hi⟩ := List.mem_iff_getElem?.1 (List.fst_mem_of_mem_zipIdx (List.mem_reverse.1 hitem))
  obtain ⟨entry, _, hstarts⟩ := exists_of_forall₂ hforall.flip hi
  exact ⟨hstarts.1.1, hstarts.2.1.1, hstarts.2.2.1⟩

/-- The producer of handlers adds the markers of the entries, those of the last entry first, and nothing else. -/
theorem Producer.tries_link {src : Source} {g h : Graph} {n : Nat} (hg : g.LaidOut n) (hlink : tries.link src g = .ok h) :
    h.LaidOut n ∧ g.Extends h ∧ h.blocks.size = g.blocks.size + 3 * src.method.handlerTable.length ∧
      ∀ (e : Nat) entry, src.method.handlerTable[e]? = some entry → ∃ start stop handler,
        src.Starts g entry.start start ∧ src.Starts g entry.stop stop ∧ src.Starts g entry.handler handler ∧
          h.Triple (g.blocks.size + 3 * (src.method.handlerTable.length - 1 - e)) e start stop handler := by
  obtain ⟨targets, hforall, hwork, hfold⟩ := Producer.tries_link_cases hlink
  have hlen := hforall.length_eq
  obtain ⟨hlaid, hext, hsize, htriples⟩ := Graph.foldlM_addTriple_spec hg hwork hfold
  rw [List.length_reverse, List.length_zipIdx, ← hlen] at hsize
  refine ⟨hlaid, hext, hsize, fun e entry he => ?_⟩
  have hlt := (List.getElem?_eq_some_iff.1 he).1
  obtain ⟨⟨start, stop, handler⟩, htarget, hstarts⟩ := exists_of_forall₂ hforall he
  refine ⟨start, stop, handler, hstarts.1, hstarts.2.1, hstarts.2.2, htriples _ _ _ _ _ ?_⟩
  rw [List.getElem?_reverse (by rw [List.length_zipIdx]; omega), List.length_zipIdx, List.getElem?_zipIdx, ← hlen,
    show src.method.handlerTable.length - 1 - (src.method.handlerTable.length - 1 - e) = e by omega, htarget]
  simp

end CodeLift
