import CodeLift.Proofs.Graph.Refinement

/-!
# Where markers stand in the layout

The layout of a built graph goes through the code blocks in order. Right before each of them stand the markers of the entries of
the table of handlers that name its first instruction, those of the last entry first. The markers are put there one by one, each
right before its block and so after all that stand before that block already.
-/

namespace CodeLift

/-- The block that a marker names as the marker of a kind of its entry. -/
def Marker.named (mark : Marker) : MarkerKind → BlockId
  | .tryStart => mark.start
  | .tryEnd => mark.stop
  | .handler => mark.handler

/-- The kinds of markers, in the order in which the markers of an entry stand before a block. -/
def MarkerKind.all : List MarkerKind := [.tryStart, .tryEnd, .handler]

/-- The markers for the labels at an index: the places of their entries in the table, and their kinds. Those of the last entry come
first. -/
def HandlerEntry.marksAt (code : List Insn) (table : List HandlerEntry) (index : Nat) : List (Nat × MarkerKind) :=
  table.zipIdx.reverse.flatMap fun (entry, e) =>
    (MarkerKind.all.filter fun kind => code[index]? == some (.label (entry.labelOf kind))).map (e, ·)

namespace Graph

/-- The blocks that stand between a code block and the code block before it. -/
def markersBefore (g : Graph) (b : BlockId) : List BlockId :=
  ((g.order.takeWhile (· != b)).reverse.takeWhile fun id : Nat => decide (g.codeBlocks ≤ id)).reverse

/-- The markers of the table of handlers stand where the labels of its entries are. -/
structure LaysOutMarkers (g : Graph) (code : List Insn) (table : List HandlerEntry) : Prop where
  perm : g.order.Perm (List.range g.blocks.size)
  ascending : g.order.filter (fun id : Nat => decide (id < g.codeBlocks)) = List.range g.codeBlocks
  /-- The last block of the layout holds code, if any block does. -/
  last : 0 < g.codeBlocks → ∃ b : Nat, g.order.getLast? = some b ∧ b < g.codeBlocks
  before : ∀ b : Nat, b < g.codeBlocks →
    (g.markersBefore b).map (fun id => (g.marker? id).map fun mark => (mark.entry, mark.kind)) =
      (HandlerEntry.marksAt code table (g.spanOf b).start).map some
  empty : ∀ b : Nat, b < g.codeBlocks → ∀ id ∈ g.markersBefore b, g.spanOf id = .before (g.spanOf b).start
  /-- A marker names the one marker of each kind that its entry has. -/
  names : ∀ id mark, g.marker? id = some mark → ∀ other kind,
    (∃ mark', g.marker? other = some mark' ∧ mark'.entry = mark.entry ∧ mark'.kind = kind) ↔ other = mark.named kind
  position : ∀ (i : Nat) (id : BlockId), g.order[i]? = some id ↔ id < g.blocks.size ∧ g.position id = i

/-! ## Layouts by code block -/

/-- The layout in which each code block follows the blocks given for it. -/
def layoutOf (before : Nat → List BlockId) (count : Nat) : List BlockId :=
  (List.range count).flatMap fun b => before b ++ [b]

theorem layoutOf_succ (before : Nat → List BlockId) (count : Nat) :
    layoutOf before (count + 1) = layoutOf before count ++ (before count ++ [count]) := by
  simp [layoutOf, List.range_succ]

theorem layoutOf_nil (count : Nat) : layoutOf (fun _ => []) count = List.range count := by
  simp [layoutOf]

theorem mem_layoutOf {before : Nat → List BlockId} {count : Nat} {id : BlockId} :
    id ∈ layoutOf before count ↔ ∃ b, b < count ∧ (id ∈ before b ∨ id = b) := by
  simp [layoutOf]

/-- A layout up to a code block: the code blocks before it, with what stands before them, and what stands before the block. -/
theorem layoutOf_split (before : Nat → List BlockId) {b count : Nat} (hb : b < count) :
    ∃ rest, layoutOf before count = (layoutOf before b ++ before b) ++ b :: rest ∧
      ∀ before', (∀ c, c ≠ b → before' c = before c) →
        layoutOf before' count = (layoutOf before b ++ before' b) ++ b :: rest := by
  induction count with
  | zero => exact absurd hb (Nat.not_lt_zero b)
  | succ count ih =>
    rcases Nat.lt_succ_iff_lt_or_eq.1 hb with hlt | rfl
    · obtain ⟨rest, hsplit, hchange⟩ := ih hlt
      refine ⟨rest ++ (before count ++ [count]), by simp [layoutOf_succ, hsplit], fun before' h => ?_⟩
      rw [layoutOf_succ, hchange before' h, h count (by omega)]
      simp
    · refine ⟨[], by simp [layoutOf_succ], fun before' h => ?_⟩
      have hsame : layoutOf before' b = layoutOf before b := by
        unfold layoutOf
        refine List.flatMap_congr fun c hc => ?_
        rw [h c (Nat.ne_of_lt (List.mem_range.1 hc))]
      rw [layoutOf_succ, hsame, ← List.append_assoc]

theorem insertBefore_append {id target : BlockId} {front rest : List BlockId} (h : target ∉ front) :
    insertBefore id target (front ++ target :: rest) = some (front ++ id :: target :: rest) := by
  induction front with
  | nil => simp [insertBefore]
  | cons b front ih =>
    have hne : b ≠ target := fun heq => h (heq ▸ List.mem_cons_self)
    have hfront : target ∉ front := fun hmem => h (List.mem_cons_of_mem b hmem)
    simp [insertBefore, hne, ih hfront]

/-- The layout of a graph: each code block follows the markers given for it. -/
structure Arranged (g : Graph) (before : Nat → List BlockId) : Prop where
  order : g.order = layoutOf before g.codeBlocks
  markers : ∀ b, ∀ id ∈ before b, g.codeBlocks ≤ id

section

variable {g h : Graph} {before : Nat → List BlockId}

theorem Arranged.not_mem (hg : g.Arranged before) {b : Nat} (hb : b < g.codeBlocks) :
    b ∉ layoutOf before b ++ before b := by
  intro hmem
  rcases List.mem_append.1 hmem with hmem | hmem
  · obtain ⟨c, hc, hmarker | heq⟩ := mem_layoutOf.1 hmem
    · exact Nat.not_le_of_lt hb (hg.markers c b hmarker)
    · exact absurd heq (Nat.ne_of_gt hc)
  · exact Nat.not_le_of_lt hb (hg.markers b b hmem)

/-- A marker goes behind all that stand before its block already. -/
theorem Arranged.addMarker {mark : Marker} {target : Nat} (hg : g.Arranged before) (hle : g.codeBlocks ≤ g.blocks.size)
    (htarget : target < g.codeBlocks) (hadd : g.addMarker mark target = .ok h) :
    h.Arranged fun b => before b ++ if target = b then [g.blocks.size] else [] := by
  obtain ⟨rest, hsplit, hchange⟩ := layoutOf_split before htarget
  have hinsert : insertBefore g.blocks.size target g.order =
      some (layoutOf (fun b => before b ++ if target = b then [g.blocks.size] else []) g.codeBlocks) := by
    rw [hg.order, hsplit, insertBefore_append (hg.not_mem htarget), hchange _ fun c hc => by simp [Ne.symm hc]]
    simp
  unfold Graph.addMarker at hadd
  split at hadd
  · rename_i b order hb horder
    rw [hinsert] at horder
    cases hadd
    cases horder
    refine ⟨rfl, fun b id hid => ?_⟩
    rcases List.mem_append.1 hid with hid | hid
    · exact hg.markers b id hid
    · by_cases hb : target = b
      · simp only [hb, if_true, List.mem_singleton] at hid
        exact hid ▸ hle
      · simp [hb] at hid
  · cases hadd

/-- The markers of one entry that stand before a code block, given the name of the first one and the blocks they belong to. -/
def marksOf (first : Nat) (targets : Nat × Nat × Nat) (b : Nat) : List BlockId :=
  (if targets.1 = b then [first] else []) ++ (if targets.2.1 = b then [first + 1] else []) ++
    if targets.2.2 = b then [first + 2] else []

theorem Arranged.addTriple {n entry start stop handler : Nat} (hg : g.Arranged before) (hlaid : g.LaidOut n)
    (hstart : start < g.codeBlocks) (hstop : stop < g.codeBlocks) (hhandler : handler < g.codeBlocks)
    (hadd : g.addTriple entry start stop handler = .ok h) :
    h.Arranged fun b => before b ++ marksOf g.blocks.size (start, stop, handler) b := by
  obtain ⟨g₁, h₁, hadd⟩ := bind_eq_ok.1 hadd
  obtain ⟨g₂, h₂, hadd⟩ := bind_eq_ok.1 hadd
  obtain ⟨hlaid₁, hext₁, hsize₁, _⟩ := addMarker_spec hlaid hstart h₁
  rw [← hext₁.codeBlocks] at hstop hhandler
  obtain ⟨hlaid₂, hext₂, hsize₂, _⟩ := addMarker_spec hlaid₁ hstop h₂
  rw [← hext₂.codeBlocks] at hhandler
  have harranged := ((hg.addMarker hlaid.codeBlocks_le hstart h₁).addMarker hlaid₁.codeBlocks_le hstop h₂).addMarker
    hlaid₂.codeBlocks_le hhandler hadd
  rw [hsize₂, hsize₁] at harranged
  simpa only [marksOf, List.append_assoc] using harranged

/-- The markers of several entries that stand before a code block, given the name of the first one. -/
def marksOfAll (first : Nat) : List ((Nat × Nat × Nat) × Nat) → Nat → List BlockId
  | [], _ => []
  | (targets, _) :: rest, b => marksOf first targets b ++ marksOfAll (first + 3) rest b

theorem Arranged.foldlM_addTriple {n : Nat} {work : List ((Nat × Nat × Nat) × Nat)} (hg : g.Arranged before) (hlaid : g.LaidOut n)
    (hwork : ∀ item ∈ work, item.1.1 < g.codeBlocks ∧ item.1.2.1 < g.codeBlocks ∧ item.1.2.2 < g.codeBlocks)
    (hfold : work.foldlM (fun g ((start, stop, handler), entry) => g.addTriple entry start stop handler) g = .ok h) :
    h.Arranged fun b => before b ++ marksOfAll g.blocks.size work b := by
  induction work generalizing g before with
  | nil =>
    cases hfold
    simpa [marksOfAll] using hg
  | cons item work ih =>
    obtain ⟨⟨start, stop, handler⟩, entry⟩ := item
    obtain ⟨hstart, hstop, hhandler⟩ := hwork _ List.mem_cons_self
    rw [List.foldlM_cons] at hfold
    obtain ⟨g', hadd, hrest⟩ := bind_eq_ok.1 hfold
    obtain ⟨hlaid', hext, hsize, _⟩ := addTriple_spec hlaid hstart hstop hhandler hadd
    have hwork' : ∀ item ∈ work, item.1.1 < g'.codeBlocks ∧ item.1.2.1 < g'.codeBlocks ∧ item.1.2.2 < g'.codeBlocks := by
      intro item hitem
      rw [hext.codeBlocks]
      exact hwork item (List.mem_cons_of_mem _ hitem)
    have harranged := ih (hg.addTriple hlaid hstart hstop hhandler hadd) hlaid' hwork' hrest
    rw [hsize] at harranged
    simpa only [marksOfAll, List.append_assoc] using harranged

/-! ## What the markers before a block are -/

/-- What a block is as a marker, and the code it holds. -/
def describe (g : Graph) (id : BlockId) : Option (Nat × MarkerKind) × Span :=
  ((g.marker? id).map fun mark => (mark.entry, mark.kind), g.spanOf id)

/-- The markers of one entry before a code block: one for each label of the entry that the block starts with. -/
theorem map_describe_marksOf {code : List Insn} {first e b : Nat} {entry : HandlerEntry} {targets : Nat × Nat × Nat}
    (htriple : g.Triple first e targets.1 targets.2.1 targets.2.2)
    (hlabels : ∀ label target, (label, target) ∈
      [(entry.start, targets.1), (entry.stop, targets.2.1), (entry.handler, targets.2.2)] →
        (target = b ↔ code[(g.spanOf b).start]? = some (.label label))) :
    (marksOf first targets b).map g.describe =
      ((MarkerKind.all.filter fun kind => code[(g.spanOf b).start]? == some (.label (entry.labelOf kind))).map (e, ·)).map
        fun mark => (some mark, .before (g.spanOf b).start) := by
  have hstart := hlabels entry.start targets.1 (by simp)
  have hstop := hlabels entry.stop targets.2.1 (by simp)
  have hhandler := hlabels entry.handler targets.2.2 (by simp)
  have hdescribe : ∀ id target kind, g.block? id =
      some ⟨.before (g.spanOf target).start, .marker ⟨kind, e, first, first + 1, first + 2⟩⟩ →
        g.describe id = (some (e, kind), .before (g.spanOf target).start) := by
    intro id target kind h
    simp [describe, marker?, spanOf, h]
  have hfirst := hdescribe _ _ _ htriple.atStart
  have hsecond := hdescribe _ _ _ htriple.atStop
  have hthird := hdescribe _ _ _ htriple.atHandler
  simp only [marksOf, MarkerKind.all, HandlerEntry.labelOf, List.filter_cons, List.filter_nil, beq_iff_eq, ← hstart, ← hstop,
    ← hhandler, List.map_append]
  by_cases h₁ : targets.1 = b <;> by_cases h₂ : targets.2.1 = b <;> by_cases h₃ : targets.2.2 = b <;>
    simp_all

/-- The markers of several entries before a code block. -/
theorem map_describe_marksOfAll {code : List Insn} {first b : Nat} {items : List (HandlerEntry × Nat)}
    {work : List ((Nat × Nat × Nat) × Nat)}
    (hitems : List.Forall₂ (fun (item : HandlerEntry × Nat) (w : (Nat × Nat × Nat) × Nat) => w.2 = item.2 ∧
      g.LabelStarts code item.1.start w.1.1 ∧ g.LabelStarts code item.1.stop w.1.2.1 ∧
        g.LabelStarts code item.1.handler w.1.2.2) items work)
    (hunique : ∀ label target, g.LabelStarts code label target →
      (target = b ↔ code[(g.spanOf b).start]? = some (.label label)))
    (htriples : ∀ (i : Nat) start stop handler entry, work[i]? = some ((start, stop, handler), entry) →
      g.Triple (first + 3 * i) entry start stop handler) :
    (marksOfAll first work b).map g.describe =
      (items.flatMap fun (entry, e) =>
        (MarkerKind.all.filter fun kind => code[(g.spanOf b).start]? == some (.label (entry.labelOf kind))).map (e, ·)).map
          fun mark => (some mark, .before (g.spanOf b).start) := by
  induction hitems generalizing first with
  | nil => rfl
  | @cons item w items work hitem _ ih =>
    obtain ⟨entry, e⟩ := item
    obtain ⟨⟨start, stop, handler⟩, e'⟩ := w
    obtain ⟨rfl, hstart, hstop, hhandler⟩ := hitem
    have hlater : ∀ (i : Nat) start stop handler entry, work[i]? = some ((start, stop, handler), entry) →
        g.Triple (first + 3 + 3 * i) entry start stop handler := by
      intro i start stop handler entry hi
      rw [show first + 3 + 3 * i = first + 3 * (i + 1) by omega]
      exact htriples (i + 1) start stop handler entry hi
    rw [marksOfAll, List.map_append, List.flatMap_cons, List.map_append, ih hlater]
    refine congrArg (· ++ _) (map_describe_marksOf (htriples 0 start stop handler _ rfl) ?_)
    intro label target hmem
    simp only [List.mem_cons, Prod.mk.injEq, List.not_mem_nil, or_false] at hmem
    rcases hmem with ⟨rfl, rfl⟩ | ⟨rfl, rfl⟩ | ⟨rfl, rfl⟩
    · exact hunique _ _ hstart
    · exact hunique _ _ hstop
    · exact hunique _ _ hhandler

/-- The blocks between a code block and the one before it are those that its layout gives. -/
theorem Arranged.markersBefore (hg : g.Arranged before) {b : Nat} (hb : b < g.codeBlocks) : g.markersBefore b = before b := by
  obtain ⟨rest, hsplit, _⟩ := layoutOf_split before hb
  have hfront : g.order.takeWhile (· != b) = layoutOf before b ++ before b := by
    rw [hg.order, hsplit, List.takeWhile_append_of_pos]
    · simp
    · intro id hid
      simpa using fun heq : id = b => hg.not_mem hb (heq ▸ hid)
  have hmarkers : ∀ id ∈ (before b).reverse, decide (g.codeBlocks ≤ id) = true := by
    intro id hid
    exact decide_eq_true (hg.markers b id (List.mem_reverse.1 hid))
  rw [Graph.markersBefore, hfront, List.reverse_append, List.takeWhile_append_of_pos hmarkers]
  -- What stands before the markers of a block ends with the code block before it.
  have hstop : (layoutOf before b).reverse.takeWhile (fun id : Nat => decide (g.codeBlocks ≤ id)) = [] := by
    rcases b with _ | b
    · rfl
    · have hlt : ¬ g.codeBlocks ≤ b := by omega
      simp [layoutOf_succ, hlt]
  rw [hstop, List.append_nil, List.reverse_reverse]

theorem Arranged.last (hg : g.Arranged before) (h : 0 < g.codeBlocks) :
    ∃ b : Nat, g.order.getLast? = some b ∧ b < g.codeBlocks := by
  obtain ⟨n, hn⟩ := Nat.exists_eq_succ_of_ne_zero (Nat.ne_of_gt h)
  refine ⟨n, ?_, by omega⟩
  rw [hg.order, hn, layoutOf_succ, ← List.append_assoc]
  exact List.getLast?_concat

end

/-! ## Built graphs -/

section

variable {src : Source} {g : Graph}

/-- Before the markers are added, a graph holds the code blocks alone. -/
theorem linked_of_build (h : build src Producer.all = .ok g) :
    ∃ g₂ : Graph, g₂.LaidOut src.method.code.length ∧ g₂.blocks.size = g₂.codeBlocks ∧ g₂.Arranged (fun _ => []) ∧
      Producer.tries.link src g₂ = .ok g := by
  obtain ⟨jumpBreaks, switchBreaks, tryBreaks, g₁, g₂, _, _, h₁, h₂, h₃, _⟩ := build_cases h
  obtain ⟨hrel, _⟩ := Producer.links_dictated (body_ofSpans _) h₁ h₂
  refine ⟨g₂, hrel.laidOut (fun _ => id) (laidOut_ofSpans (Span.cutAt_abut _ _)), ?_, ⟨?_, by simp⟩, h₃⟩
  · rw [hrel.size, hrel.sameCode.codeBlocks]
    simp [ofSpans]
  · rw [hrel.order, hrel.sameCode.codeBlocks, layoutOf_nil]
    rfl

/-- A label starts one code block only. -/
theorem Built.labelStarts_unique (hb : Built src g) (hlabels : src.method.labels = .ok src.labels) {label : Label} {target b : Nat}
    (hbound : b < g.codeBlocks) (h : g.LabelStarts src.method.code label target) :
    target = b ↔ src.method.code[(g.spanOf b).start]? = some (.label label) := by
  constructor
  · rintro rfl
    exact h.2
  · intro hstart
    have hsame := ((Method.index_eq_ok hlabels).2 h.2).symm.trans ((Method.index_eq_ok hlabels).2 hstart)
    exact hb.eq_of_start_eq h.1 hbound (Except.ok.inj hsame)

/-- Before each code block stand the markers that the table of handlers asks for. -/
theorem Built.exists_arranged (hb : Built src g) (hlabels : src.method.labels = .ok src.labels)
    (hgraph : build src Producer.all = .ok g) :
    ∃ before, g.Arranged before ∧ ∀ b : Nat, b < g.codeBlocks → (before b).map g.describe =
      (HandlerEntry.marksAt src.method.code src.method.handlerTable (g.spanOf b).start).map
        fun mark => (some mark, .before (g.spanOf b).start) := by
  obtain ⟨g₂, hlaid, hsize, harranged, hlink⟩ := linked_of_build hgraph
  obtain ⟨targets, hforall, hwork, hfold⟩ := Producer.tries_link_cases hlink
  obtain ⟨_, hext, _, htriples⟩ := foldlM_addTriple_spec hlaid hwork hfold
  refine ⟨_, harranged.foldlM_addTriple hlaid hwork hfold, fun b hbound => ?_⟩
  have hsame := hext.sameCode hlaid.codeBlocks_le
  refine map_describe_marksOfAll ?_ (fun label target h => hb.labelStarts_unique hlabels hbound h) htriples
  refine List.forall₂_reverse_iff.2 ((forall₂_zipIdx hforall 0).imp ?_)
  rintro ⟨entry, e⟩ ⟨⟨start, stop, handler⟩, e'⟩ ⟨he, hstart, hstop, hhandler⟩
  exact ⟨he, (labelStarts_iff hlabels).1 (hstart.congr hsame), (labelStarts_iff hlabels).1 (hstop.congr hsame),
    (labelStarts_iff hlabels).1 (hhandler.congr hsame)⟩

/-- The table of positions inverts the order. -/
theorem Built.position_iff (hb : Built src g) (i : Nat) (id : BlockId) :
    g.order[i]? = some id ↔ id < g.blocks.size ∧ g.position id = i := by
  have hnodup : g.order.Nodup := hb.laidOut.perm.nodup_iff.2 List.nodup_range
  have hmem : id ∈ g.order ↔ id < g.blocks.size := hb.laidOut.perm.mem_iff.trans List.mem_range
  constructor
  · intro hi
    have hid := hmem.1 (List.mem_of_getElem? hi)
    exact ⟨hid, position_of_getElem? hnodup hid hi⟩
  · rintro ⟨hid, rfl⟩
    obtain ⟨i, hi⟩ := List.mem_iff_getElem?.1 (hmem.2 hid)
    rwa [position_of_getElem? hnodup hid hi]

theorem Built.names_iff (hb : Built src g) {id : BlockId} {mark : Marker} (h : g.marker? id = some mark) (other : BlockId)
    (kind : MarkerKind) :
    (∃ mark', g.marker? other = some mark' ∧ mark'.entry = mark.entry ∧ mark'.kind = kind) ↔ other = mark.named kind := by
  obtain ⟨entry, start, stop, handler, hm⟩ := hb.markerOf h
  constructor
  · rintro ⟨mark', h', hentry, rfl⟩
    obtain ⟨entry', start', stop', handler', hm'⟩ := hb.markerOf h'
    have hstart : mark'.start = mark.start := by rw [hm'.start_eq, hm.start_eq, hentry]
    rw [hm'.self_eq, Marker.self]
    cases mark'.kind <;> simp [Marker.named, hstart, hm.stop_eq, hm.handler_eq, hm'.stop_eq, hm'.handler_eq]
  · rintro rfl
    refine ⟨⟨kind, mark.entry, mark.start, mark.start + 1, mark.start + 2⟩, ?_, rfl, rfl⟩
    cases kind with
    | tryStart => simp [marker?, Marker.named, hm.triple.atStart]
    | tryEnd => simp [marker?, Marker.named, hm.stop_eq, hm.triple.atStop]
    | handler => simp [marker?, Marker.named, hm.handler_eq, hm.triple.atHandler]

end

end Graph

/-- A built graph lays its markers out by the labels of the table of handlers. -/
theorem markers_stand_at_their_labels (src : Source) (g : Graph) (hlabels : src.method.labels = .ok src.labels)
    (hgraph : Graph.build src Producer.all = .ok g) : g.LaysOutMarkers src.method.code src.method.handlerTable := by
  have hb : Graph.Built src g := Graph.built_of_build hgraph
  obtain ⟨before, harranged, hmarks⟩ := hb.exists_arranged hlabels hgraph
  refine ⟨hb.laidOut.perm, hb.laidOut.ascending, harranged.last, ?_, ?_, ?_, hb.position_iff⟩
  · intro b hbound
    have hfst := congrArg (List.map Prod.fst) (hmarks b hbound)
    rw [List.map_map, List.map_map] at hfst
    rw [harranged.markersBefore hbound]
    exact hfst
  · intro b hbound id hid
    rw [harranged.markersBefore hbound] at hid
    have hdescribed := List.mem_map_of_mem (f := g.describe) hid
    rw [hmarks b hbound] at hdescribed
    obtain ⟨mark, _, heq⟩ := List.mem_map.1 hdescribed
    exact (congrArg Prod.snd heq).symm
  · intro id mark h other kind
    exact hb.names_iff h other kind

/-- A method with two protected ranges next to each other that share a handler, which starts where the second of them ends. -/
def sharedHandler : Source where
  method :=
    { owner := "A", name := "m", descriptor := "()V", isStatic := true
      code := [.label ⟨0⟩, .constNull, .pop, .label ⟨1⟩, .ret none, .label ⟨2⟩, .throw]
      variableTable := []
      handlerTable := [⟨⟨0⟩, ⟨1⟩, ⟨2⟩, .any⟩, ⟨⟨1⟩, ⟨2⟩, ⟨2⟩, .any⟩] }
  labels := [(⟨0⟩, 0), (⟨1⟩, 3), (⟨2⟩, 5)]
  locals := .empty

/-- Three markers stand before the shared handler, those of the second range first. -/
theorem markers_stand_at_their_labels_shared :
    sharedHandler.method.labels = .ok sharedHandler.labels ∧
      HandlerEntry.marksAt sharedHandler.method.code sharedHandler.method.handlerTable 5 =
        [(1, .tryEnd), (1, .handler), (0, .handler)] ∧
      ∃ g, Graph.build sharedHandler Producer.all = .ok g ∧ g.order = [6, 0, 3, 7, 1, 4, 5, 8, 2] ∧
        g.LaysOutMarkers sharedHandler.method.code sharedHandler.method.handlerTable := by
  have hlabels : sharedHandler.method.labels = .ok sharedHandler.labels := by rfl
  have hbuilds : (match Graph.build sharedHandler Producer.all with
      | .ok g => decide (g.order = [6, 0, 3, 7, 1, 4, 5, 8, 2])
      | .error _ => false) = true := by decide +kernel
  refine ⟨hlabels, by decide, ?_⟩
  split at hbuilds
  · rename_i g hgraph
    exact ⟨g, hgraph, of_decide_eq_true hbuilds, markers_stand_at_their_labels _ g hlabels hgraph⟩
  · cases hbuilds

end CodeLift
