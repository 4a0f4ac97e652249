import CodeLift.Graph.Build
import CodeLift.Proofs.Graph.Markers

/-!
# What a built graph is

`Graph.Built` says all there is to know of a graph that has been built from a method: how its blocks are laid out, what code they
hold, where control goes from them, and which markers the entries of the table of handlers have.
-/

namespace CodeLift

/-- The block that a marker is. -/
def Marker.self (mark : Marker) : BlockId :=
  match mark.kind with
  | .tryStart => mark.start
  | .tryEnd => mark.stop
  | .handler => mark.handler

/-- The label that a marker of an entry stands for. -/
def HandlerEntry.labelOf (entry : HandlerEntry) : MarkerKind → Label
  | .tryStart => entry.start
  | .tryEnd => entry.stop
  | .handler => entry.handler

namespace Graph

/-- A graph built from a method with all producers. -/
structure Built (src : Source) (g : Graph) : Prop where
  laidOut : g.LaidOut src.method.code.length
  nonempty : ∀ id : Nat, id < g.codeBlocks → (g.spanOf id).start < (g.spanOf id).stop
  inside : ∀ id i : Nat, id < g.codeBlocks → (g.spanOf id).start ≤ i → i + 1 < (g.spanOf id).stop →
    ∃ insn, src.method.code[i]? = some insn ∧ insn.isPlain = true
  dictated : ∀ id : Nat, id < g.codeBlocks → ∃ kind, g.block? id = some ⟨g.spanOf id, kind⟩ ∧
    Dictated src g id (g.lastInsn? src.method.code id) kind
  size : g.blocks.size = g.codeBlocks + 3 * src.method.handlerTable.length
  triple : ∀ (e : Nat) entry, src.method.handlerTable[e]? = some entry → ∃ start stop handler,
    src.Starts g entry.start start ∧ src.Starts g entry.stop stop ∧ src.Starts g entry.handler handler ∧
      g.Triple (g.codeBlocks + 3 * (src.method.handlerTable.length - 1 - e)) e start stop handler

/-! ## The blocks before they are linked -/

theorem block?_ofSpans {spans : List Span} {id : Nat} {span : Span} (h : spans[id]? = some span) :
    (ofSpans spans).block? id = some ⟨span, .body ((ofSpans spans).nextCodeBlock? id)⟩ := by
  simp [block?, ofSpans, List.getElem?_map, List.getElem?_zipIdx, h]
  rfl

theorem spanOf_ofSpans {spans : List Span} {id : Nat} {span : Span} (h : spans[id]? = some span) :
    (ofSpans spans).spanOf id = span := by
  rw [spanOf, block?_ofSpans h]
  rfl

theorem body_ofSpans (spans : List Span) (id : Nat) (hid : id < (ofSpans spans).codeBlocks) :
    ∃ span, (ofSpans spans).block? id = some ⟨span, .body ((ofSpans spans).nextCodeBlock? id)⟩ :=
  ⟨spans[id], block?_ofSpans (List.getElem?_eq_getElem hid)⟩

/-- The code blocks hold the given code. -/
theorem map_spanOf_ofSpans (spans : List Span) : (List.range spans.length).map (ofSpans spans).spanOf = spans := by
  refine List.ext_getElem? fun i => ?_
  rw [List.getElem?_map]
  by_cases hi : i < spans.length
  · rw [List.getElem?_range hi, Option.map_some, spanOf_ofSpans (List.getElem?_eq_getElem hi), List.getElem?_eq_getElem hi]
  · rw [List.getElem?_eq_none (by simpa using hi), List.getElem?_eq_none (by simpa using hi)]
    rfl

theorem laidOut_ofSpans {spans : List Span} {n : Nat} (h : Span.Abut 0 spans n) : (ofSpans spans).LaidOut n := by
  have hsize : (ofSpans spans).blocks.size = spans.length := by simp [ofSpans]
  refine ⟨Nat.le_of_eq hsize.symm, by rw [hsize]; exact .refl _, ?_, ?_⟩
  · exact List.filter_eq_self.2 fun id hid => decide_eq_true (List.mem_range.1 hid)
  · have hspans : (ofSpans spans).order.map (ofSpans spans).spanOf = spans := map_spanOf_ofSpans spans
    rw [hspans]
    exact h

/-- Where code blocks follow each other over the whole code, every instruction is in one. -/
theorem exists_block_of_abut {g : Graph} {n : Nat} (h : Span.Abut 0 ((List.range g.codeBlocks).map g.spanOf) n) {i : Nat}
    (hi : i < n) : ∃ id, id < g.codeBlocks ∧ i ∈ g.spanOf id := by
  have hmem : i ∈ ((List.range g.codeBlocks).map g.spanOf).flatMap Span.indices := by
    rw [h.flatMap_indices]
    simpa using hi
  simp only [List.mem_flatMap, List.mem_map, List.mem_range] at hmem
  obtain ⟨_, ⟨id, hid, rfl⟩, hin⟩ := hmem
  exact ⟨id, hid, Span.mem_indices.1 hin⟩

/-- Links change nothing in the layout. -/
theorem Relinked.laidOut {g h : Graph} {among : Nat → Prop} (hrel : g.Relinked h among)
    (hamong : ∀ id, among id → id < g.codeBlocks) {n : Nat} (hlaid : g.LaidOut n) : h.LaidOut n := by
  refine ⟨by rw [hrel.sameCode.codeBlocks, hrel.size]; exact hlaid.codeBlocks_le,
    by rw [hrel.order, hrel.size]; exact hlaid.perm, by rw [hrel.order, hrel.sameCode.codeBlocks]; exact hlaid.ascending, ?_⟩
  have hmap : h.order.map h.spanOf = g.order.map g.spanOf := by
    rw [hrel.order]
    refine List.map_congr_left fun id _ => ?_
    by_cases hid : id < g.codeBlocks
    · exact hrel.sameCode.spanOf hid
    · rw [spanOf, spanOf, hrel.others id fun h => hid (hamong id h)]
  rw [hmap]
  exact hlaid.abut

end Graph

namespace Producer

variable {src : Source}

/-- Blocks end at each jump, return and throw. -/
theorem mem_jumps_breaks {breaks : List Nat} (h : jumps.breaks src = .ok breaks) {i : Nat} {insn : Insn}
    (hi : src.method.code[i]? = some insn) (hplain : insn.isPlain = false) (hswitch : insn.isSwitch = false) : i ∈ breaks := by
  obtain ⟨parts, hparts, h⟩ := bind_eq_ok.1 h
  cases h
  have hzip : src.method.code.zipIdx[i]? = some (insn, i) := by simp [List.getElem?_zipIdx, hi]
  obtain ⟨part, hpart, hf⟩ := exists_of_forall₂ (forall₂_of_mapM_ok hparts) hzip
  simp only [hplain, hswitch, Bool.or_self, Bool.false_eq_true, if_false] at hf
  obtain ⟨rest, _, hf⟩ := bind_eq_ok.1 hf
  cases hf
  exact List.mem_flatten.2 ⟨_, List.mem_of_getElem? hpart, List.mem_cons_self⟩

/-- Blocks end at each switch. -/
theorem mem_switches_breaks {breaks : List Nat} (h : switches.breaks src = .ok breaks) {i : Nat} {insn : Insn}
    (hi : src.method.code[i]? = some insn) (hswitch : insn.isSwitch = true) : i ∈ breaks := by
  obtain ⟨parts, hparts, h⟩ := bind_eq_ok.1 h
  cases h
  have hzip : src.method.code.zipIdx[i]? = some (insn, i) := by simp [List.getElem?_zipIdx, hi]
  obtain ⟨part, hpart, hf⟩ := exists_of_forall₂ (forall₂_of_mapM_ok hparts) hzip
  simp only [hswitch, if_true] at hf
  obtain ⟨rest, _, hf⟩ := bind_eq_ok.1 hf
  cases hf
  exact List.mem_flatten.2 ⟨_, List.mem_of_getElem? hpart, List.mem_cons_self⟩

/-- An instruction at which no block ends is plain. -/
theorem isPlain_of_not_mem_breaks {jumpBreaks switchBreaks : List Nat} (hjumps : jumps.breaks src = .ok jumpBreaks)
    (hswitches : switches.breaks src = .ok switchBreaks) {i : Nat} {insn : Insn} (hi : src.method.code[i]? = some insn)
    (hjump : i ∉ jumpBreaks) (hswitch : i ∉ switchBreaks) : insn.isPlain = true := by
  by_contra hplain
  rw [Bool.not_eq_true] at hplain
  cases hkind : insn.isSwitch with
  | false => exact hjump (mem_jumps_breaks hjumps hi hplain hkind)
  | true => exact hswitch (mem_switches_breaks hswitches hi hkind)

end Producer

/-- The producers say in turn where blocks have to end. -/
theorem Producer.breaks_eq_ok {src : Source} {breaks : List (List Nat)} (h : Producer.all.mapM (·.breaks src) = .ok breaks) :
    ∃ jumpBreaks switchBreaks tryBreaks, Producer.jumps.breaks src = .ok jumpBreaks ∧
      Producer.switches.breaks src = .ok switchBreaks ∧ Producer.tries.breaks src = .ok tryBreaks ∧
      breaks = [jumpBreaks, switchBreaks, tryBreaks] := by
  simp only [Producer.all, List.mapM_cons, List.mapM_nil] at h
  obtain ⟨jumpBreaks, hjumps, h⟩ := bind_eq_ok.1 h
  obtain ⟨rest, hrest, h⟩ := bind_eq_ok.1 h
  obtain ⟨switchBreaks, hswitches, hrest⟩ := bind_eq_ok.1 hrest
  obtain ⟨rest', hrest', hrest⟩ := bind_eq_ok.1 hrest
  obtain ⟨tryBreaks, htries, hrest'⟩ := bind_eq_ok.1 hrest'
  cases h
  cases hrest
  cases hrest'
  exact ⟨jumpBreaks, switchBreaks, tryBreaks, hjumps, hswitches, htries, rfl⟩

namespace Graph

variable {src : Source}

/-- Once it is known where blocks have to end, the code is cut there, and the three producers link the blocks in turn. -/
theorem build_eq {jumpBreaks switchBreaks tryBreaks : List Nat}
    (h : Producer.all.mapM (·.breaks src) = .ok [jumpBreaks, switchBreaks, tryBreaks]) :
    build src Producer.all = (do
      let g₁ ← Producer.jumps.link src
        (ofSpans (Span.cutAt src.method.code.length (jumpBreaks ++ (switchBreaks ++ tryBreaks))))
      let g₂ ← Producer.switches.link src g₁
      let g ← Producer.tries.link src g₂
      match g.fallsOffEnd? src.method.code with
      | some index => .error (.fallsOffEnd index)
      | none => return g) := by
  unfold build
  dsimp only
  rw [h]
  have hlasts : [jumpBreaks, switchBreaks, tryBreaks].flatten = jumpBreaks ++ (switchBreaks ++ tryBreaks) := by simp
  have hlink : ∀ g, Producer.all.foldlM (fun g p => p.link src g) g =
      Producer.jumps.link src g >>= fun g₁ => Producer.switches.link src g₁ >>= Producer.tries.link src := by
    intro g
    simp only [Producer.all, List.foldlM_cons, List.foldlM_nil, bind_pure]
  change (Producer.all.foldlM (fun g p => p.link src g) (ofSpans (Span.cutAt _ (List.flatten _))) >>= _) = _
  rw [hlasts, hlink]
  exact (bind_assoc ..).trans (bind_congr fun g₁ => bind_assoc ..)

/-- Building a graph cuts the code and then lets the three producers link the blocks. -/
theorem build_cases {g : Graph} (h : build src Producer.all = .ok g) :
    ∃ jumpBreaks switchBreaks tryBreaks g₁ g₂, Producer.jumps.breaks src = .ok jumpBreaks ∧
      Producer.switches.breaks src = .ok switchBreaks ∧
      Producer.jumps.link src (ofSpans (Span.cutAt src.method.code.length (jumpBreaks ++ (switchBreaks ++ tryBreaks)))) = .ok g₁ ∧
      Producer.switches.link src g₁ = .ok g₂ ∧ Producer.tries.link src g₂ = .ok g ∧ g.fallsOffEnd? src.method.code = none := by
  obtain ⟨breaks, hbreaks, _⟩ := bind_eq_ok.1 h
  obtain ⟨jumpBreaks, switchBreaks, tryBreaks, hjumps, hswitches, _, rfl⟩ := Producer.breaks_eq_ok hbreaks
  rw [build_eq hbreaks] at h
  obtain ⟨g₁, h₁, h⟩ := bind_eq_ok.1 h
  obtain ⟨g₂, h₂, h⟩ := bind_eq_ok.1 h
  obtain ⟨g', h₃, h⟩ := bind_eq_ok.1 h
  split at h
  · cases h
  · rename_i hend
    cases h
    exact ⟨jumpBreaks, switchBreaks, tryBreaks, g₁, g₂, hjumps, hswitches, h₁, h₂, h₃, hend⟩

/-- Once the producers have linked the blocks into which they have cut the code, the graph is laid out, linked and marked as `Built`
says. -/
theorem built_of_links {jumpBreaks switchBreaks tryBreaks : List Nat} {g₁ g₂ g : Graph}
    (hjumps : Producer.jumps.breaks src = .ok jumpBreaks) (hswitches : Producer.switches.breaks src = .ok switchBreaks)
    (h₁ : Producer.jumps.link src (ofSpans (Span.cutAt src.method.code.length (jumpBreaks ++ (switchBreaks ++ tryBreaks)))) = .ok g₁)
    (h₂ : Producer.switches.link src g₁ = .ok g₂) (h₃ : Producer.tries.link src g₂ = .ok g) :
    Built src g ∧ (ofSpans (Span.cutAt src.method.code.length (jumpBreaks ++ (switchBreaks ++ tryBreaks)))).SameCode g := by
  generalize hspans : Span.cutAt src.method.code.length (jumpBreaks ++ (switchBreaks ++ tryBreaks)) = spans at h₁ ⊢
  have habut : Span.Abut 0 spans src.method.code.length := hspans ▸ Span.cutAt_abut _ _
  have hspan : ∀ id : Nat, id < spans.length → ∃ span, spans[id]? = some span ∧ span ∈ spans :=
    fun id hid => ⟨spans[id], List.getElem?_eq_getElem hid, List.getElem_mem hid⟩
  obtain ⟨hrel, hdictated⟩ := Producer.links_dictated (body_ofSpans spans) h₁ h₂
  have hcode : g₂.codeBlocks = spans.length := hrel.sameCode.codeBlocks
  have hsize : g₂.blocks.size = spans.length := hrel.size.trans (by simp [ofSpans])
  have hlaid : g₂.LaidOut src.method.code.length := hrel.laidOut (fun _ => id) (laidOut_ofSpans habut)
  obtain ⟨hlaid', hext, hsize', htriples⟩ := Producer.tries_link hlaid h₃
  have hsame := hrel.sameCode.trans (hext.sameCode hlaid.codeBlocks_le)
  have hcode' : g.codeBlocks = spans.length := hsame.codeBlocks
  have hspanOf : ∀ id : Nat, id < g.codeBlocks → g.spanOf id ∈ spans := by
    intro id hid
    rw [hcode'] at hid
    obtain ⟨span, hspan, hmem⟩ := hspan id hid
    rw [hsame.spanOf hid, spanOf_ofSpans hspan]
    exact hmem
  refine ⟨⟨hlaid', fun id hid => ?_, fun id i hid hi hi' => ?_, fun id hid => ?_, ?_, fun e entry he => ?_⟩, hsame⟩
  · have hmem := hspanOf id hid
    rw [← hspans] at hmem
    exact (Span.mem_cutAt hmem).1
  · have hmem := hspanOf id hid
    have hin : i < src.method.code.length := by
      have := (habut.bounds hmem).2
      omega
    rw [← hspans] at hmem
    have hnot := (Span.mem_cutAt hmem).2 i hin hi hi'
    refine ⟨src.method.code[i], List.getElem?_eq_getElem hin, ?_⟩
    exact Producer.isPlain_of_not_mem_breaks hjumps hswitches (List.getElem?_eq_getElem hin)
      (fun hjump => hnot (List.mem_append_left _ hjump))
      (fun hswitch => hnot (List.mem_append_right _ (List.mem_append_left _ hswitch)))
  · rw [hcode'] at hid
    obtain ⟨span, kind, hblock, hd⟩ := hdictated id hid
    have hblock' : g.block? id = some ⟨span, kind⟩ := by
      rw [hext.block? id (by rw [hsize]; exact hid), hblock]
    refine ⟨kind, by rw [spanOf, hblock']; rfl, ?_⟩
    rw [hsame.lastInsn? hid]
    exact hd.congr hsame
  · rw [hsize', hsize, hcode']
  · obtain ⟨start, stop, handler, hstart, hstop, hhandler, htriple⟩ := htriples e entry he
    have hsame' := hext.sameCode hlaid.codeBlocks_le
    refine ⟨start, stop, handler, hstart.congr hsame', hstop.congr hsame', hhandler.congr hsame', ?_⟩
    rw [hsize, ← hcode'] at htriple
    exact htriple

/-- A graph that has been built is laid out, linked and marked as `Built` says. -/
theorem built_of_build {g : Graph} (h : build src Producer.all = .ok g) : Built src g := by
  obtain ⟨jumpBreaks, switchBreaks, tryBreaks, g₁, g₂, hjumps, hswitches, h₁, h₂, h₃, _⟩ := build_cases h
  exact (built_of_links hjumps hswitches h₁ h₂ h₃).1

/-- A code block ends with an instruction of the code. -/
theorem Built.lastInsn?_eq {g : Graph} (hb : Built src g) {id : Nat} (hid : id < g.codeBlocks) :
    g.lastInsn? src.method.code id = src.method.code[(g.spanOf id).stop - 1]? := by
  have hnonempty := hb.nonempty id hid
  rw [lastInsn?, if_neg]
  simpa [Span.isEmpty] using hnonempty

/-- The code of a block, marker or not, lies in the code of the method. -/
theorem Built.spanOf_bounds {g : Graph} (hb : Built src g) (id : BlockId) :
    (g.spanOf id).start ≤ (g.spanOf id).stop ∧ (g.spanOf id).stop ≤ src.method.code.length := by
  by_cases hid : id < g.blocks.size
  · have hmem : id ∈ g.order := hb.laidOut.perm.mem_iff.2 (List.mem_range.2 hid)
    exact ⟨hb.laidOut.abut.start_le_stop (List.mem_map_of_mem hmem), (hb.laidOut.abut.bounds (List.mem_map_of_mem hmem)).2⟩
  · have hnone : g.block? id = none := Array.getElem?_eq_none (Nat.le_of_not_lt hid)
    rw [spanOf, hnone]
    exact ⟨Nat.le_refl _, Nat.zero_le _⟩

/-! ## The two kinds of blocks -/

theorem Dictated.ne_marker {g : Graph} {id : Nat} {last : Option Insn} {kind : BlockKind} (h : Dictated src g id last kind)
    (mark : Marker) : kind ≠ .marker mark := by
  rintro rfl
  cases h

/-- A code block is no marker. -/
theorem Built.marker?_eq_none {g : Graph} (hb : Built src g) {id : Nat} (hid : id < g.codeBlocks) : g.marker? id = none := by
  obtain ⟨kind, hblock, hd⟩ := hb.dictated id hid
  rw [marker?, hblock]
  split
  · rename_i mark heq
    cases heq
    exact absurd rfl (hd.ne_marker mark)
  · rfl

/-- Every block after the code blocks is one of the three markers of an entry. -/
theorem Built.exists_triple {g : Graph} (hb : Built src g) {id : Nat} (hid : g.codeBlocks ≤ id) (hlt : id < g.blocks.size) :
    ∃ first e entry start stop handler, src.method.handlerTable[e]? = some entry ∧ src.Starts g entry.start start ∧
      src.Starts g entry.stop stop ∧ src.Starts g entry.handler handler ∧ g.Triple first e start stop handler ∧
      first = g.codeBlocks + 3 * (src.method.handlerTable.length - 1 - e) ∧ (id = first ∨ id = first + 1 ∨ id = first + 2) := by
  have hsize := hb.size
  have he : src.method.handlerTable.length - 1 - (id - g.codeBlocks) / 3 < src.method.handlerTable.length := by omega
  obtain ⟨start, stop, handler, hstart, hstop, hhandler, htriple⟩ := hb.triple _ _ (List.getElem?_eq_getElem he)
  exact ⟨_, _, _, start, stop, handler, List.getElem?_eq_getElem he, hstart, hstop, hhandler, htriple, rfl, by omega⟩

/-- What a marker of a built graph is: one of the three markers of its entry, right before the code block of its label. -/
structure MarkerOf (src : Source) (g : Graph) (id : BlockId) (mark : Marker) (entry : HandlerEntry)
    (start stop handler : Nat) : Prop where
  entryAt : src.method.handlerTable[mark.entry]? = some entry
  starts : src.Starts g entry.start start
  stops : src.Starts g entry.stop stop
  handles : src.Starts g entry.handler handler
  triple : g.Triple mark.start mark.entry start stop handler
  start_eq : mark.start = g.codeBlocks + 3 * (src.method.handlerTable.length - 1 - mark.entry)
  stop_eq : mark.stop = mark.start + 1
  handler_eq : mark.handler = mark.start + 2
  self_eq : id = mark.self

theorem Built.markerOf {g : Graph} (hb : Built src g) {id : BlockId} {mark : Marker} (h : g.marker? id = some mark) :
    ∃ entry start stop handler, MarkerOf src g id mark entry start stop handler := by
  have hblock : ∃ span, g.block? id = some ⟨span, .marker mark⟩ := by
    unfold marker? at h
    split at h
    · rename_i span mark' hblock
      cases h
      exact ⟨span, hblock⟩
    · cases h
  obtain ⟨span, hblock⟩ := hblock
  have hid : g.codeBlocks ≤ id := by
    by_contra hlt
    rw [hb.marker?_eq_none (Nat.lt_of_not_le hlt)] at h
    cases h
  obtain ⟨first, e, entry, start, stop, handler, hentry, hstart, hstop, hhandler, htriple, hfirst, hcase⟩ :=
    hb.exists_triple hid (lt_size_of_block? hblock)
  refine ⟨entry, start, stop, handler, ?_⟩
  rcases hcase with rfl | rfl | rfl
  · cases hblock.symm.trans htriple.atStart
    exact ⟨hentry, hstart, hstop, hhandler, htriple, hfirst, rfl, rfl, rfl⟩
  · cases hblock.symm.trans htriple.atStop
    exact ⟨hentry, hstart, hstop, hhandler, htriple, hfirst, rfl, rfl, rfl⟩
  · cases hblock.symm.trans htriple.atHandler
    exact ⟨hentry, hstart, hstop, hhandler, htriple, hfirst, rfl, rfl, rfl⟩

/-- A marker holds no code. -/
theorem Built.spanOf_marker {g : Graph} (hb : Built src g) {id : BlockId} {mark : Marker} (h : g.marker? id = some mark) :
    ∃ i, g.spanOf id = .before i := by
  obtain ⟨entry, start, stop, handler, hm⟩ := hb.markerOf h
  have hself := hm.self_eq
  unfold Marker.self at hself
  split at hself
  · rw [hself, spanOf, hm.triple.atStart]
    exact ⟨_, rfl⟩
  · rw [hself, hm.stop_eq, spanOf, hm.triple.atStop]
    exact ⟨_, rfl⟩
  · rw [hself, hm.handler_eq, spanOf, hm.triple.atHandler]
    exact ⟨_, rfl⟩

/-- A block that is no marker and holds code is a code block. -/
theorem Built.lt_codeBlocks_of_unmarked {g : Graph} (hb : Built src g) {id : Nat} (h : g.marker? id = none)
    (hcode : (g.spanOf id).isEmpty = false) : id < g.codeBlocks := by
  by_contra hle
  cases hblock : g.block? id with
  | none =>
    rw [spanOf, hblock] at hcode
    cases hcode
  | some b =>
    obtain ⟨first, e, entry, start, stop, handler, _, _, _, _, htriple, _, rfl | rfl | rfl⟩ :=
      hb.exists_triple (Nat.le_of_not_lt hle) (lt_size_of_block? hblock)
    · rw [marker?, htriple.atStart] at h
      cases h
    · rw [marker?, htriple.atStop] at h
      cases h
    · rw [marker?, htriple.atHandler] at h
      cases h

/-- A block that is no marker is a code block. -/
theorem Built.lt_codeBlocks_of_block? {g : Graph} (hb : Built src g) {id : BlockId} {span : Span} {kind : BlockKind}
    (h : g.block? id = some ⟨span, kind⟩) (hkind : ∀ mark, kind ≠ .marker mark) : id < g.codeBlocks := by
  by_contra hle
  obtain ⟨first, e, entry, start, stop, handler, _, _, _, _, htriple, _, rfl | rfl | rfl⟩ :=
    hb.exists_triple (Nat.le_of_not_lt hle) (lt_size_of_block? h)
  · cases h.symm.trans htriple.atStart
    exact hkind _ rfl
  · cases h.symm.trans htriple.atStop
    exact hkind _ rfl
  · cases h.symm.trans htriple.atHandler
    exact hkind _ rfl

/-- A block that ends with a goto holds code. -/
theorem Built.goto_nonempty {g : Graph} (hb : Built src g) {id target : BlockId} {span : Span}
    (h : g.block? id = some ⟨span, .goto target⟩) : span.start < span.stop := by
  have hspan : g.spanOf id = span := by rw [spanOf, h]; rfl
  exact hspan ▸ hb.nonempty id (hb.lt_codeBlocks_of_block? h (by simp))

end Graph

end CodeLift
