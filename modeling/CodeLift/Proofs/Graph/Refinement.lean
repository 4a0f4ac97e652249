import CodeLift.Proofs.Actions
import CodeLift.Proofs.Graph.Built
import CodeLift.Proofs.Graph.Tables
import CodeLift.Proofs.Labels

/-!
# The block graph refines the flow of control between instructions

`Graph.Refines` says what a graph has to do with the code alone, without the table of labels and the producers: its code blocks cut
the code into pieces, control leaves a piece at its last instruction only, and goes from there where that instruction says. A graph
that has been built is such a graph (`built_graph_refines_code`).
-/

namespace CodeLift

namespace Graph

/-- The first instruction of a code block is a label. -/
def LabelStarts (g : Graph) (code : List Insn) (label : Label) (id : Nat) : Prop :=
  id < g.codeBlocks ∧ code[(g.spanOf id).start]? = some (.label label)

/-- Where control goes from a code block with the given last instruction. -/
inductive LeadsBy (g : Graph) (code : List Insn) (id : Nat) : Insn → BlockKind → Prop where
  | ret (kind : Option ValueKind) : LeadsBy g code id (.ret kind) .exit
  | throw : LeadsBy g code id .throw .exit
  | goto {label : Label} {target : Nat} (h : g.LabelStarts code label target) : LeadsBy g code id (.goto label) (.goto target)
  | jump {test : JumpTest} {label : Label} {target : Nat} (h : g.LabelStarts code label target)
      (hnext : id + 1 < g.codeBlocks) : LeadsBy g code id (.jump test label) (.branch test target (id + 1))
  | switch {otherwise : Label} {arms : List (Int32 × Label)} {default : Nat} {targets : List (Int32 × BlockId)}
      (h : g.LabelStarts code otherwise default)
      (harms : List.Forall₂ (fun arm target => target.1 = arm.1 ∧ g.LabelStarts code arm.2 target.2) arms targets) :
      LeadsBy g code id (.switch otherwise arms) (.switch targets default)
  | next {insn : Insn} (h : insn.isPlain = true) (hnext : id + 1 < g.codeBlocks) :
      LeadsBy g code id insn (.body (some (id + 1)))
  | last {insn : Insn} (h : insn.isPlain = true) (hlast : id + 1 = g.codeBlocks) : LeadsBy g code id insn (.body none)

/-- The blocks of a graph stand for the flow of control between the instructions of the code. -/
structure Refines (g : Graph) (code : List Insn) : Prop where
  /-- The code blocks follow each other from the start of the code to its end. -/
  tiles : Span.Abut 0 ((List.range g.codeBlocks).map g.spanOf) code.length
  nonempty : ∀ id : Nat, id < g.codeBlocks → (g.spanOf id).start < (g.spanOf id).stop
  /-- A jump, switch, return or throw is the last instruction of its block. -/
  ends : ∀ (id i : Nat) insn, id < g.codeBlocks → i ∈ g.spanOf id → code[i]? = some insn → insn.isPlain = false →
    i + 1 = (g.spanOf id).stop
  leads : ∀ id : Nat, id < g.codeBlocks → ∃ insn kind, code[(g.spanOf id).stop - 1]? = some insn ∧
    g.block? id = some ⟨g.spanOf id, kind⟩ ∧ g.LeadsBy code id insn kind
  /-- The blocks that are jumped to are the code blocks whose label a jump or switch of the code names. -/
  jumpTarget : ∀ id : Nat, g.isJumpTarget id = true ↔
    id < g.codeBlocks ∧ ∃ insn ∈ code, ∃ label ∈ insn.targets, code[(g.spanOf id).start]? = some (.label label)

section

variable {src : Source} {g : Graph}

/-! ## The code blocks -/

theorem Built.isEmpty_of_codeBlocks_le (hb : Built src g) {id : Nat} (hid : g.codeBlocks ≤ id) (hlt : id < g.blocks.size) :
    (g.spanOf id).isEmpty = true := by
  obtain ⟨first, e, entry, start, stop, handler, _, _, _, _, htriple, _, rfl | rfl | rfl⟩ := hb.exists_triple hid hlt
  · simp [spanOf, htriple.atStart, Span.before, Span.isEmpty]
  · simp [spanOf, htriple.atStop, Span.before, Span.isEmpty]
  · simp [spanOf, htriple.atHandler, Span.before, Span.isEmpty]

theorem Built.tiles (hb : Built src g) : Span.Abut 0 ((List.range g.codeBlocks).map g.spanOf) src.method.code.length := by
  rw [← hb.laidOut.ascending]
  refine hb.laidOut.abut.filter ?_
  intro id hid hmarker
  refine hb.isEmpty_of_codeBlocks_le (Nat.le_of_not_lt (of_decide_eq_false hmarker)) ?_
  exact List.mem_range.1 (hb.laidOut.perm.mem_iff.1 hid)

/-- Every instruction is in a code block. -/
theorem Built.exists_block (hb : Built src g) {i : Nat} (hi : i < src.method.code.length) :
    ∃ id, id < g.codeBlocks ∧ i ∈ g.spanOf id :=
  exists_block_of_abut hb.tiles hi

/-- Code blocks that start at one instruction are the same. -/
theorem Built.eq_of_start_eq (hb : Built src g) {id id' : Nat} (hid : id < g.codeBlocks) (hid' : id' < g.codeBlocks)
    (h : (g.spanOf id).start = (g.spanOf id').start) : id = id' := by
  have hordered := List.pairwise_iff_getElem.1 (List.pairwise_map.1 hb.tiles.ordered)
  simp only [List.length_range, List.getElem_range] at hordered
  have hne := hb.nonempty id hid
  have hne' := hb.nonempty id' hid'
  rcases Nat.lt_trichotomy id id' with hlt | heq | hlt
  · have := hordered id id' hid hid' hlt
    omega
  · exact heq
  · have := hordered id' id hid' hid hlt
    omega

theorem Built.stop_le (hb : Built src g) {id : Nat} (hid : id < g.codeBlocks) : (g.spanOf id).stop ≤ src.method.code.length :=
  (hb.tiles.bounds (List.mem_map.2 ⟨id, List.mem_range.2 hid, rfl⟩)).2

/-- Every code block has a last instruction. -/
theorem Built.exists_last (hb : Built src g) {id : Nat} (hid : id < g.codeBlocks) :
    ∃ insn, src.method.code[(g.spanOf id).stop - 1]? = some insn := by
  have hne := hb.nonempty id hid
  have hle := hb.stop_le hid
  exact ⟨_, List.getElem?_eq_getElem (by omega)⟩

/-! ## Labels and targets -/

theorem labelStarts_iff (hlabels : src.method.labels = .ok src.labels) {label : Label} {id : Nat} :
    src.Starts g label id ↔ g.LabelStarts src.method.code label id := by
  unfold Source.Starts LabelStarts Source.labelIndex
  rw [mapError_eq_ok, Method.index_eq_ok hlabels]

theorem Dictated.leadsBy (hlabels : src.method.labels = .ok src.labels) {id : Nat} (hid : id < g.codeBlocks) {insn : Insn}
    {kind : BlockKind} (h : Dictated src g id (some insn) kind) : g.LeadsBy src.method.code id insn kind := by
  cases h with
  | ret kind => exact .ret kind
  | throw => exact .throw
  | goto h => exact .goto ((labelStarts_iff hlabels).1 h)
  | jump h hnext =>
    unfold nextCodeBlock? at hnext
    split at hnext
    · rename_i hlt
      cases hnext
      exact .jump ((labelStarts_iff hlabels).1 h) hlt
    · cases hnext
  | switch h harms =>
    refine .switch ((labelStarts_iff hlabels).1 h) (harms.imp ?_)
    intro arm target harm
    exact ⟨harm.1, (labelStarts_iff hlabels).1 harm.2⟩
  | plain h =>
    unfold nextCodeBlock?
    split
    · rename_i hlt
      exact .next (h insn rfl) hlt
    · rename_i hge
      exact .last (h insn rfl) (Nat.le_antisymm hid (Nat.le_of_not_lt hge))

/-- The targets of a block are the blocks whose labels its last instruction names. -/
theorem LeadsBy.mem_targets {code : List Insn} {id : Nat} {insn : Insn} {kind : BlockKind} (h : g.LeadsBy code id insn kind) :
    (∀ target ∈ kind.targets, ∃ label ∈ insn.targets, g.LabelStarts code label target) ∧
      ∀ label ∈ insn.targets, ∃ target ∈ kind.targets, g.LabelStarts code label target := by
  have hplain : ∀ {insn : Insn}, insn.isPlain = true → insn.targets = [] := by
    intro insn hp
    cases insn <;> first | rfl | cases hp
  cases h with
  | ret kind => simp [BlockKind.targets, Insn.targets]
  | throw => simp [BlockKind.targets, Insn.targets]
  | goto h => simpa [BlockKind.targets, Insn.targets] using h
  | jump h _ => simpa [BlockKind.targets, Insn.targets] using h
  | next hp _ => simp [BlockKind.targets, hplain hp]
  | last hp _ => simp [BlockKind.targets, hplain hp]
  | switch h harms =>
    simp only [BlockKind.targets, Insn.targets, List.mem_map, List.mem_cons]
    constructor
    · rintro _ (rfl | ⟨target, htarget, rfl⟩)
      · exact ⟨_, .inl rfl, h⟩
      · obtain ⟨arm, harm, _, hstarts⟩ := exists_mem_of_forall₂_right harms htarget
        exact ⟨arm.2, .inr ⟨arm, harm, rfl⟩, hstarts⟩
    · rintro _ (rfl | ⟨arm, harm, rfl⟩)
      · exact ⟨_, .inl rfl, h⟩
      · obtain ⟨target, htarget, _, hstarts⟩ := exists_mem_of_forall₂ harms harm
        exact ⟨target.2, .inr ⟨target, htarget, rfl⟩, hstarts⟩

/-! ## Built graphs -/

theorem Built.leads (hb : Built src g) (hlabels : src.method.labels = .ok src.labels) {id : Nat} (hid : id < g.codeBlocks) :
    ∃ insn kind, src.method.code[(g.spanOf id).stop - 1]? = some insn ∧ g.block? id = some ⟨g.spanOf id, kind⟩ ∧
      g.LeadsBy src.method.code id insn kind := by
  obtain ⟨insn, hinsn⟩ := hb.exists_last hid
  obtain ⟨kind, hblock, hd⟩ := hb.dictated id hid
  rw [hb.lastInsn?_eq hid, hinsn] at hd
  exact ⟨insn, kind, hinsn, hblock, hd.leadsBy hlabels hid⟩

theorem Built.ends (hb : Built src g) {id i : Nat} {insn : Insn} (hid : id < g.codeBlocks) (hi : i ∈ g.spanOf id)
    (hinsn : src.method.code[i]? = some insn) (hplain : insn.isPlain = false) : i + 1 = (g.spanOf id).stop := by
  by_contra hne
  have hlt : i + 1 < (g.spanOf id).stop := by
    rw [Span.mem_def] at hi
    omega
  obtain ⟨insn', hinsn', hplain'⟩ := hb.inside id i hid hi.1 hlt
  rw [hinsn] at hinsn'
  cases hinsn'
  rw [hplain] at hplain'
  cases hplain'

/-- A block is jumped to exactly if a jump or switch of the code names the label it starts with. -/
theorem Built.isJumpTarget_iff (hb : Built src g) (hlabels : src.method.labels = .ok src.labels) (id : Nat) :
    g.isJumpTarget id = true ↔ id < g.codeBlocks ∧ ∃ insn ∈ src.method.code, ∃ label ∈ insn.targets,
      src.method.code[(g.spanOf id).start]? = some (.label label) := by
  rw [Graph.isJumpTarget_iff]
  constructor
  · rintro ⟨_, k, b, hblock, hmem⟩
    by_cases hk : k < g.codeBlocks
    · obtain ⟨insn, kind, hinsn, hblock', hleads⟩ := hb.leads hlabels hk
      rw [hblock] at hblock'
      cases hblock'
      obtain ⟨label, hlabel, hid, hstart⟩ := hleads.mem_targets.1 id hmem
      exact ⟨hid, insn, List.mem_of_getElem? hinsn, label, hlabel, hstart⟩
    · -- The other blocks are markers, which lead nowhere.
      obtain ⟨first, e, entry, start, stop, handler, _, _, _, _, htriple, _, rfl | rfl | rfl⟩ :=
        hb.exists_triple (Nat.le_of_not_lt hk) (lt_size_of_block? hblock)
      · cases hblock.symm.trans htriple.atStart
        cases hmem
      · cases hblock.symm.trans htriple.atStop
        cases hmem
      · cases hblock.symm.trans htriple.atHandler
        cases hmem
  · rintro ⟨hid, insn, hinsn, label, hlabel, hstart⟩
    obtain ⟨i, hi⟩ := List.mem_iff_getElem?.1 hinsn
    obtain ⟨k, hk, hik⟩ := hb.exists_block (List.getElem?_eq_some_iff.1 hi).1
    have hplain : insn.isPlain = false := by
      cases insn <;> first | rfl | cases hlabel
    have hlast : i = (g.spanOf k).stop - 1 := by
      have := hb.ends hk hik hi hplain
      omega
    obtain ⟨insn', kind, hinsn', hblock, hleads⟩ := hb.leads hlabels hk
    rw [← hlast, hi] at hinsn'
    cases hinsn'
    obtain ⟨target, htarget, hlt, hstart'⟩ := hleads.mem_targets.2 label hlabel
    -- A label stands at one place, so the target is the block itself.
    have hsame : (g.spanOf target).start = (g.spanOf id).start := by
      have h := ((Method.index_eq_ok hlabels).2 hstart').symm.trans ((Method.index_eq_ok hlabels).2 hstart)
      exact Except.ok.inj h
    rw [← hb.eq_of_start_eq hlt hid hsame]
    exact ⟨hlt.trans_le hb.laidOut.codeBlocks_le, k, _, hblock, htarget⟩

end

end Graph

/-- The graph built from a method refines the flow of control between its instructions. -/
theorem built_graph_refines_code (src : Source) (g : Graph) (hlabels : src.method.labels = .ok src.labels)
    (hgraph : Graph.build src Producer.all = .ok g) : g.Refines src.method.code := by
  have hb : Graph.Built src g := Graph.built_of_build hgraph
  refine ⟨hb.tiles, hb.nonempty, ?_, ?_, hb.isJumpTarget_iff hlabels⟩
  · intro id i insn hid hi hinsn hplain
    exact hb.ends hid hi hinsn hplain
  · intro id hid
    exact hb.leads hlabels hid

/-- A method whose first instruction is jumped to, with two labels next to each other of which a handler and a switch share one. -/
def neighbouringLabels : Source where
  method :=
    { owner := "A", name := "m", descriptor := "(I)V", isStatic := true
      code := [.label ⟨0⟩, .label ⟨1⟩, .load .int 0, .switch ⟨3⟩ [(1, ⟨1⟩), (2, ⟨2⟩)], .label ⟨2⟩, .goto ⟨0⟩, .label ⟨3⟩, .ret none]
      variableTable := []
      handlerTable := [⟨⟨1⟩, ⟨2⟩, ⟨3⟩, .any⟩] }
  labels := [(⟨0⟩, 0), (⟨1⟩, 1), (⟨2⟩, 4), (⟨3⟩, 6)]
  locals := Locals.empty.add ⟨0, "param0", "I", none, ⟨0, 8⟩, .parameter⟩

/-- The label at the start of the code is a block of its own, and both neighbours are jumped to. -/
theorem built_graph_refines_code_neighbours :
    neighbouringLabels.method.labels = .ok neighbouringLabels.labels ∧
      ∃ g, Graph.build neighbouringLabels Producer.all = .ok g ∧
        (List.range g.codeBlocks).map g.spanOf = [⟨0, 1⟩, ⟨1, 4⟩, ⟨4, 6⟩, ⟨6, 8⟩] ∧
        g.Refines neighbouringLabels.method.code := by
  have hlabels : neighbouringLabels.method.labels = .ok neighbouringLabels.labels := by rfl
  have hbuilds : (match Graph.build neighbouringLabels Producer.all with
      | .ok g => decide ((List.range g.codeBlocks).map g.spanOf = [⟨0, 1⟩, ⟨1, 4⟩, ⟨4, 6⟩, ⟨6, 8⟩])
      | .error _ => false) = true := by decide +kernel
  refine ⟨hlabels, ?_⟩
  split at hbuilds
  · rename_i g hgraph
    exact ⟨g, hgraph, of_decide_eq_true hbuilds, built_graph_refines_code _ g hlabels hgraph⟩
  · cases hbuilds

end CodeLift
