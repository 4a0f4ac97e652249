import CodeLift.Proofs.ControlFlow.Switch
import CodeLift.Proofs.Graph.Built
import CodeLift.Proofs.Structuring.Recognition

/-!
# Structuring preserves control flow

What a step takes runs as control walks through the blocks that it takes, so by induction a whole region does, and the sections of a
method without handlers have the executions of its graph: `sections_execute_like_graph`.
-/

namespace CodeLift

/-! ## The graph of a method without handlers -/

theorem isExitAt_of_isPlain {code : List Insn} {i : Nat} {insn : Insn} (h : code[i]? = some insn) (hplain : insn.isPlain = true) :
    isExitAt code i = false := by
  rw [isExitAt, h]
  split
  · rename_i heq
    cases heq
    cases hplain
  · rename_i heq
    cases heq
    cases hplain
  · rfl

namespace Graph

variable {src : Source} {g : Graph}

/-- Without handlers there are no blocks but those that hold code. -/
theorem Built.lt_codeBlocks (hb : Built src g) (htable : src.method.handlerTable = []) {id : Nat} {b : Block}
    (h : g.block? id = some b) : id < g.codeBlocks := by
  have hlt := lt_size_of_block? h
  have hsize := hb.size
  rw [htable, List.length_nil] at hsize
  omega

/-- What a block of the graph holds: code that control runs through up to its last instruction, which dictates where it goes. -/
theorem Built.block_code (hb : Built src g) (htable : src.method.handlerTable = []) {id : Nat} {span : Span} {kind : BlockKind}
    (h : g.block? id = some ⟨span, kind⟩) : span.indices = (⟨span.start, span.stop - 1⟩ : Span).indices ++ [span.stop - 1] ∧
      (∀ i ∈ (⟨span.start, span.stop - 1⟩ : Span).indices, isExitAt src.method.code i = false) ∧
      Dictated src g id src.method.code[span.stop - 1]? kind := by
  have hid := hb.lt_codeBlocks htable h
  have hspan : g.spanOf id = span := by rw [spanOf, h]; rfl
  have hlt := hb.nonempty id hid
  have hinside := hb.inside id
  obtain ⟨kind', hblock, hd⟩ := hb.dictated id hid
  rw [hspan] at hlt hinside hblock
  cases h.symm.trans hblock
  refine ⟨?_, fun i hi => ?_, ?_⟩
  · exact Span.indices_concat (by omega) (by omega)
  · obtain ⟨hfrom, hto⟩ := Span.mem_indices.1 hi
    obtain ⟨insn, hinsn, hplain⟩ := hinside i hid hfrom (by dsimp only at hto; omega)
    exact isExitAt_of_isPlain hinsn hplain
  · rw [hb.lastInsn?_eq hid, hspan] at hd
    exact hd

/-- The graph of a method without handlers and with distinct values in its switches. -/
theorem Built.plain (hb : Built src g) (htable : src.method.handlerTable = [])
    (harms : ∀ otherwise arms, .switch otherwise arms ∈ src.method.code → (arms.map (·.1)).Nodup) :
    Plain g src.method.code := by
  refine ⟨fun id => ?_, fun id span next h i hi => ?_, fun id span h => ?_, fun id span target h => ?_,
    fun id span arms otherwise h => ?_⟩
  · cases hmarker : g.marker? id with
    | none => rfl
    | some mark =>
      obtain ⟨span, hblock⟩ := marker?_eq_some hmarker
      rw [hb.marker?_eq_none (hb.lt_codeBlocks htable hblock)] at hmarker
      cases hmarker
  · obtain ⟨hindices, hbefore, hd⟩ := hb.block_code htable h
    rw [hindices, List.mem_append, List.mem_singleton] at hi
    rcases hi with hi | rfl
    · exact hbefore i hi
    · cases hinsn : src.method.code[span.stop - 1]? with
      | none => rw [isExitAt, hinsn]
      | some insn =>
        rw [hinsn] at hd
        cases hd with
        | plain hplain => exact isExitAt_of_isPlain hinsn (hplain insn rfl)
  · obtain ⟨hindices, hbefore, hd⟩ := hb.block_code htable h
    refine ⟨_, _, hindices, hbefore, ?_⟩
    generalize hinsn : src.method.code[span.stop - 1]? = insn at hd
    cases hd with
    | ret kind => rw [isExitAt, hinsn]
    | throw => rw [isExitAt, hinsn]
  · obtain ⟨hindices, hbefore, hd⟩ := hb.block_code htable h
    generalize hinsn : src.method.code[span.stop - 1]? = insn at hd
    cases hd with
    | goto _ =>
      refine ⟨hindices, by rw [isGotoAt, hinsn], fun i hi => ?_⟩
      rw [hindices, List.mem_append, List.mem_singleton] at hi
      rcases hi with hi | rfl
      · exact hbefore i hi
      · rw [isExitAt, hinsn]
  · obtain ⟨_, _, hd⟩ := hb.block_code htable h
    generalize hinsn : src.method.code[span.stop - 1]? = insn at hd
    cases hd with
    | switch _ hforall =>
      rw [map_fst_eq_of_forall₂ hforall]
      exact harms _ _ (List.mem_of_getElem? hinsn)

end Graph

/-! ## Regions -/

section

variable {subject : Subject} {oracle : Oracle} {rounds : Nat} {around : List Breakable} {r : Region} {index : Nat}

/-- What the graph and the sections of a method are run in. -/
abbrev Subject.context (subject : Subject) (oracle : Oracle) (rounds : Nat) : Run.Context :=
  ⟨subject.graph, subject.method.code, oracle, rounds⟩

/-- What a step takes runs as control walks through the blocks that it takes. -/
theorem Taken.simulates (hp : Plain subject.graph subject.method.code) (hset : subject.settings.commentOnError = false)
    (hfalls : Falls subject.graph r) {found : Match}
    (ht : Taken subject (Preserved (subject.context oracle rounds)) around r index found) :
    Simulates (subject.context oracle rounds) around (r.blockOrFollow? index) (r.blockOrFollow? found.resume) True
      (Section.runAll subject.method.code oracle rounds found.sections) := by
  cases ht with
  | @straight id span kind hid hblock hkind =>
    rw [Region.blockOrFollow?_of_getElem? hid]
    refine straight_simulates hp hblock (hkind.imp_right fun ⟨next, hnext⟩ => .inl ?_)
    rw [hnext, (hfalls index id span kind hid hblock).1 next hnext]
  | falling hid hblock hnext =>
    rw [Region.blockOrFollow?_of_getElem? hid]
    rw [hp.unmarked.nextEntry?] at hnext
    exact straight_simulates hp hblock (.inr (.inr ⟨_, rfl, hnext⟩))
  | jumping hid hblock _ hjump =>
    rw [Region.blockOrFollow?_of_getElem? hid]
    exact jumping_simulates hp hblock hjump
  | leaving hchain _ hjump => exact leaving_simulates hp.unmarked hfalls hchain hjump
  | branch hchain hskip _ hthen => exact branch_simulates hp.unmarked hfalls hchain hskip (hthen.of_strict hset)
  | branchElse hchain hskip helse hthen helsePart =>
    exact branchElse_simulates hp.unmarked hfalls hchain hskip helse (hthen.of_strict hset) (helsePart.of_strict hset)
  | loop hfirst hshape hbody => exact loop_simulates hp.unmarked hfalls hfirst hshape (hbody.of_strict hset)
  | entryLoop hshape hbody => exact entryLoop_simulates hp hfalls hshape (hbody.of_strict hset)
  | entryLoopUpdate hshape hupdateAt hplace hlt hentry hbody hupdate =>
    exact entryLoopUpdate_simulates hp hfalls hshape hupdateAt hplace hlt hentry (hbody.of_strict hset) hupdate
  | switch hlayout hcases => exact switch_simulates hp hset hfalls hlayout hcases
  | @tryCatch first _ _ _ _ _ _ _ hstart _ _ _ =>
    have hmarker := (Graph.markerOf?_eq_some.1 hstart).1
    rw [hp.unmarked first] at hmarker
    cases hmarker

theorem Region.Straight.kind {g : Graph} (h : r.Straight g) {i : Nat} {id : BlockId} {span : Span} {kind : BlockKind}
    (hid : r.blocks[i]? = some id) (hblock : g.block? id = some ⟨span, kind⟩) : ∃ next, kind = .body next := by
  have hbody := h id (List.mem_of_getElem? hid)
  rw [Graph.isBody, hblock] at hbody
  split at hbody
  · rename_i heq
    cases heq
    exact ⟨_, rfl⟩
  · cases hbody

theorem Region.Straight.not_branchesTo {g : Graph} (h : r.Straight g) {start count : Nat} {target : BlockId} (hcount : 0 < count) :
    ¬r.BranchesTo g start count target := by
  intro hrun
  obtain ⟨id, hid, hbranch⟩ := hrun.2 0 hcount
  obtain ⟨span, test, next, hblock⟩ := Graph.branchTarget?_eq_some hbranch
  obtain ⟨next', hkind⟩ := h.kind hid hblock
  cases hkind

theorem Region.Straight.guardChain? {g : Graph} (h : r.Straight g) (start : Nat) : r.guardChain? g start = none := by
  cases hchain : r.guardChain? g start with
  | none => rfl
  | some chain =>
    obtain ⟨count, target, hcount, hrun, _⟩ := guardChain?_cases hchain
    exact absurd hrun (h.not_branchesTo hcount)

theorem Region.Straight.gotoTarget? {g : Graph} (h : r.Straight g) {i : Nat} {id : BlockId} (hid : r.blocks[i]? = some id) :
    g.gotoTarget? id = none := by
  cases hgoto : g.gotoTarget? id with
  | none => rfl
  | some target =>
    obtain ⟨span, hblock⟩ := Graph.gotoTarget?_eq_some hgoto
    obtain ⟨next, hkind⟩ := h.kind hid hblock
    cases hkind

/-- In straight code a step takes a block that control falls out of: there is no construct without a jump. -/
theorem Taken.of_straight {P : RegionProperty} (hs : r.Straight subject.graph) {found : Match}
    (ht : Taken subject P around r index found) : ∃ id span next, r.blocks[index]? = some id ∧
      subject.graph.block? id = some ⟨span, .body next⟩ ∧ found = ⟨bodySections span, index + 1⟩ := by
  cases ht with
  | @straight id span kind hid hblock _ =>
    obtain ⟨next, rfl⟩ := hs.kind hid hblock
    exact ⟨id, span, next, hid, hblock, rfl⟩
  | falling hid hblock _ =>
    obtain ⟨_, hkind⟩ := hs.kind hid hblock
    cases hkind
  | jumping hid hblock _ _ =>
    obtain ⟨_, hkind⟩ := hs.kind hid hblock
    cases hkind
  | leaving hchain _ _ => cases (hs.guardChain? index).symm.trans hchain
  | branch hchain _ _ _ => cases (hs.guardChain? index).symm.trans hchain
  | branchElse hchain _ _ _ _ => cases (hs.guardChain? index).symm.trans hchain
  | loop _ hshape _ =>
    obtain ⟨_, _, ⟨testAt, _, _, _, hle, _, hguard, _⟩ | ⟨last, hlast, hgoto, _⟩⟩ := Recognizer.loopShape_cases hshape
    · obtain ⟨hrun, _⟩ | ⟨_, _, hrun, _⟩ := Region.loopGuard?_cases hle hguard
      · exact absurd hrun (hs.not_branchesTo (by omega))
      · exact absurd hrun (hs.not_branchesTo Nat.one_pos)
    · cases (hs.gotoTarget? hlast).symm.trans hgoto
  | entryLoop hshape _ =>
    obtain ⟨hentry, _, _, _, _, ⟨_, hgoto, _⟩, _⟩ := Recognizer.entryLoopShape_cases hshape
    cases (hs.gotoTarget? hentry).symm.trans hgoto
  | entryLoopUpdate hshape _ _ _ _ _ _ =>
    obtain ⟨hentry, _, _, _, _, ⟨_, hgoto, _⟩, _⟩ := Recognizer.entryLoopShape_cases hshape
    cases (hs.gotoTarget? hentry).symm.trans hgoto
  | switch hlayout _ =>
    obtain ⟨id, _, _, hid, hblock, _⟩ := Recognizer.switchLayout_cases hlayout
    obtain ⟨_, hkind⟩ := hs.kind hid hblock
    cases hkind
  | tryCatch hfirst hstart _ _ _ =>
    obtain ⟨span, hblock⟩ := Graph.marker?_eq_some (Graph.markerOf?_eq_some.1 hstart).1
    obtain ⟨_, hkind⟩ := hs.kind hfirst hblock
    cases hkind

/-- Steps one after the other run as control walks through the rest of the region. -/
theorem Scanned.simulates (hp : Plain subject.graph subject.method.code) (hset : subject.settings.commentOnError = false)
    (hfalls : Falls subject.graph r) {sections : List Section}
    (h : Scanned subject (Preserved (subject.context oracle rounds)) around r index sections) :
    Simulates (subject.context oracle rounds) around (r.blockOrFollow? index) r.follow (index < r.length)
      (Section.runAll subject.method.code oracle rounds sections) := by
  induction h with
  | @done index hle =>
    rw [runAll_nil, Region.blockOrFollow?_of_le hle]
    exact Simulates.nil.weaken fun hlt => by omega
  | step htaken _ _ ih =>
    rw [Section.runAll_append]
    exact ((htaken.simulates hp hset hfalls).andThen ih).weaken fun _ => trivial

/-- Steps through straight code run to the end of it. -/
theorem Scanned.straight (hp : Plain subject.graph subject.method.code) {P : RegionProperty} (hs : r.Straight subject.graph)
    {sections : List Section} (h : Scanned subject P around r index sections) (clock : Nat) :
    (Section.runAll subject.method.code oracle rounds sections clock).ending = .done := by
  induction h with
  | done _ => rw [Section.runAll]
  | step htaken _ _ ih =>
    obtain ⟨id, span, next, _, hblock, rfl⟩ := htaken.of_straight hs
    rw [Section.runAll_append]
    dsimp only
    rw [runAll_bodySections_done (hp.body id span next hblock)]
    exact ih

/-- A scanned region runs as control walks through it. -/
theorem Scanned.preserved (hp : Plain subject.graph subject.method.code) (hset : subject.settings.commentOnError = false)
    {sections : List Section} (h : Scanned subject (Preserved (subject.context oracle rounds)) around r 0 sections) :
    Preserved (subject.context oracle rounds) around r sections := by
  refine ⟨fun hfalls => ?_, fun hs => h.straight hp hs, fun hempty => ?_⟩
  · exact (h.simulates hp hset hfalls).weaken fun hne => List.length_pos_iff.2 hne
  · cases h with
    | done _ => rfl
    | step htaken _ _ =>
      obtain ⟨hlt, hle⟩ := htaken.bounds
      rw [Region.length, hempty, List.length_nil] at hle
      omega

end

/-! ## Methods -/

namespace Graph

variable {src : Source} {g : Graph}

/-- Without handlers the blocks are laid out in the order of the code. -/
theorem Built.order_eq_range (hb : Built src g) (htable : src.method.handlerTable = []) : g.order = List.range g.codeBlocks := by
  have hsize := hb.size
  rw [htable, List.length_nil, Nat.mul_zero, Nat.add_zero] at hsize
  rw [← hb.laidOut.ascending, eq_comm, List.filter_eq_self]
  intro id hid
  have hlt := List.mem_range.1 (hb.laidOut.perm.mem_iff.1 hid)
  exact decide_eq_true (hsize ▸ hlt)

/-- Without handlers control falls from each block to the next one in the layout. -/
theorem Built.falls (hb : Built src g) (htable : src.method.handlerTable = []) : Falls g ⟨g.order, none⟩ := by
  intro i id span kind hid hblock
  have hnext : (⟨g.order, none⟩ : Region).blockOrFollow? (i + 1) = g.nextCodeBlock? id := by
    rw [hb.order_eq_range htable] at hid ⊢
    obtain ⟨hlt, rfl⟩ := List.getElem?_eq_some_iff.1 hid
    rw [Region.blockOrFollow?, nextCodeBlock?, List.getElem_range, Option.or_none]
    split
    · rename_i hnext
      exact List.getElem?_range hnext
    · rename_i hlast
      exact List.getElem?_eq_none (by simpa using hlast)
  obtain ⟨_, _, hd⟩ := hb.block_code htable hblock
  rw [hnext]
  refine ⟨fun next hkind => ?_, fun test target next hkind => ?_⟩
  · subst hkind
    generalize src.method.code[span.stop - 1]? = last at hd
    cases hd with
    | plain _ => rfl
  · subst hkind
    generalize src.method.code[span.stop - 1]? = last at hd
    cases hd with
    | jump _ hnext => exact hnext

/-- A walk that has left the method is the whole execution. -/
theorem execution_of_ended {code : List Insn} {oracle : Oracle} {n : Nat} {trace : List Nat} {place : Place}
    (hwalk : g.Walks code oracle n ⟨some 0, 0⟩ trace place) (hended : place.block = none) {m : Nat} (hle : n ≤ m) :
    g.execution code oracle m = g.execution code oracle n := by
  obtain ⟨d, rfl⟩ := Nat.exists_eq_add_of_le hle
  obtain ⟨block, clock⟩ := place
  cases hended
  have hlonger : g.Walks code oracle (n + d) ⟨some 0, 0⟩ (trace ++ []) ⟨none, clock⟩ := hwalk.trans (walk_ended d clock)
  rw [execution, execution, hlonger, hwalk, List.append_nil]

end Graph

/-- The sections of a method without handlers execute what a walk through its graph executes, and the walk has ended or it is at
least as long as the bound on the rounds of the loops. -/
theorem execution_keepsUp (subject : Subject) (hb : Graph.Built subject.toSource subject.graph)
    (htable : subject.method.handlerTable = []) {oracle : Oracle} {rounds : Nat} {sections : List Section}
    (h : Preserved (subject.context oracle rounds) [] ⟨subject.graph.order, none⟩ sections) :
    ∃ n, Section.execution sections subject.method.code oracle rounds = subject.graph.execution subject.method.code oracle n ∧
      (rounds ≤ n ∨ ∀ m, n ≤ m →
        subject.graph.execution subject.method.code oracle m = subject.graph.execution subject.method.code oracle n) := by
  have horder := hb.order_eq_range htable
  cases hcount : subject.graph.codeBlocks with
  | zero =>
    -- There is no code: control leaves the method at once.
    have hsections : sections = [] := h.empty (by rw [horder, hcount]; rfl)
    have hblock : subject.graph.block? 0 = none := by
      cases hblock : subject.graph.block? 0 with
      | none => rfl
      | some b =>
        have hlt := hb.lt_codeBlocks htable hblock
        omega
    have hwalk : subject.graph.Walks subject.method.code oracle 1 ⟨some 0, 0⟩ [] ⟨none, 0⟩ := by
      simp [Graph.Walks, Graph.walk, Graph.visit, hblock]
    refine ⟨1, ?_, .inr fun m => Graph.execution_of_ended hwalk rfl⟩
    rw [hsections, Section.execution, Section.runAll, Graph.execution, hwalk]
  | succ count =>
    have hstart : (⟨subject.graph.order, none⟩ : Region).blockOrFollow? 0 = some 0 := by
      rw [horder, hcount, Region.blockOrFollow?, List.getElem?_range (Nat.succ_pos count)]
      rfl
    obtain ⟨n, place, hwalk, hlands, _⟩ := h.simulates (hb.falls htable) 0
    rw [hstart] at hwalk
    refine ⟨n, (congrArg Prod.fst hwalk).symm, ?_⟩
    unfold Lands at hlands
    split at hlands
    · exact .inr fun m => Graph.execution_of_ended hwalk (by rw [hlands])
    · obtain ⟨_, hnone, _⟩ := hlands
      cases hnone
    · obtain ⟨_, hnone, _⟩ := hlands
      cases hnone
    · exact .inr fun m => Graph.execution_of_ended hwalk hlands
    · exact .inl hlands

/-- If the switches of a method without handlers have distinct values, its sections execute the same instructions in the same order
as its graph, gotos left out, whatever the outcomes of its conditional jumps and the keys of its switches are. -/
theorem sections_execute_like_graph (src : Source) (g : Graph) (settings : Settings) (events events' : List Event)
    (sections : List Section) (htable : src.method.handlerTable = [])
    (harms : ∀ otherwise arms, .switch otherwise arms ∈ src.method.code → (arms.map (·.1)).Nodup)
    (hgraph : Graph.build src Producer.all = .ok g) (hset : settings.commentOnError = false)
    (h : Subject.sectionsTraced ⟨src, g, settings⟩ Recognizer.all events = .ok sections events') (oracle : Oracle) (k : Nat) :
    ∃ first, FirstExecuted k (g.execution src.method.code oracle) first ∧
      FirstExecuted k (Section.execution sections src.method.code oracle) first := by
  have hb : Graph.Built src g := Graph.built_of_build hgraph
  have hp : Plain g src.method.code := hb.plain htable harms
  obtain ⟨s, hs⟩ := Subject.exists_of_sectionsTraced h
  obtain ⟨first, hfirst⟩ := exists_firstExecuted (f := g.execution src.method.code oracle) (fun hle => g.execution_prefix hle) k
  refine ⟨first, hfirst, hfirst.of_keepsUp fun rounds => ?_⟩
  have hpreserved : Preserved (Subject.context ⟨src, g, settings⟩ oracle rounds) [] ⟨g.order, none⟩ sections :=
    (Subject.inner_of_sections (fun _ _ _ hscanned => hscanned.preserved hp hset) (fun _ => id) hs).of_strict hset
  exact execution_keepsUp ⟨src, g, settings⟩ hb htable hpreserved

/-- A method with a loop that counts, a switch in it whose cases fall through, break and continue, and a condition of two jumps. -/
def loopWithSwitch : Source where
  method :=
    { owner := "A", name := "m", descriptor := "()V", isStatic := true
      code := [.goto ⟨5⟩, .label ⟨1⟩, .load .int 0, .switch ⟨4⟩ [(1, ⟨2⟩), (7, ⟨3⟩)], .label ⟨2⟩, .nop, .label ⟨3⟩, .load .int 0,
        .jump .eq ⟨6⟩, .goto ⟨4⟩, .label ⟨4⟩, .increment 0 1, .label ⟨5⟩, .load .int 0, .jump .lt ⟨1⟩, .load .int 1, .jump .ne ⟨1⟩,
        .label ⟨6⟩, .ret none]
      variableTable := []
      handlerTable := [] }
  labels := [(⟨1⟩, 1), (⟨2⟩, 4), (⟨3⟩, 6), (⟨4⟩, 10), (⟨5⟩, 12), (⟨6⟩, 17)]
  locals := .empty

/-- The loop and the switch of the method execute like its graph, however often the loop goes round. -/
theorem sections_execute_like_graph_loop :
    ∃ g sections events, Graph.build loopWithSwitch Producer.all = .ok g ∧
      Subject.sectionsTraced ⟨loopWithSwitch, g, ⟨false, 10, true⟩⟩ Recognizer.all [] = .ok sections events ∧
      ∀ oracle k, ∃ first, FirstExecuted k (g.execution loopWithSwitch.method.code oracle) first ∧
        FirstExecuted k (Section.execution sections loopWithSwitch.method.code oracle) first := by
  have hstructured : loopWithSwitch.structuresInto ⟨false, 10, true⟩ (fun _ => true) = true := by decide +kernel
  obtain ⟨g, sections, events, hgraph, hsections, _⟩ := Source.exists_of_structuresInto hstructured
  have harms : ∀ otherwise arms, .switch otherwise arms ∈ loopWithSwitch.method.code → (arms.map (·.1)).Nodup := by
    intro otherwise arms hmem
    simp only [loopWithSwitch, List.mem_cons, List.not_mem_nil, reduceCtorEq, Insn.switch.injEq, false_or, or_false] at hmem
    obtain ⟨_, rfl⟩ := hmem
    decide
  refine ⟨g, sections, events, hgraph, hsections, fun oracle k => ?_⟩
  exact sections_execute_like_graph loopWithSwitch g _ [] events sections rfl harms hgraph rfl hsections oracle k

end CodeLift
