import CodeLift.Proofs.ControlFlow.Simulation
import CodeLift.Proofs.Graph.Built
import CodeLift.Proofs.Structuring.Recognition

/-!
# Blocks, branches and loops run as control walks

`Preserved` is what inner regions promise: their sections run as control walks through the region. Given that, the sections of a
block, a branch or a loop run as control walks through the blocks that the step takes.
-/

namespace CodeLift

/-! ## Runs of lists of sections -/

/-- Runs in a row can be grouped either way. -/
theorem Run.andThen_assoc (r : Run) (f h : Nat → Run) : (r.andThen f).andThen h = r.andThen fun clock => (f clock).andThen h := by
  unfold Run.andThen
  cases hr : r.ending with
  | done =>
    cases hf : (f r.clock).ending <;> simp [Run.after, hf]
  | _ => simp [hr]

/-- A run that goes on with nothing is itself. -/
theorem Run.andThen_done (r : Run) : (r.andThen fun clock => ⟨[], clock, .done⟩) = r := by
  obtain ⟨trace, clock, ending⟩ := r
  cases ending <;> simp [Run.andThen, Run.after]

namespace Section

variable {code : List Insn} {oracle : Oracle} {rounds : Nat}

/-- Sections in two lists run one list after the other. -/
theorem runAll_append (xs ys : List Section) :
    runAll code oracle rounds (xs ++ ys) = fun clock =>
      (runAll code oracle rounds xs clock).andThen (runAll code oracle rounds ys) := by
  induction xs with
  | nil =>
    funext clock
    simp [runAll, Run.andThen, Run.after]
  | cons s xs ih =>
    funext clock
    rw [List.cons_append, runAll, ih, runAll, Run.andThen_assoc]

/-- A list of one section runs that section. -/
theorem runAll_singleton (s : Section) : runAll code oracle rounds [s] = run code oracle rounds s := by
  funext clock
  have hnil : runAll code oracle rounds [] = fun clock => ⟨[], clock, .done⟩ := by
    funext clock
    rw [runAll]
  rw [runAll, hnil, Run.andThen_done]

end Section

/-- A body section runs the code of its span. -/
theorem runAll_bodySections {code : List Insn} {oracle : Oracle} {rounds : Nat} (span : Span) (clock : Nat) :
    Section.runAll code oracle rounds (bodySections span) clock = runStraight code clock span.indices := by
  unfold bodySections
  split
  · rename_i hempty
    rw [Span.indices_eq_nil hempty, Section.runAll, runStraight]
  · rw [Section.runAll_singleton, Section.run]

/-! ## Graphs of methods without handlers -/

/-- The graph of a method without handlers: no markers, no return or throw but at the end of a block that leaves the method, no
goto but at the end of a block that jumps, and switches with distinct values. -/
structure Plain (g : Graph) (code : List Insn) : Prop where
  unmarked : g.Unmarked
  body : ∀ id span next, g.block? id = some ⟨span, .body next⟩ → ∀ i ∈ span.indices, isExitAt code i = false
  exit : ∀ id span, g.block? id = some ⟨span, .exit⟩ → ∃ indices last, span.indices = indices ++ [last] ∧
    (∀ i ∈ indices, isExitAt code i = false) ∧ isExitAt code last = true
  goto : ∀ id span target, g.block? id = some ⟨span, .goto target⟩ →
    span.indices = (⟨span.start, span.stop - 1⟩ : Span).indices ++ [span.stop - 1] ∧ isGotoAt code (span.stop - 1) = true ∧
      ∀ i ∈ span.indices, isExitAt code i = false
  arms : ∀ id span arms otherwise, g.block? id = some ⟨span, .switch arms otherwise⟩ → (arms.map (·.1)).Nodup

/-- Control falls out of every block of the region. -/
def Region.Straight (g : Graph) (r : Region) : Prop := ∀ id ∈ r.blocks, g.isBody id = true

/-- The update of a loop is straight code. -/
theorem Recognizer.updateRun_straight {g : Graph} {r : Region} {bodyStart testAt updateAt place : Nat} (f : Option BlockId)
    (hlen : testAt ≤ r.length) (hupdateAt : updateRun g r bodyStart testAt = .ok updateAt) (hplace : updateAt ≤ place) :
    (r.sub place testAt f).Straight g := by
  intro id hid
  obtain ⟨i, hi⟩ := List.mem_iff_getElem?.1 hid
  have hlt := Region.lt_length_of_getElem? hi
  rw [Region.length_sub hlen] at hlt
  rw [Region.getElem?_sub hlt] at hi
  obtain ⟨_, id', hid', hisBody⟩ := updateRun_spec hupdateAt (Nat.le_add_right_of_le hplace) (by omega : place + i < _)
  cases hi.symm.trans hid'
  exact hisBody

/-- Sections run as control walks through their region, and straight code runs to its end. -/
structure Preserved (c : Run.Context) (around : List Breakable) (r : Region) (sections : List Section) : Prop where
  simulates : Falls c.graph r → Simulates c around (r.blockOrFollow? 0) r.follow (r.blocks ≠ [])
    (Section.runAll c.code c.oracle c.rounds sections)
  straight : r.Straight c.graph → ∀ clock, (Section.runAll c.code c.oracle c.rounds sections clock).ending = .done
  empty : r.blocks = [] → sections = []

section

variable {c : Run.Context} {subject : Subject} {around : List Breakable} {r : Region} {index : Nat}

/-- A part of a region, seen from the region. -/
theorem Preserved.sub {a b : Nat} {f : Option BlockId} {sections : List Section} (hfalls : Falls c.graph r) (hle : a ≤ b)
    (hlen : b ≤ r.length)
    (hf : f = r.blockOrFollow? b ∨ a < b ∧ ∃ id target, r.blocks[b - 1]? = some id ∧ c.graph.gotoTarget? id = some target)
    (h : Preserved c around (r.sub a b f) sections) :
    Simulates c around (r.blockOrFollow? a) f (a < b) (Section.runAll c.code c.oracle c.rounds sections) := by
  have hsim := h.simulates (hfalls.sub hlen (hf.imp_right fun hf => hf.2))
  rw [Region.blockOrFollow?_sub_zero hle hlen fun hab => hf.resolve_right fun hf => by omega] at hsim
  refine hsim.weaken fun hlt hnil => ?_
  have hlength : (r.sub a b f).length = b - a := Region.length_sub hlen
  rw [Region.length, hnil, List.length_nil] at hlength
  omega

/-! ## Blocks and jumps -/

/-- Code without a return or throw runs to its end. -/
theorem runAll_bodySections_done {code : List Insn} {oracle : Oracle} {rounds : Nat} {span : Span}
    (h : ∀ i ∈ span.indices, isExitAt code i = false) (clock : Nat) :
    Section.runAll code oracle rounds (bodySections span) clock = ⟨executed code span, clock, .done⟩ := by
  rw [runAll_bodySections, runStraight_done h]
  rfl

/-- A block that control falls out of or that leaves the method. -/
theorem straight_simulates (hp : Plain c.graph c.code) {id : BlockId} {span : Span} {kind : BlockKind}
    (hblock : c.graph.block? id = some ⟨span, kind⟩) {target : Option BlockId}
    (hkind : kind = .exit ∨ kind = .body target ∨ ∃ next, kind = .goto next ∧ target = some next) :
    Simulates c around (some id) target True (Section.runAll c.code c.oracle c.rounds (bodySections span)) := by
  intro clock
  have hwalk : c.graph.Walks c.code c.oracle 1 ⟨some id, clock⟩ _ _ := .block hblock clock
  rcases hkind with rfl | rfl | ⟨next, rfl, rfl⟩
  · obtain ⟨indices, last, hindices, hbefore, hlast⟩ := hp.exit id span hblock
    rw [runAll_bodySections, hindices, runStraight_halted hbefore hlast, ← hindices]
    exact ⟨1, _, hwalk, rfl, fun _ _ => Nat.one_pos⟩
  · rw [runAll_bodySections_done (hp.body id span target hblock)]
    exact ⟨1, _, hwalk, rfl, fun _ _ => Nat.one_pos⟩
  · rw [runAll_bodySections_done (hp.goto id span next hblock).2.2]
    exact ⟨1, _, hwalk, rfl, fun _ _ => Nat.one_pos⟩

/-- A jump out of the region stands for a break or continue that leads to its target. -/
theorem resolveFrom_leads {g : Graph} (hg : g.Unmarked) {target : BlockId} {jump : Option Nat} {depth loops : Nat}
    {s : Section} (h : resolveFrom g target jump depth loops around = some s) :
    (∃ d b, s = .breakOut (depth + d) jump ∧ around[d]? = some b ∧ b.breakTo = some target) ∨
      ∃ d b, s = .continueNext (loops + d) jump ∧ (around.filter (·.continueTo.isSome))[d]? = some b ∧
        b.continueTo = some target := by
  have hentry : ∀ place : Option BlockId, place.map g.entryBlock = place := by
    intro place
    cases place with
    | none => rfl
    | some id => rw [Option.map_some, hg.entryBlock]
  induction around generalizing depth loops with
  | nil => cases h
  | cons b rest ih =>
    rw [resolveFrom, hentry, hentry] at h
    split at h
    · rename_i hbreak
      cases h
      exact .inl ⟨0, b, rfl, rfl, hbreak⟩
    · split at h
      · rename_i hcontinue
        cases h
        refine .inr ⟨0, b, rfl, ?_, hcontinue⟩
        rw [List.filter_cons_of_pos (by rw [hcontinue]; rfl)]
        rfl
      · rcases ih h with ⟨d, b', rfl, hd, hb'⟩ | ⟨d, b', rfl, hd, hb'⟩
        · exact .inl ⟨d + 1, b', by rw [Nat.add_right_comm, Nat.add_assoc], hd, hb'⟩
        · cases hsome : b.continueTo.isSome with
          | true =>
            refine .inr ⟨d + 1, b', by rw [if_pos rfl, Nat.add_right_comm, Nat.add_assoc], ?_, hb'⟩
            rw [List.filter_cons_of_pos (by exact hsome), List.getElem?_cons_succ]
            exact hd
          | false =>
            refine .inr ⟨d, b', rfl, ?_, hb'⟩
            rw [List.filter_cons_of_neg (by simp [hsome])]
            exact hd

/-- At the target of a jump, its break or continue has nothing left to execute. -/
theorem jump_simulates (hg : c.graph.Unmarked) {start : BlockId} {jump : Option Nat} {s : Section} {target : Option BlockId}
    (h : resolveFrom c.graph start jump 0 0 around = some s) :
    Simulates c around (some start) target False (Section.run c.code c.oracle c.rounds s) := by
  intro clock
  rcases resolveFrom_leads hg h with ⟨d, b, rfl, hd, hb⟩ | ⟨d, b, rfl, hd, hb⟩
  · rw [Nat.zero_add, Section.run, ← hb]
    exact ⟨0, _, .zero _, ⟨b, hd, rfl⟩, False.elim⟩
  · rw [Nat.zero_add, Section.run, ← hb]
    exact ⟨0, _, .zero _, ⟨b, hd, rfl⟩, False.elim⟩

/-- A block that ends with a goto out of the region. -/
theorem jumping_simulates (hp : Plain c.graph c.code) {id next : BlockId} {span : Span} {jump : Section}
    (hblock : c.graph.block? id = some ⟨span, .goto next⟩)
    (hjump : resolveFrom c.graph next (some (span.stop - 1)) 0 0 around = some jump) {target : Option BlockId} :
    Simulates c around (some id) target True
      (Section.runAll c.code c.oracle c.rounds (bodySections ⟨span.start, span.stop - 1⟩ ++ [jump])) := by
  obtain ⟨hindices, hgoto, hbefore⟩ := hp.goto id span next hblock
  have hexecuted : executed c.code span = executed c.code ⟨span.start, span.stop - 1⟩ := by
    unfold executed
    rw [hindices, List.filter_append, List.filter_cons_of_neg (by simp [hgoto]), List.filter_nil, List.append_nil]
  have hrun : Section.runAll c.code c.oracle c.rounds (bodySections ⟨span.start, span.stop - 1⟩) = fun clock =>
      ⟨executed c.code span, clock, .done⟩ := by
    funext clock
    rw [hexecuted]
    exact runAll_bodySections_done (fun i hi => hbefore i (hindices ▸ List.mem_append_left _ hi)) clock
  rw [Section.runAll_append, Section.runAll_singleton, hrun]
  exact (jump_simulates hp.unmarked hjump).prepend Nat.one_pos fun clock => .block hblock clock

/-! ## Branches -/

/-- A branch runs one of its two lists, as its condition holds. -/
theorem run_branch {code : List Insn} {oracle : Oracle} {rounds : Nat} (guard : Guard) (thenPart elsePart : List Section) :
    Section.runAll code oracle rounds [.branch guard thenPart elsePart] = fun clock =>
      ((if (guard.test code oracle clock).holds then Section.runAll code oracle rounds thenPart
        else Section.runAll code oracle rounds elsePart) (guard.test code oracle clock).clock).after
          (guard.test code oracle clock).trace := by
  funext clock
  rw [Section.runAll_singleton, Section.run]

theorem runAll_nil {code : List Insn} {oracle : Oracle} {rounds : Nat} :
    Section.runAll code oracle rounds [] = fun clock => ⟨[], clock, .done⟩ := by
  funext clock
  rw [Section.runAll]

/-- A condition that leaves the region or goes on in it. -/
theorem leaving_simulates (hg : c.graph.Unmarked) (hfalls : Falls c.graph r) {chain : Chain} {jump : Section}
    (hchain : r.guardChain? c.graph index = some chain) (hjump : resolveFrom c.graph chain.skip none 0 0 around = some jump) :
    Simulates c around (r.blockOrFollow? index) (r.blockOrFollow? (chain.last + 1)) True
      (Section.runAll c.code c.oracle c.rounds [.branch chain.guard.negated [jump] []]) := by
  rw [run_branch, Section.runAll_singleton, runAll_nil]
  exact .branch (r.guardChain?_tests hg hfalls hchain).negated (jump_simulates hg hjump) .nil

/-- A branch without an else does what its blocks do. -/
theorem branch_simulates (hg : c.graph.Unmarked) (hfalls : Falls c.graph r) {chain : Chain} {skipAt : Nat}
    {thenPart : List Section} (hchain : r.guardChain? c.graph index = some chain)
    (hskip : Recognizer.skipPlace c.graph r chain = .ok (some skipAt))
    (hthen : Preserved c around (r.sub (chain.last + 1) skipAt (r.blockOrFollow? skipAt)) thenPart) :
    Simulates c around (r.blockOrFollow? index) (r.blockOrFollow? skipAt) True
      (Section.runAll c.code c.oracle c.rounds [.branch chain.guard thenPart []]) := by
  obtain ⟨hloc, hle, hlen⟩ := Recognizer.skipPlace_bounds hskip
  have hone := hthen.sub hfalls hle hlen (.inl rfl)
  rw [hg.blockOrFollow?_of_locate? hloc] at hone
  rw [run_branch, runAll_nil, hg.blockOrFollow?_of_locate? hloc]
  exact .branch (r.guardChain?_tests hg hfalls hchain) hone .nil

/-- A branch with an else does what its blocks do. -/
theorem branchElse_simulates (hg : c.graph.Unmarked) (hfalls : Falls c.graph r) {chain : Chain} {skipAt exitAt : Nat}
    {thenPart elsePart : List Section} (hchain : r.guardChain? c.graph index = some chain)
    (hskip : Recognizer.skipPlace c.graph r chain = .ok (some skipAt))
    (helse : Recognizer.elseEnd c.graph r (chain.last + 1) skipAt = .ok (some exitAt))
    (hthen : Preserved c around (r.sub (chain.last + 1) skipAt (r.blockOrFollow? exitAt)) thenPart)
    (helsePart : Preserved c around (r.sub skipAt exitAt (r.blockOrFollow? exitAt)) elsePart) :
    Simulates c around (r.blockOrFollow? index) (r.blockOrFollow? exitAt) True
      (Section.runAll c.code c.oracle c.rounds [.branch chain.guard thenPart elsePart]) := by
  obtain ⟨hloc, hle, hlen⟩ := Recognizer.skipPlace_bounds hskip
  obtain ⟨hlt, _, hexit, hexitLen, id, target, hid, hgoto, _⟩ := Recognizer.elseEnd_cases helse
  have hother := helsePart.sub hfalls (Nat.le_of_lt hexit) hexitLen (.inl rfl)
  rw [hg.blockOrFollow?_of_locate? hloc] at hother
  -- The code before the other branch ends with a goto, so that it does not fall into that branch.
  have hone := hthen.sub hfalls hle hlen (.inr ⟨hlt, id, target, hid, hgoto⟩)
  rw [run_branch]
  exact .branch (r.guardChain?_tests hg hfalls hchain) hone hother

/-! ## Loops -/

/-- A loop runs its rounds until one of them leaves it. -/
theorem run_loop {code : List Insn} {oracle : Oracle} {rounds : Nat} (kind : LoopKind) (guard : Option Guard)
    (body update : List Section) :
    Section.runAll code oracle rounds [.loop kind guard body update] = fun clock =>
      (Run.repeated (round kind ((guard.map (Guard.test code oracle)).getD fun clock => ⟨[], clock, true⟩)
        (Section.runAll code oracle rounds body) (Section.runAll code oracle rounds update)) rounds clock).leaveLoop := by
  funext clock
  rw [Section.runAll_singleton, Section.run]

/-- One round of a loop leads back to its first block, or to the block after the loop. -/
theorem loopRound_simulates (hg : c.graph.Unmarked) (hfalls : Falls c.graph r) {first : BlockId} {shape : Recognizer.LoopShape}
    {body : List Section} (hfirst : r.blocks[index]? = some first)
    (hshape : Recognizer.loopShape c.graph r index first = .ok (some shape))
    (hbody : Preserved c (⟨r.blockOrFollow? (shape.tail + 1), some shape.continueTo⟩ :: around)
      (r.sub shape.bodyStart shape.bodyStop (some shape.follow)) body) :
    Simulates c (⟨r.blockOrFollow? (shape.tail + 1), some shape.continueTo⟩ :: around) (r.blockOrFollow? index)
      (r.blockOrFollow? index) True
      (round shape.kind ((shape.guard.map (Guard.test c.code c.oracle)).getD fun clock => ⟨[], clock, true⟩)
        (Section.runAll c.code c.oracle c.rounds body) fun clock => ⟨[], clock, .done⟩) := by
  have hstart := Region.blockOrFollow?_of_getElem? hfirst
  obtain ⟨hle, hlen, hcases⟩ := Recognizer.loopShape_cases hshape
  obtain ⟨kind, guard, bodyStart, bodyStop, follow, continueTo, tail⟩ := shape
  rw [hg.entryBlock] at hcases
  dsimp only at hbody hle hlen hcases ⊢
  rcases hcases with ⟨testAt, test, guard', hfrom, hto, htest, hguard, heq⟩ |
    ⟨last, hlast, hgoto, ⟨chain, hchain, hin, hnext, heq⟩ | heq⟩
  · cases heq
    have htestAt := Region.blockOrFollow?_of_getElem? htest
    have htests : Tests c.graph c.code c.oracle _ _ _ _ := r.loopGuard?_tests hg hfalls hto hguard
    rw [htestAt, ← hstart] at htests
    have hone := hbody.sub hfalls hfrom (hto.trans (Nat.le_of_lt hlen)) (.inl htestAt.symm)
    refine .roundDoWhile htests hone ?_
    rcases Nat.lt_or_eq_of_le hfrom with hlt | rfl
    · exact .inl hlt
    · -- The loop is its condition only.
      rw [hbody.empty (by simp [Region.sub]), runAll_nil]
      exact .inr ⟨htestAt, fun clock => rfl⟩
  · cases heq
    have htests : Tests c.graph c.code c.oracle _ _ _ _ := r.guardChain?_tests hg hfalls hchain
    rw [hg.nextEntry?] at hnext
    rw [← hnext] at htests
    have hone := hbody.sub hfalls (Nat.le_succ_of_le hin) hlen (.inr ⟨Nat.succ_lt_succ hin, last, first, hlast, hgoto⟩)
    rw [hstart] at htests ⊢
    exact .roundWhile (.inl rfl) htests hone .nil
  · cases heq
    have hone := hbody.sub hfalls (Nat.le_succ_of_le hle) hlen (.inr ⟨Nat.lt_succ_of_le hle, last, first, hlast, hgoto⟩)
    rw [hstart] at hone ⊢
    exact (hone.weaken fun _ => Nat.lt_succ_of_le hle).catchContinue

/-- A loop does what its blocks do. -/
theorem loop_simulates (hg : c.graph.Unmarked) (hfalls : Falls c.graph r) {first : BlockId} {shape : Recognizer.LoopShape}
    {body : List Section} (hfirst : r.blocks[index]? = some first)
    (hshape : Recognizer.loopShape c.graph r index first = .ok (some shape))
    (hbody : Preserved c (⟨r.blockOrFollow? (shape.tail + 1), some shape.continueTo⟩ :: around)
      (r.sub shape.bodyStart shape.bodyStop (some shape.follow)) body) :
    Simulates c around (r.blockOrFollow? index) (r.blockOrFollow? (shape.tail + 1)) True
      (Section.runAll c.code c.oracle c.rounds [.loop shape.kind shape.guard body []]) := by
  rw [run_loop, runAll_nil]
  exact (loopRound_simulates hg hfalls hfirst hshape hbody).loop (Simulates.round_ne_continued fun clock => nofun)

/-- A block with a goto to the condition at the bottom of the loop after it. -/
theorem entryLoop_prepend (hp : Plain c.graph c.code) {shape : Recognizer.EntryLoopShape} {kind : LoopKind}
    {body update : List Section} (hshape : Recognizer.entryLoopShape c.graph r index = .ok (some shape))
    (hloop : Simulates c around (r.blockOrFollow? shape.testAt) (r.blockOrFollow? (shape.last + 1)) True
      (Section.runAll c.code c.oracle c.rounds [.loop kind (some shape.guard) body update])) :
    Simulates c around (r.blockOrFollow? index) (r.blockOrFollow? (shape.last + 1)) True
      (Section.runAll c.code c.oracle c.rounds
        [.body (c.graph.spanOf shape.entry), .loop kind (some shape.guard) body update]) := by
  obtain ⟨hentry, _, _, _, _, ⟨target, hgoto, hloc⟩, _⟩ := Recognizer.entryLoopShape_cases hshape
  obtain ⟨span, hblock⟩ := Graph.gotoTarget?_eq_some hgoto
  have hspan : c.graph.spanOf shape.entry = span := by rw [Graph.spanOf, hblock]; rfl
  have hrun : Section.runAll c.code c.oracle c.rounds [.body span] =
      Section.runAll c.code c.oracle c.rounds (bodySections span) := by
    funext clock
    rw [runAll_bodySections, Section.runAll_singleton, Section.run]
  have hfirst : Simulates c around (some shape.entry) (some target) True _ :=
    straight_simulates hp hblock (.inr (.inr ⟨target, rfl, rfl⟩))
  rw [← hp.unmarked.blockOrFollow?_of_locate? hloc, ← hrun] at hfirst
  rw [hspan, ← List.singleton_append, Section.runAll_append, Region.blockOrFollow?_of_getElem? hentry]
  exact hfirst.andThen hloop

/-- The condition of a loop that is entered at its condition. -/
theorem entryLoop_tests (hg : c.graph.Unmarked) (hfalls : Falls c.graph r) {shape : Recognizer.EntryLoopShape}
    (hshape : Recognizer.entryLoopShape c.graph r index = .ok (some shape)) :
    Tests c.graph c.code c.oracle (some shape.test) (r.blockOrFollow? (index + 1)) (r.blockOrFollow? (shape.last + 1))
      (shape.guard.test c.code c.oracle) := by
  obtain ⟨_, htest, _, hle, _, _, bodyEntry, hnext, hguard⟩ := Recognizer.entryLoopShape_cases hshape
  rw [← hg.nextEntry?, hnext, ← Region.blockOrFollow?_of_getElem? htest]
  exact r.loopGuard?_tests hg hfalls hle hguard

/-- A loop that is entered by a goto does what its blocks do. -/
theorem entryLoop_simulates (hp : Plain c.graph c.code) (hfalls : Falls c.graph r) {shape : Recognizer.EntryLoopShape}
    {body : List Section} (hshape : Recognizer.entryLoopShape c.graph r index = .ok (some shape))
    (hbody : Preserved c (⟨r.blockOrFollow? (shape.last + 1), some shape.test⟩ :: around)
      (r.sub (index + 1) shape.testAt (some shape.test)) body) :
    Simulates c around (r.blockOrFollow? index) (r.blockOrFollow? (shape.last + 1)) True (Section.runAll c.code c.oracle c.rounds
      [.body (c.graph.spanOf shape.entry), .loop .whileDo (some shape.guard) body []]) := by
  obtain ⟨_, htest, hlt, hle, hlen, _, _⟩ := Recognizer.entryLoopShape_cases hshape
  have htestAt := Region.blockOrFollow?_of_getElem? htest
  have hone := hbody.sub hfalls hlt (by omega) (.inl htestAt.symm)
  refine entryLoop_prepend hp hshape ?_
  rw [run_loop, runAll_nil, htestAt]
  exact (Simulates.roundWhile (.inl rfl) (entryLoop_tests hp.unmarked hfalls hshape) hone .nil).loop
    (Simulates.round_ne_continued fun clock => nofun)

/-- A loop with an update does what its blocks do. -/
theorem entryLoopUpdate_simulates (hp : Plain c.graph c.code) (hfalls : Falls c.graph r) {shape : Recognizer.EntryLoopShape}
    {updateAt place : Nat} {updateEntry : BlockId} {body update : List Section}
    (hshape : Recognizer.entryLoopShape c.graph r index = .ok (some shape))
    (hupdateAt : Recognizer.updateRun c.graph r (index + 1) shape.testAt = .ok updateAt) (hplace : updateAt ≤ place)
    (hlt : place < shape.testAt)
    (hentry : r.blocks[place]? = some updateEntry)
    (hbody : Preserved c (⟨r.blockOrFollow? (shape.last + 1), some updateEntry⟩ :: around)
      (r.sub (index + 1) place (some updateEntry)) body)
    (hupdate : Preserved c around (r.sub place shape.testAt (some shape.test)) update) :
    Simulates c around (r.blockOrFollow? index) (r.blockOrFollow? (shape.last + 1)) True (Section.runAll c.code c.oracle c.rounds
      [.body (c.graph.spanOf shape.entry), .loop .forUpdate (some shape.guard) body update]) := by
  obtain ⟨_, htest, _, hle, hlen, _, _⟩ := Recognizer.entryLoopShape_cases hshape
  have htestAt := Region.blockOrFollow?_of_getElem? htest
  have hplaceAt := Region.blockOrFollow?_of_getElem? hentry
  have hlen' : shape.testAt ≤ r.length := by omega
  have hfrom := (Recognizer.updateRun_spec hupdateAt hplace hlt).1
  have hone := hbody.sub hfalls (Nat.le_of_lt hfrom) (by omega) (.inl hplaceAt.symm)
  -- The update is straight code, so it runs the same inside the loop as around it.
  have hdone := hupdate.straight (Recognizer.updateRun_straight _ hlen' hupdateAt hplace)
  have hother := hupdate.sub hfalls (Nat.le_of_lt hlt) hlen' (.inl htestAt.symm)
  rw [hplaceAt] at hother
  refine entryLoop_prepend hp hshape ?_
  rw [run_loop, htestAt]
  exact (Simulates.roundWhile (.inr rfl) (entryLoop_tests hp.unmarked hfalls hshape) hone (hother.change_around hdone)).loop
    (Simulates.round_ne_continued fun clock => by rw [hdone clock]; nofun)

end

end CodeLift
