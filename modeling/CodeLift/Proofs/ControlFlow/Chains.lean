import CodeLift.Proofs.Graph.Refinement
import CodeLift.Proofs.Guards
import CodeLift.Proofs.Structuring.Parts

/-!
# Chains of conditional blocks decide as their guards do

Control that enters a recognized chain of conditional blocks goes through the blocks whose jumps the evaluation of the guard looks
at, in the same order, and leaves the chain where the outcome of the guard says. This holds also in graphs with markers, if control
falls from each conditional block to where the region goes on.
-/

namespace CodeLift

namespace Graph

/-- Control goes through conditional blocks: from each it goes to the target if the jump is taken, and falls through if not. -/
inductive Crosses (g : Graph) (taken : BlockId → Bool) : BlockId → List BlockId → BlockId → Prop where
  | here (id : BlockId) : Crosses g taken id [] id
  | block {id target next exit : BlockId} {span : Span} {test : JumpTest} {rest : List BlockId}
      (h : g.block? id = some ⟨span, .branch test target next⟩)
      (hrest : Crosses g taken (if taken id then target else next) rest exit) : Crosses g taken id (id :: rest) exit

theorem Crosses.append {g : Graph} {taken : BlockId → Bool} {first mid exit : BlockId} {xs ys : List BlockId}
    (h : g.Crosses taken first xs mid) (h' : g.Crosses taken mid ys exit) : g.Crosses taken first (xs ++ ys) exit := by
  induction h with
  | here _ => exact h'
  | block hblock _ ih => exact .block hblock (ih h')

end Graph

namespace Region

/-- From each conditional block of a region control falls to where the region goes on. -/
def FallsOn (r : Region) (g : Graph) : Prop :=
  ∀ (i : Nat) id span test target next, r.blocks[i]? = some id → g.block? id = some ⟨span, .branch test target next⟩ →
    r.nextEntry? g i = some next

/-- Control that enters the blocks of a region from one place up to another goes through those that an evaluation looks at, to one
block if the evaluation holds and to another if not. -/
def WalksBy (r : Region) (g : Graph) (start stop : Nat) (taken : BlockId → Bool) (evaluation : Evaluation)
    (yes no : Option BlockId) : Prop :=
  ∃ first visited exit, r.blocks[start]? = some first ∧ g.Crosses taken first visited exit ∧
    visited <+: (r.sub start stop none).blocks ∧ visited.map g.spanOf = evaluation.spans ∧
    (if evaluation.holds then yes else no) = some exit

/-- A guard stands for the conditional blocks of a region from one place to another. -/
structure GuardedBy (r : Region) (g : Graph) (start last : Nat) (guard : Guard) (yes no : Option BlockId) : Prop where
  last_lt : last < r.length
  spans : guard.spans = (r.sub start (last + 1) none).blocks.map g.spanOf
  /-- No jump or switch leads to any of the blocks but the first. -/
  unjumped : ∀ (i : Nat) id, start < i → i ≤ last → r.blocks[i]? = some id → ∀ (other : BlockId) b, g.block? other = some b →
    id ∉ b.kind.targets
  walks : start ≤ last → ∀ taken : BlockId → Bool,
    r.WalksBy g start (last + 1) taken (guard.evaluate ((r.sub start (last + 1) none).blocks.map taken)) yes no

variable {r : Region} {g : Graph}

theorem jumpGuards_cons {start : Nat} {id : BlockId} (negate : Bool) (count : Nat) (h : r.blocks[start]? = some id) :
    r.jumpGuards g negate start (count + 1) = g.jumpGuard negate id :: r.jumpGuards g negate (start + 1) count := by
  obtain ⟨hlt, rfl⟩ := List.getElem?_eq_some_iff.1 h
  rw [jumpGuards, List.drop_eq_getElem_cons hlt, List.take_succ_cons, List.map_cons]
  rfl

/-- Where control enters a region at a place: the starts of protected ranges let it through. -/
def entryAt? (r : Region) (g : Graph) (index : Nat) : Option BlockId := (r.blockOrFollow? index).map g.entryBlock

/-- Control that enters at a conditional block enters that block. -/
theorem entryAt?_of_branch {i : Nat} {id target : BlockId} (hid : r.blocks[i]? = some id) (h : g.branchTarget? id = some target) :
    r.entryAt? g i = some id := by
  obtain ⟨span, test, next, hblock⟩ := Graph.branchTarget?_eq_some h
  have hunmarked : g.marker? id = none := by rw [Graph.marker?, hblock]
  rw [entryAt?, blockOrFollow?_of_getElem? hid, Option.map_some, Graph.entryBlock_of_unmarked hunmarked]

/-! ## Walking through a chain -/

/-- A run of conditional blocks with one target: a jump that is taken decides the parts of the guard, and without one control falls
out of the run while the rest of the parts decide. -/
theorem BranchesTo.crosses (hfalls : r.FallsOn g) (taken : BlockId → Bool) (neutral : Bool) (tail : List Guard) (others : List Bool)
    {start count : Nat} {target first : BlockId} {evaluation : Evaluation} (h : r.BranchesTo g start count target)
    (hfirst : r.entryAt? g start = some first)
    (heval : Guard.evaluateAll neutral (r.jumpGuards g neutral start count ++ tail)
      ((r.sub start (start + count) none).blocks.map taken ++ others) = evaluation) :
    (∃ visited, g.Crosses taken first visited target ∧ visited <+: (r.sub start (start + count) none).blocks ∧
      evaluation = ⟨visited.map g.spanOf, !neutral⟩) ∨
    ∃ exit, g.Crosses taken first (r.sub start (start + count) none).blocks exit ∧ r.entryAt? g (start + count) = some exit ∧
      evaluation = ⟨(r.sub start (start + count) none).blocks.map g.spanOf ++ (Guard.evaluateAll neutral tail others).spans,
        (Guard.evaluateAll neutral tail others).holds⟩ := by
  induction count generalizing start first evaluation with
  | zero =>
    right
    rw [Nat.add_zero, sub_self] at heval ⊢
    exact ⟨first, .here first, hfirst, by simpa [jumpGuards] using heval.symm⟩
  | succ count ih =>
    obtain ⟨id, hid, hbranch⟩ := h.2 0 (Nat.succ_pos count)
    rw [Nat.add_zero] at hid
    obtain ⟨span, test, next, hblock⟩ := Graph.branchTarget?_eq_some hbranch
    obtain rfl : id = first := Option.some.inj ((entryAt?_of_branch hid hbranch).symm.trans hfirst)
    have hblocks : (r.sub start (start + (count + 1)) none).blocks = id :: (r.sub (start + 1) (start + 1 + count) none).blocks := by
      rw [sub_cons none hid (by omega), show start + (count + 1) = start + 1 + count by omega]
    rw [jumpGuards_cons neutral count hid, hblocks, List.map_cons, List.cons_append, List.cons_append, Graph.jumpGuard] at heval
    rw [hblocks, show start + (count + 1) = start + 1 + count by omega]
    cases htaken : taken id with
    | true =>
      left
      rw [htaken, Guard.evaluateAll_taken] at heval
      exact ⟨[id], .block hblock (by rw [htaken]; exact .here target), ⟨_, rfl⟩, heval.symm⟩
    | false =>
      rw [htaken, Guard.evaluateAll_passed] at heval
      rcases ih h.tail (hfalls start id span test target next hid hblock) rfl with ⟨visited, hcrosses, hprefix, hrest⟩ |
        ⟨exit, hcrosses, hexit, hrest⟩
      · left
        refine ⟨id :: visited, .block hblock (by rw [htaken]; exact hcrosses), List.prefix_cons_inj id |>.2 hprefix, ?_⟩
        rw [← heval, hrest]
        rfl
      · right
        refine ⟨exit, .block hblock (by rw [htaken]; exact hcrosses), hexit, ?_⟩
        rw [← heval, hrest]
        rfl

/-- A run of conditional blocks with one target, each of which decides if its jump is taken. -/
theorem BranchesTo.walksAlike (hfalls : r.FallsOn g) (neutral : Bool) (taken : BlockId → Bool) {start count : Nat}
    {target : BlockId} (hpos : 0 < count) (h : r.BranchesTo g start count target) :
    r.WalksBy g start (start + count) taken
      (Guard.evaluateAll neutral (r.jumpGuards g neutral start count) ((r.sub start (start + count) none).blocks.map taken))
      (bif neutral then r.entryAt? g (start + count) else some target)
      (bif neutral then some target else r.entryAt? g (start + count)) := by
  obtain ⟨first, hfirst, hbranch⟩ := h.2 0 hpos
  rw [Nat.add_zero] at hfirst
  have hcrosses := h.crosses hfalls taken neutral [] [] (entryAt?_of_branch hfirst hbranch) rfl
  rw [List.append_nil, List.append_nil] at hcrosses
  rcases hcrosses with ⟨visited, hcrosses, hprefix, heval⟩ | ⟨exit, hcrosses, hexit, heval⟩
  · rw [heval]
    exact ⟨first, visited, target, hfirst, hcrosses, hprefix, rfl, by cases neutral <;> rfl⟩
  · rw [heval]
    refine ⟨first, _, exit, hfirst, hcrosses, List.prefix_refl _, by simp [Guard.evaluateAll], ?_⟩
    cases neutral <;> simpa [Guard.evaluateAll] using hexit

/-- A run of conditional blocks with one target and one more block, whose jump decides the other way round and which falls to that
target. -/
theorem BranchesTo.walksThenLast (hfalls : r.FallsOn g) (neutral : Bool) (taken : BlockId → Bool) {start count : Nat}
    {target lastTarget : BlockId} (h : r.BranchesTo g start count target) (hlast : r.BranchesTo g (start + count) 1 lastTarget)
    (hnext : r.nextEntry? g (start + count) = some target) :
    r.WalksBy g start (start + count + 1) taken
      (Guard.evaluateAll neutral (r.jumpGuards g neutral start count ++ r.jumpGuards g (!neutral) (start + count) 1)
        ((r.sub start (start + count + 1) none).blocks.map taken))
      (bif neutral then some lastTarget else some target) (bif neutral then some target else some lastTarget) := by
  obtain ⟨last, hid, hbranch⟩ := hlast.2 0 Nat.one_pos
  rw [Nat.add_zero] at hid
  obtain ⟨span, test, next, hblock⟩ := Graph.branchTarget?_eq_some hbranch
  have hblocks : (r.sub start (start + count + 1) none).blocks = (r.sub start (start + count) none).blocks ++ [last] := by
    rw [← sub_append_sub none none none (Nat.le_add_right start count) (Nat.le_succ _), sub_single none hid]
  have hguards : r.jumpGuards g (!neutral) (start + count) 1 = [g.jumpGuard (!neutral) last] := by
    rw [jumpGuards_cons _ _ hid, jumpGuards, List.take_zero, List.map_nil]
  obtain rfl : next = target := Option.some.inj ((hfalls _ _ _ _ _ _ hid hblock).symm.trans hnext)
  obtain ⟨first, firstTarget, hfirst, hfirstBranch⟩ :
      ∃ first firstTarget, r.blocks[start]? = some first ∧ g.branchTarget? first = some firstTarget := by
    rcases Nat.eq_zero_or_pos count with rfl | hpos
    · exact ⟨last, lastTarget, hid, hbranch⟩
    · obtain ⟨first, hfirst, hfirstBranch⟩ := h.2 0 hpos
      exact ⟨first, next, hfirst, hfirstBranch⟩
  have hcrosses := h.crosses hfalls taken neutral [g.jumpGuard (!neutral) last] [taken last]
    (entryAt?_of_branch hfirst hfirstBranch) rfl
  rw [hblocks, hguards, List.map_append, List.map_singleton]
  rcases hcrosses with ⟨visited, hcrosses, hprefix, heval⟩ | ⟨exit, hcrosses, hexit, heval⟩
  · rw [heval]
    refine ⟨first, visited, next, hfirst, hcrosses, hblocks ▸ hprefix.trans (List.prefix_append _ _), rfl, ?_⟩
    cases neutral <;> rfl
  · obtain rfl : last = exit := Option.some.inj ((entryAt?_of_branch hid hbranch).symm.trans hexit)
    rw [heval, Graph.jumpGuard, Guard.evaluateAll_single]
    refine ⟨first, _, _, hfirst, hcrosses.append (.block hblock (.here _)), hblocks ▸ List.prefix_refl _, by simp, ?_⟩
    by_cases htaken : taken last = true
    · cases neutral <;> simp [htaken]
    · cases neutral <;> simp [htaken]

/-! ## Recognized conditions -/

/-- A block that can continue a chain is no target of a jump. -/
theorem not_mem_targets_of_linkTarget? {id target : BlockId} (h : g.linkTarget? id = some target) {other : BlockId} {b : Block}
    (hother : g.block? other = some b) : id ∉ b.kind.targets := by
  intro hmem
  obtain ⟨span, test, next, hblock⟩ := Graph.branchTarget?_eq_some (branchTarget?_of_linkTarget? h)
  have hjump : g.isJumpTarget id = true := Graph.isJumpTarget_iff.2 ⟨Graph.lt_size_of_block? hblock, other, b, hother, hmem⟩
  rw [Graph.linkTarget?, if_pos hjump] at h
  cases h

/-- Only the first block of a condition in front of code can be jumped to. -/
theorem guardChain?_linked {start : Nat} {chain : Chain} (h : r.guardChain? g start = some chain) {i : Nat} {id : BlockId}
    (hlt : start < i) (hle : i ≤ chain.last) (hid : r.blocks[i]? = some id) : ∃ target, g.linkTarget? id = some target := by
  obtain ⟨first, count, target, _, _, _, hlinks, hchain⟩ := guardChain?_links h
  have hlinked : i < start + count → ∃ target, g.linkTarget? id = some target := by
    intro hi
    obtain ⟨id', hid', hlink⟩ := hlinks (i - start) (by omega) (by omega)
    rw [show start + (i - start) = i by omega, hid] at hid'
    cases hid'
    exact ⟨target, hlink⟩
  rcases hchain with rfl | ⟨skip, id', hid', hlink, _, rfl⟩
  · exact hlinked (by dsimp only at hle; omega)
  · by_cases hi : i < start + count
    · exact hlinked hi
    · obtain rfl : i = start + count := by dsimp only at hle; omega
      cases hid.symm.trans hid'
      exact ⟨skip, hlink⟩

theorem linkTarget?_of_testTarget? {start i : Nat} {id target : BlockId} (hne : i ≠ start)
    (h : r.testTarget? g start i = some target) (hid : r.blocks[i]? = some id) : g.linkTarget? id = some target := by
  rw [testTarget?, if_neg hne, linkAt?, hid] at h
  exact h

/-- Only the first block of a condition at the bottom of a loop can be jumped to. -/
theorem loopGuard?_linked {start last : Nat} {bodyEntry : BlockId} {guard : Guard}
    (h : r.loopGuard? g start last bodyEntry = some guard) {i : Nat} {id : BlockId} (hlt : start < i) (hle : i ≤ last)
    (hid : r.blocks[i]? = some id) : ∃ target, g.linkTarget? id = some target := by
  obtain ⟨hback, targets, htargets, _⟩ := loopGuard?_targets h
  rcases Nat.lt_or_eq_of_le hle with hlt' | rfl
  · obtain ⟨target, _, htarget⟩ := exists_mem_of_forall₂ (forall₂_of_mapM_some htargets)
      (List.mem_range'_1.2 ⟨Nat.le_of_lt hlt, by omega⟩ : i ∈ List.range' start (last - start))
    exact ⟨target, linkTarget?_of_testTarget? (Nat.ne_of_gt hlt) htarget hid⟩
  · exact ⟨bodyEntry, linkTarget?_of_testTarget? (Nat.ne_of_gt hlt) hback hid⟩

theorem evaluate_jumpGuards (connective : List Guard → Guard) (neutral : Bool)
    (h : ∀ parts taken, (connective parts).evaluate taken = Guard.evaluateAll neutral parts taken) {negate : Bool} {start count : Nat}
    {stop : Nat} {taken : BlockId → Bool} (hstop : stop = start + count) :
    (Guard.combine connective (r.jumpGuards g negate start count)).evaluate ((r.sub start stop none).blocks.map taken) =
      Guard.evaluateAll neutral (r.jumpGuards g negate start count) ((r.sub start stop none).blocks.map taken) := by
  subst hstop
  refine Guard.evaluate_combine neutral h _ _ ?_
  rw [spansAll_jumpGuards negate start count none, List.length_map, List.length_map]

theorem guardChain?_guardedBy (hfalls : r.FallsOn g) {start : Nat} {chain : Chain} (h : r.guardChain? g start = some chain) :
    r.GuardedBy g start chain.last chain.guard (r.nextEntry? g chain.last) (some chain.skip) := by
  refine ⟨(guardChain?_last h).2, (guardChain?_blocks h none).1, ?_, ?_⟩
  · intro i id hlt hle hid other b hother
    obtain ⟨target, hlink⟩ := guardChain?_linked h hlt hle hid
    exact not_mem_targets_of_linkTarget? hlink hother
  · intro _ taken
    obtain ⟨count, target, hpos, hrun, rfl | ⟨skip, hskip, hnext, rfl⟩⟩ := guardChain?_cases h
    · have hwalks := hrun.walksAlike hfalls true taken hpos
      have hstop : start + count - 1 + 1 = start + count := by omega
      rw [ nextEntry?, hstop, evaluate_jumpGuards .and true (fun _ _ => by rw [Guard.evaluate]) rfl]
      exact hwalks
    · have hwalks := hrun.walksThenLast hfalls false taken hskip hnext
      rw [hnext, Guard.evaluate]
      exact hwalks

/-- A condition at the bottom of a loop that ends before it starts is made of no blocks. -/
theorem loopGuard?_of_lt {start last : Nat} {bodyEntry : BlockId} {guard : Guard} (hlt : last < start)
    (h : r.loopGuard? g start last bodyEntry = some guard) : last < r.length ∧ guard = .or [] := by
  obtain ⟨hback, targets, htargets, hguard⟩ := loopGuard?_targets h
  obtain ⟨id, hid, _⟩ := testTarget?_spec hback
  refine ⟨lt_length_of_getElem? hid, ?_⟩
  rw [show last - start = 0 by omega] at htargets
  cases htargets
  rcases hguard with ⟨_, rfl⟩ | ⟨_, hnot, _⟩
  · rw [show last + 1 - start = 0 by omega]
    rfl
  · exact absurd rfl hnot

theorem loopGuard?_guardedBy (hfalls : r.FallsOn g) {start last : Nat} {bodyEntry : BlockId} {guard : Guard}
    (h : r.loopGuard? g start last bodyEntry = some guard) :
    r.GuardedBy g start last guard (some bodyEntry) (r.nextEntry? g last) := by
  have hunjumped : ∀ (i : Nat) id, start < i → i ≤ last → r.blocks[i]? = some id → ∀ (other : BlockId) b,
      g.block? other = some b → id ∉ b.kind.targets := by
    intro i id hlt hle hid other b hother
    obtain ⟨target, hlink⟩ := loopGuard?_linked h hlt hle hid
    exact not_mem_targets_of_linkTarget? hlink hother
  by_cases hle : start ≤ last
  · refine ⟨loopGuard?_lt hle h, (loopGuard?_blocks hle h none).1, hunjumped, fun _ taken => ?_⟩
    obtain ⟨hrun, rfl⟩ | ⟨exit, hrun, hlast, hnext, rfl⟩ := loopGuard?_cases hle h
    · have hwalks := hrun.walksAlike hfalls false taken (by omega)
      rw [evaluate_jumpGuards .or false (fun _ _ => by rw [Guard.evaluate]) (by omega)]
      rw [show start + (last + 1 - start) = last + 1 by omega] at hwalks
      exact hwalks
    · have hmid : start + (last - start) = last := by omega
      rw [← hmid] at hlast hnext
      have hwalks := hrun.walksThenLast hfalls true taken hlast hnext
      rw [hmid] at hwalks hnext
      rw [hnext, Guard.evaluate]
      exact hwalks
  · obtain ⟨hlt, rfl⟩ := loopGuard?_of_lt (Nat.lt_of_not_le hle) h
    refine ⟨hlt, ?_, hunjumped, fun hle' => absurd hle' hle⟩
    simp [Guard.spans, Guard.spansAll, sub, show last + 1 - start = 0 by omega]

end Region

/-- In a region in which conditional blocks fall to where the region goes on, recognized conditions decide as their guards do. If
the blocks of a loop condition are given by bounds the wrong way round, the condition is empty. -/
theorem condition_chains_decide_by_guards (g : Graph) (r : Region) (hfalls : r.FallsOn g) :
    (∀ start chain, r.guardChain? g start = some chain → start ≤ chain.last ∧
      r.GuardedBy g start chain.last chain.guard (r.nextEntry? g chain.last) (some chain.skip)) ∧
    ∀ start last bodyEntry guard, r.loopGuard? g start last bodyEntry = some guard →
      r.GuardedBy g start last guard (some bodyEntry) (r.nextEntry? g last) ∧ (last < start → guard = .or []) := by
  constructor
  · intro start chain h
    exact ⟨(Region.guardChain?_last h).1, Region.guardChain?_guardedBy hfalls h⟩
  · intro start last bodyEntry guard h
    exact ⟨Region.loopGuard?_guardedBy hfalls h, fun hlt => (Region.loopGuard?_of_lt hlt h).2⟩

/-- Two tests in front of code whose protected range starts right after them, and a test that jumps back to the first one. -/
def testedRange : Graph where
  blocks := #[⟨⟨0, 2⟩, .branch .eq 2 1⟩, ⟨⟨2, 4⟩, .branch .eq 3 2⟩, ⟨⟨4, 6⟩, .branch .ne 0 3⟩, ⟨⟨6, 7⟩, .exit⟩,
    ⟨⟨4, 4⟩, .marker ⟨.tryStart, 0, 4, 5, 6⟩⟩]
  codeBlocks := 4
  order := [0, 1, 4, 2, 3]

/-- The two tests are alternatives, though a marker stands between them and the code that they guard. -/
theorem condition_chains_decide_by_guards_marked :
    Region.FallsOn ⟨testedRange.order, none⟩ testedRange ∧
      Region.GuardedBy ⟨testedRange.order, none⟩ testedRange 0 1 (.or [.jump ⟨0, 2⟩ false, .jump ⟨2, 4⟩ true]) (some 2) (some 3) ∧
      Region.GuardedBy ⟨testedRange.order, none⟩ testedRange 3 3 (.jump ⟨4, 6⟩ false) (some 0) (some 3) := by
  have hfalls : Region.FallsOn ⟨testedRange.order, none⟩ testedRange := by
    intro i id span test target next hid hblock
    rcases i with _ | _ | _ | _ | _ | i
    all_goals cases hid
    all_goals cases hblock
    all_goals rfl
  have hchain : Region.guardChain? ⟨testedRange.order, none⟩ testedRange 0 =
      some ⟨.or [.jump ⟨0, 2⟩ false, .jump ⟨2, 4⟩ true], 1, 3⟩ := rfl
  obtain ⟨hguards, hloops⟩ := condition_chains_decide_by_guards testedRange ⟨testedRange.order, none⟩ hfalls
  exact ⟨hfalls, (hguards 0 _ hchain).2, (hloops 3 3 0 _ rfl).1⟩

/-- A test that skips some code. -/
def skippedCode : Graph where
  blocks := #[⟨⟨0, 2⟩, .branch .eq 2 1⟩, ⟨⟨2, 3⟩, .body (some 2)⟩, ⟨⟨3, 5⟩, .exit⟩]
  codeBlocks := 3
  order := [0, 1, 2]

/-- A condition whose blocks are to start behind their end is found all the same. It does not hold, but from where it starts control
does not get to the code after its end without passing a block. -/
theorem reversed_condition_misleads :
    Region.FallsOn ⟨skippedCode.order, none⟩ skippedCode ∧
      Region.loopGuard? ⟨skippedCode.order, none⟩ skippedCode 2 0 2 = some (.or []) ∧
      ∀ taken evaluated, ¬ Region.WalksBy ⟨skippedCode.order, none⟩ skippedCode 2 1 taken ((Guard.or []).evaluate evaluated) (some 2)
        (Region.nextEntry? ⟨skippedCode.order, none⟩ skippedCode 0) := by
  refine ⟨?_, rfl, ?_⟩
  · intro i id span test target next hid hblock
    rcases i with _ | _ | _ | i
    all_goals cases hid
    all_goals cases hblock
    rfl
  · rintro taken evaluated ⟨first, visited, exit, hfirst, hcrosses, _, hspans, hexit⟩
    obtain rfl : visited = [] := by simpa [Guard.evaluate, Guard.evaluateAll] using hspans
    cases hcrosses
    cases hfirst
    cases hexit

end CodeLift
