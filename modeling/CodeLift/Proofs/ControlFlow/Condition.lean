import CodeLift.Proofs.ControlFlow.Walk
import CodeLift.Proofs.Structuring.Shapes

/-!
# Conditions lead where their guards say

In a graph without markers a jump leads right to its target. If control falls from each block of a region to the next one, then
walking through the blocks of a condition executes what evaluating its guard executes, and leaves them where the outcome of the
guard says.
-/

namespace CodeLift

/-! ## Graphs without markers -/

/-- The graph of a method without handlers has no markers. -/
def Graph.Unmarked (g : Graph) : Prop := ∀ id, g.marker? id = none

variable {g : Graph} {r : Region}

/-- Nothing lets control through to a later block. -/
theorem Graph.Unmarked.entryBlock (h : g.Unmarked) (id : BlockId) : g.entryBlock id = id := Graph.entryBlock_of_unmarked (h id)

theorem Graph.Unmarked.nextEntry? (h : g.Unmarked) (index : Nat) : r.nextEntry? g index = r.blockOrFollow? (index + 1) := by
  unfold Region.nextEntry?
  cases r.blockOrFollow? (index + 1) with
  | none => rfl
  | some id => simp [h.entryBlock]

/-- A jump enters a region at the block it leads to, or leads to the follow. -/
theorem Graph.Unmarked.blockOrFollow?_of_locate? (h : g.Unmarked) {target : BlockId} {place : Nat}
    (hloc : r.locate? g target = some place) : r.blockOrFollow? place = some target := by
  rcases Region.locate?_cases hloc with hentry | ⟨rfl, hfollow⟩
  · obtain ⟨index, hindex, hle, hpassed⟩ := Region.entryIndex_eq_some hentry
    -- The blocks before the first one of this name have other names, so that control passes none of them.
    rcases Nat.lt_or_eq_of_le hle with hlt | rfl
    · obtain ⟨b, hb, hentry⟩ := hpassed place (Nat.le_refl _) hlt
      rw [h.entryBlock] at hentry
      obtain ⟨_, _, hbefore⟩ := List.findIdx?_eq_some_iff_getElem.1 hindex
      obtain ⟨_, rfl⟩ := List.getElem?_eq_some_iff.1 hb
      exact absurd hentry (by simpa using hbefore place hlt)
    · exact Region.blockOrFollow?_of_getElem? (Region.getElem?_of_indexOf? hindex)
  · rw [Region.blockOrFollow?_of_le (Nat.le_refl _)]
    obtain ⟨id, hid, heq⟩ := Option.map_eq_some_iff.1 hfollow
    rw [hid, ← heq, h.entryBlock]

/-! ## Falling from block to block -/

/-- Control that falls out of a block of the region enters the next one, or the follow. -/
def Falls (g : Graph) (r : Region) : Prop :=
  ∀ i id span kind, r.blocks[i]? = some id → g.block? id = some ⟨span, kind⟩ →
    (∀ next, kind = .body next → next = r.blockOrFollow? (i + 1)) ∧
      ∀ test target next, kind = .branch test target next → r.blockOrFollow? (i + 1) = some next

/-- The blocks and the follow of a part, seen from the region. -/
theorem Region.blockOrFollow?_sub {a b i : Nat} {f : Option BlockId} (hlen : b ≤ r.length) (hi : i ≤ b - a) :
    (r.sub a b f).blockOrFollow? i = if i < b - a then r.blockOrFollow? (a + i) else f := by
  split
  · rename_i hlt
    rw [Region.blockOrFollow?_of_lt (by rw [Region.length_sub hlen]; exact hlt), Region.getElem?_sub hlt,
      Region.blockOrFollow?_of_lt (by omega)]
  · rw [Region.blockOrFollow?_of_le (by rw [Region.length_sub hlen]; omega)]
    rfl

theorem Region.blockOrFollow?_sub_zero {a b : Nat} {f : Option BlockId} (hle : a ≤ b) (hlen : b ≤ r.length)
    (hf : a = b → f = r.blockOrFollow? b) : (r.sub a b f).blockOrFollow? 0 = r.blockOrFollow? a := by
  rw [Region.blockOrFollow?_sub hlen (Nat.zero_le _)]
  split
  · rfl
  · have hab : a = b := by omega
    rw [hf hab, hab]

/-- A part whose follow is the block after it, or whose last block does not fall. -/
theorem Falls.sub (h : Falls g r) {a b : Nat} {f : Option BlockId} (hlen : b ≤ r.length)
    (hf : f = r.blockOrFollow? b ∨ ∃ id target, r.blocks[b - 1]? = some id ∧ g.gotoTarget? id = some target) :
    Falls g (r.sub a b f) := by
  intro i id span kind hid hblock
  have hi := Region.lt_length_of_getElem? hid
  rw [Region.length_sub hlen] at hi
  rw [Region.getElem?_sub hi] at hid
  have hfalls := h _ _ _ _ hid hblock
  rw [Region.blockOrFollow?_sub hlen (by omega)]
  split
  · exact hfalls
  · have hlast : a + i + 1 = b := by omega
    rw [hlast] at hfalls
    rcases hf with rfl | ⟨id', target, hid', hgoto⟩
    · exact hfalls
    · obtain ⟨span', hblock'⟩ := Graph.gotoTarget?_eq_some hgoto
      rw [show b - 1 = a + i by omega, hid] at hid'
      cases hid'
      rw [hblock] at hblock'
      cases hblock'
      exact ⟨nofun, nofun⟩

/-! ## Evaluating guards -/

namespace Guard

variable {code : List Insn} {oracle : Oracle}

theorem testAll_append (neutral : Bool) (xs ys : List Guard) (clock : Nat) :
    testAll code oracle neutral (xs ++ ys) clock =
      if (testAll code oracle neutral xs clock).holds = neutral then
        (testAll code oracle neutral ys (testAll code oracle neutral xs clock).clock).after
          (testAll code oracle neutral xs clock).trace
      else testAll code oracle neutral xs clock := by
  induction xs generalizing clock with
  | nil => simp [testAll, Test.after]
  | cons x xs ih =>
    simp only [List.cons_append, testAll]
    by_cases hx : (test code oracle x clock).holds = neutral
    · simp only [hx, if_true, ih]
      by_cases hxs : (testAll code oracle neutral xs (test code oracle x clock).clock).holds = neutral
      · simp [hxs, Test.after]
      · simp [hxs, Test.after]
    · simp [hx]

theorem testAll_singleton (neutral : Bool) (guard : Guard) (clock : Nat) :
    testAll code oracle neutral [guard] clock = test code oracle guard clock := by
  simp only [testAll, Test.after, List.append_nil]
  split
  · rename_i h
    rw [← h]
  · rfl

theorem test_combine {connective : List Guard → Guard} (neutral : Bool)
    (h : ∀ parts clock, test code oracle (connective parts) clock = testAll code oracle neutral parts clock) (parts : List Guard)
    (clock : Nat) : test code oracle (combine connective parts) clock = testAll code oracle neutral parts clock := by
  unfold combine
  split
  · rw [testAll_singleton]
  · exact h _ _

/-- A negated guard evaluates the same and holds when the guard does not. -/
theorem test_negated (guard : Guard) (clock : Nat) :
    test code oracle guard.negated clock =
      { test code oracle guard clock with holds := !(test code oracle guard clock).holds } := by
  cases guard with
  | jump span negate => cases negate <;> simp [negated, test]
  | and parts => simp [negated, test]
  | or parts => simp [negated, test]
  | not inner => simp [negated, test]

end Guard

/-! ## Walking through conditions -/

section

variable {code : List Insn} {oracle : Oracle}

/-- A walk executes what an evaluation executes, and leads to one place if the evaluation gives `expected`, else to another. -/
def Decides (g : Graph) (code : List Insn) (oracle : Oracle) (n : Nat) (start : Option BlockId) (clock : Nat) (t : Test)
    (expected : Bool) (same other : Option BlockId) : Prop :=
  g.Walks code oracle n ⟨start, clock⟩ t.trace ⟨if t.holds = expected then same else other, t.clock⟩

/-- Evaluating a condition walks through at least one block, to one place if the condition holds and to another if not. -/
def Tests (g : Graph) (code : List Insn) (oracle : Oracle) (start yes no : Option BlockId) (test : Nat → Test) : Prop :=
  ∀ clock, ∃ n, 0 < n ∧ Decides g code oracle n start clock (test clock) true yes no

theorem Decides.of_eq {n clock : Nat} {start same other place : Option BlockId} {t : Test} {expected : Bool}
    (h : g.Walks code oracle n ⟨start, clock⟩ t.trace ⟨place, t.clock⟩) (heq : t.holds = expected) (hplace : place = same) :
    Decides g code oracle n start clock t expected same other := by
  unfold Decides
  rw [if_pos heq, ← hplace]
  exact h

theorem Decides.of_ne {n clock : Nat} {start same other place : Option BlockId} {t : Test} {expected : Bool}
    (h : g.Walks code oracle n ⟨start, clock⟩ t.trace ⟨place, t.clock⟩) (hne : t.holds ≠ expected) (hplace : place = other) :
    Decides g code oracle n start clock t expected same other := by
  unfold Decides
  rw [if_neg hne, ← hplace]
  exact h

/-- Looking for the opposite outcome. -/
theorem Decides.flip {n clock : Nat} {start same other : Option BlockId} {t : Test} {expected : Bool}
    (h : Decides g code oracle n start clock t expected same other) :
    Decides g code oracle n start clock t (!expected) other same := by
  unfold Decides at h ⊢
  cases ht : t.holds <;> cases expected <;> simpa [ht] using h

/-- A negated guard leads to the places of the guard the other way round. -/
theorem Tests.negated {start yes no : Option BlockId} {guard : Guard}
    (h : Tests g code oracle start yes no (guard.test code oracle)) :
    Tests g code oracle start no yes (guard.negated.test code oracle) := by
  intro clock
  obtain ⟨n, hn, hdecides⟩ := h clock
  refine ⟨n, hn, ?_⟩
  rw [Guard.test_negated]
  unfold Decides at hdecides ⊢
  cases hholds : (guard.test code oracle clock).holds <;> simpa [hholds] using hdecides

/-- An evaluation that goes on with another once it has given `expected`. -/
theorem Decides.andThen {n m clock : Nat} {start mid same other : Option BlockId} {t u : Test} {expected : Bool}
    (ht : t.holds = expected) (h : Decides g code oracle n start clock t expected mid other)
    (h' : Decides g code oracle m mid t.clock u expected same other) :
    Decides g code oracle (n + m) start clock (u.after t.trace) expected same other := by
  unfold Decides at h
  rw [if_pos ht] at h
  exact h.trans h'

/-- One conditional block: the jump is taken, or control falls to the next block. -/
theorem Region.BranchesTo.decides {i : Nat} {target : BlockId} (code : List Insn)
    (oracle : Oracle) (hfalls : Falls g r) (h : r.BranchesTo g i 1 target) (negate : Bool) (clock : Nat) :
    ∃ id, r.jumpGuards g negate i 1 = [g.jumpGuard negate id] ∧
      Decides g code oracle 1 (r.blockOrFollow? i) clock (Guard.test code oracle (g.jumpGuard negate id) clock) negate
        (r.blockOrFollow? (i + 1)) (some target) := by
  obtain ⟨id, hid, hbranch⟩ := h.2 0 Nat.zero_lt_one
  rw [Nat.add_zero] at hid
  obtain ⟨span, test, next, hblock⟩ := Graph.branchTarget?_eq_some hbranch
  have hspan : g.spanOf id = span := by rw [Graph.spanOf, hblock]; rfl
  refine ⟨id, ?_, ?_⟩
  · have hsingle : (r.blocks.drop i).take 1 = [id] := by simpa [Region.sub] using Region.sub_single none hid
    rw [Region.jumpGuards, hsingle]
    rfl
  · have hwalk : g.Walks code oracle 1 ⟨some id, clock⟩ _ _ := Graph.Walks.block hblock clock
    rw [Region.blockOrFollow?_of_getElem? hid, (hfalls i id span _ hid hblock).2 test target next rfl]
    simp only [Decides, Graph.jumpGuard, Guard.test, hspan]
    cases htaken : (oracle clock).taken <;> cases negate <;> simpa [Graph.leave, htaken] using hwalk

theorem Region.jumpGuards_succ (negate : Bool) (start count : Nat) :
    r.jumpGuards g negate start (count + 1) = r.jumpGuards g negate start 1 ++ r.jumpGuards g negate (start + 1) count := by
  rw [jumpGuards, Nat.add_comm count 1, List.take_add, List.map_append, List.drop_drop]
  rfl

/-- A run of conditional blocks with one target: control leaves it for the target at the first jump taken, or falls out of it. -/
theorem Region.BranchesTo.decidesAll {start count : Nat} {target : BlockId} (code : List Insn) (oracle : Oracle)
    (hfalls : Falls g r) (h : r.BranchesTo g start count target) (neutral : Bool) (clock : Nat) : ∃ n, (0 < count → 0 < n) ∧
      Decides g code oracle n (r.blockOrFollow? start) clock
        (Guard.testAll code oracle neutral (r.jumpGuards g neutral start count) clock) neutral
        (r.blockOrFollow? (start + count)) (some target) := by
  induction count generalizing start clock with
  | zero => exact ⟨0, fun h => h, .of_eq (.zero _) rfl rfl⟩
  | succ count ih =>
    have hfirst : r.BranchesTo g start 1 target := ⟨by have := h.1; omega, fun i hi => h.2 i (by omega)⟩
    obtain ⟨id, hguards, hone⟩ := hfirst.decides code oracle hfalls neutral clock
    rw [jumpGuards_succ, hguards, List.singleton_append, show start + (count + 1) = start + 1 + count by omega]
    generalize g.jumpGuard neutral id = first at hone ⊢
    by_cases hholds : (Guard.test code oracle first clock).holds = neutral
    · obtain ⟨n, _, hall⟩ := ih h.tail (Guard.test code oracle first clock).clock
      rw [Guard.testAll, if_pos hholds]
      exact ⟨1 + n, fun _ => by omega, .andThen hholds hone hall⟩
    · rw [Guard.testAll, if_neg hholds]
      refine ⟨1, fun _ => Nat.one_pos, .of_ne ?_ hholds rfl⟩
      rw [Decides, if_neg hholds] at hone
      exact hone

/-- A run of conditional blocks with one target and one more block, whose jump decides the other way round. -/
theorem Region.BranchesTo.decidesLast {start count : Nat} {target last : BlockId} (code : List Insn) (oracle : Oracle)
    (hfalls : Falls g r) (h : r.BranchesTo g start count target) (hlast : r.BranchesTo g (start + count) 1 last) (neutral : Bool)
    (htarget : r.blockOrFollow? (start + count + 1) = some target) (clock : Nat) : ∃ n, 0 < n ∧
      Decides g code oracle n (r.blockOrFollow? start) clock (Guard.testAll code oracle neutral
        (r.jumpGuards g neutral start count ++ r.jumpGuards g (!neutral) (start + count) 1) clock) neutral
        (some last) (some target) := by
  obtain ⟨n, hpos, hall⟩ := h.decidesAll code oracle hfalls neutral clock
  rw [Guard.testAll_append]
  by_cases hholds : (Guard.testAll code oracle neutral (r.jumpGuards g neutral start count) clock).holds = neutral
  · obtain ⟨id, hguards, hone⟩ := hlast.decides code oracle hfalls (!neutral)
      (Guard.testAll code oracle neutral (r.jumpGuards g neutral start count) clock).clock
    rw [htarget] at hone
    have hone := hone.flip
    rw [Bool.not_not] at hone
    rw [if_pos hholds, hguards, Guard.testAll_singleton]
    exact ⟨n + 1, Nat.succ_pos n, .andThen hholds hall hone⟩
  · have hcount : 0 < count := by
      rcases Nat.eq_zero_or_pos count with rfl | hpos
      · exact absurd rfl hholds
      · exact hpos
    rw [if_neg hholds]
    refine ⟨n, hpos hcount, .of_ne ?_ hholds rfl⟩
    rw [Decides, if_neg hholds] at hall
    exact hall

/-- A condition in front of code: if it holds, control enters the code after it, else it goes where the condition skips to. -/
theorem Region.guardChain?_tests (hg : g.Unmarked) (hfalls : Falls g r) {start : Nat} {chain : Chain}
    (h : r.guardChain? g start = some chain) :
    Tests g code oracle (r.blockOrFollow? start) (r.blockOrFollow? (chain.last + 1)) (some chain.skip)
      (chain.guard.test code oracle) := by
  intro clock
  obtain ⟨count, target, hpos, hrun, rfl | ⟨skip, hskip, hnext, rfl⟩⟩ := guardChain?_cases h
  · obtain ⟨n, hn, hall⟩ := hrun.decidesAll code oracle hfalls true clock
    dsimp only
    rw [show start + count - 1 + 1 = start + count by omega, Guard.test_combine true fun _ _ => by rw [Guard.test]]
    exact ⟨n, hn hpos, hall⟩
  · rw [hg.nextEntry?] at hnext
    obtain ⟨n, hn, hall⟩ := hrun.decidesLast code oracle hfalls hskip false hnext clock
    dsimp only
    rw [hnext, Guard.test]
    exact ⟨n, hn, hall.flip⟩

/-- A condition at the bottom of a loop: if it holds, control goes back to the body, else it falls out of the condition. -/
theorem Region.loopGuard?_tests (hg : g.Unmarked) (hfalls : Falls g r) {start last : Nat} {bodyEntry : BlockId} {guard : Guard}
    (hle : start ≤ last) (h : r.loopGuard? g start last bodyEntry = some guard) :
    Tests g code oracle (r.blockOrFollow? start) (some bodyEntry) (r.blockOrFollow? (last + 1)) (guard.test code oracle) := by
  intro clock
  obtain ⟨hrun, rfl⟩ | ⟨exit, hrun, hlast, hnext, rfl⟩ := loopGuard?_cases hle h
  · obtain ⟨n, hn, hall⟩ := hrun.decidesAll code oracle hfalls false clock
    rw [show start + (last + 1 - start) = last + 1 by omega] at hall
    rw [Guard.test_combine false fun _ _ => by rw [Guard.test]]
    exact ⟨n, hn (by omega), hall.flip⟩
  · have hmid : start + (last - start) = last := by omega
    rw [hg.nextEntry?] at hnext
    rw [← hmid] at hlast hnext
    obtain ⟨n, hn, hall⟩ := hrun.decidesLast code oracle hfalls hlast true hnext clock
    rw [hmid] at hall hnext
    rw [Guard.test, hnext]
    exact ⟨n, hn, hall⟩

end

end CodeLift
