import CodeLift.Proofs.Region
import CodeLift.Proofs.Structuring.SwitchLabels
import CodeLift.Recognizer.Branch
import CodeLift.Recognizer.EntryLoop
import CodeLift.Recognizer.Loop
import CodeLift.Recognizer.Protected

/-!
# The shapes that recognizers find

Each recognizer first finds the places of its construct. The statements here say what such a shape is made of: which blocks stand
at its places, and that its parts lie one after the other inside the region.
-/

namespace CodeLift

/-- A block that is no marker is entered itself. -/
theorem Graph.entryBlock_of_unmarked {g : Graph} {id : BlockId} (h : g.marker? id = none) : g.entryBlock id = id := by
  have hnot : g.isMarkerOf .tryStart id = false := by simp [Graph.isMarkerOf, Graph.markerOf?, h]
  unfold Graph.entryBlock
  cases g.order.drop (g.position id + 1) with
  | nil => rfl
  | cons next rest => simp [Graph.skipStarts, hnot]

/-- Only a goto has a goto's target. -/
theorem Graph.gotoTarget?_eq_some {g : Graph} {id target : BlockId} (h : g.gotoTarget? id = some target) :
    ∃ span, g.block? id = some ⟨span, .goto target⟩ := by
  unfold Graph.gotoTarget? at h
  split at h
  · rename_i span target' hb
    cases h
    exact ⟨span, hb⟩
  · cases h

/-- Only a branch has a branch's target. -/
theorem Graph.branchTarget?_eq_some {g : Graph} {id target : BlockId} (h : g.branchTarget? id = some target) :
    ∃ span test next, g.block? id = some ⟨span, .branch test target next⟩ := by
  unfold Graph.branchTarget? at h
  split at h
  · rename_i span test target' next hb
    cases h
    exact ⟨span, test, next, hb⟩
  · cases h

/-- Only a block that is a mark has a mark. -/
theorem Graph.marker?_eq_some {g : Graph} {id : BlockId} {mark : Marker} (h : g.marker? id = some mark) :
    ∃ span, g.block? id = some ⟨span, .marker mark⟩ := by
  unfold Graph.marker? at h
  split at h
  · rename_i span mark' hb
    cases h
    exact ⟨span, hb⟩
  · cases h

/-- A mark of a kind is a mark that has this kind. -/
theorem Graph.markerOf?_eq_some {g : Graph} {kind : MarkerKind} {id : BlockId} {mark : Marker} :
    g.markerOf? kind id = some mark ↔ g.marker? id = some mark ∧ mark.kind = kind := by
  simp [Graph.markerOf?, Option.filter_eq_some_iff]

theorem Graph.isSome_marker? {g : Graph} {kind : MarkerKind} {id : BlockId} {mark : Marker}
    (h : g.markerOf? kind id = some mark) : (g.marker? id).isSome = true := by
  rw [(Graph.markerOf?_eq_some.1 h).1]
  rfl

/-- A block that jumps somewhere, and not on a condition, ends with a goto. -/
theorem Graph.gotoTarget?_of_jumpTarget? {g : Graph} {id target : BlockId} (h : g.jumpTarget? id = some target)
    (hb : g.branchTarget? id = none) : g.gotoTarget? id = some target := by
  obtain ⟨⟨span, kind⟩, hblock, hkind⟩ := Option.bind_eq_some_iff.1 h
  cases kind with
  | goto t =>
    simp only [BlockKind.jumpTarget?] at hkind
    cases hkind
    simp [Graph.gotoTarget?, hblock]
  | branch test t next => simp [Graph.branchTarget?, hblock] at hb
  | body next => simp [BlockKind.jumpTarget?] at hkind
  | switch arms otherwise => simp [BlockKind.jumpTarget?] at hkind
  | exit => simp [BlockKind.jumpTarget?] at hkind
  | marker mark => simp [BlockKind.jumpTarget?] at hkind

/-- A jump that fits the constructs around it is a break or a continue. -/
theorem resolveFrom_isJump {g : Graph} {target : BlockId} {jump : Option Nat} {depth loops : Nat} {around : List Breakable}
    {s : Section} (h : resolveFrom g target jump depth loops around = some s) :
    (∃ out, s = .breakOut out jump) ∨ ∃ out, s = .continueNext out jump := by
  induction around generalizing depth loops with
  | nil => cases h
  | cons b rest ih =>
    unfold resolveFrom at h
    split at h
    · cases h
      exact .inl ⟨depth, rfl⟩
    · split at h
      · cases h
        exact .inr ⟨loops, rfl⟩
      · exact ih h

namespace Recognizer

variable {g : Graph} {r : Region} {index : Nat}

/-! ## Branches -/

/-- The place to which a condition skips is where its target is found, if that is after the condition. -/
theorem skipPlace_eq (g : Graph) (r : Region) (chain : Chain) :
    skipPlace g r chain = .ok ((r.locate? g chain.skip).filter fun place => chain.last + 1 ≤ place) := by
  unfold skipPlace
  rw [Region.locate_eq]
  rfl

/-- The place a branch skips to lies after its condition and at most right past the region. -/
theorem skipPlace_bounds {chain : Chain} {skipAt : Nat} (h : skipPlace g r chain = .ok (some skipAt)) :
    r.locate? g chain.skip = some skipAt ∧ chain.last + 1 ≤ skipAt ∧ skipAt ≤ r.length := by
  rw [skipPlace_eq] at h
  obtain ⟨hloc, hle⟩ := Option.filter_eq_some_iff.1 (Except.ok.inj h)
  exact ⟨hloc, by simpa using hle, Region.locate?_le hloc⟩

/-- Where the other branch ends, the code before it ends with a goto to that place. -/
theorem elseEnd_cases {thenStart skipAt exitAt : Nat} (h : elseEnd g r thenStart skipAt = .ok (some exitAt)) :
    thenStart < skipAt ∧ skipAt < r.length ∧ skipAt < exitAt ∧ exitAt ≤ r.length ∧
      ∃ id target, r.blocks[skipAt - 1]? = some id ∧ g.gotoTarget? id = some target ∧ r.locate? g target = some exitAt := by
  unfold elseEnd at h
  split at h
  · rename_i hb
    simp only [Bool.and_eq_true, decide_eq_true_eq] at hb
    obtain ⟨id, hid, h⟩ := bind_eq_ok.1 h
    split at h
    · rename_i target htarget
      rw [Region.locate_eq] at h
      obtain ⟨hloc, hlt⟩ := Option.filter_eq_some_iff.1 (Except.ok.inj h)
      exact ⟨hb.1, hb.2, by simpa using hlt, Region.locate?_le hloc, id, target, (Region.blockBefore_eq_ok hid).2, htarget, hloc⟩
    · cases h
  · cases h

/-- Looking for the end of an else never fails. -/
theorem succeeds_elseEnd (g : Graph) (r : Region) (thenStart skipAt : Nat) : Succeeds (elseEnd g r thenStart skipAt) := by
  unfold elseEnd
  split
  · rename_i hb
    simp only [Bool.and_eq_true, decide_eq_true_eq] at hb
    refine (Region.succeeds_blockBefore (Nat.zero_lt_of_lt hb.1) (Nat.le_of_lt hb.2)).bind fun id _ => ?_
    split
    · rw [Region.locate_eq]
      exact .pure _
    · exact .pure none
  · exact .pure none

/-! ## Loops -/

/-- The test at the end of a loop lies within the loop and jumps back to its head. -/
theorem bottomGuard_cases {tail testAt : Nat} {head : BlockId} {guard : Guard}
    (h : bottomGuard g r index tail head = .ok (some (testAt, guard))) :
    index ≤ testAt ∧ testAt ≤ tail ∧ r.loopGuard? g testAt tail head = some guard := by
  obtain ⟨start, hstart, h⟩ := exists_of_findSomeM?_ok h
  obtain ⟨found, hfound, h⟩ := bind_eq_ok.1 h
  obtain ⟨guard', rfl, heq⟩ := Option.map_eq_some_iff.1 (Except.ok.inj h)
  cases heq
  have hbounds := mem_places.1 hstart
  exact ⟨hbounds.1, Nat.lt_succ_iff.1 hbounds.2, toOption_join_eq_some.2 hfound⟩

/-- The test at the start of a loop skips to what follows the loop. -/
theorem topGuard_cases {tail : Nat} {chain : Chain} (h : topGuard g r index tail = .ok (some chain)) :
    r.guardChain? g index = some chain ∧ chain.last < tail ∧ r.nextEntry? g tail = some chain.skip := by
  obtain ⟨found, hfound, h⟩ := bind_eq_ok.1 h
  obtain ⟨rfl, hp⟩ := Option.filter_eq_some_iff.1 (Except.ok.inj h)
  simp only [Bool.and_eq_true, decide_eq_true_eq, beq_iff_eq] at hp
  exact ⟨toOption_join_eq_some.2 hfound, hp⟩

/-- A loop by its back edge: the last block that jumps back does so on the condition at the bottom, or it ends with a goto, and then
a condition at the top leads past it or there is none. -/
theorem loopShape_cases {first : BlockId} {shape : LoopShape} (h : loopShape g r index first = .ok (some shape)) :
    index ≤ shape.tail ∧ shape.tail < r.length ∧
      ((∃ testAt test guard, index ≤ testAt ∧ testAt ≤ shape.tail ∧ r.blocks[testAt]? = some test ∧
          r.loopGuard? g testAt shape.tail (g.entryBlock first) = some guard ∧
          shape = ⟨.doWhile, some guard, index, testAt, test, test, shape.tail⟩) ∨
        ∃ last, r.blocks[shape.tail]? = some last ∧ g.gotoTarget? last = some (g.entryBlock first) ∧
          ((∃ chain, r.guardChain? g index = some chain ∧ chain.last < shape.tail ∧
              r.nextEntry? g shape.tail = some chain.skip ∧
              shape = ⟨.whileDo, some chain.guard, chain.last + 1, shape.tail + 1, first, g.entryBlock first, shape.tail⟩) ∨
            shape = ⟨.forever, none, index, shape.tail + 1, first, g.entryBlock first, shape.tail⟩)) := by
  obtain ⟨tail, htail, h⟩ := bind_eq_ok.1 h
  split at h
  · cases h
  rename_i tail
  obtain ⟨hplace, last, hlast, hjump⟩ := Region.findAmong_eq_some htail
  obtain ⟨hle, hlt⟩ := mem_places.1 (List.mem_reverse.1 hplace)
  obtain ⟨last', hlast', h⟩ := bind_eq_ok.1 h
  obtain rfl : last = last' := Option.some.inj (hlast.symm.trans (Region.blockAt_eq_ok.1 hlast'))
  split at h
  · obtain ⟨found, hfound, h⟩ := bind_eq_ok.1 h
    split at h
    · cases h
    · rename_i testAt guard
      obtain ⟨test, htest, h⟩ := bind_eq_ok.1 h
      cases h
      obtain ⟨hindex, htail, hguard⟩ := bottomGuard_cases hfound
      exact ⟨hle, hlt, .inl ⟨testAt, test, guard, hindex, htail, Region.blockAt_eq_ok.1 htest, hguard, rfl⟩⟩
  · rename_i hbranch
    have hgoto : g.gotoTarget? last = some (g.entryBlock first) :=
      Graph.gotoTarget?_of_jumpTarget? (by simpa using hjump) (by simpa using hbranch)
    obtain ⟨found, hfound, h⟩ := bind_eq_ok.1 h
    split at h
    · rename_i chain
      cases h
      obtain ⟨hchain, hbefore, hskip⟩ := topGuard_cases hfound
      exact ⟨hle, hlt, .inr ⟨last, hlast, hgoto, .inl ⟨chain, hchain, hbefore, hskip, rfl⟩⟩⟩
    · cases h
      exact ⟨hle, hlt, .inr ⟨last, hlast, hgoto, .inr rfl⟩⟩

/-- The search for a loop stays inside of the region. -/
theorem succeeds_loopShape (hindex : index < r.length) (first : BlockId) : Succeeds (loopShape g r index first) := by
  refine (Region.succeeds_findAmong _ fun place hplace => (mem_places.1 (List.mem_reverse.1 hplace)).2).bind fun found hfound => ?_
  cases found with
  | none => exact .pure none
  | some tail =>
    obtain ⟨hplace, _⟩ := Region.findAmong_eq_some hfound
    have htail := (mem_places.1 (List.mem_reverse.1 hplace)).2
    refine (Region.succeeds_blockAt htail).bind fun last _ => ?_
    split
    · have hbottom : Succeeds (bottomGuard g r index tail (g.entryBlock first)) := by
        refine .findSomeM? fun start hstart => ?_
        have hstart := (mem_places.1 hstart).2
        exact (Region.succeeds_loopGuard (by omega)).bind fun guard _ => .pure _
      refine hbottom.bind fun found hfound => ?_
      cases found with
      | none => exact .pure none
      | some test =>
        obtain ⟨_, hle, _⟩ := bottomGuard_cases hfound
        exact (Region.succeeds_blockAt (Nat.lt_of_le_of_lt hle htail)).bind fun _ _ => .pure _
    · have htop : Succeeds (topGuard g r index tail) := (Region.succeeds_guardChain hindex).bind fun chain _ => .pure _
      refine htop.bind fun found _ => ?_
      cases found with
      | some chain => exact .pure _
      | none => exact .pure _

/-- The body of a loop lies between its place and the block that jumps back. -/
theorem loopShape_bounds {first : BlockId} {shape : LoopShape} (h : loopShape g r index first = .ok (some shape)) :
    index ≤ shape.bodyStart ∧ shape.bodyStart ≤ shape.bodyStop ∧ shape.bodyStop ≤ shape.tail + 1 ∧ shape.tail < r.length := by
  obtain ⟨hle, hlt, ⟨testAt, test, guard, h1, h2, _, _, heq⟩ | ⟨last, _, _, ⟨chain, hchain, h1, _, heq⟩ | heq⟩⟩ :=
    loopShape_cases h
  · rw [heq]
    dsimp only
    omega
  · have := Region.guardChain?_last hchain
    rw [heq]
    dsimp only
    omega
  · rw [heq]
    dsimp only
    omega

/-- The test that a loop is entered by starts where it should and jumps to the body. -/
theorem entryGuard_cases {testAt last : Nat} {bodyEntry : BlockId} {guard : Guard}
    (h : entryGuard g r testAt bodyEntry = .ok (some (last, guard))) :
    testAt ≤ last ∧ r.loopGuard? g testAt last bodyEntry = some guard := by
  obtain ⟨last', hlast, h⟩ := exists_of_findSomeM?_ok h
  obtain ⟨found, hfound, h⟩ := bind_eq_ok.1 h
  obtain ⟨guard', rfl, heq⟩ := Option.map_eq_some_iff.1 (Except.ok.inj h)
  cases heq
  exact ⟨(mem_places.1 (List.mem_reverse.1 hlast)).1, toOption_join_eq_some.2 hfound⟩

/-- A loop that starts with a jump to its condition. -/
theorem entryLoopShape_cases {shape : EntryLoopShape} (h : entryLoopShape g r index = .ok (some shape)) :
    r.blocks[index]? = some shape.entry ∧ r.blocks[shape.testAt]? = some shape.test ∧ index < shape.testAt ∧
      shape.testAt ≤ shape.last ∧ shape.last < r.length ∧
      (∃ target, g.gotoTarget? shape.entry = some target ∧ r.locate? g target = some shape.testAt) ∧
      ∃ bodyEntry, r.nextEntry? g index = some bodyEntry ∧
        r.loopGuard? g shape.testAt shape.last bodyEntry = some shape.guard := by
  obtain ⟨entry, hentry, h⟩ := bind_eq_ok.1 h
  split at h
  · cases h
  rename_i target htarget
  obtain ⟨located, hlocated, h⟩ := bind_eq_ok.1 h
  rw [Region.locate_eq] at hlocated
  cases hlocated
  split at h
  · cases h
  rename_i testAt htestAt
  obtain ⟨hloc, hb⟩ := Option.filter_eq_some_iff.1 htestAt
  simp only [Bool.and_eq_true, decide_eq_true_eq] at hb
  split at h
  · cases h
  rename_i bodyEntry hbody
  obtain ⟨found, hfound, h⟩ := bind_eq_ok.1 h
  split at h
  · cases h
  rename_i last guard
  obtain ⟨test, htest, h⟩ := bind_eq_ok.1 h
  cases h
  obtain ⟨hle, hguard⟩ := entryGuard_cases hfound
  exact ⟨Region.blockAt_eq_ok.1 hentry, Region.blockAt_eq_ok.1 htest, hb.1, hle, Region.loopGuard?_lt hle hguard,
    ⟨target, htarget, hloc⟩, bodyEntry, hbody, hguard⟩

/-- The search for a loop that starts with a jump stays inside of the region. -/
theorem succeeds_entryLoopShape (hindex : index < r.length) : Succeeds (entryLoopShape g r index) := by
  refine (Region.succeeds_blockAt hindex).bind fun entry _ => ?_
  split
  · exact .pure none
  refine (Region.succeeds_locate r g _).bind fun found _ => ?_
  split
  · exact .pure none
  rename_i testAt htestAt
  obtain ⟨_, hb⟩ := Option.filter_eq_some_iff.1 htestAt
  simp only [Bool.and_eq_true, decide_eq_true_eq] at hb
  split
  · exact .pure none
  rename_i bodyEntry _
  have hguard : Succeeds (entryGuard g r testAt bodyEntry) :=
    .findSomeM? fun last _ => (Region.succeeds_loopGuard hb.2).bind fun guard _ => .pure _
  refine hguard.bind fun found _ => ?_
  cases found with
  | none => exact .pure none
  | some test => exact (Region.succeeds_blockAt hb.2).bind fun _ _ => .pure _

/-- The blocks of an update are plain ones, and the body keeps a block. -/
theorem updateRun_spec {bodyStart testAt start place : Nat} (h : updateRun g r bodyStart testAt = .ok start)
    (hplace : start ≤ place) (hlt : place < testAt) :
    bodyStart < place ∧ ∃ id, r.blocks[place]? = some id ∧ g.isBody id = true := by
  obtain ⟨_, hlow, hpassed⟩ := Region.walkBack_spec h
  exact ⟨by omega, hpassed place hplace hlt⟩

/-- The update of a loop starts inside the body. -/
theorem updatePlace_spec {start stop place : Nat} {target : BlockId} (h : updatePlace g r start stop target = .ok (some place)) :
    start ≤ place ∧ place < stop :=
  mem_places.1 (Region.findAmong_eq_some h).1

/-- Looking for an update never fails inside the region. -/
theorem succeeds_updatePlace {stop : Nat} (h : stop ≤ r.length) (start : Nat) (target : BlockId) :
    Succeeds (updatePlace g r start stop target) :=
  Region.succeeds_findAmong _ fun _ hplace => Nat.lt_of_lt_of_le (mem_places.1 hplace).2 h

/-! ## Switches -/

/-- The least number is at most the one that the search starts with. -/
theorem foldl_min_le_init (l : List Nat) (a : Nat) : l.foldl min a ≤ a := by
  induction l generalizing a with
  | nil => exact Nat.le_refl _
  | cons b l ih => exact (ih _).trans (Nat.min_le_left _ _)

/-- The least number is at most each of the list. -/
theorem foldl_min_le {l : List Nat} {a b : Nat} (h : b ∈ l) : l.foldl min a ≤ b := by
  induction l generalizing a with
  | nil => cases h
  | cons c l ih =>
    rcases List.mem_cons.1 h with rfl | h
    · exact (foldl_min_le_init l _).trans (Nat.min_le_right _ _)
    · exact ih h

/-- The greatest number is at least the one that the search starts with. -/
theorem le_foldl_max_init (l : List Nat) (a : Nat) : a ≤ l.foldl max a := by
  induction l generalizing a with
  | nil => exact Nat.le_refl _
  | cons b l ih => exact (Nat.le_max_left _ _).trans (ih _)

/-- The greatest number is at least each of the list. -/
theorem le_foldl_max {l : List Nat} {a b : Nat} (h : b ∈ l) : b ≤ l.foldl max a := by
  induction l generalizing a with
  | nil => cases h
  | cons c l ih =>
    rcases List.mem_cons.1 h with rfl | h
    · exact (Nat.le_max_right _ _).trans (le_foldl_max_init l _)
    · exact ih h

/-- The greatest number stays within a bound of all. -/
theorem foldl_max_le {l : List Nat} {a bound : Nat} (ha : a ≤ bound) (hl : ∀ b ∈ l, b ≤ bound) : l.foldl max a ≤ bound := by
  induction l generalizing a with
  | nil => exact ha
  | cons c l ih =>
    exact ih (Nat.max_le.2 ⟨ha, hl c List.mem_cons_self⟩) fun b hb => hl b (List.mem_cons_of_mem _ hb)

namespace SwitchLayout

/-- Each target of the switch is located after the switch. -/
structure Locates (g : Graph) (r : Region) (index : Nat) (arms : List (Int32 × BlockId)) (otherwise : BlockId)
    (s : SwitchLayout) : Prop where
  arms : List.Forall₂ (fun arm place => place.1 = arm.1 ∧ r.locate? g arm.2 = some place.2 ∧ index < place.2) arms s.arms
  defaultAt : r.locate? g otherwise = some s.defaultAt
  index_lt_defaultAt : index < s.defaultAt

/-- The cases of a layout start where their targets are found. -/
theorem of_locates {arms : List (Int32 × BlockId)} {otherwise : BlockId} {s : SwitchLayout}
    (h : of g r index arms otherwise = .ok (some s)) : s.Locates g r index arms otherwise := by
  simp only [of, Region.locate_eq] at h
  obtain ⟨defaultAt, hdefault, h⟩ := bind_eq_ok.1 h
  split at h
  · cases h
  rename_i defaultAt
  obtain ⟨located, hlocated, h⟩ := bind_eq_ok.1 h
  obtain ⟨places, hplaces, hs⟩ := Option.map_eq_some_iff.1 (Except.ok.inj h)
  subst hs
  obtain ⟨hloc, hlt⟩ := Option.filter_eq_some_iff.1 (Except.ok.inj hdefault)
  rw [eq_map_of_mapM_ok (fun _ _ harm => (Except.ok.inj harm).symm) hlocated, List.mapM_map] at hplaces
  refine ⟨?_, hloc, by simpa using hlt⟩
  refine (forall₂_of_mapM_some hplaces).imp fun arm place harm => ?_
  obtain ⟨at', hat, hpair⟩ := Option.map_eq_some_iff.1 harm
  cases hpair
  obtain ⟨hloc, hlt⟩ := Option.filter_eq_some_iff.1 hat
  exact ⟨rfl, hloc, by simpa using hlt⟩

/-- Laying out a switch never fails. -/
theorem succeeds_of (g : Graph) (r : Region) (index : Nat) (arms : List (Int32 × BlockId)) (otherwise : BlockId) :
    Succeeds (of g r index arms otherwise) := by
  simp only [of, Region.locate_eq]
  refine (Succeeds.pure _).bind fun defaultAt _ => ?_
  cases defaultAt with
  | none => exact .pure none
  | some defaultAt => exact (Succeeds.mapM fun arm _ => .pure _).bind fun located _ => .pure _

/-- Each place of an arm is where the arm's target is located. -/
theorem Locates.of_mem {arms : List (Int32 × BlockId)} {otherwise : BlockId} {s : SwitchLayout}
    (h : s.Locates g r index arms otherwise) {place : Int32 × Nat} (hp : place ∈ s.arms) :
    ∃ arm ∈ arms, place.1 = arm.1 ∧ r.locate? g arm.2 = some place.2 ∧ index < place.2 := by
  obtain ⟨i, hi, rfl⟩ := List.getElem_of_mem hp
  have hlen := h.arms.length_eq
  have hget := List.Forall₂.get h.arms (by omega) hi
  exact ⟨_, List.getElem_mem _, hget⟩

variable {s : SwitchLayout}

/-- No arm starts after the last case. -/
theorem place_le_lastCase {place : Int32 × Nat} (h : place ∈ s.arms) : place.2 ≤ s.lastCase :=
  le_foldl_max (List.mem_map_of_mem h)

/-- If a switch ends after its last case, the arms lead to places before its end, or to its end. -/
theorem arms_le {stop : Nat} (h : s.lastCase ≤ stop) : ∀ arm ∈ s.arms, arm.2 ≤ stop :=
  fun _ harm => (place_le_lastCase harm).trans h

theorem defaultAt_le_lastCase : s.defaultAt ≤ s.lastCase := le_foldl_max_init _ _

theorem firstCase_le {place : Int32 × Nat} (h : place ∈ s.arms) : s.firstCase ≤ place.2 := foldl_min_le (List.mem_map_of_mem h)

theorem firstCase_le_defaultAt : s.firstCase ≤ s.defaultAt := foldl_min_le_init _ _

theorem firstCase_le_lastCase : s.firstCase ≤ s.lastCase := firstCase_le_defaultAt.trans defaultAt_le_lastCase

/-- The last case starts inside the region, or at its end. -/
theorem Locates.lastCase_le {arms : List (Int32 × BlockId)} {otherwise : BlockId} (h : s.Locates g r index arms otherwise) :
    s.lastCase ≤ r.length := by
  refine foldl_max_le (Region.locate?_le h.defaultAt) fun b hb => ?_
  obtain ⟨place, hplace, rfl⟩ := List.mem_map.1 hb
  obtain ⟨arm, _, _, hloc, _⟩ := h.of_mem hplace
  exact Region.locate?_le hloc

/-- A case is left to a place of the region, or to its end. -/
theorem exitAt_le {place exit : Nat} (h : s.exitAt g r place = .ok (some exit)) : exit ≤ r.length := by
  unfold exitAt at h
  obtain ⟨id, _, h⟩ := bind_eq_ok.1 h
  split at h
  · rw [Region.locate_eq] at h
    exact Region.locate?_le (Option.filter_eq_some_iff.1 (Except.ok.inj h)).1
  · cases h

/-- A switch ends inside the region. -/
theorem Locates.stop_le {arms : List (Int32 × BlockId)} {otherwise : BlockId} (h : s.Locates g r index arms otherwise) {stop : Nat}
    (hstop : s.findStop g r = .ok stop) : stop ≤ r.length := by
  obtain ⟨exits, hexits, hstop⟩ := bind_eq_ok.1 hstop
  split at hstop
  · rename_i exit hexit
    cases hstop
    obtain ⟨found, hmem, rfl⟩ := List.mem_filterMap.1 (List.min?_mem hexit)
    obtain ⟨place, _, hplace⟩ := exists_mem_of_forall₂_right (forall₂_of_mapM_ok hexits) hmem
    exact exitAt_le hplace
  · have hstop := Except.ok.inj hstop
    split at hstop
    · exact hstop ▸ h.lastCase_le
    · exact Nat.le_of_eq hstop.symm

/-- The search for the end of a switch stays inside of the region. -/
theorem succeeds_findStop (h : s.lastCase ≤ r.length) : Succeeds (s.findStop g r) := by
  have hexits : Succeeds ((places s.firstCase s.lastCase).mapM (s.exitAt g r)) := by
    refine .mapM fun place hplace => ?_
    refine (Region.succeeds_blockAt (Nat.lt_of_lt_of_le (mem_places.1 hplace).2 h)).bind fun id _ => ?_
    split
    · rw [Region.locate_eq]
      exact .pure _
    · exact .pure none
  refine hexits.bind fun exits _ => ?_
  split
  · exact .pure _
  · exact .pure _

end SwitchLayout

/-- A switch whose cases are laid out after it: its first case follows it, and no target lies past its end. -/
theorem switchLayout_cases {key : Span} {s : SwitchLayout} {stop : Nat} (h : switchLayout g r index = .ok (some (key, s, stop))) :
    ∃ id arms otherwise, r.blocks[index]? = some id ∧ g.block? id = some ⟨key, .switch arms otherwise⟩ ∧
      s.Locates g r index arms otherwise ∧ s.firstCase = index + 1 ∧ s.lastCase ≤ stop ∧ stop ≤ r.length := by
  obtain ⟨id, hid, h⟩ := bind_eq_ok.1 h
  split at h
  · rename_i key' arms otherwise hblock
    obtain ⟨layout, hlayout, h⟩ := bind_eq_ok.1 h
    split at h
    · cases h
    · rename_i s'
      split at h
      · rename_i hfirst
        obtain ⟨stop', hstop, h⟩ := bind_eq_ok.1 h
        have h := Except.ok.inj h
        split at h
        · rename_i hlast
          cases h
          have hlocates := SwitchLayout.of_locates hlayout
          exact ⟨id, arms, otherwise, Region.blockAt_eq_ok.1 hid, hblock, hlocates, hfirst, hlast, hlocates.stop_le hstop⟩
        · cases h
      · cases h
  · cases h

/-- The arms of a switch lead to places before its end, or to its end. -/
theorem switchLayout_arms_le {key : Span} {s : SwitchLayout} {stop : Nat} (h : switchLayout g r index = .ok (some (key, s, stop))) :
    ∀ arm ∈ s.arms, arm.2 ≤ stop := by
  obtain ⟨_, _, _, _, _, _, _, hlast, _⟩ := switchLayout_cases h
  exact SwitchLayout.arms_le hlast

/-- The search for a switch stays inside of the region. -/
theorem succeeds_switchLayout (hindex : index < r.length) : Succeeds (switchLayout g r index) := by
  refine (Region.succeeds_blockAt hindex).bind fun id _ => ?_
  split
  · refine (SwitchLayout.succeeds_of g r index _ _).bind fun layout hlayout => ?_
    split
    · exact .pure none
    · split
      · have hle := (SwitchLayout.of_locates hlayout).lastCase_le
        exact (SwitchLayout.succeeds_findStop hle).bind fun stop _ => .pure _
      · exact .pure none
  · exact .pure none

/-- A case ends where the next one starts, or at the end of the switch. -/
theorem switchCase_bounds {start stop : Nat} {rest : List Nat} (hstop : stop ≤ r.length)
    (hfirst : ∀ next ∈ rest, start < next) (hlt : ∀ place ∈ start :: rest, place < stop) :
    start ≤ rest.head?.getD stop ∧ rest.head?.getD stop ≤ r.length := by
  cases rest with
  | nil => exact ⟨Nat.le_of_lt (hlt start List.mem_cons_self), hstop⟩
  | cons next rest =>
    have h1 := hfirst next List.mem_cons_self
    have h2 := hlt next (List.mem_cons_of_mem _ List.mem_cons_self)
    simp only [List.head?_cons, Option.getD_some]
    omega

end Recognizer

end CodeLift
