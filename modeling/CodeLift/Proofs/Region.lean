import CodeLift.Proofs.Lookups

/-!
# Places of a region

What the questions to a region say about its places: a place that is found lies inside the region or, for a jump to the follow,
right past it. `guardChain?_cases` and `loopGuard?_cases` say which blocks a condition is made of.
-/

namespace CodeLift.Region

variable {r : Region} {g : Graph}

theorem lt_length_of_getElem? {i : Nat} {id : BlockId} (h : r.blocks[i]? = some id) : i < r.length :=
  (List.getElem?_eq_some_iff.1 h).1

theorem exists_getElem? {i : Nat} (h : i < r.length) : ∃ id, r.blocks[i]? = some id :=
  ⟨r.blocks.get ⟨i, h⟩, List.getElem?_eq_some_iff.2 ⟨h, rfl⟩⟩

/-- Inside the region, what comes next is its block. -/
theorem blockOrFollow?_of_lt {i : Nat} (h : i < r.length) : r.blockOrFollow? i = r.blocks[i]? := by
  obtain ⟨id, hid⟩ := exists_getElem? h
  rw [blockOrFollow?, hid, Option.some_or]

theorem blockOrFollow?_of_getElem? {i : Nat} {id : BlockId} (h : r.blocks[i]? = some id) : r.blockOrFollow? i = some id := by
  rw [blockOrFollow?_of_lt (lt_length_of_getElem? h), h]

/-- After the region comes its follow. -/
theorem blockOrFollow?_of_le {i : Nat} (h : r.length ≤ i) : r.blockOrFollow? i = r.follow := by
  rw [blockOrFollow?, List.getElem?_eq_none h, Option.none_or]

/-! ## Parts of a region -/

/-- A part has as many blocks as places. -/
theorem length_sub {start stop : Nat} {follow : Option BlockId} (h : stop ≤ r.length) :
    (r.sub start stop follow).length = stop - start := by
  simp only [sub, length, List.length_take, List.length_drop] at h ⊢
  omega

/-- The blocks of a part are blocks of the region, in order. -/
theorem sub_sublist (r : Region) (start stop : Nat) (follow : Option BlockId) :
    (r.sub start stop follow).blocks.Sublist r.blocks :=
  (List.take_sublist _ _).trans (List.drop_sublist _ _)

/-- The block at a place between the bounds is in the part. -/
theorem mem_sub_of_getElem? {start stop i : Nat} {follow : Option BlockId} {id : BlockId} (h : r.blocks[i]? = some id)
    (hstart : start ≤ i) (hstop : i < stop) : id ∈ (r.sub start stop follow).blocks := by
  refine List.mem_of_getElem? (i := i - start) ?_
  rw [sub, List.getElem?_take_of_lt (by omega), List.getElem?_drop, Nat.add_sub_cancel' hstart]
  exact h

/-- The blocks of a part are found at shifted places. -/
theorem getElem?_sub {start stop i : Nat} {follow : Option BlockId} (h : i < stop - start) :
    (r.sub start stop follow).blocks[i]? = r.blocks[start + i]? := by
  rw [sub, List.getElem?_take_of_lt h, List.getElem?_drop]

/-- The blocks of a part are blocks of the region. -/
theorem mem_of_mem_sub {start stop : Nat} {follow : Option BlockId} {id : BlockId}
    (h : id ∈ (r.sub start stop follow).blocks) : id ∈ r.blocks :=
  List.mem_of_mem_drop (List.mem_of_mem_take h)

/-- A part of a region splits at any place between its ends. -/
theorem sub_append_sub {a b c : Nat} (f f' f'' : Option BlockId) (hab : a ≤ b) (hbc : b ≤ c) :
    (r.sub a b f).blocks ++ (r.sub b c f').blocks = (r.sub a c f'').blocks := by
  simp only [sub]
  obtain ⟨d, rfl⟩ := Nat.exists_eq_add_of_le hab
  obtain ⟨e, rfl⟩ := Nat.exists_eq_add_of_le hbc
  rw [show a + d - a = d by omega, show a + d + e - (a + d) = e by omega, show a + d + e - a = d + e by omega, List.take_add,
    List.drop_drop]

/-- A part of one place is its block. -/
theorem sub_single {i : Nat} {id : BlockId} (f : Option BlockId) (h : r.blocks[i]? = some id) :
    (r.sub i (i + 1) f).blocks = [id] := by
  obtain ⟨hi, hid⟩ := List.getElem?_eq_some_iff.1 h
  simp only [sub]
  rw [show i + 1 - i = 1 by omega, List.drop_eq_getElem_cons hi, List.take_succ_cons, List.take_zero, hid]

/-- A block that a region holds once is in no part that ends before it. -/
theorem not_mem_sub (hnodup : r.blocks.Nodup) {start place : Nat} {id : BlockId} (f : Option BlockId) (h : r.blocks[place]? = some id)
    (hle : start ≤ place) : id ∉ (r.sub start place f).blocks := by
  have hpart := hnodup.sublist (r.sub_sublist start (place + 1) f)
  rw [← sub_append_sub f none f hle (Nat.le_succ place), sub_single none h] at hpart
  intro hmem
  exact (List.nodup_append.1 hpart).2.2 id hmem id (List.mem_singleton_self id) rfl

/-- A part starts with the block at its first place. -/
theorem sub_cons {start stop : Nat} {id : BlockId} (f : Option BlockId) (h : r.blocks[start]? = some id) (hlt : start < stop) :
    (r.sub start stop f).blocks = id :: (r.sub (start + 1) stop f).blocks := by
  rw [← sub_append_sub f f f (Nat.le_succ start) hlt, sub_single f h, List.singleton_append]

theorem sub_self (i : Nat) (f : Option BlockId) : (r.sub i i f).blocks = [] := by simp [sub]

theorem sub_zero_length (f : Option BlockId) : (r.sub 0 r.length f).blocks = r.blocks := by
  simp [sub, length]

/-! ## Conditions -/

/-- A link is a branch. -/
theorem branchTarget?_of_linkTarget? {id target : BlockId} (h : g.linkTarget? id = some target) :
    g.branchTarget? id = some target := by
  unfold Graph.linkTarget? at h
  split at h
  · cases h
  · exact h

/-- The blocks from `start` on, `count` of them, all end with a conditional jump to `target`. -/
def BranchesTo (r : Region) (g : Graph) (start count : Nat) (target : BlockId) : Prop :=
  start + count ≤ r.length ∧ ∀ i, i < count → ∃ id, r.blocks[start + i]? = some id ∧ g.branchTarget? id = some target

/-- The blocks after the first one of a run. -/
theorem BranchesTo.tail {start count : Nat} {target : BlockId} (h : r.BranchesTo g start (count + 1) target) :
    r.BranchesTo g (start + 1) count target := by
  obtain ⟨hlen, hbranches⟩ := h
  refine ⟨by omega, fun i hi => ?_⟩
  have hnext := hbranches (i + 1) (by omega)
  rwa [show start + (i + 1) = start + 1 + i by omega] at hnext

/-- The blocks that continue a chain lie inside of the region. -/
theorem lastLink_le (g : Graph) {start : Nat} {first : BlockId} (h : r.blocks[start]? = some first) (target : BlockId) :
    start + ((r.blocks.drop (start + 1)).takeWhile fun id => g.linkTarget? id == some target).length + 1 ≤ r.length := by
  have hlt := lt_length_of_getElem? h
  have hle := (List.takeWhile_prefix (l := r.blocks.drop (start + 1)) fun id => g.linkTarget? id == some target).length_le
  rw [List.length_drop] at hle
  unfold length at hlt ⊢
  omega

/-- The search for a condition in front of code stays inside of the region. -/
theorem succeeds_guardChain {start : Nat} (h : start < r.length) : Succeeds (r.guardChain g start) := by
  refine (succeeds_blockAt h).bind fun first hfirst => ?_
  cases g.branchTarget? first with
  | none => exact .pure none
  | some target =>
    have hlast := lastLink_le g (blockAt_eq_ok.1 hfirst) target
    dsimp only
    split
    · rename_i skip hskip
      obtain ⟨id, hid, _⟩ := Option.bind_eq_some_iff.1 (Option.filter_eq_some_iff.1 hskip).1
      rw [jumpParts_eq hlast, jumpParts_eq (lt_length_of_getElem? hid)]
      exact .pure _
    · rw [jumpParts_eq hlast]
      exact .pure _

/-- The blocks that a condition in front of code is made of, of which only the first can be jumped to: a run of conditional blocks
with one target, and for "or" one more block, after which the target of the run comes. -/
theorem guardChain?_links {start : Nat} {chain : Chain} (h : r.guardChain? g start = some chain) :
    ∃ first count target, 0 < count ∧ r.blocks[start]? = some first ∧ g.branchTarget? first = some target ∧
      (∀ i, 0 < i → i < count → ∃ id, r.blocks[start + i]? = some id ∧ g.linkTarget? id = some target) ∧
      (chain = ⟨Guard.combine .and (r.jumpGuards g true start count), start + count - 1, target⟩ ∨
        ∃ skip id, r.blocks[start + count]? = some id ∧ g.linkTarget? id = some skip ∧ r.nextEntry? g (start + count) = some target ∧
          chain = ⟨.or (r.jumpGuards g false start count ++ r.jumpGuards g true (start + count) 1), start + count, skip⟩) := by
  obtain ⟨first, hfirst, h⟩ := bind_eq_ok.1 (toOption_join_eq_some.1 h)
  have hfirst := blockAt_eq_ok.1 hfirst
  split at h
  · cases h
  rename_i target htarget
  have hlast := lastLink_le g hfirst target
  dsimp only at h
  generalize hlinks : ((r.blocks.drop (start + 1)).takeWhile fun id => g.linkTarget? id == some target).length = links at h hlast
  refine ⟨first, links + 1, target, Nat.succ_pos links, hfirst, htarget, fun i hpos hi => ?_, ?_⟩
  · have hi' : i - 1 < ((r.blocks.drop (start + 1)).takeWhile fun id => g.linkTarget? id == some target).length := by omega
    obtain ⟨id, hid, hp⟩ := getElem?_of_lt_takeWhile hi'
    rw [List.getElem?_drop, show start + 1 + (i - 1) = start + i by omega] at hid
    exact ⟨id, hid, by simpa using hp⟩
  · rw [show start + (links + 1) = start + links + 1 by omega, Nat.add_sub_cancel]
    split at h
    · rename_i skip hskip
      obtain ⟨hlink, hnext⟩ := Option.filter_eq_some_iff.1 hskip
      obtain ⟨id, hid, hlink⟩ := Option.bind_eq_some_iff.1 hlink
      have hlt : start + links + 2 ≤ r.length := lt_length_of_getElem? hid
      rw [jumpParts_eq hlast, jumpParts_eq hlt, show start + links + 1 - start = links + 1 by omega,
        show start + links + 2 - (start + links + 1) = 1 by omega] at h
      cases h
      exact .inr ⟨skip, id, hid, hlink, by simpa using hnext, rfl⟩
    · rw [jumpParts_eq hlast, show start + links + 1 - start = links + 1 by omega] at h
      cases h
      exact .inl rfl

/-- One branch is a chain of one. -/
theorem branchesTo_one {i : Nat} {id target : BlockId} (hid : r.blocks[i]? = some id) (h : g.branchTarget? id = some target) :
    r.BranchesTo g i 1 target := by
  refine ⟨lt_length_of_getElem? hid, fun k hk => ?_⟩
  obtain rfl : k = 0 := by omega
  exact ⟨id, hid, h⟩

/-- The blocks that a condition in front of code is made of: a run of conditional blocks with one target, and for "or" one more
block, after which the target of the run comes. -/
theorem guardChain?_cases {start : Nat} {chain : Chain} (h : r.guardChain? g start = some chain) :
    ∃ count target, 0 < count ∧ r.BranchesTo g start count target ∧
      (chain = ⟨Guard.combine .and (r.jumpGuards g true start count), start + count - 1, target⟩ ∨
        ∃ skip, r.BranchesTo g (start + count) 1 skip ∧ r.nextEntry? g (start + count) = some target ∧
          chain = ⟨.or (r.jumpGuards g false start count ++ r.jumpGuards g true (start + count) 1), start + count, skip⟩) := by
  obtain ⟨first, count, target, hpos, hfirst, htarget, hlinks, hchain⟩ := guardChain?_links h
  have hbranches : ∀ i, i < count → ∃ id, r.blocks[start + i]? = some id ∧ g.branchTarget? id = some target := by
    intro i hi
    rcases Nat.eq_zero_or_pos i with rfl | hi'
    · exact ⟨first, hfirst, htarget⟩
    · obtain ⟨id, hid, hlink⟩ := hlinks i hi' hi
      exact ⟨id, hid, branchTarget?_of_linkTarget? hlink⟩
  have hrun : r.BranchesTo g start count target := by
    obtain ⟨id, hid, _⟩ := hbranches (count - 1) (by omega)
    have := lt_length_of_getElem? hid
    exact ⟨by omega, hbranches⟩
  refine ⟨count, target, hpos, hrun, hchain.imp_right ?_⟩
  rintro ⟨skip, id, hid, hlink, hnext, rfl⟩
  exact ⟨skip, branchesTo_one hid (branchTarget?_of_linkTarget? hlink), hnext, rfl⟩

/-- A condition in front of code starts where it is looked for and ends inside the region. -/
theorem guardChain?_last {start : Nat} {chain : Chain} (h : r.guardChain? g start = some chain) :
    start ≤ chain.last ∧ chain.last < r.length := by
  obtain ⟨count, target, hpos, hrun, rfl | ⟨skip, hskip, _, rfl⟩⟩ := guardChain?_cases h
  · have := hrun.1
    dsimp only
    omega
  · have := hskip.1
    dsimp only
    omega

/-- The target of a test is the target of the branch at its place. -/
theorem testTarget?_spec {start i : Nat} {target : BlockId} (h : r.testTarget? g start i = some target) :
    ∃ id, r.blocks[i]? = some id ∧ g.branchTarget? id = some target := by
  unfold testTarget? at h
  split at h
  · exact Option.bind_eq_some_iff.1 h
  · obtain ⟨id, hid, hlink⟩ := Option.bind_eq_some_iff.1 h
    exact ⟨id, hid, branchTarget?_of_linkTarget? hlink⟩

/-- Tests that all have one target are a chain of branches to it. -/
theorem branchesTo_of_mapM {start count : Nat} {targets : List BlockId} {target : BlockId}
    (h : (List.range' start count).mapM (r.testTarget? g start) = some targets) (hall : targets.all (· == target) = true)
    (hlen : start + count ≤ r.length) : r.BranchesTo g start count target := by
  refine ⟨hlen, fun i hi => ?_⟩
  have hforall := forall₂_of_mapM_some h
  have hlen' := hforall.length_eq
  rw [List.length_range'] at hlen'
  have hget := List.Forall₂.get hforall (by simpa using hi) (by omega)
  simp only [List.get_eq_getElem, List.getElem_range', Nat.one_mul] at hget
  obtain ⟨id, hid, htarget⟩ := testTarget?_spec hget
  refine ⟨id, hid, ?_⟩
  rw [htarget]
  have := List.all_eq_true.1 hall _ (List.getElem_mem (by omega : i < targets.length))
  simpa using this

/-- The targets of the blocks of the condition at the bottom of a loop: the last block jumps back to the body; the others do so too,
or they all jump to where the last one falls. -/
theorem loopGuard?_targets {start last : Nat} {bodyEntry : BlockId} {guard : Guard}
    (h : r.loopGuard? g start last bodyEntry = some guard) :
    r.testTarget? g start last = some bodyEntry ∧
      ∃ targets, (List.range' start (last - start)).mapM (r.testTarget? g start) = some targets ∧
        ((targets.all (· == bodyEntry) = true ∧ guard = Guard.combine .or (r.jumpGuards g false start (last + 1 - start))) ∨
          ∃ exit, ¬targets.all (· == bodyEntry) = true ∧ r.nextEntry? g last = some exit ∧ targets.all (· == exit) = true ∧
            guard = .and (r.jumpGuards g true start (last - start) ++ r.jumpGuards g false last 1)) := by
  obtain ⟨back, hback, h⟩ := bind_eq_ok.1 (toOption_join_eq_some.1 h)
  have hback := testTarget_eq_ok hback
  split at h
  · rename_i heq
    rw [heq] at hback
    obtain ⟨id, hid, _⟩ := testTarget?_spec hback.symm
    have hlast : last + 1 ≤ r.length := lt_length_of_getElem? hid
    obtain ⟨found, hfound, h⟩ := bind_eq_ok.1 h
    split at h
    · cases h
    · rename_i targets htargets
      refine ⟨hback.symm, targets, mapM_testTarget_eq_ok hfound htargets, ?_⟩
      split at h
      · rename_i hall
        rw [jumpParts_eq hlast] at h
        cases h
        exact .inl ⟨hall, rfl⟩
      · rename_i hall
        split at h
        · rename_i hexit
          obtain ⟨exit, hexit, hall'⟩ := (Option.any_eq_true _ _).1 hexit
          rw [jumpParts_eq (Nat.le_of_succ_le hlast), jumpParts_eq hlast, Nat.add_sub_cancel_left] at h
          cases h
          exact .inr ⟨exit, hall, hexit, hall', rfl⟩
        · cases h
  · cases h

/-- The search for a condition at the bottom of a loop stays inside of the region. -/
theorem succeeds_loopGuard {start last : Nat} {bodyEntry : BlockId} (h : start < r.length) :
    Succeeds (r.loopGuard g start last bodyEntry) := by
  refine (succeeds_testTarget h).bind fun back hback => ?_
  split
  · rename_i heq
    rw [heq] at hback
    obtain ⟨id, hid, _⟩ := testTarget?_spec (testTarget_eq_ok hback).symm
    have hlast : last + 1 ≤ r.length := lt_length_of_getElem? hid
    refine (Succeeds.mapM fun index _ => succeeds_testTarget h).bind fun found _ => ?_
    split
    · exact .pure none
    · split
      · rw [jumpParts_eq hlast]
        exact .pure _
      · split
        · rw [jumpParts_eq (Nat.le_of_succ_le hlast), jumpParts_eq hlast]
          exact .pure _
        · exact .pure none
  · exact .pure none

/-- The blocks that the condition at the bottom of a loop is made of: its last block jumps back to the body; the others do so too,
or they all jump to where the last one falls. -/
theorem loopGuard?_cases {start last : Nat} {bodyEntry : BlockId} {guard : Guard} (hle : start ≤ last)
    (h : r.loopGuard? g start last bodyEntry = some guard) :
    (r.BranchesTo g start (last + 1 - start) bodyEntry ∧
      guard = Guard.combine .or (r.jumpGuards g false start (last + 1 - start))) ∨
    ∃ exit, r.BranchesTo g start (last - start) exit ∧ r.BranchesTo g last 1 bodyEntry ∧ r.nextEntry? g last = some exit ∧
      guard = .and (r.jumpGuards g true start (last - start) ++ r.jumpGuards g false last 1) := by
  obtain ⟨hback, targets, htargets, hguard⟩ := loopGuard?_targets h
  obtain ⟨id, hid, hid'⟩ := testTarget?_spec hback
  have hlt := lt_length_of_getElem? hid
  rcases hguard with ⟨hall, hguard⟩ | ⟨exit, _, hexit, hall, hguard⟩
  · refine .inl ⟨⟨by omega, fun i hi => ?_⟩, hguard⟩
    by_cases hi' : i < last - start
    · exact (branchesTo_of_mapM htargets hall (by omega)).2 i hi'
    · rw [show start + i = last by omega]
      exact ⟨id, hid, hid'⟩
  · exact .inr ⟨exit, branchesTo_of_mapM htargets hall (by omega), branchesTo_one hid hid', hexit, hguard⟩

/-- The condition at the bottom of a loop ends inside the region. -/
theorem loopGuard?_lt {start last : Nat} {bodyEntry : BlockId} {guard : Guard} (hle : start ≤ last)
    (h : r.loopGuard? g start last bodyEntry = some guard) : last < r.length := by
  obtain ⟨hrun, _⟩ | ⟨_, _, hrun, _⟩ := loopGuard?_cases hle h
  · have := hrun.1
    omega
  · exact hrun.1

end CodeLift.Region
