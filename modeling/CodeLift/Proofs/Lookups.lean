import CodeLift.Proofs.Lists
import CodeLift.Region.Chain

/-!
# Lookups in a region

A lookup at a place outside of its region is a failure. What a search through a region gives is told by the places that it has
looked at, and a search through places inside of the region does give something.
-/

namespace CodeLift

/-! ## Computations that give a result -/

section

variable {ε α β : Type}

/-- The computation gives a result. -/
def Succeeds (x : Except ε α) : Prop := ∃ a, x = .ok a

namespace Succeeds

/-- A value is a success. -/
theorem pure (a : α) : Succeeds (.ok a : Except ε α) := ⟨a, rfl⟩

/-- Two computations one after the other give a result if the second does whenever it is reached. -/
theorem bind {x : Except ε α} {f : α → Except ε β} (hx : Succeeds x) (hf : ∀ a, x = .ok a → Succeeds (f a)) :
    Succeeds (x >>= f) := by
  obtain ⟨a, ha⟩ := hx
  obtain ⟨b, hb⟩ := hf a ha
  exact ⟨b, bind_eq_ok.2 ⟨a, ha, hb⟩⟩

/-- After a computation that gives a result, a failure comes from what follows. -/
theorem bind_error {x : Except ε α} {f : α → Except ε β} {e : ε} (hx : Succeeds x) (h : x >>= f = .error e) :
    ∃ a, x = .ok a ∧ f a = .error e := by
  obtain ⟨a, rfl⟩ := hx
  exact ⟨a, rfl, h⟩

/-- Mapping succeeds where each step does. -/
theorem mapM {f : α → Except ε β} {xs : List α} (h : ∀ x ∈ xs, Succeeds (f x)) : Succeeds (xs.mapM f) := by
  induction xs with
  | nil => exact pure []
  | cons x xs ih =>
    rw [List.mapM_cons]
    refine (h x List.mem_cons_self).bind fun y _ => ?_
    exact (ih fun x' hx' => h x' (List.mem_cons_of_mem x hx')).bind fun ys _ => pure (y :: ys)

/-- A search succeeds where each test does. -/
theorem findM? {p : α → Except ε Bool} {xs : List α} (h : ∀ x ∈ xs, Succeeds (p x)) : Succeeds (xs.findM? p) := by
  induction xs with
  | nil => exact pure none
  | cons x xs ih =>
    refine (h x List.mem_cons_self).bind fun found _ => ?_
    cases found with
    | true => exact pure (some x)
    | false => exact ih fun x' hx' => h x' (List.mem_cons_of_mem x hx')

/-- A search for a result succeeds where each attempt does. -/
theorem findSomeM? {f : α → Except ε (Option β)} {xs : List α} (h : ∀ x ∈ xs, Succeeds (f x)) : Succeeds (xs.findSomeM? f) := by
  induction xs with
  | nil => exact pure none
  | cons x xs ih =>
    refine (h x List.mem_cons_self).bind fun found _ => ?_
    cases found with
    | some b => exact pure (some b)
    | none => exact ih fun x' hx' => h x' (List.mem_cons_of_mem x hx')

end Succeeds

/-- What is found has passed the test. -/
theorem mem_of_findM?_ok {p : α → Except ε Bool} {xs : List α} {x : α} (h : xs.findM? p = .ok (some x)) : x ∈ xs ∧ p x = .ok true := by
  induction xs with
  | nil => cases h
  | cons y xs ih =>
    obtain ⟨found, hfound, h⟩ := bind_eq_ok.1 h
    cases found with
    | true =>
      cases h
      exact ⟨List.mem_cons_self, hfound⟩
    | false => exact (ih h).imp_left (List.mem_cons_of_mem y)

/-- What is found has been made from a member of the list. -/
theorem exists_of_findSomeM?_ok {f : α → Except ε (Option β)} {xs : List α} {b : β} (h : xs.findSomeM? f = .ok (some b)) :
    ∃ x ∈ xs, f x = .ok (some b) := by
  induction xs with
  | nil => cases h
  | cons y xs ih =>
    obtain ⟨found, hfound, h⟩ := bind_eq_ok.1 h
    cases found with
    | some b' =>
      cases h
      exact ⟨y, List.mem_cons_self, hfound⟩
    | none =>
      obtain ⟨x, hx, hfx⟩ := ih h
      exact ⟨x, List.mem_cons_of_mem y hx, hfx⟩

/-- What a list is mapped to, if it is known what its members are mapped to. -/
theorem eq_map_of_mapM_ok {f : α → Except ε β} {f' : α → β} (hf : ∀ x y, f x = .ok y → y = f' x) {xs : List α} {ys : List β}
    (h : xs.mapM f = .ok ys) : ys = xs.map f' := by
  have hall := forall₂_of_mapM_ok h
  clear h
  induction hall with
  | nil => rfl
  | cons hx _ ih => rw [List.map_cons, ← hf _ _ hx, ← ih]

/-- What a search finds, it finds without a failure. -/
theorem toOption_join_eq_some {x : Except ε (Option α)} {a : α} : x.toOption.join = some a ↔ x = .ok (some a) := by
  cases x with
  | error e => simp [Except.toOption]
  | ok found => simp [Except.toOption]

end

/-- The places between two bounds are those from the first up to the second. -/
theorem mem_places {start stop place : Nat} : place ∈ places start stop ↔ start ≤ place ∧ place < stop := by
  rw [places, List.mem_range'_1]
  omega

namespace Region

variable {r : Region} {g : Graph}

/-! ## Single places -/

/-- The block at a place is the one that the region has there. -/
theorem blockAt_eq_ok {index : Nat} {id : BlockId} : r.blockAt index = .ok id ↔ r.blocks[index]? = some id := by
  unfold blockAt
  cases r.blocks[index]? with
  | none => simp
  | some id' => simp

/-- Every place of the region has a block. -/
theorem succeeds_blockAt {index : Nat} (h : index < r.length) : Succeeds (r.blockAt index) :=
  ⟨_, blockAt_eq_ok.2 (List.getElem?_eq_getElem h)⟩

/-- The block before a place is the one that the region has there. -/
theorem blockBefore_eq_ok {index : Nat} {id : BlockId} (h : r.blockBefore index = .ok id) :
    0 < index ∧ r.blocks[index - 1]? = some id := by
  cases index with
  | zero => cases h
  | succ index => exact ⟨Nat.succ_pos index, blockAt_eq_ok.1 h⟩

/-- Every place but the first has a block before it. -/
theorem succeeds_blockBefore {index : Nat} (hpos : 0 < index) (h : index ≤ r.length) : Succeeds (r.blockBefore index) := by
  cases index with
  | zero => cases hpos
  | succ index => exact succeeds_blockAt h

/-- The blocks between two places are those of the part between them. -/
theorem between_eq_ok {start stop : Nat} {blocks : List BlockId} :
    r.between start stop = .ok blocks ↔ (start ≤ stop ∧ stop ≤ r.length) ∧ blocks = (r.sub start stop none).blocks := by
  unfold between
  split
  · rename_i h
    simp only [Bool.and_eq_true, decide_eq_true_eq] at h
    simp [h, eq_comm]
  · rename_i h
    simp only [Bool.and_eq_true, decide_eq_true_eq] at h
    simp [h]

/-- The blocks between two places of the region can be taken. -/
theorem succeeds_between {start stop : Nat} (hle : start ≤ stop) (hstop : stop ≤ r.length) : Succeeds (r.between start stop) :=
  ⟨_, between_eq_ok.2 ⟨⟨hle, hstop⟩, rfl⟩⟩

/-- The blocks from a place up to the end. -/
theorem between_length_eq_ok {start : Nat} {blocks : List BlockId} (h : r.between start r.length = .ok blocks) :
    blocks = r.blocks.drop start := by
  obtain ⟨_, rfl⟩ := between_eq_ok.1 h
  exact List.take_of_length_le (Nat.le_of_eq List.length_drop)

/-! ## Searches -/

/-- A place that is found is one of those searched, and its block passes the test. -/
theorem findAmong_eq_some {p : BlockId → Bool} {among : List Nat} {place : Nat} (h : r.findAmong p among = .ok (some place)) :
    place ∈ among ∧ ∃ id, r.blocks[place]? = some id ∧ p id = true := by
  obtain ⟨hmem, htest⟩ := mem_of_findM?_ok h
  obtain ⟨id, hid, hp⟩ := bind_eq_ok.1 htest
  exact ⟨hmem, id, blockAt_eq_ok.1 hid, Except.ok.inj hp⟩

/-- Searching places of the region never fails. -/
theorem succeeds_findAmong (p : BlockId → Bool) {among : List Nat} (h : ∀ place ∈ among, place < r.length) :
    Succeeds (r.findAmong p among) :=
  .findM? fun place hplace => (succeeds_blockAt (h place hplace)).bind fun id _ => .pure (p id)

/-- The first place is looked at first. -/
theorem findAmong_cons (p : BlockId → Bool) {place : Nat} {id : BlockId} (rest : List Nat) (h : r.blocks[place]? = some id) :
    r.findAmong p (place :: rest) = if p id then .ok (some place) else r.findAmong p rest := by
  have htest : (do return p (← r.blockAt place) : Except StructuringError Bool) = .ok (p id) := by
    rw [blockAt_eq_ok.2 h]
    rfl
  unfold findAmong
  rw [List.findM?, htest]
  cases p id with
  | true => rfl
  | false => rfl

/-- The first place from one on whose block satisfies a test. -/
theorem findAmong_to_end (p : BlockId → Bool) (start : Nat) :
    r.findAmong p (places start r.length) = .ok (((r.blocks.drop start).findIdx? p).map (start + ·)) := by
  obtain ⟨n, hn⟩ : ∃ n, r.length = start + n ∨ r.length ≤ start ∧ n = 0 := ⟨r.length - start, by omega⟩
  induction n generalizing start with
  | zero =>
    have hle : r.length ≤ start := by omega
    rw [places, Nat.sub_eq_zero_of_le hle, List.drop_eq_nil_of_le hle]
    rfl
  | succ n ih =>
    have hlt : start < r.blocks.length := by unfold length at hn; omega
    have hplaces : places start r.length = start :: places (start + 1) r.length := by
      rw [places, places, show r.length - start = r.length - (start + 1) + 1 by unfold length; omega, List.range'_succ]
    rw [hplaces, findAmong_cons p _ (List.getElem?_eq_getElem hlt), ih (start + 1) (by omega), List.drop_eq_getElem_cons hlt,
      List.findIdx?_cons]
    split
    · rfl
    · rw [Option.map_map]
      congr 2
      funext i
      exact Nat.add_right_comm start 1 i

/-- Going back passes over blocks that satisfy the test, and stops at `low` at the furthest. -/
theorem walkBack_spec {low place found : Nat} {p : BlockId → Bool} (h : r.walkBack low p place = .ok found) :
    found ≤ place ∧ (low ≤ found ∨ found = place) ∧
      ∀ i, found ≤ i → i < place → ∃ id, r.blocks[i]? = some id ∧ p id = true := by
  induction place with
  | zero =>
    cases h
    exact ⟨Nat.le_refl 0, .inr rfl, fun i _ hi => absurd hi (Nat.not_lt_zero i)⟩
  | succ place ih =>
    have hstay : found = place + 1 → found ≤ place + 1 ∧ (low ≤ found ∨ found = place + 1) ∧
        ∀ i, found ≤ i → i < place + 1 → ∃ id, r.blocks[i]? = some id ∧ p id = true := by
      rintro rfl
      exact ⟨Nat.le_refl _, .inr rfl, fun i hle hlt => absurd hlt (Nat.not_lt.2 hle)⟩
    unfold walkBack at h
    split at h
    · rename_i hlow
      obtain ⟨id, hid, h⟩ := bind_eq_ok.1 h
      split at h
      · rename_i hp
        obtain ⟨hle, hbound, hpassed⟩ := ih h
        refine ⟨Nat.le_succ_of_le hle, .inl (hbound.elim (fun h => h) (· ▸ hlow)), fun i hi hlt => ?_⟩
        rcases Nat.lt_succ_iff_lt_or_eq.1 hlt with hlt | rfl
        · exact hpassed i hi hlt
        · exact ⟨id, blockAt_eq_ok.1 hid, hp⟩
      · exact hstay (Except.ok.inj h).symm
    · exact hstay (Except.ok.inj h).symm

/-- Walking back from a place of the region never fails. -/
theorem succeeds_walkBack (low : Nat) (p : BlockId → Bool) {place : Nat} (h : place ≤ r.length) :
    Succeeds (r.walkBack low p place) := by
  induction place with
  | zero => exact .pure 0
  | succ place ih =>
    unfold walkBack
    split
    · refine (succeeds_blockAt h).bind fun id _ => ?_
      split
      · exact ih (Nat.le_of_succ_le h)
      · exact .pure (place + 1)
    · exact .pure (place + 1)

/-! ## Where jumps lead -/

/-- A block is where it is found. -/
theorem getElem?_of_indexOf? {id : BlockId} {i : Nat} (h : r.indexOf? id = some i) : r.blocks[i]? = some id := by
  obtain ⟨hi, hp, _⟩ := List.findIdx?_eq_some_iff_getElem.1 h
  exact List.getElem?_eq_some_iff.2 ⟨hi, by simpa using hp⟩

/-- A block is found at a place of the region. -/
theorem indexOf?_lt {id : BlockId} {i : Nat} (h : r.indexOf? id = some i) : i < r.length :=
  (List.getElem?_eq_some_iff.1 (getElem?_of_indexOf? h)).1

/-- A jump enters a region at its block, or before the starts of protected ranges that let it through to its block. -/
theorem entryIndex_eq_some {id : BlockId} {place : Nat} (h : r.entryIndex g id = .ok (some place)) :
    ∃ index, r.indexOf? id = some index ∧ place ≤ index ∧
      ∀ i, place ≤ i → i < index → ∃ b, r.blocks[i]? = some b ∧ g.entryBlock b = id := by
  unfold entryIndex at h
  split at h
  · rename_i index hindex
    obtain ⟨found, hfound, h⟩ := bind_eq_ok.1 h
    cases h
    obtain ⟨hle, _, hpassed⟩ := walkBack_spec hfound
    refine ⟨index, hindex, hle, fun i hi hlt => ?_⟩
    obtain ⟨b, hb, hentry⟩ := hpassed i hi hlt
    exact ⟨b, hb, by simpa using hentry⟩
  · cases h

/-- Locating a block never goes outside of the region. -/
theorem succeeds_entryIndex (r : Region) (g : Graph) (id : BlockId) : Succeeds (r.entryIndex g id) := by
  unfold entryIndex
  split
  · rename_i index hindex
    exact (succeeds_walkBack 0 _ (Nat.le_of_lt (indexOf?_lt hindex))).bind fun place _ => .pure (some place)
  · exact .pure none

/-- Looking for a block never fails. -/
theorem succeeds_locate (r : Region) (g : Graph) (target : BlockId) : Succeeds (r.locate g target) := by
  refine (succeeds_entryIndex r g target).bind fun found _ => ?_
  cases found with
  | some index => exact .pure (some index)
  | none => exact .pure _

/-- Looking for a block gives the place that the search without errors gives. -/
theorem locate_eq (r : Region) (g : Graph) (target : BlockId) : r.locate g target = .ok (r.locate? g target) := by
  obtain ⟨found, hfound⟩ := succeeds_locate r g target
  rw [locate?, hfound]
  rfl

/-- A jump to a follow that the region does not hold leads past the last place. -/
theorem locate?_follow {target : BlockId} (hmem : target ∉ r.blocks) (h : r.follow.map g.entryBlock = some target) :
    r.locate? g target = some r.length := by
  have hindex : r.indexOf? target = none := by
    rw [indexOf?, List.findIdx?_eq_none_iff]
    intro id hid
    exact beq_eq_false_iff_ne.2 fun heq => hmem (heq ▸ hid)
  have hentry : r.entryIndex g target = .ok none := by
    unfold entryIndex
    rw [hindex]
  refine toOption_join_eq_some.2 (bind_eq_ok.2 ⟨none, hentry, ?_⟩)
  dsimp only
  rw [if_pos h]
  rfl

/-- A jump that is located enters the region, or leads to its follow. -/
theorem locate?_cases {target : BlockId} {place : Nat} (h : r.locate? g target = some place) :
    r.entryIndex g target = .ok (some place) ∨ place = r.length ∧ r.follow.map g.entryBlock = some target := by
  obtain ⟨found, hfound, h⟩ := bind_eq_ok.1 (toOption_join_eq_some.1 h)
  cases found with
  | some index =>
    cases h
    exact .inl hfound
  | none =>
    have h := Except.ok.inj h
    split at h
    · rename_i hfollow
      cases h
      exact .inr ⟨rfl, hfollow⟩
    · cases h

/-- A target is found at a place of the region, or at its end. -/
theorem locate?_le {target : BlockId} {place : Nat} (h : r.locate? g target = some place) : place ≤ r.length := by
  rcases locate?_cases h with hentry | ⟨rfl, _⟩
  · obtain ⟨index, hindex, hle, _⟩ := entryIndex_eq_some hentry
    exact hle.trans (Nat.le_of_lt (indexOf?_lt hindex))
  · exact Nat.le_refl _

/-! ## Guards of several blocks -/

/-- The guards made of the conditional jumps of `count` blocks from a place on. -/
def jumpGuards (r : Region) (g : Graph) (negate : Bool) (start count : Nat) : List Guard :=
  ((r.blocks.drop start).take count).map (g.jumpGuard negate)

/-- Inside of the region each block makes a guard. -/
theorem jumpParts_eq {negate : Bool} {start stop : Nat} (h : stop ≤ r.length) :
    r.jumpParts g negate start stop = .ok (r.jumpGuards g negate start (stop - start)) := by
  unfold jumpParts places
  generalize hcount : stop - start = count
  induction count generalizing start with
  | zero =>
    rw [jumpGuards, List.take_zero, List.range'_zero]
    rfl
  | succ count ih =>
    have hlt : start < r.blocks.length := by
      unfold length at h
      omega
    have hid := blockAt_eq_ok.2 (List.getElem?_eq_getElem hlt)
    rw [List.range'_succ, List.mapM_cons, hid, ih (by omega), jumpGuards, jumpGuards, List.drop_eq_getElem_cons hlt]
    rfl

/-- The target of the block at a place of a loop condition that starts at `start`, if it has one. -/
def testTarget? (r : Region) (g : Graph) (start index : Nat) : Option BlockId :=
  if index = start then r.blocks[index]?.bind g.branchTarget? else r.linkAt? g index

/-- The target of a test is the one that the search without errors gives. -/
theorem testTarget_eq_ok {start index : Nat} {target : Option BlockId} (h : r.testTarget g start index = .ok target) :
    target = r.testTarget? g start index := by
  unfold testTarget at h
  unfold testTarget?
  split at h
  · rename_i heq
    obtain ⟨id, hid, h⟩ := bind_eq_ok.1 h
    cases h
    rw [if_pos heq, blockAt_eq_ok.1 hid, Option.bind_some]
  · rename_i hne
    cases h
    rw [if_neg hne]

/-- The target of a test that starts in the region can be found. -/
theorem succeeds_testTarget {start index : Nat} (h : start < r.length) : Succeeds (r.testTarget g start index) := by
  unfold testTarget
  split
  · rename_i heq
    exact (succeeds_blockAt (heq ▸ h)).bind fun id _ => .pure _
  · exact .pure _

/-- The targets of the blocks at several places of a loop condition. -/
theorem mapM_testTarget_eq_ok {start : Nat} {among : List Nat} {found : List (Option BlockId)} {targets : List BlockId}
    (h : among.mapM (r.testTarget g start) = .ok found) (htargets : found.mapM id = some targets) :
    among.mapM (r.testTarget? g start) = some targets := by
  rw [eq_map_of_mapM_ok (fun _ _ => testTarget_eq_ok) h, List.mapM_map] at htargets
  exact htargets

end Region

end CodeLift
