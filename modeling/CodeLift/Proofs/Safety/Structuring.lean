import CodeLift.Proofs.Bisect
import CodeLift.Proofs.Safety.Graph
import CodeLift.Proofs.Structuring.Recognition

/-!
# Structuring is safe

Every region that structuring comes across is a part of the layout, in its order, and every block that a region, a loop or a switch
leads to is a block of the graph. So nothing is looked up that is not there, and every step takes a block. Recognizers are judged
one by one: `Recognizer.Safe` assumes of the action they are given no more than that it is safe on regions and in sessions whose
blocks are known, and so says that they never use it on others. These are terms that recognizers go by (`Graph.InRange.terms`).
-/

namespace CodeLift

open Structuring

/-! ## Known blocks -/

/-- A block, if it is one, of the layout. -/
def Graph.Knows (g : Graph) (block : Option BlockId) : Prop := ∀ id, block = some id → id ∈ g.order

/-- A part of the layout, in its order, after which control reaches a block of the layout. -/
structure Region.Known (g : Graph) (r : Region) : Prop where
  blocks : r.blocks.Sublist g.order
  follow : g.Knows r.follow

/-- Breaks and continues lead to blocks of the layout. -/
structure Breakable.Known (g : Graph) (b : Breakable) : Prop where
  breakTo : g.Knows b.breakTo
  continueTo : g.Knows b.continueTo

/-- The loops and switches around the region at hand lead to blocks of the layout. -/
def Session.Known (g : Graph) (s : Session) : Prop := ∀ b ∈ s.breakables, b.Known g

theorem Graph.knows_none (g : Graph) : g.Knows none := fun _ h => by cases h

/-- Skipping starts ends at a block of the layout. -/
theorem Graph.skipStarts_mem (g : Graph) (id : BlockId) (layout : List BlockId) : g.skipStarts id layout ∈ id :: layout := by
  induction layout generalizing id with
  | nil => exact List.mem_singleton.2 rfl
  | cons next rest ih =>
    unfold Graph.skipStarts
    split
    · exact List.mem_cons_of_mem id (ih next)
    · exact List.mem_cons_self

/-- Control enters a block of the layout. -/
theorem Graph.entryBlock_mem {g : Graph} {id : BlockId} (h : id ∈ g.order) : g.entryBlock id ∈ g.order := by
  rcases List.mem_cons.1 (g.skipStarts_mem id (g.order.drop (g.position id + 1))) with heq | hmem
  · unfold Graph.entryBlock
    rw [heq]
    exact h
  · exact List.mem_of_mem_drop hmem

namespace Graph.InRange

variable {m : Method} {g : Graph} (hg : g.InRange m)
include hg

/-- The order holds every block. -/
theorem mem_order {id : BlockId} : id ∈ g.order ↔ id < g.blocks.size := by
  rw [hg.order.mem_iff, List.mem_range]

/-- The position of a block of the layout is where it stands there. -/
theorem position_getElem {i : Nat} (hi : i < g.order.length) : g.position g.order[i] = i :=
  Graph.position_of_getElem? (hg.order.nodup_iff.2 List.nodup_range) (hg.mem_order.1 (List.getElem_mem hi))
    (List.getElem?_eq_getElem hi)

/-- The positions of the order ascend. -/
theorem position_ascending : g.order.Pairwise fun a b => g.position a < g.position b := by
  refine List.pairwise_iff_getElem.2 fun i j hi hj hlt => ?_
  rwa [hg.position_getElem hi, hg.position_getElem hj]

/-- Blocks of the layout are told apart by their positions. -/
theorem eq_of_position_eq {a b : BlockId} (ha : a ∈ g.order) (hb : b ∈ g.order) (h : g.position a = g.position b) : a = b := by
  obtain ⟨i, hi, rfl⟩ := List.getElem_of_mem ha
  obtain ⟨j, hj, rfl⟩ := List.getElem_of_mem hb
  rw [hg.position_getElem hi, hg.position_getElem hj] at h
  subst h
  rfl

/-- A block of the layout is there. -/
theorem exists_block {id : BlockId} (h : id ∈ g.order) : ∃ block, g.block? id = some block :=
  ⟨_, Array.getElem?_eq_getElem (hg.mem_order.1 h)⟩

/-- Gotos lead to blocks of the layout. -/
theorem knows_gotoTarget? (id : BlockId) : g.Knows (g.gotoTarget? id) := by
  intro target htarget
  obtain ⟨span, hblock⟩ := Graph.gotoTarget?_eq_some htarget
  exact hg.mem_order.2 (hg.names id _ hblock target (List.mem_singleton.2 rfl))

end Graph.InRange

namespace Region.Known

variable {g : Graph} {r : Region}

/-- The whole layout. -/
theorem order (g : Graph) : Region.Known g ⟨g.order, none⟩ := ⟨.refl _, g.knows_none⟩

/-- A part of a known region is known. -/
theorem sub (hr : r.Known g) (start stop : Nat) {follow : Option BlockId} (hfollow : g.Knows follow) :
    (r.sub start stop follow).Known g :=
  ⟨(r.sub_sublist start stop follow).trans hr.blocks, hfollow⟩

/-- The blocks of a region stand in the order of their positions, so a search by halving for the position of a block finds it. -/
theorem indexOf?_eq (hr : r.Known g) {m : Method} (hg : g.InRange m) {id : BlockId} (hid : id ∈ g.order) :
    r.indexOf? id = bisectIdx? g.position (g.position id) r.blocks := by
  rw [bisectIdx?_eq (hg.position_ascending.sublist hr.blocks), Region.indexOf?]
  refine findIdx?_congr fun other hother => ?_
  have hsame : other = id ↔ g.position other = g.position id :=
    ⟨congrArg g.position, hg.eq_of_position_eq (hr.blocks.subset hother) hid⟩
  rw [Bool.beq_eq_decide_eq, Bool.beq_eq_decide_eq, decide_eq_decide]
  exact hsame

/-- Protected code is a part of its region. -/
theorem body (hr : r.Known g) {m : Method} (hg : g.InRange m) {index last stop : Nat} {shape : Recognizer.ProtectedShape}
    {tail : List BlockId} (hat : Recognizer.ProtectedAt g r index shape last stop tail) : shape.body.Known g := by
  refine ⟨hat.body_sublist.trans hr.blocks, ?_⟩
  obtain ⟨_, hexit, _⟩ | ⟨id, _, _, _, hexit⟩ := Recognizer.blockAfterEnd_cases hat.afterEnd
  · rw [hexit]
    exact g.knows_none
  · rw [hexit]
    exact hg.knows_gotoTarget? id

end Region.Known

/-- No loop or switch is around a whole method. -/
theorem Session.Known.start (g : Graph) (events : List Event) : Session.Known g (.start events) := fun b hb => by cases hb

/-! ## Safe actions -/

/-- The action leaves the session, events apart; its result satisfies `Q`, and its failure is no fault. -/
abbrev Structuring.Safe {α : Type} (s : Session) (action : Structuring α) (Q : α → Prop) : Prop :=
  Ends (fun e => e.isFault = false) s action Q

/-- Structuring an inner region whose blocks are known is safe. -/
def Nested.Safe (g : Graph) (nested : Nested) : Prop :=
  ∀ (r : Region) (s : Session), r.Known g → s.Known g → Structuring.Safe s (nested r) fun _ => True

/-- Whatever safe action it is given, a recognizer is safe, and a construct that it finds takes blocks of the region, and takes one
at least. -/
def Recognizer.Safe (subject : Subject) (recognizer : Recognizer) : Prop :=
  ∀ nested : Nested, nested.Safe subject.graph → ∀ (r : Region) (index : Nat) (s : Session), r.Known subject.graph →
    s.Known subject.graph → index < r.length → Structuring.Safe s (recognizer subject nested r index) fun found =>
      ∀ m, found = some m → index < m.resume ∧ m.resume ≤ r.length

/-! ## Safe recognizers -/

section

variable {subject : Subject} (hg : subject.graph.InRange subject.method)

/-- In a graph that is in range, structuring counts on known regions and fails without a fault. -/
def Graph.InRange.terms : Terms subject where
  known id := id ∈ subject.graph.order
  region r := r.Known subject.graph
  fails _ e := e.isFault = false
  known_mem hr hid := hr.blocks.subset hid
  known_follow hr h := hr.follow _ h
  known_entry := Graph.entryBlock_mem
  region_sub start stop hr hfollow := hr.sub start stop hfollow
  region_body hr hat := hr.body hg hat
  fails_subset _ h := h
  fails_method h := h
  fails_block _ hr hid hnone := by
    obtain ⟨block, hblock⟩ := hg.exists_block (hr.blocks.subset hid)
    rw [hnone] at hblock
    cases hblock
  fails_goto _ _ _ hblock := by
    have hnonempty := (hg.unmarked _ _ hblock fun mark h => by cases h).2
    exact absurd hnonempty (Nat.not_lt_zero _)
  fails_entry _ _ hmark hle := absurd (hg.entries _ _ hmark) (Nat.not_lt.2 hle)

include hg

theorem Graph.InRange.around_terms {s : Session} : hg.terms.Around s ↔ s.Known subject.graph := by
  constructor
  · intro h b hb
    exact ⟨(h b hb).1, (h b hb).2⟩
  · intro h b hb
    exact ⟨(h b hb).breakTo, (h b hb).continueTo⟩

/-- Every recognizer is safe. -/
theorem safe_of_mem_all {recognizer : Recognizer} (h : recognizer ∈ Recognizer.all) : recognizer.Safe subject := by
  intro nested hn r index s hr hs hindex
  have hfinds : hg.terms.Finds (fun _ _ _ => True) recognizer := Terms.finds_of_mem_all h
  have hnested : hg.terms.Structures (fun _ _ _ => True) nested := fun r s hr hs => hn r s hr (hg.around_terms.1 hs)
  refine (hfinds nested hnested r index s hr (hg.around_terms.2 hs) hindex).mono ?_
  intro found hfound m hm
  exact (hfound m hm).bounds

variable {recognizers : List Recognizer} (hrec : ∀ recognizer ∈ recognizers, recognizer ∈ Recognizer.all)
include hrec

/-- Structuring is safe to any depth, and so are the attempts in it. -/
theorem flattenWithin_safe (levels : Nat) : Nested.Safe subject.graph (flattenWithin subject recognizers levels) := by
  intro r s hr hs
  have hstructures : hg.terms.Structures (fun _ _ _ => True) (flattenWithin subject recognizers levels) :=
    Terms.structures_flattenWithin (fun _ _ _ _ => trivial) hrec levels
  exact hstructures r s hr (hg.around_terms.2 hs)

/-- Structuring a method is safe. -/
theorem Subject.sections_safe (events : List Event) :
    Structuring.Safe (.start events) (subject.sections recognizers) fun _ => True := by
  have hstructures : hg.terms.Structures (fun _ _ _ => True) (flatten subject recognizers) :=
    Terms.structures_flatten (fun _ _ _ _ => trivial) hrec
  have haround : hg.terms.Around (.start events) := hg.around_terms.2 (.start _ events)
  exact (Terms.orComment_structures hstructures (Region.Known.order _) haround).mono fun _ _ => trivial

end

end CodeLift
