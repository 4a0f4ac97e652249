import CodeLift.Proofs.Span
import CodeLift.Proofs.Structuring.Taken

/-!
# The parts of a construct

Every construct but a try is made of blocks of its own, none of them a marker, and of inner regions, its parts. The code that its
sections stand for is that of its own blocks and of its parts, and its handlers are those of its parts: `Taken.parts` says so once
for all constructs.
-/

namespace CodeLift

/-- A clause of a try with the code that the try protects. -/
structure Handling where
  tried : List Section
  clause : CatchSection (List Section)

namespace Section

/-- The instructions that sections stand for, in the order of the tree. -/
def covered (sections : List Section) : List Nat := (spansAll sections).flatMap Span.indices

mutual

/-- The clauses of all tries of a section; the tries inside protected code come before the try that protects it. -/
def handlers : Section → List Handling
  | .branch _ thenPart elsePart => handlersAll thenPart ++ handlersAll elsePart
  | .loop _ _ loopBody update => handlersAll loopBody ++ handlersAll update
  | .switch _ cases => handlersCases cases
  | .tryCatch tried clauses => handlersAll tried ++ clauses.map (Handling.mk tried) ++ handlersClauses clauses
  | .body _ | .breakOut _ _ | .continueNext _ _ | .comment _ _ => []

/-- The clauses of all tries of a list of sections. -/
def handlersAll : List Section → List Handling
  | [] => []
  | s :: rest => s.handlers ++ handlersAll rest

/-- The clauses of all tries in the bodies of cases. -/
def handlersCases : List (Case (List Section)) → List Handling
  | [] => []
  | ⟨_, _, caseBody⟩ :: rest => handlersAll caseBody ++ handlersCases rest

/-- The clauses of all tries in the bodies of clauses. -/
def handlersClauses : List (CatchSection (List Section)) → List Handling
  | [] => []
  | ⟨_, _, _, handlerBody⟩ :: rest => handlersAll handlerBody ++ handlersClauses rest

end

/-- The spans of two lists in a row. -/
theorem spansAll_append (xs ys : List Section) : spansAll (xs ++ ys) = spansAll xs ++ spansAll ys := by
  induction xs with
  | nil => rfl
  | cons s xs ih => rw [List.cons_append, spansAll, spansAll, ih, List.append_assoc]

/-- The code of two lists in a row. -/
theorem covered_append (xs ys : List Section) : covered (xs ++ ys) = covered xs ++ covered ys := by
  rw [covered, spansAll_append, List.flatMap_append]
  rfl

/-- The code of a section comes before that of the rest. -/
theorem covered_cons (s : Section) (rest : List Section) : covered (s :: rest) = s.spans.flatMap Span.indices ++ covered rest := by
  rw [covered, spansAll, List.flatMap_append]
  rfl

@[simp] theorem covered_nil : covered [] = [] := rfl

@[simp] theorem handlersAll_nil : handlersAll [] = [] := rfl

/-- The handlers of two lists in a row. -/
theorem handlersAll_append (xs ys : List Section) : handlersAll (xs ++ ys) = handlersAll xs ++ handlersAll ys := by
  induction xs with
  | nil => rfl
  | cons s xs ih => rw [List.cons_append, handlersAll, handlersAll, ih, List.append_assoc]

/-- The spans of cases in a row. -/
theorem spansCases_append (xs ys : List (Case (List Section))) : spansCases (xs ++ ys) = spansCases xs ++ spansCases ys := by
  induction xs with
  | nil => rfl
  | cons c xs ih => rw [List.cons_append, spansCases, spansCases, ih, List.append_assoc]

/-- The handlers of cases in a row. -/
theorem handlersCases_append (xs ys : List (Case (List Section))) :
    handlersCases (xs ++ ys) = handlersCases xs ++ handlersCases ys := by
  induction xs with
  | nil => rfl
  | cons c xs ih => rw [List.cons_append, handlersCases, handlersCases, ih, List.append_assoc]

end Section

/-! ## The code of blocks -/

/-- The instructions of blocks, in order. -/
def Graph.codeOf (g : Graph) (blocks : List BlockId) : List Nat := blocks.flatMap fun id => (g.spanOf id).indices

/-- The code of blocks in a row. -/
theorem Graph.codeOf_append (g : Graph) (xs ys : List BlockId) : g.codeOf (xs ++ ys) = g.codeOf xs ++ g.codeOf ys :=
  List.flatMap_append

/-- The code of the same blocks in another order is the same code in another order. -/
theorem Graph.codeOf_perm (g : Graph) {xs ys : List BlockId} (h : xs.Perm ys) : (g.codeOf xs).Perm (g.codeOf ys) :=
  h.flatMap_right _

/-- The code of blocks is what their spans hold. -/
theorem flatMap_indices_spanOf (g : Graph) (blocks : List BlockId) :
    (blocks.map g.spanOf).flatMap Span.indices = g.codeOf blocks :=
  List.flatMap_map _ _ _

@[simp] theorem covered_bodySections (span : Span) : Section.covered (bodySections span) = span.indices := by
  unfold bodySections
  split
  · rename_i h
    rw [Span.indices_eq_nil h]
    rfl
  · simp [Section.covered, Section.spansAll, Section.spans]

@[simp] theorem handlersAll_bodySections (span : Span) : Section.handlersAll (bodySections span) = [] := by
  unfold bodySections
  split <;> simp [Section.handlersAll, Section.handlers]

/-- A comment stands for the code of its region. -/
theorem covered_commentSection (subject : Subject) (r : Region) :
    Section.covered [commentSection subject r] = subject.graph.codeOf r.blocks := by
  have hfilter : ∀ spans : List Span, (spans.filter (!·.isEmpty)).flatMap Span.indices = spans.flatMap Span.indices := by
    intro spans
    induction spans with
    | nil => rfl
    | cons s spans ih =>
      rw [List.filter_cons]
      cases hs : s.isEmpty with
      | false => simp [ih]
      | true => simp [ih, Span.indices_eq_nil hs]
  simp only [Section.covered, commentSection, Section.spansAll, Section.spans, List.append_nil, hfilter]
  exact flatMap_indices_spanOf _ _

/-! ## The blocks of conditions -/

namespace Guard

/-- The spans of conditions in a row. -/
theorem spansAll_append (xs ys : List Guard) : spansAll (xs ++ ys) = spansAll xs ++ spansAll ys := by
  induction xs with
  | nil => rfl
  | cons s xs ih => rw [List.cons_append, spansAll, spansAll, ih, List.append_assoc]

@[simp] theorem spans_negated (guard : Guard) : guard.negated.spans = guard.spans := by
  cases guard <;> simp [negated, spans]

/-- A single condition needs no connective, which changes no spans. -/
theorem spans_combine {connective : List Guard → Guard} (h : ∀ parts, (connective parts).spans = spansAll parts)
    (parts : List Guard) : (combine connective parts).spans = spansAll parts := by
  unfold combine
  split
  · simp [spansAll]
  · exact h _

end Guard

namespace Region

variable {g : Graph} {r : Region}

/-- Conditions made of jumps have the spans of their blocks. -/
theorem spansAll_jumpGuards (negate : Bool) (start count : Nat) (f : Option BlockId) :
    Guard.spansAll (r.jumpGuards g negate start count) = (r.sub start (start + count) f).blocks.map g.spanOf := by
  have hmap : ∀ ids : List BlockId, Guard.spansAll (ids.map (g.jumpGuard negate)) = ids.map g.spanOf := by
    intro ids
    induction ids with
    | nil => rfl
    | cons id ids ih => simp [Guard.spansAll, ih, Graph.jumpGuard, Guard.spans]
  rw [jumpGuards, hmap, sub, show start + count - start = count by omega]

/-- Every block of a run of conditional blocks ends with a conditional jump. -/
theorem BranchesTo.block_of_mem {start count : Nat} {target : BlockId} (h : r.BranchesTo g start count target)
    (f : Option BlockId) {id : BlockId} (hid : id ∈ (r.sub start (start + count) f).blocks) :
    ∃ test next, g.block? id = some ⟨g.spanOf id, .branch test target next⟩ := by
  obtain ⟨i, hi⟩ := List.mem_iff_getElem?.1 hid
  have hlt := lt_length_of_getElem? hi
  rw [length_sub h.1] at hlt
  rw [getElem?_sub hlt] at hi
  obtain ⟨id', hid', hbranch⟩ := h.2 i (by omega)
  rw [hi] at hid'
  cases hid'
  obtain ⟨span, test, next, hblock⟩ := Graph.branchTarget?_eq_some hbranch
  exact ⟨test, next, by rw [Graph.spanOf, hblock]; rfl⟩

/-- No block of a run of conditional blocks is a marker. -/
theorem BranchesTo.unmarked {start count : Nat} {target : BlockId} (h : r.BranchesTo g start count target) (f : Option BlockId)
    {id : BlockId} (hid : id ∈ (r.sub start (start + count) f).blocks) : g.marker? id = none := by
  obtain ⟨test, next, hblock⟩ := h.block_of_mem f hid
  rw [Graph.marker?, hblock]

/-- A condition in front of code is made of the blocks from its first to its last, none of them a marker. -/
theorem guardChain?_blocks {start : Nat} {chain : Chain} (h : r.guardChain? g start = some chain) (f : Option BlockId) :
    chain.guard.spans = (r.sub start (chain.last + 1) f).blocks.map g.spanOf ∧
      ∀ id ∈ (r.sub start (chain.last + 1) f).blocks, g.marker? id = none := by
  obtain ⟨count, target, hpos, hrun, rfl | ⟨skip, hskip, _, rfl⟩⟩ := guardChain?_cases h
  · dsimp only
    rw [show start + count - 1 + 1 = start + count by omega, Guard.spans_combine (fun _ => by simp [Guard.spans])]
    exact ⟨spansAll_jumpGuards _ _ _ f, fun id hid => hrun.unmarked f hid⟩
  · dsimp only
    rw [← sub_append_sub f f f (Nat.le_add_right start count) (Nat.le_add_right _ 1)]
    refine ⟨?_, fun id hid => ?_⟩
    · simp only [Guard.spans, Guard.spansAll_append, spansAll_jumpGuards _ _ _ f, List.map_append]
    · rcases List.mem_append.1 hid with hid | hid
      · exact hrun.unmarked f hid
      · exact hskip.unmarked f hid

/-- A condition at the bottom of a loop is made of the blocks from its first to its last, none of them a marker. -/
theorem loopGuard?_blocks {start last : Nat} {bodyEntry : BlockId} {guard : Guard} (hle : start ≤ last)
    (h : r.loopGuard? g start last bodyEntry = some guard) (f : Option BlockId) :
    guard.spans = (r.sub start (last + 1) f).blocks.map g.spanOf ∧
      ∀ id ∈ (r.sub start (last + 1) f).blocks, g.marker? id = none := by
  obtain ⟨hrun, rfl⟩ | ⟨exit, hrun, hlast, _, rfl⟩ := loopGuard?_cases hle h
  · rw [Guard.spans_combine (fun _ => by simp [Guard.spans]), spansAll_jumpGuards _ _ _ f]
    rw [show start + (last + 1 - start) = last + 1 by omega]
    refine ⟨rfl, fun id hid => hrun.unmarked f ?_⟩
    rw [show start + (last + 1 - start) = last + 1 by omega]
    exact hid
  · have hmid : start + (last - start) = last := by omega
    rw [← sub_append_sub f f f hle (Nat.le_add_right last 1)]
    refine ⟨?_, fun id hid => ?_⟩
    · simp only [Guard.spans, Guard.spansAll_append, spansAll_jumpGuards _ _ _ f, List.map_append, hmid]
    · rcases List.mem_append.1 hid with hid | hid
      · exact hrun.unmarked f (hmid.symm ▸ hid)
      · exact hlast.unmarked f hid

end Region

/-- A jump that leaves or continues a construct stands for the goto it is made from. -/
theorem resolveFrom_cases {g : Graph} {target : BlockId} {jump : Option Nat} {depth loops : Nat} {around : List Breakable}
    {s : Section} (h : resolveFrom g target jump depth loops around = some s) :
    s.spans = (jump.map Span.single).toList ∧ s.handlers = [] := by
  rcases resolveFrom_isJump h with ⟨_, rfl⟩ | ⟨_, rfl⟩
  · exact ⟨rfl, rfl⟩
  · exact ⟨rfl, rfl⟩

/-! ## Parts -/

/-- An inner region and the sections it has become. -/
structure Part where
  region : Region
  sections : List Section

/-- Sections made of own blocks and of parts, which together are the blocks between two places of a region. -/
structure MadeOf (subject : Subject) (P : RegionProperty) (r : Region) (start stop : Nat) (sections : List Section)
    (own : List BlockId) (parts : List Part) : Prop where
  blocks : (r.sub start stop none).blocks.Perm (own ++ parts.flatMap (·.region.blocks))
  unmarked : ∀ id ∈ own, subject.graph.marker? id = none
  inner : ∀ p ∈ parts, ∃ around, Inner subject P around p.region p.sections
  within : ∀ p ∈ parts, ∃ a b, a ≤ b ∧ b ≤ r.length ∧ p.region.blocks = (r.sub a b none).blocks
  covered : (Section.covered sections).Perm (subject.graph.codeOf own ++ parts.flatMap (Section.covered ·.sections))
  handlers : Section.handlersAll sections = parts.flatMap (Section.handlersAll ·.sections)

/-- The parts that lie one after the other between two places, with the code and the handlers of their sections. -/
structure Pieces (subject : Subject) (P : RegionProperty) (r : Region) (start stop : Nat) (code : List Nat)
    (handlers : List Handling) (parts : List Part) : Prop where
  le : start ≤ stop
  blocks : parts.flatMap (·.region.blocks) = (r.sub start stop none).blocks
  inner : ∀ p ∈ parts, ∃ around, Inner subject P around p.region p.sections
  within : ∀ p ∈ parts, ∃ a b, a ≤ b ∧ b ≤ r.length ∧ p.region.blocks = (r.sub a b none).blocks
  covered : code = parts.flatMap (Section.covered ·.sections)
  handled : handlers = parts.flatMap (Section.handlersAll ·.sections)

section

variable {subject : Subject} {P : RegionProperty} {around : List Breakable} {r : Region} {index : Nat}

/-- Nothing is taken from an empty part of a region. -/
theorem Pieces.nil (place : Nat) : Pieces subject P r place place [] [] [] :=
  ⟨Nat.le_refl _, by simp [Region.sub_self], by simp, by simp, rfl, rfl⟩

/-- A part of a region becomes a list of sections. -/
theorem Pieces.single {start stop : Nat} {f : Option BlockId} {sections : List Section} (hle : start ≤ stop)
    (hlen : stop ≤ r.length) (h : Inner subject P around (r.sub start stop f) sections) :
    Pieces subject P r start stop (Section.covered sections) (Section.handlersAll sections) [⟨r.sub start stop f, sections⟩] := by
  refine ⟨hle, by simp [Region.sub], ?_, ?_, by simp, by simp⟩
  · simpa using ⟨around, h⟩
  · simpa using ⟨start, stop, hle, hlen, rfl⟩

/-- Two parts that meet can be taken as one. -/
theorem Pieces.append {a b c : Nat} {code code' : List Nat} {handlers handlers' : List Handling} {parts parts' : List Part}
    (h : Pieces subject P r a b code handlers parts) (h' : Pieces subject P r b c code' handlers' parts') :
    Pieces subject P r a c (code ++ code') (handlers ++ handlers') (parts ++ parts') := by
  refine ⟨h.le.trans h'.le, ?_, ?_, ?_, ?_, ?_⟩
  · rw [List.flatMap_append, h.blocks, h'.blocks]
    exact Region.sub_append_sub none none none h.le h'.le
  · exact fun p hp => (List.mem_append.1 hp).elim (h.inner p) (h'.inner p)
  · exact fun p hp => (List.mem_append.1 hp).elim (h.within p) (h'.within p)
  · rw [h.covered, h'.covered, List.flatMap_append]
  · rw [h.handled, h'.handled, List.flatMap_append]

/-- Parts one after the other, and own blocks around them. -/
theorem Pieces.madeOf {start stop a b : Nat} {code : List Nat} {handlers : List Handling} {parts : List Part}
    {own : List BlockId} {sections : List Section} (h : Pieces subject P r a b code handlers parts)
    (hblocks : (r.sub start stop none).blocks.Perm (own ++ (r.sub a b none).blocks))
    (hunmarked : ∀ id ∈ own, subject.graph.marker? id = none)
    (hcovered : (Section.covered sections).Perm (subject.graph.codeOf own ++ code))
    (hhandlers : Section.handlersAll sections = handlers) : MadeOf subject P r start stop sections own parts :=
  ⟨h.blocks ▸ hblocks, hunmarked, h.inner, h.within, h.covered ▸ hcovered, hhandlers.trans h.handled⟩

/-- The cases of a switch are its parts. -/
theorem CasesTaken.pieces {s : Recognizer.SwitchLayout} {stop : Nat} {places : List Nat} {cases : List (Case (List Section))}
    (h : CasesTaken subject P around r s stop places cases) :
    ∃ parts, Pieces subject P r (places.head?.getD stop) stop ((Section.spansCases cases).flatMap Span.indices)
      (Section.handlersCases cases) parts := by
  induction h with
  | nil => exact ⟨[], .nil stop⟩
  | cons hstart hstop hbody _ ih =>
    obtain ⟨parts, hparts⟩ := ih
    rw [Section.spansCases, List.flatMap_append, Section.handlersCases]
    exact ⟨_, (Pieces.single hstart hstop hbody).append hparts⟩

end

/-- The first place of a switch is where the default or an arm leads. -/
theorem firstCase_mem (s : Recognizer.SwitchLayout) : s.defaultAt = s.firstCase ∨ ∃ arm ∈ s.arms, arm.2 = s.firstCase := by
  have hfold : ∀ (l : List Nat) (a : Nat), a = l.foldl min a ∨ l.foldl min a ∈ l := by
    intro l
    induction l with
    | nil => exact fun _ => .inl rfl
    | cons b l ih =>
      intro a
      rw [List.foldl_cons]
      rcases ih (min a b) with h | h
      · rw [← h]
        rcases Nat.le_total a b with hab | hab
        · exact .inl (Nat.min_eq_left hab).symm
        · exact .inr (by rw [Nat.min_eq_right hab]; exact List.mem_cons_self)
      · exact .inr (List.mem_cons_of_mem _ h)
  exact (hfold _ _).imp_right fun h => by
    obtain ⟨arm, harm, heq⟩ := List.mem_map.1 h
    exact ⟨arm, harm, heq⟩

/-- The first case of a switch starts where the first of its places is. -/
theorem head?_starts {s : Recognizer.SwitchLayout} {stop : Nat} (hle : s.firstCase ≤ stop) :
    (s.starts stop).head?.getD stop = s.firstCase := by
  have hbelow : ∀ place, place < s.firstCase → (s.defaultAt == place || s.arms.any (·.2 == place)) = false := by
    intro place hplace
    simp only [Bool.or_eq_false_iff, beq_eq_false_iff_ne, List.any_eq_false, beq_iff_eq]
    constructor
    · have := Recognizer.SwitchLayout.firstCase_le_defaultAt (s := s)
      omega
    · intro arm harm
      have := Recognizer.SwitchLayout.firstCase_le harm
      omega
  rw [Recognizer.SwitchLayout.starts, List.head?_filter]
  rcases Nat.lt_or_eq_of_le hle with hlt | heq
  · have hfirst : (s.defaultAt == s.firstCase || s.arms.any (·.2 == s.firstCase)) = true := by
      simpa using firstCase_mem s
    rw [List.find?_range_eq_some.2 ⟨hfirst, List.mem_range.2 hlt, fun place hplace => by rw [hbelow place hplace]; rfl⟩]
    rfl
  · rw [List.find?_range_eq_none.2 fun place hplace => by rw [hbelow place (by omega)]; rfl, heq]
    rfl

section

variable {subject : Subject} {P : RegionProperty} {around : List Breakable} {r : Region} {index : Nat}

/-- A block that stands for itself has no parts. -/
theorem madeOf_block {id : BlockId} {block : Block} {sections : List Section} (hid : r.blocks[index]? = some id)
    (hblock : subject.graph.block? id = some block) (hkind : ∀ mark, block.kind ≠ .marker mark)
    (hcovered : Section.covered sections = block.span.indices) (hhandlers : Section.handlersAll sections = []) :
    MadeOf subject P r index (index + 1) sections [id] [] := by
  refine ⟨?_, ?_, by simp, by simp, ?_, by simpa using hhandlers⟩
  · rw [Region.sub_single none hid]
    exact .refl _
  · rintro id' hid'
    rw [List.mem_singleton.1 hid', Graph.marker?, hblock]
    split
    · rename_i mark heq
      cases heq
      exact absurd rfl (hkind mark)
    · rfl
  · have hspan : subject.graph.spanOf id = block.span := by rw [Graph.spanOf, hblock]; rfl
    simp [hcovered, Graph.codeOf, hspan]

/-- A goto that leaves or continues a construct: the code before it, and the jump. -/
theorem covered_jumping {span : Span} {g : Graph} {target : BlockId} {jump : Section} (hspan : span.start < span.stop)
    (hjump : resolveFrom g target (some (span.stop - 1)) 0 0 around = some jump) :
    Section.covered (bodySections ⟨span.start, span.stop - 1⟩ ++ [jump]) = span.indices := by
  rw [Section.covered_append, covered_bodySections, Section.covered_cons, (resolveFrom_cases hjump).1]
  have hsplit := Span.indices_split (show span.start ≤ span.stop - 1 by omega) (Nat.sub_le span.stop 1)
  rw [show span = ⟨span.start, span.stop⟩ from rfl, ← hsplit]
  have hlast : (⟨span.stop - 1, span.stop⟩ : Span) = .single (span.stop - 1) := by
    rw [Span.single, show span.stop - 1 + 1 = span.stop by omega]
  simp [hlast]

/-- A condition with the code it guards. -/
theorem madeOf_branch {chain : Chain} {stop : Nat} {thenPart elsePart : List Section} {parts : List Part}
    (hchain : r.guardChain? subject.graph index = some chain)
    (h : Pieces subject P r (chain.last + 1) stop (Section.covered thenPart ++ Section.covered elsePart)
      (Section.handlersAll thenPart ++ Section.handlersAll elsePart) parts) :
    MadeOf subject P r index stop [.branch chain.guard thenPart elsePart] (r.sub index (chain.last + 1) none).blocks parts := by
  obtain ⟨hspans, hunmarked⟩ := Region.guardChain?_blocks hchain none
  have hlast := Region.guardChain?_last hchain
  refine h.madeOf ?_ hunmarked ?_ ?_
  · rw [Region.sub_append_sub none none none (by omega) h.le]
  · simp only [Section.covered, Section.spansAll, Section.spans, hspans, List.flatMap_append, flatMap_indices_spanOf]
    simp
  · simp [Section.handlersAll, Section.handlers]

/-- A loop with a condition of its own blocks, at the top, at the bottom or nowhere. -/
theorem madeOf_loop {stop a b : Nat} {kind : LoopKind} {guard : Option Guard} {body update : List Section} {parts : List Part}
    {own : List BlockId} (hspans : (guard.map Guard.spans).getD [] = own.map subject.graph.spanOf)
    (hunmarked : ∀ id ∈ own, subject.graph.marker? id = none)
    (hblocks : (r.sub index stop none).blocks.Perm (own ++ (r.sub a b none).blocks))
    (h : Pieces subject P r a b (Section.covered body ++ Section.covered update)
      (Section.handlersAll body ++ Section.handlersAll update) parts) :
    MadeOf subject P r index stop [.loop kind guard body update] own parts := by
  refine h.madeOf hblocks hunmarked ?_ ?_
  · simp only [Section.covered, Section.spansAll, Section.spans, hspans, List.flatMap_append, flatMap_indices_spanOf]
    simp
  · simp [Section.handlersAll, Section.handlers]

/-- A loop is made of its body and the blocks of its test. -/
theorem madeOf_loopShape {first : BlockId} {shape : Recognizer.LoopShape} {body : List Section}
    (hshape : Recognizer.loopShape subject.graph r index first = .ok (some shape))
    (hbody : Inner subject P around (r.sub shape.bodyStart shape.bodyStop (some shape.follow)) body) :
    ∃ own parts, MadeOf subject P r index (shape.tail + 1) [.loop shape.kind shape.guard body []] own parts := by
  obtain ⟨_, hle, hstop, hlt⟩ := Recognizer.loopShape_bounds hshape
  have hpiece := Pieces.single hle (hstop.trans hlt) hbody
  rw [← List.append_nil (Section.covered body), ← List.append_nil (Section.handlersAll body)] at hpiece
  obtain ⟨hindex, _, ⟨testAt, test, guard, hle', htail, _, hguard, heq⟩ | ⟨last, _, _, ⟨chain, hchain, htail, _, heq⟩ | heq⟩⟩ :=
    Recognizer.loopShape_cases hshape
  · obtain ⟨hspans, hunmarked⟩ := Region.loopGuard?_blocks htail hguard none
    rw [heq] at hpiece ⊢
    refine ⟨_, _, madeOf_loop hspans hunmarked ?_ hpiece⟩
    rw [← Region.sub_append_sub none none none hle' (by omega : testAt ≤ shape.tail + 1)]
    exact List.perm_append_comm
  · obtain ⟨hspans, hunmarked⟩ := Region.guardChain?_blocks hchain none
    have hlast := Region.guardChain?_last hchain
    rw [heq] at hpiece ⊢
    refine ⟨_, _, madeOf_loop hspans hunmarked ?_ hpiece⟩
    dsimp only
    rw [Region.sub_append_sub none none none (by omega) (by omega)]
  · rw [heq] at hpiece ⊢
    exact ⟨[], _, madeOf_loop rfl (by simp) (.refl _) hpiece⟩

/-- A loop that is entered by a goto is made of the goto, its body, maybe an update, and its test. -/
theorem madeOf_entryLoop {shape : Recognizer.EntryLoopShape} {kind : LoopKind} {body update : List Section} {parts : List Part}
    (hshape : Recognizer.entryLoopShape subject.graph r index = .ok (some shape))
    (h : Pieces subject P r (index + 1) shape.testAt (Section.covered body ++ Section.covered update)
      (Section.handlersAll body ++ Section.handlersAll update) parts) :
    MadeOf subject P r index (shape.last + 1)
      [.body (subject.graph.spanOf shape.entry), .loop kind (some shape.guard) body update]
      (shape.entry :: (r.sub shape.testAt (shape.last + 1) none).blocks) parts := by
  obtain ⟨hentry, _, hlt, hle, hlen, ⟨target, htarget, _⟩, bodyEntry, _, hguard⟩ := Recognizer.entryLoopShape_cases hshape
  obtain ⟨hspans, hunmarked⟩ := Region.loopGuard?_blocks hle hguard none
  refine h.madeOf ?_ ?_ ?_ ?_
  · rw [← Region.sub_append_sub none none none (by omega : index ≤ index + 1) (by omega), Region.sub_single none hentry,
      ← Region.sub_append_sub none none none (by omega : index + 1 ≤ shape.testAt) (by omega), List.singleton_append,
      List.cons_append]
    exact List.perm_append_comm.cons _
  · refine List.forall_mem_cons.2 ⟨?_, hunmarked⟩
    obtain ⟨span, hblock⟩ := Graph.gotoTarget?_eq_some htarget
    rw [Graph.marker?, hblock]
  · simp only [Section.covered, Section.spansAll, Section.spans, Option.map_some, Option.getD_some, hspans, List.flatMap_append,
      flatMap_indices_spanOf]
    simp [Graph.codeOf]
  · simp [Section.handlersAll, Section.handlers]

/-- A switch is made of its key and the parts of its cases. -/
theorem madeOf_switch {key : Span} {s : Recognizer.SwitchLayout} {stop : Nat} {cases : List (Case (List Section))}
    (hlayout : Recognizer.switchLayout subject.graph r index = .ok (some (key, s, stop)))
    (hcases : CasesTaken subject P around r s stop (s.starts stop) cases) :
    ∃ own parts, MadeOf subject P r index stop [.switch key (cases ++ s.skippedCases stop)] own parts := by
  obtain ⟨id, arms, otherwise, hid, hblock, _, hfirst, hlast, hstop⟩ := Recognizer.switchLayout_cases hlayout
  obtain ⟨parts, hparts⟩ := hcases.pieces
  rw [head?_starts (Recognizer.SwitchLayout.firstCase_le_lastCase.trans hlast), hfirst] at hparts
  have hskipped : Section.spansCases (s.skippedCases stop) = [] ∧ Section.handlersCases (s.skippedCases stop) = [] := by
    unfold Recognizer.SwitchLayout.skippedCases
    split <;>
      simp [Section.spansCases, Section.handlersCases, Section.spansAll, Section.spans, Section.handlersAll, Section.handlers]
  have hspan : subject.graph.spanOf id = key := by rw [Graph.spanOf, hblock]; rfl
  refine ⟨[id], parts, hparts.madeOf ?_ ?_ ?_ ?_⟩
  · rw [← Region.sub_append_sub none none none (by omega : index ≤ index + 1) hparts.le, Region.sub_single none hid]
  · rintro id' hid'
    rw [List.mem_singleton.1 hid', Graph.marker?, hblock]
  · simp only [Section.covered, Section.spansAll, Section.spans, Section.spansCases_append, hskipped.1, List.append_nil,
      List.flatMap_cons, Graph.codeOf, List.flatMap_nil, hspan]
    exact .refl _
  · simp [Section.handlersAll, Section.handlers, Section.handlersCases_append, hskipped.2]

/-- Protected code with its handlers, between two places of a region. -/
def TryTaken (subject : Subject) (P : RegionProperty) (around : List Breakable) (r : Region) (index : Nat) (found : Match) : Prop :=
  ∃ shape last stop tail body clauses, Recognizer.ProtectedAt subject.graph r index shape last stop tail ∧
    Inner subject P around shape.body body ∧
    ClausesTaken subject P around r shape.body.follow shape.pending shape.cursor clauses found.resume ∧
    found.sections = [.tryCatch body clauses]

/-- What a step takes is made of own blocks and parts, unless it is protected code with its handlers. -/
theorem Taken.parts {found : Match}
    (hgoto : ∀ id span target, subject.graph.block? id = some ⟨span, .goto target⟩ → span.start < span.stop)
    (ht : Taken subject P around r index found) :
    (∃ own parts, MadeOf subject P r index found.resume found.sections own parts) ∨ TryTaken subject P around r index found := by
  cases ht with
  | @straight id span kind hid hblock hkind =>
    refine .inl ⟨[id], [], madeOf_block hid hblock (fun mark h => ?_) (covered_bodySections span) (handlersAll_bodySections span)⟩
    obtain h' | ⟨next, h'⟩ := hkind
    · cases h'.symm.trans h
    · cases h'.symm.trans h
  | @falling id target span hid hblock _ =>
    exact .inl ⟨[id], [], madeOf_block hid hblock (by simp) (covered_bodySections span) (handlersAll_bodySections span)⟩
  | @jumping id target span jump hid hblock _ hjump =>
    refine .inl ⟨[id], [], madeOf_block hid hblock (by simp) (covered_jumping (hgoto _ _ _ hblock) hjump) ?_⟩
    rw [Section.handlersAll_append, handlersAll_bodySections, Section.handlersAll, (resolveFrom_cases hjump).2]
    rfl
  | @leaving chain jump hchain _ hjump =>
    obtain ⟨hspans, hunmarked⟩ := Region.guardChain?_blocks hchain none
    refine .inl ⟨_, [], (Pieces.nil (chain.last + 1)).madeOf ?_ hunmarked ?_ ?_⟩
    · rw [Region.sub_self, List.append_nil]
    · simp only [Section.covered, Section.spansAll, Section.spans, Guard.spans_negated, hspans, (resolveFrom_cases hjump).1,
        List.flatMap_append, flatMap_indices_spanOf]
      simp
    · simp [Section.handlersAll, Section.handlers, (resolveFrom_cases hjump).2]
  | branch hchain hskip _ hthen =>
    obtain ⟨_, hle, hlen⟩ := Recognizer.skipPlace_bounds hskip
    exact .inl ⟨_, _, madeOf_branch hchain ((Pieces.single hle hlen hthen).append (.nil _))⟩
  | branchElse hchain hskip helse hthen helsePart =>
    obtain ⟨_, hle, hlen⟩ := Recognizer.skipPlace_bounds hskip
    obtain ⟨_, _, hlt, hexit, _⟩ := Recognizer.elseEnd_cases helse
    exact .inl ⟨_, _, madeOf_branch hchain
      ((Pieces.single hle hlen hthen).append (.single (Nat.le_of_lt hlt) hexit helsePart))⟩
  | loop _ hshape hbody => exact .inl (madeOf_loopShape hshape hbody)
  | entryLoop hshape hbody =>
    obtain ⟨_, _, hlt, hle, hlen, _⟩ := Recognizer.entryLoopShape_cases hshape
    exact .inl ⟨_, _, madeOf_entryLoop hshape ((Pieces.single hlt (by omega) hbody).append (.nil _))⟩
  | entryLoopUpdate hshape hupdateAt hplace hlt' _ hbody hupdate =>
    obtain ⟨_, _, hlt, hle, hlen, _⟩ := Recognizer.entryLoopShape_cases hshape
    obtain ⟨hbefore, _⟩ := Recognizer.updateRun_spec hupdateAt hplace hlt'
    exact .inl ⟨_, _, madeOf_entryLoop hshape ((Pieces.single (Nat.le_of_lt hbefore) (by omega) hbody).append
      (.single (Nat.le_of_lt hlt') (by omega) (.inl hupdate)))⟩
  | switch hlayout hcases => exact .inl (madeOf_switch hlayout hcases)
  | @tryCatch first start inLoop shape body clauses stop _ _ hshape hbody hclauses =>
    obtain ⟨last, end', tail, hat⟩ := Recognizer.protectedShape_cases hshape
    exact .inr ⟨shape, last, end', tail, body, clauses, hat, hbody, hclauses, rfl⟩

end

end CodeLift
