import CodeLift.Proofs.Handlers
import Mathlib.Order.Bounds.Basic

/-!
# Which handler an exception reaches

An exception is offered to the clauses of the tries around it, from the innermost try outwards. The clauses of a try stand in the
order in which their handlers are laid out, and the handlers of inner tries are laid out before those of the tries around them. So
of all entries that protect an instruction and accept its exception, the one whose handler comes first in the code is reached:
`dispatch_reaches_first_handler`. The order of the table has no say in this: `dispatch_ignores_table_order`.
-/

namespace CodeLift

/-! ## The clauses around an instruction -/

namespace Section

mutual

/-- The clauses that an exception at an instruction is offered to, in this order: those of the try whose code is around it most
closely, then those of the next one outwards. -/
def dispatch (i : Nat) : Section → List Handling
  | .branch _ thenPart elsePart => dispatchAll i thenPart ++ dispatchAll i elsePart
  | .loop _ _ loopBody update => dispatchAll i loopBody ++ dispatchAll i update
  | .switch _ cases => dispatchCases i cases
  | .tryCatch tried clauses =>
    if i ∈ covered tried then dispatchAll i tried ++ clauses.map (Handling.mk tried) else dispatchClauses i clauses
  | .body _ | .breakOut _ _ | .continueNext _ _ | .comment _ _ => []

/-- The clauses of a list of sections that an exception at an instruction is offered to. -/
def dispatchAll (i : Nat) : List Section → List Handling
  | [] => []
  | s :: rest => s.dispatch i ++ dispatchAll i rest

/-- The clauses in the bodies of cases that an exception at an instruction is offered to. -/
def dispatchCases (i : Nat) : List (Case (List Section)) → List Handling
  | [] => []
  | ⟨_, _, caseBody⟩ :: rest => dispatchAll i caseBody ++ dispatchCases i rest

/-- The clauses in the bodies of clauses that an exception at an instruction is offered to. -/
def dispatchClauses (i : Nat) : List (CatchSection (List Section)) → List Handling
  | [] => []
  | ⟨_, _, _, handlerBody⟩ :: rest => dispatchAll i handlerBody ++ dispatchClauses i rest

end

mutual

/-- The code that a try inside a section protects is code of the section. -/
theorem mem_spans_of_handlers : ∀ (s : Section) {h : Handling} {i : Nat}, h ∈ s.handlers → i ∈ covered h.tried →
    i ∈ s.spans.flatMap Span.indices
  | .branch guard thenPart elsePart, h, i, hh, hi => by
    rw [spans, List.flatMap_append, List.flatMap_append]
    rcases List.mem_append.1 hh with hh | hh
    · exact List.mem_append_left _ (List.mem_append_right _ (mem_covered_of_handlersAll thenPart hh hi))
    · exact List.mem_append_right _ (mem_covered_of_handlersAll elsePart hh hi)
  | .loop kind guard loopBody update, h, i, hh, hi => by
    rw [spans, List.flatMap_append, List.flatMap_append]
    rcases List.mem_append.1 hh with hh | hh
    · exact List.mem_append_left _ (List.mem_append_right _ (mem_covered_of_handlersAll loopBody hh hi))
    · exact List.mem_append_right _ (mem_covered_of_handlersAll update hh hi)
  | .switch key cases, h, i, hh, hi => by
    rw [spans, List.flatMap_cons]
    exact List.mem_append_right _ (mem_spansCases_of_handlersCases cases hh hi)
  | .tryCatch tried clauses, h, i, hh, hi => by
    rw [spans, List.flatMap_append]
    rcases List.mem_append.1 hh with hh | hh
    · rcases List.mem_append.1 hh with hh | hh
      · exact List.mem_append_left _ (mem_covered_of_handlersAll tried hh hi)
      · obtain ⟨clause, _, rfl⟩ := List.mem_map.1 hh
        exact List.mem_append_left _ hi
    · exact List.mem_append_right _ (mem_spansClauses_of_handlersClauses clauses hh hi)
  | .body _, _, _, hh, _ => nomatch hh
  | .breakOut _ _, _, _, hh, _ => nomatch hh
  | .continueNext _ _, _, _, hh, _ => nomatch hh
  | .comment _ _, _, _, hh, _ => nomatch hh

/-- What a try inside a list covers, the list covers. -/
theorem mem_covered_of_handlersAll : ∀ (sections : List Section) {h : Handling} {i : Nat}, h ∈ handlersAll sections →
    i ∈ covered h.tried → i ∈ covered sections
  | [], _, _, hh, _ => nomatch hh
  | s :: rest, h, i, hh, hi => by
    rw [covered_cons]
    rcases List.mem_append.1 hh with hh | hh
    · exact List.mem_append_left _ (mem_spans_of_handlers s hh hi)
    · exact List.mem_append_right _ (mem_covered_of_handlersAll rest hh hi)

/-- What a try inside cases covers, the cases cover. -/
theorem mem_spansCases_of_handlersCases : ∀ (cases : List (Case (List Section))) {h : Handling} {i : Nat},
    h ∈ handlersCases cases → i ∈ covered h.tried → i ∈ (spansCases cases).flatMap Span.indices
  | [], _, _, hh, _ => nomatch hh
  | ⟨_, _, caseBody⟩ :: rest, h, i, hh, hi => by
    rw [spansCases, List.flatMap_append]
    rcases List.mem_append.1 hh with hh | hh
    · exact List.mem_append_left _ (mem_covered_of_handlersAll caseBody hh hi)
    · exact List.mem_append_right _ (mem_spansCases_of_handlersCases rest hh hi)

/-- What a try inside clauses covers, the clauses cover. -/
theorem mem_spansClauses_of_handlersClauses : ∀ (clauses : List (CatchSection (List Section))) {h : Handling} {i : Nat},
    h ∈ handlersClauses clauses → i ∈ covered h.tried → i ∈ (spansClauses clauses).flatMap Span.indices
  | [], _, _, hh, _ => nomatch hh
  | ⟨_, _, header, handlerBody⟩ :: rest, h, i, hh, hi => by
    rw [spansClauses, List.flatMap_append, List.flatMap_cons]
    rcases List.mem_append.1 hh with hh | hh
    · exact List.mem_append_left _ (List.mem_append_right _ (mem_covered_of_handlersAll handlerBody hh hi))
    · exact List.mem_append_right _ (mem_spansClauses_of_handlersClauses rest hh hi)

end

/-- Whether a try is around an instruction. -/
def isAround (i : Nat) (h : Handling) : Bool := decide (i ∈ covered h.tried)

/-- No handlers are around code that none of their tries covers. -/
theorem filter_isAround_eq_nil {handlers : List Handling} {i : Nat} (h : ∀ handling ∈ handlers, i ∉ covered handling.tried) :
    handlers.filter (isAround i) = [] := by
  refine List.filter_eq_nil_iff.2 fun handling hmem => ?_
  simpa [isAround] using h handling hmem

/-- The clauses of a try are around what it covers, all of them or none. -/
theorem filter_isAround_clauses (tried : List Section) (clauses : List (CatchSection (List Section))) (i : Nat) :
    (clauses.map (Handling.mk tried)).filter (isAround i) = if i ∈ covered tried then clauses.map (Handling.mk tried) else [] := by
  split
  · rename_i hi
    refine List.filter_eq_self.2 fun handling hmem => ?_
    obtain ⟨clause, _, rfl⟩ := List.mem_map.1 hmem
    simpa [isAround] using hi
  · rename_i hi
    refine filter_isAround_eq_nil fun handling hmem => ?_
    obtain ⟨clause, _, rfl⟩ := List.mem_map.1 hmem
    exact hi

mutual

/-- In a tree that stands for each instruction at most once, the clauses that an exception is offered to are those of all tries
around it, in the order of the tree. -/
theorem dispatch_eq_filter (i : Nat) : ∀ s : Section, (s.spans.flatMap Span.indices).Nodup →
    s.dispatch i = s.handlers.filter (isAround i)
  | .branch guard thenPart elsePart, h => by
    rw [spans, List.flatMap_append, List.flatMap_append] at h
    rw [dispatch, handlers, List.filter_append, dispatchAll_eq_filter i thenPart h.of_append_left.of_append_right,
      dispatchAll_eq_filter i elsePart h.of_append_right]
  | .loop kind guard loopBody update, h => by
    rw [spans, List.flatMap_append, List.flatMap_append] at h
    rw [dispatch, handlers, List.filter_append, dispatchAll_eq_filter i loopBody h.of_append_left.of_append_right,
      dispatchAll_eq_filter i update h.of_append_right]
  | .switch key cases, h => by
    rw [spans, List.flatMap_cons] at h
    rw [dispatch, handlers, dispatchCases_eq_filter i cases h.of_append_right]
  | .tryCatch tried clauses, h => by
    rw [spans, List.flatMap_append] at h
    rw [dispatch, handlers, List.filter_append, List.filter_append, filter_isAround_clauses]
    split
    · rename_i hi
      -- The instruction is not in a handler as well.
      have hnone : (handlersClauses clauses).filter (isAround i) = [] := filter_isAround_eq_nil fun handling hmem hi' =>
        List.disjoint_of_nodup_append h hi (mem_spansClauses_of_handlersClauses clauses hmem hi')
      rw [hnone, List.append_nil, dispatchAll_eq_filter i tried h.of_append_left]
    · rename_i hi
      have hnone : (handlersAll tried).filter (isAround i) = [] := filter_isAround_eq_nil fun handling hmem hi' =>
        hi (mem_covered_of_handlersAll tried hmem hi')
      rw [hnone, List.nil_append, List.nil_append, dispatchClauses_eq_filter i clauses h.of_append_right]
  | .body _, _ => rfl
  | .breakOut _ _, _ => rfl
  | .continueNext _ _, _ => rfl
  | .comment _ _, _ => rfl

/-- Descending a list finds the handlers around an instruction. -/
theorem dispatchAll_eq_filter (i : Nat) : ∀ sections : List Section, (covered sections).Nodup →
    dispatchAll i sections = (handlersAll sections).filter (isAround i)
  | [], _ => rfl
  | s :: rest, h => by
    rw [covered_cons] at h
    rw [dispatchAll, handlersAll, List.filter_append, dispatch_eq_filter i s h.of_append_left,
      dispatchAll_eq_filter i rest h.of_append_right]

/-- Descending cases finds the handlers around an instruction. -/
theorem dispatchCases_eq_filter (i : Nat) : ∀ cases : List (Case (List Section)), ((spansCases cases).flatMap Span.indices).Nodup →
    dispatchCases i cases = (handlersCases cases).filter (isAround i)
  | [], _ => rfl
  | ⟨_, _, caseBody⟩ :: rest, h => by
    rw [spansCases, List.flatMap_append] at h
    rw [dispatchCases, handlersCases, List.filter_append, dispatchAll_eq_filter i caseBody h.of_append_left,
      dispatchCases_eq_filter i rest h.of_append_right]

/-- Descending clauses finds the handlers around an instruction. -/
theorem dispatchClauses_eq_filter (i : Nat) : ∀ clauses : List (CatchSection (List Section)),
    ((spansClauses clauses).flatMap Span.indices).Nodup → dispatchClauses i clauses = (handlersClauses clauses).filter (isAround i)
  | [], _ => rfl
  | ⟨_, _, header, handlerBody⟩ :: rest, h => by
    rw [spansClauses, List.flatMap_append, List.flatMap_cons] at h
    rw [dispatchClauses, handlersClauses, List.filter_append, dispatchAll_eq_filter i handlerBody h.of_append_left.of_append_right,
      dispatchClauses_eq_filter i rest h.of_append_right]

end

end Section

/-! ## Handlers are laid out from the inside out -/

/-- Of two clauses whose tries share code, the first starts before the second. -/
def Ordered (handlers : List Handling) : Prop :=
  handlers.Pairwise fun h h' => ∀ i, i ∈ Section.covered h.tried → i ∈ Section.covered h'.tried →
    h.clause.header.start ≤ h'.clause.header.start

/-- Clauses in the order in which they are laid out, all of them up to an index. -/
structure LaidOutUpTo (hi : Nat) (handlers : List Handling) : Prop where
  bounded : ∀ h ∈ handlers, h.clause.header.start ≤ hi
  ordered : Ordered handlers

theorem LaidOutUpTo.nil (hi : Nat) : LaidOutUpTo hi [] := ⟨nofun, .nil⟩

/-- A later end is an end too. -/
theorem LaidOutUpTo.mono {hi hi' : Nat} {handlers : List Handling} (h : LaidOutUpTo hi handlers) (hle : hi ≤ hi') :
    LaidOutUpTo hi' handlers :=
  ⟨fun handling hmem => (h.bounded handling hmem).trans hle, h.ordered⟩

/-- Clauses of tries that do not share code with others. -/
theorem LaidOutUpTo.append {hi : Nat} {xs ys : List Handling} (h : LaidOutUpTo hi xs) (h' : LaidOutUpTo hi ys)
    (hdisjoint : ∀ x ∈ xs, ∀ y ∈ ys, ∀ i, i ∈ Section.covered x.tried → i ∉ Section.covered y.tried) :
    LaidOutUpTo hi (xs ++ ys) := by
  refine ⟨fun handling hmem => (List.mem_append.1 hmem).elim (h.bounded handling) (h'.bounded handling), ?_⟩
  exact List.pairwise_append.2 ⟨h.ordered, h'.ordered, fun x hx y hy i hi hi' => absurd hi' (hdisjoint x hx y hy i hi)⟩

/-- Sections that stand for the code of their region, with clauses in the order in which they are laid out. -/
def Arranged (subject : Subject) : RegionProperty := fun around r sections =>
  Covers subject.graph around r sections ∧ ∀ lo hi, subject.graph.Consecutive lo r.blocks hi →
    LaidOutUpTo hi (Section.handlersAll sections)

section

variable {subject : Subject} {around : List Breakable} {r : Region} {lo hi : Nat}

/-- Blocks in a row cover no code twice. -/
theorem Graph.Consecutive.nodup_codeOf {g : Graph} {blocks : List BlockId} (h : g.Consecutive lo blocks hi) :
    (g.codeOf blocks).Nodup := by
  rw [← flatMap_indices_spanOf, Span.Abut.flatMap_indices h]
  exact List.nodup_range'

/-- The clauses of parts that share no code. -/
theorem laidOutUpTo_parts {parts : List Part} (hparts : ∀ p ∈ parts, LaidOutUpTo hi (Section.handlersAll p.sections))
    (hnodup : (parts.flatMap (Section.covered ·.sections)).Nodup) :
    LaidOutUpTo hi (parts.flatMap (Section.handlersAll ·.sections)) := by
  induction parts with
  | nil => exact .nil hi
  | cons p parts ih =>
    obtain ⟨hp, hparts⟩ := List.forall_mem_cons.1 hparts
    rw [List.flatMap_cons] at hnodup ⊢
    refine hp.append (ih hparts hnodup.of_append_right) fun x hx y hy i hi hi' => ?_
    obtain ⟨q, hq, hy⟩ := List.mem_flatMap.1 hy
    exact List.disjoint_of_nodup_append hnodup (Section.mem_covered_of_handlersAll _ hx hi)
      (List.mem_flatMap.2 ⟨q, hq, Section.mem_covered_of_handlersAll _ hy hi'⟩)

/-- What is made of own blocks and of parts has its clauses in the order of the layout. -/
theorem MadeOf.laidOutUpTo (hset : subject.settings.commentOnError = false) (hr : subject.graph.Consecutive lo r.blocks hi)
    {start stop : Nat} (hle : start ≤ stop) {sections : List Section} {own : List BlockId} {parts : List Part}
    (h : MadeOf subject (Arranged subject) r start stop sections own parts) :
    LaidOutUpTo hi (Section.handlersAll sections) := by
  rw [h.handlers]
  refine laidOutUpTo_parts (fun p hp => ?_) ?_
  · obtain ⟨around, hinner⟩ := h.inner p hp
    obtain ⟨a, b, hab, _, hblocks⟩ := h.within p hp
    obtain ⟨lo', hi', _, hsub, hle⟩ := hr.sub hab
    exact ((hinner.of_strict hset).2 lo' hi' (hblocks ▸ hsub)).mono hle
  · obtain ⟨_, _, _, hsub, _⟩ := hr.sub hle
    have hnodup := (subject.graph.codeOf_perm h.blocks).nodup_iff.1 hsub.nodup_codeOf
    rw [Graph.codeOf_append] at hnodup
    refine (covered_parts fun p hp => ?_).nodup_iff.2 hnodup.of_append_right
    obtain ⟨around, hinner⟩ := h.inner p hp
    exact (hinner.of_strict hset).1

/-- The handlers of a try are laid out one after the other, each with what is inside it. -/
theorem ClausesTaken.laidOutUpTo (hb : Graph.Built subject.toSource subject.graph) (hset : subject.settings.commentOnError = false)
    {exit : Option BlockId} {pending : List Marker} {cursor stop : Nat} {clauses : List (CatchSection (List Section))}
    (h : ClausesTaken subject (Arranged subject) around r exit pending cursor clauses stop)
    (hr : subject.graph.Consecutive lo (r.blocks.drop cursor) hi)
    (hnodup : ((Section.spansClauses clauses).flatMap Span.indices).Nodup) :
    (∀ clause ∈ clauses, lo ≤ clause.header.start ∧ clause.header.start ≤ hi) ∧
      clauses.Pairwise (fun clause clause' => clause.header.start ≤ clause'.header.start) ∧
      LaidOutUpTo hi (Section.handlersClauses clauses) := by
  induction h generalizing lo with
  | nil cursor => exact ⟨nofun, .nil, .nil hi⟩
  | @cons mark rest cursor stop shape body others hshape hbody hothers ih =>
    obtain ⟨entries, used, handler, hat⟩ := Recognizer.handlerShape_cases hshape
    obtain ⟨hheader, _, mid, after, hmid, hbodyAt, hrest⟩ := hat.places hb hr
    have hafter := hbodyAt.le
    rw [Section.spansClauses, List.flatMap_append, List.flatMap_cons] at hnodup
    obtain ⟨hbounds, hsorted, hinner⟩ := ih hrest hnodup.of_append_right
    have hinside := ((hbody.of_strict hset).2 mid after hbodyAt).mono hrest.le
    refine ⟨List.forall_mem_cons.2 ⟨⟨hheader.ge, hheader.le.trans hr.le⟩, fun clause hclause => ?_⟩,
      List.pairwise_cons.2 ⟨fun clause hclause => ?_, hsorted⟩, hinside.append hinner fun x hx y hy i hi hi' => ?_⟩
    · have := hbounds clause hclause
      omega
    · have := hbounds clause hclause
      dsimp only
      omega
    · exact List.disjoint_of_nodup_append hnodup (List.mem_append_right _ (Section.mem_covered_of_handlersAll _ hx hi))
        (Section.mem_spansClauses_of_handlersClauses _ hy hi')

/-- The handlers of a try are laid out after all that is inside its code. -/
theorem TryTaken.laidOutUpTo (hb : Graph.Built subject.toSource subject.graph) (hset : subject.settings.commentOnError = false)
    {index : Nat} (hr : subject.graph.Consecutive lo (r.blocks.drop index) hi) {found : Match}
    (h : TryTaken subject (Arranged subject) around r index found) (hnodup : (Section.covered found.sections).Nodup) :
    LaidOutUpTo hi (Section.handlersAll found.sections) := by
  obtain ⟨shape, last, stop, tail, body, clauses, hat, hbody, hclauses, hsections⟩ := h
  obtain ⟨mid, after, hbodyAt, htailAt, hrest, _⟩ := hat.places hb hr
  have hinside := (hbody.of_strict hset).2 lo after (by
    rw [hat.body_blocks]
    exact Graph.consecutive_append.2 ⟨mid, hbodyAt, htailAt⟩)
  rw [hsections, Section.covered_cons, Section.covered_nil, List.append_nil, Section.spans, List.flatMap_append] at hnodup
  obtain ⟨hbounds, hsorted, hinner⟩ := hclauses.laidOutUpTo hb hset hrest hnodup.of_append_right
  have hown : LaidOutUpTo hi (Section.handlersAll body ++ clauses.map (Handling.mk body)) := by
    refine ⟨fun handling hmem => ?_, List.pairwise_append.2 ⟨hinside.ordered, ?_, fun x hx y hy i _ _ => ?_⟩⟩
    · rcases List.mem_append.1 hmem with hmem | hmem
      · exact (hinside.bounded handling hmem).trans hrest.le
      · obtain ⟨clause, hclause, rfl⟩ := List.mem_map.1 hmem
        exact (hbounds clause hclause).2
    · exact List.pairwise_map.2 (hsorted.imp fun hle i _ _ => hle)
    · obtain ⟨clause, hclause, rfl⟩ := List.mem_map.1 hy
      exact (hinside.bounded x hx).trans (hbounds clause hclause).1
  rw [hsections, Section.handlersAll, Section.handlers, Section.handlersAll_nil, List.append_nil]
  refine hown.append hinner fun x hx y hy i hi hi' => ?_
  have hcode : i ∈ Section.covered body := by
    rcases List.mem_append.1 hx with hx | hx
    · exact Section.mem_covered_of_handlersAll body hx hi
    · obtain ⟨clause, _, rfl⟩ := List.mem_map.1 hx
      exact hi
  exact List.disjoint_of_nodup_append hnodup hcode (Section.mem_spansClauses_of_handlersClauses clauses hy hi')

/-- The handlers that a step takes are laid out in order. -/
theorem Taken.laidOutUpTo (hb : Graph.Built subject.toSource subject.graph) (hset : subject.settings.commentOnError = false)
    (hr : subject.graph.Consecutive lo r.blocks hi) {index : Nat} {found : Match}
    (h : Taken subject (Arranged subject) around r index found) : LaidOutUpTo hi (Section.handlersAll found.sections) := by
  have hle := Nat.le_of_lt h.bounds.1
  obtain ⟨own, parts, hmade⟩ | htry := h.parts fun id span target => hb.goto_nonempty
  · exact hmade.laidOutUpTo hset hr hle
  · obtain ⟨_, _, _, hsub, _⟩ := hr.sub hle
    have hcovers := Taken.covers hb (h.mono fun _ _ _ hinner => hinner.1)
    rw [← List.take_append_drop index r.blocks] at hr
    obtain ⟨lo', _, hfrom⟩ := Graph.consecutive_append.1 hr
    exact htry.laidOutUpTo hb hset hfrom (hcovers.nodup_iff.2 hsub.nodup_codeOf)

/-- A scanned region has its clauses in the order of the layout. -/
theorem Scanned.laidOutUpTo (hb : Graph.Built subject.toSource subject.graph) (hset : subject.settings.commentOnError = false)
    (hr : subject.graph.Consecutive lo r.blocks hi) {index : Nat} {sections : List Section} (hindex : index ≤ r.length)
    (h : Scanned subject (Arranged subject) around r index sections) : LaidOutUpTo hi (Section.handlersAll sections) := by
  induction h with
  | done _ => exact .nil hi
  | @step index found rest htaken hlt hscanned ih =>
    have hcovers := Scanned.covers hb ((Scanned.step htaken hlt hscanned).mono fun _ _ _ hinner => hinner.1)
    obtain ⟨_, _, _, hsub, _⟩ := hr.sub hindex
    have hnodup := hcovers.nodup_iff.2 hsub.nodup_codeOf
    rw [Section.covered_append] at hnodup
    rw [Section.handlersAll_append]
    refine (htaken.laidOutUpTo hb hset hr).append (ih htaken.bounds.2) fun x hx y hy i hi hi' => ?_
    exact List.disjoint_of_nodup_append hnodup (Section.mem_covered_of_handlersAll _ hx hi)
      (Section.mem_covered_of_handlersAll _ hy hi')

/-- The handlers of a scanned region are laid out in order. -/
theorem Scanned.arranged (hb : Graph.Built subject.toSource subject.graph) (hset : subject.settings.commentOnError = false)
    {sections : List Section} (h : Scanned subject (Arranged subject) around r 0 sections) :
    Arranged subject around r sections := by
  refine ⟨?_, fun lo hi hr => h.laidOutUpTo hb hset hr (Nat.zero_le _)⟩
  have hcovers := Scanned.covers hb (h.mono fun _ _ _ hinner => hinner.1)
  rw [Region.sub_zero_length] at hcovers
  exact hcovers

end

/-! ## Methods -/

/-- Whether an entry of the table protects an instruction. -/
def Source.protects (src : Source) (entry : HandlerEntry) (i : Nat) : Bool :=
  match src.labelIndex entry.start, src.labelIndex entry.stop with
  | .ok lo, .ok hi => decide (lo ≤ i) && decide (i < hi)
  | _, _ => false

/-- Where the handlers start whose entries protect an instruction and accept an exception there. -/
def Source.candidates (src : Source) (i : Nat) (accepts : CatchType → Bool) : Set Nat :=
  {index | ∃ entry ∈ src.method.handlerTable, src.protects entry i = true ∧ accepts entry.catches = true ∧
    src.labelIndex entry.handler = .ok index}

/-- The clauses that an exception is offered to start one after the other in the code. -/
theorem dispatchAll_sorted {sections : List Section} (hnodup : (Section.covered sections).Nodup)
    (h : Ordered (Section.handlersAll sections)) (i : Nat) :
    (Section.dispatchAll i sections).Pairwise fun h h' => h.clause.header.start ≤ h'.clause.header.start := by
  rw [Section.dispatchAll_eq_filter i sections hnodup]
  refine (List.Pairwise.filter _ h).imp_of_mem fun {x y} hx hy hle => ?_
  have hx := (List.mem_filter.1 hx).2
  have hy := (List.mem_filter.1 hy).2
  exact hle i (of_decide_eq_true hx) (of_decide_eq_true hy)

/-- An entry protects the code between its labels. -/
theorem Source.protects_iff {src : Source} {entry : HandlerEntry} {lo hi i : Nat} (hstart : src.labelIndex entry.start = .ok lo)
    (hstop : src.labelIndex entry.stop = .ok hi) : src.protects entry i = true ↔ lo ≤ i ∧ i < hi := by
  simp [protects, hstart, hstop]

/-- The clause that is found first starts before every other one that accepts the exception. -/
theorem le_of_find?_eq_some {handlers : List Handling} {q : Handling → Bool} {found h : Handling}
    (hsorted : handlers.Pairwise fun h h' => h.clause.header.start ≤ h'.clause.header.start)
    (hfind : handlers.find? q = some found) (hmem : h ∈ handlers) (hq : q h = true) :
    found.clause.header.start ≤ h.clause.header.start := by
  obtain ⟨_, before, after, rfl, hbefore⟩ := List.find?_eq_some_iff_append.1 hfind
  rcases List.mem_append.1 hmem with hmem | hmem
  · simpa [hq] using hbefore h hmem
  · rcases List.mem_cons.1 hmem with rfl | hmem
    · exact Nat.le_refl _
    · exact (List.pairwise_cons.1 (List.pairwise_append.1 hsorted).2.1).1 h hmem

section

variable {src : Source} {g : Graph} {sections : List Section} {i : Nat} {accepts : CatchType → Bool}
  {entryOf : CatchPlace sections → Fin src.method.handlerTable.length} (hc : Correspondence src g sections entryOf)
  (hnodup : (Section.covered sections).Nodup)

include hc hnodup

/-- For each entry that protects an instruction and accepts an exception, the exception is offered to a clause at its handler. -/
theorem Correspondence.exists_clause {entry : HandlerEntry} (hentry : entry ∈ src.method.handlerTable)
    (hprotects : src.protects entry i = true) (haccepts : accepts entry.catches = true) :
    ∃ h ∈ Section.dispatchAll i sections, h.clause.catches.any accepts = true ∧
      src.labelIndex entry.handler = .ok h.clause.header.start := by
  obtain ⟨e, rfl⟩ := List.mem_iff_get.1 hentry
  obtain ⟨place, rfl⟩ := hc.bijective.2 e
  obtain ⟨lo, hi, hstart, hstop, htried⟩ := (hc.serves place).range
  have hin := (Source.protects_iff hstart hstop).1 hprotects
  have haround : i ∈ Section.covered ((Section.handlersAll sections).get place.1).tried := by
    rcases htried with htried | ⟨_, _, _, htried⟩
    · exact (htried i).2 hin
    · exact (htried i).2 (.inl hin)
  refine ⟨(Section.handlersAll sections).get place.1, ?_, ?_, (hc.serves place).handler⟩
  · rw [Section.dispatchAll_eq_filter i sections hnodup]
    exact List.mem_filter.2 ⟨List.get_mem _ _, decide_eq_true haround⟩
  · rw [hc.catches place] at haccepts
    exact List.any_eq_true.2 ⟨_, List.get_mem _ _, haccepts⟩

-- The tries around the instruction are built from entries that protect it.
variable (hprotects : ∀ place, i ∈ Section.covered ((Section.handlersAll sections).get place.1).tried →
  src.protects (src.method.handlerTable.get (entryOf place)) i = true)

include hprotects

/-- A clause that an exception is offered to and that accepts it starts at the handler of an entry that protects the instruction
and accepts the exception. -/
theorem Correspondence.mem_candidates {h : Handling} (hmem : h ∈ Section.dispatchAll i sections)
    (haccepts : h.clause.catches.any accepts = true) :
    h.clause.header.start ∈ src.candidates i accepts := by
  rw [Section.dispatchAll_eq_filter i sections hnodup] at hmem
  obtain ⟨hmem, haround⟩ := List.mem_filter.1 hmem
  obtain ⟨clause, rfl⟩ := List.mem_iff_get.1 hmem
  obtain ⟨caught, hcaught, haccepts⟩ := List.any_eq_true.1 haccepts
  obtain ⟨k, rfl⟩ := List.mem_iff_get.1 hcaught
  refine ⟨src.method.handlerTable.get (entryOf ⟨clause, k⟩), List.get_mem _ _, hprotects ⟨clause, k⟩ (of_decide_eq_true haround),
    ?_, (hc.serves ⟨clause, k⟩).handler⟩
  rw [hc.catches ⟨clause, k⟩]
  exact haccepts

/-- Where an exception finds a clause, the clause starts at the first handler of the entries that protect the instruction and accept
the exception. -/
theorem Correspondence.isLeast (hordered : Ordered (Section.handlersAll sections)) {found : Handling}
    (hfound : (Section.dispatchAll i sections).find? (fun h => h.clause.catches.any accepts) = some found) :
    IsLeast (src.candidates i accepts) found.clause.header.start := by
  constructor
  · have haccepts : found.clause.catches.any accepts = true := by simpa using List.find?_some hfound
    exact hc.mem_candidates hnodup hprotects (List.mem_of_find?_eq_some hfound) haccepts
  · rintro index ⟨entry, hentry, hentryProtects, haccepts, hindex⟩
    obtain ⟨h, hmem, hq, hstart⟩ := hc.exists_clause hnodup hentry hentryProtects haccepts
    cases hindex.symm.trans hstart
    exact le_of_find?_eq_some (dispatchAll_sorted hnodup hordered i) hfound hmem hq

/-- An exception finds a clause if an entry protects the instruction and accepts the exception, and only then. -/
theorem Correspondence.isSome_find? :
    (src.method.handlerTable.find? fun entry => src.protects entry i && accepts entry.catches).isSome =
      ((Section.dispatchAll i sections).find? fun h => h.clause.catches.any accepts).isSome := by
  rw [Bool.eq_iff_iff, List.find?_isSome, List.find?_isSome]
  constructor
  · rintro ⟨entry, hentry, hp⟩
    obtain ⟨hentryProtects, haccepts⟩ := Bool.and_eq_true_iff.1 hp
    obtain ⟨h, hmem, hq, _⟩ := hc.exists_clause hnodup hentry hentryProtects haccepts
    exact ⟨h, hmem, hq⟩
  · rintro ⟨h, hmem, hq⟩
    obtain ⟨entry, hentry, hentryProtects, haccepts, _⟩ := hc.mem_candidates hnodup hprotects hmem hq
    exact ⟨entry, hentry, Bool.and_eq_true_iff.2 ⟨hentryProtects, haccepts⟩⟩

end

/-- The clauses of a method are in the order in which they are laid out. -/
theorem sections_ordered (subject : Subject) (hb : Graph.Built subject.toSource subject.graph)
    (hset : subject.settings.commentOnError = false) {recognizers : List Recognizer}
    (hrec : ∀ recognizer ∈ recognizers, recognizer ∈ Recognizer.all) {s t : Session} {sections : List Section}
    (h : subject.sections recognizers s = .ok sections t) : Ordered (Section.handlersAll sections) := by
  have hinner := Subject.inner_of_sections (fun _ _ _ hscanned => hscanned.arranged hb hset) hrec h
  exact ((hinner.of_strict hset).2 0 _ hb.laidOut.abut).ordered

/-- Let the tries around an instruction be built from entries that protect it. Then an exception there finds a clause, going through
the clauses from the innermost try outwards, just if some entry protects the instruction and accepts the exception. The clause
starts at the first handler in the code of all these entries; so it starts at the handler of the entry that comes first in the
table just if no other one of them has a handler before that. -/
theorem dispatch_reaches_first_handler (src : Source) (g : Graph) (settings : Settings) (events events' : List Event)
    (sections : List Section) (hgraph : Graph.build src Producer.all = .ok g) (hset : settings.commentOnError = false)
    (h : Subject.sectionsTraced ⟨src, g, settings⟩ Recognizer.all events = .ok sections events') :
    ∃ entryOf, Correspondence src g sections entryOf ∧ ∀ (i : Nat) (accepts : CatchType → Bool),
      (∀ place, i ∈ Section.covered ((Section.handlersAll sections).get place.1).tried →
        src.protects (src.method.handlerTable.get (entryOf place)) i = true) →
      (src.method.handlerTable.find? fun entry => src.protects entry i && accepts entry.catches).isSome =
          ((Section.dispatchAll i sections).find? fun h => h.clause.catches.any accepts).isSome ∧
        ∀ first found, src.method.handlerTable.find? (fun entry => src.protects entry i && accepts entry.catches) = some first →
          (Section.dispatchAll i sections).find? (fun h => h.clause.catches.any accepts) = some found →
          IsLeast (src.candidates i accepts) found.clause.header.start ∧
            (src.labelIndex first.handler = .ok found.clause.header.start ↔
              ∀ index ∈ src.candidates i accepts, ∀ start, src.labelIndex first.handler = .ok start → start ≤ index) := by
  obtain ⟨s, hs⟩ := Subject.exists_of_sectionsTraced h
  have hb : Graph.Built src g := Graph.built_of_build hgraph
  have hnodup := (covered_perm_range ⟨src, g, settings⟩ hb (fun _ => id) hs).nodup_iff.2 List.nodup_range
  have hordered := sections_ordered ⟨src, g, settings⟩ hb hset (fun _ => id) hs
  obtain ⟨entryOf, hc⟩ := (sections_accounts ⟨src, g, settings⟩ hb hset (fun _ => id) hs).exists_correspondence
  refine ⟨entryOf, hc, fun i accepts hprotects => ⟨hc.isSome_find? hnodup hprotects, fun first found hfirst hfound => ?_⟩⟩
  have hleast := hc.isLeast hnodup hprotects hordered hfound
  refine ⟨hleast, fun hstart index hindex start hstart' => ?_, fun hfirstLeast => ?_⟩
  · cases hstart.symm.trans hstart'
    exact hleast.2 hindex
  · have hp := List.find?_some hfirst
    obtain ⟨hfirstProtects, haccepts⟩ := Bool.and_eq_true_iff.1 hp
    obtain ⟨clause, _, _, hstart⟩ := hc.exists_clause hnodup (List.mem_of_find?_eq_some hfirst) hfirstProtects haccepts
    have hle := hleast.2 ⟨first, List.mem_of_find?_eq_some hfirst, hfirstProtects, haccepts, hstart⟩
    rw [hstart, Nat.le_antisymm hle (hfirstLeast _ hleast.1 _ hstart)]

/-- An exception in the code of both tries that the inner one does not accept. -/
theorem dispatch_reaches_first_handler_outer :
    ∃ g sections events found, ∃ entryOf : CatchPlace sections → Fin nestedTries.method.handlerTable.length,
      Graph.build nestedTries Producer.all = .ok g ∧
      Subject.sectionsTraced ⟨nestedTries, g, ⟨false, 10, true⟩⟩ Recognizer.all [] = .ok sections events ∧
      (∀ place, 3 ∈ Section.covered ((Section.handlersAll sections).get place.1).tried →
        nestedTries.protects (nestedTries.method.handlerTable.get (entryOf place)) 3 = true) ∧
      (Section.dispatchAll 3 sections).find? (fun h => h.clause.catches.any fun c => c ≠ .ofClass "B") = some found ∧
      IsLeast (nestedTries.candidates 3 fun c => c ≠ .ofClass "B") found.clause.header.start := by
  obtain ⟨g, sections, events, hgraph, hsections, _⟩ := Source.exists_of_structuresInto nestedTries_structured
  obtain ⟨entryOf, _, hdispatch⟩ := dispatch_reaches_first_handler nestedTries g _ [] events sections hgraph rfl hsections
  have hprotects : ∀ e, nestedTries.protects (nestedTries.method.handlerTable.get e) 3 = true := by decide
  obtain ⟨hsome, hleast⟩ := hdispatch 3 (fun c => c ≠ .ofClass "B") (fun place _ => hprotects (entryOf place))
  obtain ⟨found, hfound⟩ := Option.isSome_iff_exists.1 (hsome.symm.trans (by decide))
  exact ⟨g, sections, events, found, entryOf, hgraph, hsections, fun place _ => hprotects _, hfound,
    (hleast _ found rfl hfound).1⟩

/-- A method with one try, where the handler of the first entry is laid out after the one of the second. -/
def handlersSwapped : Source where
  method :=
    { owner := "A", name := "m", descriptor := "()V", isStatic := true
      code := [.label ⟨0⟩, .nop, .label ⟨1⟩, .goto ⟨4⟩, .label ⟨2⟩, .pop, .goto ⟨4⟩, .label ⟨3⟩, .pop, .label ⟨4⟩, .ret none]
      variableTable := []
      handlerTable := [⟨⟨0⟩, ⟨1⟩, ⟨3⟩, .ofClass "B"⟩, ⟨⟨0⟩, ⟨1⟩, ⟨2⟩, .any⟩] }
  labels := [(⟨0⟩, 0), (⟨1⟩, 2), (⟨2⟩, 4), (⟨3⟩, 7), (⟨4⟩, 9)]
  locals := .empty

/-- Both entries protect the instruction and accept the exception, and the clause that catches it does not start at the handler of
the entry that comes first in the table. -/
theorem dispatch_ignores_table_order :
    ∃ g sections events first found, ∃ accepts : CatchType → Bool, accepts .any = true ∧
      Graph.build handlersSwapped Producer.all = .ok g ∧
      Subject.sectionsTraced ⟨handlersSwapped, g, ⟨false, 10, true⟩⟩ Recognizer.all [] = .ok sections events ∧
      (∀ entry ∈ handlersSwapped.method.handlerTable, handlersSwapped.protects entry 1 = true) ∧
      handlersSwapped.method.handlerTable.find? (fun entry => handlersSwapped.protects entry 1 && accepts entry.catches) =
        some first ∧
      (Section.dispatchAll 1 sections).find? (fun h => h.clause.catches.any accepts) = some found ∧
      handlersSwapped.labelIndex first.handler ≠ .ok found.clause.header.start := by
  have hstructured : handlersSwapped.structuresInto ⟨false, 10, true⟩ (fun sections =>
      ((Section.dispatchAll 1 sections).find? fun h => h.clause.catches.any fun _ => true).map
        (fun h => h.clause.header.start) == some 4) = true := by decide +kernel
  obtain ⟨g, sections, events, hgraph, hsections, htest⟩ := Source.exists_of_structuresInto hstructured
  obtain ⟨found, hfound, hstart⟩ := Option.map_eq_some_iff.1 (eq_of_beq htest)
  refine ⟨g, sections, events, ⟨⟨0⟩, ⟨1⟩, ⟨3⟩, .ofClass "B"⟩, found, fun _ => true, rfl, hgraph, hsections, by decide, rfl,
    hfound, ?_⟩
  rw [hstart]
  decide

end CodeLift
