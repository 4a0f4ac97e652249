import CodeLift.Proofs.Graph.Built
import CodeLift.Proofs.Structuring.Parts
import CodeLift.Proofs.Structuring.Recognition

/-!
# Sections stand for all of the code

What a region becomes stands for the code of its blocks, neither more nor less: so does each construct, given that its inner
regions do, and so does the comment that a region can become instead. `sections_cover_exactly` says so of whole methods.
-/

namespace CodeLift

/-- Sections that stand for each instruction of their region once, and for no other. -/
def Covers (g : Graph) : RegionProperty := fun _ r sections => (Section.covered sections).Perm (g.codeOf r.blocks)

section

variable {subject : Subject} {around : List Breakable} {r : Region}

theorem Inner.covers {sections : List Section} (h : Inner subject (Covers subject.graph) around r sections) :
    (Section.covered sections).Perm (subject.graph.codeOf r.blocks) := by
  rcases h with h | ⟨_, rfl⟩
  · exact h
  · rw [covered_commentSection]

/-- Parts that stand for their code. -/
theorem covered_parts {g : Graph} {parts : List Part}
    (h : ∀ p ∈ parts, (Section.covered p.sections).Perm (g.codeOf p.region.blocks)) :
    (parts.flatMap (Section.covered ·.sections)).Perm (g.codeOf (parts.flatMap (·.region.blocks))) := by
  induction parts with
  | nil => exact .refl _
  | cons p parts ih =>
    obtain ⟨hp, hparts⟩ := List.forall_mem_cons.1 h
    rw [List.flatMap_cons, List.flatMap_cons, Graph.codeOf_append]
    exact hp.append (ih hparts)

/-- What is made of own blocks and of parts that stand for their code stands for its code. -/
theorem MadeOf.covers {start stop : Nat} {sections : List Section} {own : List BlockId} {parts : List Part}
    (h : MadeOf subject (Covers subject.graph) r start stop sections own parts) :
    (Section.covered sections).Perm (subject.graph.codeOf (r.sub start stop none).blocks) := by
  refine h.covered.trans (.trans ?_ (subject.graph.codeOf_perm h.blocks).symm)
  rw [Graph.codeOf_append]
  refine .append_left _ (covered_parts fun p hp => ?_)
  obtain ⟨around, hinner⟩ := h.inner p hp
  exact hinner.covers

/-- Markers hold no code. -/
theorem codeOf_markers (hb : Graph.Built subject.toSource subject.graph) {blocks : List BlockId}
    (h : ∀ id ∈ blocks, (subject.graph.marker? id).isSome = true) : subject.graph.codeOf blocks = [] := by
  refine List.flatMap_eq_nil_iff.2 fun id hid => ?_
  obtain ⟨mark, hmark⟩ := Option.isSome_iff_exists.1 (h id hid)
  obtain ⟨i, hi⟩ := hb.spanOf_marker hmark
  rw [hi, Span.indices_before]

/-- The header of a handler and the rest of it stand for its code; its markers have none. -/
theorem HandlerAt.covers (hb : Graph.Built subject.toSource subject.graph) {pending : List Marker} {cursor : Nat}
    {shape : Recognizer.HandlerShape} {entries : List Nat} {used : List Marker} {handler : BlockId}
    (h : Recognizer.HandlerAt subject r pending cursor shape entries used handler) :
    subject.graph.codeOf (r.sub cursor shape.bodyStop none).blocks =
      shape.start.header.indices ++ subject.graph.codeOf (r.sub shape.bodyStart shape.bodyStop none).blocks := by
  have hmarkers : subject.graph.codeOf (r.sub cursor (cursor + entries.length) none).blocks = [] := by
    refine codeOf_markers hb fun id hid => ?_
    rw [Region.sub, Nat.add_sub_cancel_left] at hid
    obtain ⟨entry, _, mark, hmark, _⟩ := exists_mem_of_forall₂ h.taken.entriesOf hid
    exact Graph.isSome_marker? hmark
  have hheader : shape.start.header.indices =
      subject.graph.codeOf (if shape.start.binding.isSome then [handler] else []) := by
    rw [h.start]
    obtain ⟨hnone, hheader⟩ | ⟨binding, hsome, hheader, _⟩ := Recognizer.handlerStart_cases subject handler
    · rw [hnone, hheader, Span.indices_before]
      rfl
    · rw [hsome, hheader]
      simp [Graph.codeOf]
  rw [h.blocks, Graph.codeOf_append, Graph.codeOf_append, hmarkers, hheader]
  rfl

theorem ClausesTaken.covers (hb : Graph.Built subject.toSource subject.graph) {exit : Option BlockId} {pending : List Marker}
    {cursor stop : Nat} {clauses : List (CatchSection (List Section))} (hcursor : cursor ≤ r.length)
    (h : ClausesTaken subject (Covers subject.graph) around r exit pending cursor clauses stop) :
    ((Section.spansClauses clauses).flatMap Span.indices).Perm (subject.graph.codeOf (r.sub cursor stop none).blocks) := by
  induction h with
  | nil cursor =>
    rw [Region.sub_self]
    exact .refl _
  | @cons first rest cursor stop shape body others hshape hbody hothers ih =>
    obtain ⟨entries, used, handler, hat⟩ := Recognizer.handlerShape_cases hshape
    have hle := hat.markers_le
    have hle' := hat.bodyStart_le
    obtain ⟨hstop, _⟩ := hothers.bounds hat.bodyStop_le
    rw [Section.spansClauses, List.flatMap_append, List.flatMap_cons, List.append_assoc,
      ← Region.sub_append_sub none none none (by omega : cursor ≤ shape.bodyStop) hstop, Graph.codeOf_append,
      HandlerAt.covers hb hat, List.append_assoc]
    exact .append_left _ (hbody.covers.append (ih hat.bodyStop_le))

/-- Protected code and its handlers stand for their code. -/
theorem TryTaken.covers (hb : Graph.Built subject.toSource subject.graph) {index : Nat} {found : Match}
    (h : TryTaken subject (Covers subject.graph) around r index found) :
    (Section.covered found.sections).Perm (subject.graph.codeOf (r.sub index found.resume none).blocks) := by
  obtain ⟨shape, last, stop, tail, body, clauses, hat, hbody, hclauses, hsections⟩ := h
  obtain ⟨hcursor, _⟩ := hclauses.bounds hat.cursor_le
  have h1 := hat.index_le_last
  have h2 := hat.last_lt_stop
  have h3 := hat.cursor
  have hstarts : subject.graph.codeOf (r.sub index (last + 1) none).blocks = [] := by
    refine codeOf_markers hb fun id hid => ?_
    obtain ⟨mark, hmark⟩ := hat.start_of_mem hid
    exact Graph.isSome_marker? hmark
  have hends : subject.graph.codeOf (r.sub stop (stop + shape.pending.length) none).blocks = [] := by
    refine codeOf_markers hb fun id hid => ?_
    obtain ⟨mark, _, hmark⟩ := exists_mem_of_forall₂ hat.ends hid
    exact Graph.isSome_marker? hmark
  have hcode : subject.graph.codeOf (r.sub index shape.cursor none).blocks = subject.graph.codeOf shape.body.blocks := by
    rw [hat.blocks, hat.body_blocks, Graph.codeOf_append, Graph.codeOf_append, Graph.codeOf_append, Graph.codeOf_append, hstarts,
      hends]
    rfl
  rw [hsections, ← Region.sub_append_sub none none none (by omega : index ≤ shape.cursor) hcursor, Graph.codeOf_append, hcode,
    Section.covered_cons, Section.covered_nil, List.append_nil, Section.spans, List.flatMap_append]
  exact hbody.covers.append (hclauses.covers hb hat.cursor_le)

/-- What a step takes stands for the code of the blocks it takes. -/
theorem Taken.covers (hb : Graph.Built subject.toSource subject.graph) {index : Nat} {found : Match}
    (h : Taken subject (Covers subject.graph) around r index found) :
    (Section.covered found.sections).Perm (subject.graph.codeOf (r.sub index found.resume none).blocks) := by
  obtain ⟨own, parts, hmade⟩ | htry := h.parts fun id span target => hb.goto_nonempty
  · exact hmade.covers
  · exact htry.covers hb

/-- A scanned region stands for its code. -/
theorem Scanned.covers (hb : Graph.Built subject.toSource subject.graph) {index : Nat} {sections : List Section}
    (h : Scanned subject (Covers subject.graph) around r index sections) :
    (Section.covered sections).Perm (subject.graph.codeOf (r.sub index r.length none).blocks) := by
  induction h with
  | @done index hle =>
    rw [Region.sub, List.drop_eq_nil_of_le hle, List.take_nil]
    exact .refl _
  | step htaken _ _ ih =>
    obtain ⟨hlt, hle⟩ := htaken.bounds
    rw [Section.covered_append, ← Region.sub_append_sub none none none (Nat.le_of_lt hlt) hle, Graph.codeOf_append]
    exact (htaken.covers hb).append ih

end

/-- The layout of a built graph is a region whose blocks and entries exist. -/
theorem Graph.Built.valid {subject : Subject} (hb : Graph.Built subject.toSource subject.graph) :
    Region.Valid subject ⟨subject.graph.order, none⟩ := by
  intro id hid
  have hlt : id < subject.graph.blocks.size := List.mem_range.1 (hb.laidOut.perm.mem_iff.1 hid)
  have hblock : subject.graph.block? id = some subject.graph.blocks[id] := Array.getElem?_eq_getElem hlt
  refine ⟨subject.graph.blocks[id], hblock, fun target hgoto => ?_, fun mark hmark => ?_⟩
  · rw [show subject.graph.blocks[id] = ⟨subject.graph.blocks[id].span, .goto target⟩ by rw [← hgoto]] at hblock
    exact Nat.zero_lt_of_lt (hb.goto_nonempty hblock)
  · have hmarker : subject.graph.marker? id = some mark := by
      rw [Graph.marker?, hblock, show subject.graph.blocks[id] = ⟨subject.graph.blocks[id].span, .marker mark⟩ by rw [← hmark]]
    obtain ⟨entry, _, _, _, hm⟩ := hb.markerOf hmarker
    exact (List.getElem?_eq_some_iff.1 hm.entryAt).1

/-- The instructions that the sections of a method stand for are all of its instructions, in some order. -/
theorem covered_perm_range (subject : Subject) (hb : Graph.Built subject.toSource subject.graph) {recognizers : List Recognizer}
    (hrec : ∀ recognizer ∈ recognizers, recognizer ∈ Recognizer.all) {s t : Session} {sections : List Section}
    (h : subject.sections recognizers s = .ok sections t) :
    (Section.covered sections).Perm (List.range subject.method.code.length) := by
  have hclosed : ∀ around r sections, Scanned subject (Covers subject.graph) around r 0 sections →
      Covers subject.graph around r sections := by
    intro around r sections hs
    have := hs.covers hb
    rw [Region.sub_zero_length] at this
    exact this
  refine (Subject.inner_of_sections hclosed hrec h).covers.trans (.of_eq ?_)
  rw [← flatMap_indices_spanOf, hb.laidOut.abut.flatMap_indices, List.range_eq_range', Nat.sub_zero]

/-- Whatever the settings and in whatever order the constructs are looked for, the sections of a method stand for each of its
instructions exactly once; and where comments are allowed, every method has sections. -/
theorem sections_cover_exactly (src : Source) (g : Graph) (settings : Settings) (recognizers : List Recognizer)
    (events : List Event) (hgraph : Graph.build src Producer.all = .ok g)
    (hrec : ∀ recognizer ∈ recognizers, recognizer ∈ Recognizer.all) :
    (∀ sections events', Subject.sectionsTraced ⟨src, g, settings⟩ recognizers events = .ok sections events' →
      Section.covers sections src.method.code.length = true ∧
        ∀ i, (Section.spansAll sections).countP (fun span => decide (i ∈ span)) = if i < src.method.code.length then 1 else 0) ∧
      (settings.commentOnError = true → ∃ sections events',
        Subject.sectionsTraced ⟨src, g, settings⟩ recognizers events = .ok sections events') := by
  have hb : Graph.Built src g := Graph.built_of_build hgraph
  constructor
  · intro sections events' h
    obtain ⟨s, hs⟩ := Subject.exists_of_sectionsTraced h
    have hperm := covered_perm_range ⟨src, g, settings⟩ hb hrec hs
    refine ⟨Span.tiles_of_perm hperm, fun i => ?_⟩
    rw [Span.countP_mem]
    refine (hperm.count_eq i).trans ?_
    rw [List.nodup_range.count]
    simp
  · intro hset
    have hmeets : Nested.Meets ⟨src, g, settings⟩ (fun _ _ _ => True) (flatten ⟨src, g, settings⟩ recognizers) :=
      flatten_meets (fun _ _ _ _ => trivial) hrec
    obtain ⟨sections, s, hs⟩ := orComment_isOk (hmeets ⟨g.order, none⟩ (.start events)) hb.valid hset rfl
    refine ⟨sections, s.events, ?_⟩
    unfold Subject.sectionsTraced Subject.sections
    rw [hs]

/-- A method with a branch in front of protected code. -/
def branchBeforeTry : Source where
  method :=
    { owner := "A", name := "m", descriptor := "()V", isStatic := true
      code := [.constInt 1, .jump .eq ⟨1⟩, .goto ⟨2⟩, .label ⟨1⟩, .nop, .label ⟨2⟩, .nop, .label ⟨5⟩, .goto ⟨4⟩, .label ⟨3⟩, .pop,
        .label ⟨4⟩, .ret none]
      variableTable := []
      handlerTable := [⟨⟨2⟩, ⟨5⟩, ⟨3⟩, .any⟩] }
  labels := [(⟨1⟩, 3), (⟨2⟩, 5), (⟨5⟩, 7), (⟨3⟩, 9), (⟨4⟩, 11)]
  locals := .empty

/-- Where regions may not nest, the parts of the branch and of the try become comments, and still all code is covered. -/
theorem sections_cover_exactly_comments :
    ∃ g sections events, Graph.build branchBeforeTry Producer.all = .ok g ∧
      Subject.sectionsTraced ⟨branchBeforeTry, g, ⟨true, 1, true⟩⟩ [.branch, .tryCatch] [] = .ok sections events ∧
      Section.covers sections 13 = true := by
  have hbuilds : (Graph.build branchBeforeTry Producer.all).toOption.isSome = true := by decide +kernel
  cases hgraph : Graph.build branchBeforeTry Producer.all with
  | error e =>
    rw [hgraph] at hbuilds
    cases hbuilds
  | ok g =>
    obtain ⟨hcovers, hreturns⟩ := sections_cover_exactly branchBeforeTry g ⟨true, 1, true⟩ [.branch, .tryCatch] [] hgraph
      (by simp [Recognizer.all])
    obtain ⟨sections, events, hsections⟩ := hreturns rfl
    exact ⟨g, sections, events, rfl, hsections, (hcovers sections events hsections).1⟩

end CodeLift
