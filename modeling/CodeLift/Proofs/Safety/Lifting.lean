import CodeLift.Proofs.Safety.Locals
import CodeLift.Proofs.Safety.Sections
import CodeLift.Proofs.Safety.Structuring
import CodeLift.Proofs.Scoping.Statements

/-!
# Lifting is safe

No phase asks for anything that is not there. Cutting code, structuring and building statements fail with a fault where a block, a
place, an entry, an instruction or an operand is missing, and faults never arise. Binding variables looks up instances, instructions
and bytes without such a failure; each of these lookups is shown to be in range. `Method.LiftsSafely` says so of all phases, and
`lifting_never_faults` of every method whose parameters fit into the slots that there are.
-/

namespace CodeLift

/-- Whether an instruction or operand that does not exist was asked for, rather than anything being wrong with the method. -/
def StatementError.isFault : StatementError → Bool
  | .missingInsn _ => true
  | _ => false

/-- Whether lifting went wrong, rather than anything being wrong with the method. -/
def DecompileError.isFault : DecompileError → Bool
  | .labels _ | .locals _ => false
  | .graph cause => cause.isFault
  | .structuring cause => cause.isFault
  | .statements cause => cause.isFault

theorem StatementError.isFault_of_isAboutValues {e : StatementError} (h : e.isAboutValues = true) : e.isFault = false := by
  cases e with
  | missingInsn index => cases h
  | _ => rfl

/-! ## The phases -/

/-- Binding the variables of a method is safe. -/
structure Method.BindsSafely (m : Method) : Prop where
  /-- A text can be cut where its first type ends, which is at the end of a character and not past the end of the text. -/
  cuts : ∀ cs n, Descriptor.fieldTypeLength? cs = some n → ∃ type rest, Descriptor.cutAfter? n cs = some (type, rest)
  /-- Each type that is split off a descriptor is a front of it that is not empty. -/
  types : ∀ cs type rest, Descriptor.splitFieldType cs = some (type, rest) → type ≠ [] ∧ type ++ rest = cs
  labels : ∀ labels label index, m.labels = .ok labels → labels.index label = .ok index → index < m.code.length
  /-- The slots of the parameters can be counted in sixteen bits. -/
  slots : ∀ type declared, MethodType.parse m.descriptor = .ok type →
    ∀ l ∈ (claimParameters m.code.length (entryPoint m.code) 0 (m.parameters type) declared).1, l.slot < 2 ^ 16
  /-- However many starts of declared instances have been moved back, there is code before each of them. -/
  starts : ∀ labels type declared count, m.labels = .ok labels → m.variableTable.mapM (declaredLocal labels) = .ok declared →
    ∀ l ∈ ((List.range count).foldl (extendLocal m.code) (m.bindDeclared type declared).locals).all,
      l.origin = .declared → l.span.start < m.code.length
  /-- The instructions that are looked at for a copy stand next to each other. -/
  pairs : ∀ pair ∈ (m.code.zip m.code.tail).zipIdx 1,
    0 < pair.2 ∧ m.code[pair.2 - 1]? = some pair.1.1 ∧ m.code[pair.2]? = some pair.1.2
  /-- The table takes each instance that is synthesized. -/
  synthesizes : ∀ type declared types, ((synthesized types (m.bindKnown type declared).locals m.code).foldlM Locals.insert?
    (m.bindKnown type declared).locals).isSome = true
  /-- After each step of binding, the instances that are listed for a slot are in the table. -/
  listed : ∀ b, m.Reaches b → ∀ slot, ∀ id ∈ b.locals.ofSlot slot, id < b.locals.size
  /-- These are all the tables there are. -/
  reached : ∀ type declared types, m.Reaches ((Binding.mk (m.bindKnown type declared).locals []).offerAll
    (synthesized types (m.bindKnown type declared).locals m.code))
  finds : ∀ (ls : Locals) slot index id, ls.find? slot index = some id → id < ls.size

/-- Cutting the code of a method and linking the blocks is safe. -/
structure Source.LinksSafely (src : Source) : Prop where
  /-- Wherever the code is cut, each block has a last instruction. -/
  cut : ∀ breaks, (Graph.ofSpans (Span.cutAt src.method.code.length breaks)).Linkable src.method.code
  /-- The producers keep it so, and mark only blocks that have a place in the layout. -/
  link : ∀ p ∈ Producer.all, ∀ g : Graph, g.Linkable src.method.code →
    Safely (p.link src g) fun h => h.Linkable src.method.code ∧ h.codeBlocks = g.codeBlocks
  binding : ∀ handler binding, handlerBinding? src.method.code handler = some binding → binding < src.method.code.length
  scopeEnd : ∀ binding stop, handlerScopeEnd? src.method.code src.locals binding = some stop →
    binding + 1 < stop ∧ stop ≤ src.method.code.length
  built : ∀ g, Graph.build src Producer.all = .ok g → g.InRange src.method

/-- Structuring a method and building its statements is safe. -/
structure Subject.StructuresSafely (subject : Subject) : Prop where
  /-- Recognizers are safe, use the action they are given only on known blocks, and take one block of the region at least. -/
  recognizers : ∀ recognizer ∈ Recognizer.all, recognizer.Safe subject
  /-- So is structuring to any depth, also in attempts whose failures are not seen. -/
  nested : ∀ levels, Nested.Safe subject.graph (flattenWithin subject Recognizer.all levels)
  /-- Structuring starts out from known blocks. -/
  whole : Region.Known subject.graph ⟨subject.graph.order, none⟩ ∧ ∀ events, Session.Known subject.graph (.start events)
  /-- The searches for a condition, for loops and for a switch that start at a place of a region stay inside of the region. -/
  searches : ∀ (r : Region) index, index < r.length → Succeeds (r.guardChain subject.graph index) ∧
    (∀ first, Succeeds (Recognizer.loopShape subject.graph r index first)) ∧
    Succeeds (Recognizer.entryLoopShape subject.graph r index) ∧ Succeeds (Recognizer.switchLayout subject.graph r index)
  /-- So do those for the end of a branch, and for the update of a loop. -/
  parts : ∀ (r : Region) start stop, Succeeds (Recognizer.elseEnd subject.graph r start stop) ∧
    (stop ≤ r.length → Succeeds (Recognizer.updateRun subject.graph r start stop) ∧
      ∀ target, Succeeds (Recognizer.updatePlace subject.graph r start stop target))
  /-- Protected code ends after it starts, with the last of its starts in between. -/
  ends : ∀ (r : Region) index stop pending, index < stop → stop ≤ r.length →
    ∃ first, Recognizer.firstEnd subject.graph r index stop = .ok first ∧ index < first ∧ first ≤ stop ∧
      ∀ last, Recognizer.lastStart? r index first pending = some last → index ≤ last ∧ last < first
  /-- The sections stand for each instruction once, and name spans of the code only. -/
  sections : ∀ events sections events', subject.sectionsTraced Recognizer.all events = .ok sections events' →
    Section.covers sections subject.method.code.length = true ∧ Section.LieIn subject.method.code.length sections
  /-- The statements built from them are over expressions of their arena, so passes find each that they look up, and only instructions
  of the code are asked for. -/
  statements : ∀ events sections events₁ events₂ events₃, subject.sectionsTraced Recognizer.all events = .ok sections events₁ →
    (∀ body, subject.toSource.body subject.settings sections events₂ = .ok body events₃ →
      body.arena.IsClosed ∧ Statement.SoundAll .outermost body.arena.size body.statements) ∧
    ∀ e, subject.toSource.body subject.settings sections events₂ = .error e events₃ → e.isFault = false

/-- Lifting a method is safe in each phase, and so no fault is its outcome. -/
structure Method.LiftsSafely (m : Method) (settings : Settings) : Prop where
  binds : m.BindsSafely
  links : ∀ events src events', m.source events = .ok src events' → src.LinksSafely
  structures : ∀ events src events' g, m.source events = .ok src events' → Graph.build src Producer.all = .ok g →
    Subject.StructuresSafely ⟨src, g, settings⟩
  outcome : ∀ events e events', (Decompiler.standard settings).decompile m events = .error e events' → e.isFault = false

/-- Variables are bound safely if the parameters need no more slots than there are. -/
theorem Method.bindsSafely {m : Method} (hslots : ∀ type, MethodType.parse m.descriptor = .ok type → m.slotsNeeded type < 2 ^ 16) :
    m.BindsSafely := by
  refine ⟨?_, ?_, ?_, ?_, ?_, ?_, ?_, ?_, ?_, ?_⟩
  · intro cs n h
    obtain ⟨type, rest, hcut, _⟩ := Descriptor.cutAfter?_of_fieldTypeLength? h
    exact ⟨type, rest, hcut⟩
  · intro cs type rest h
    exact Descriptor.append_of_splitFieldType h
  · intro labels label index hlabels hindex
    exact index_lt hlabels hindex
  · intro type declared htype l hl
    have hbound := (slot_of_mem_claimParameters hl).2
    rw [Nat.zero_add] at hbound
    exact hbound.trans (hslots type htype)
  · intro labels type declared count hlabels hdeclared l hl
    exact startsBefore_extended hlabels type hdeclared count l hl
  · intro pair hpair
    exact getElem?_of_mem_pairs hpair
  · intro type declared types
    rw [foldlM_insert?_synthesized (m.bindKnown_disjoint type declared)]
    rfl
  · intro b hb slot id hid
    obtain ⟨l, hl, _⟩ := hb.disjoint.exists_of_mem_ofSlot hid
    exact (List.getElem?_eq_some_iff.1 hl).1
  · intro type declared types
    exact (m.reaches_bindKnown type declared).report.offerAll _
  · intro ls slot index id h
    exact Locals.lt_size_of_find? h

theorem Source.linksSafely (src : Source) : src.LinksSafely := by
  refine ⟨Graph.linkable_ofSpans, ?_, ?_, ?_, ?_⟩
  · intro p hp g hg
    exact Producer.link_safely hp hg
  · intro handler binding h
    exact handlerBinding?_lt h
  · intro binding stop h
    exact handlerScopeEnd?_bounds h
  · intro g hgraph
    exact (Graph.built_of_build hgraph).inRange

/-- Structuring is safe for a method whose graph has been built and whose variables explain its accesses. -/
theorem Subject.structuresSafely {subject : Subject} (hb : Graph.Built subject.toSource subject.graph)
    (hls : subject.locals.Explains subject.method.code) : subject.StructuresSafely := by
  refine ⟨?_, ?_, ?_, ?_, ?_, ?_, ?_, ?_⟩
  · intro recognizer hrec
    exact safe_of_mem_all hb.inRange hrec
  · intro levels
    exact flattenWithin_safe hb.inRange (fun _ => id) levels
  · exact ⟨.order subject.graph, .start subject.graph⟩
  · intro r index hindex
    exact ⟨Region.succeeds_guardChain hindex, Recognizer.succeeds_loopShape hindex, Recognizer.succeeds_entryLoopShape hindex,
      Recognizer.succeeds_switchLayout hindex⟩
  · intro r start stop
    exact ⟨Recognizer.succeeds_elseEnd _ r start stop, fun hstop =>
      ⟨Region.succeeds_walkBack _ _ hstop, Recognizer.succeeds_updatePlace hstop start⟩⟩
  · intro r index stop pending hlt hstop
    obtain ⟨first, hfound⟩ : Succeeds (Recognizer.firstEnd subject.graph r index stop) := Region.succeeds_walkBack _ _ hstop
    obtain ⟨hfirst, hle⟩ := Recognizer.firstEnd_bounds hlt hfound
    refine ⟨first, hfound, hfirst, hle, ?_⟩
    intro last hlast
    obtain ⟨hindex, heq | hbefore, _⟩ := Recognizer.lastStart?_spec hlast
    · exact ⟨hindex, heq ▸ hfirst⟩
    · exact ⟨hindex, hbefore⟩
  · intro events sections events' h
    obtain ⟨s, hs⟩ := Subject.exists_of_sectionsTraced h
    exact ⟨Span.tiles_of_perm (covered_perm_range subject hb (fun _ => id) hs), subject.sections_lieIn hb (fun _ => id) hs⟩
  · intro events sections events₁ events₂ events₃ h
    obtain ⟨s, hs⟩ := Subject.exists_of_sectionsTraced h
    have hbuildable := everywhereAll_isBuildable subject hb (fun _ => id) rfl hs
    constructor
    · intro body hbody
      exact Source.body_sound hls hbuildable hbody
    · intro e hbody
      exact StatementError.isFault_of_isAboutValues (Source.isAboutValues_of_body hls hbuildable hbody)

/-! ## The outcome -/

/-- A failure of structuring is no fault. -/
theorem Subject.sectionsTraced_isFault {subject : Subject} (hg : subject.graph.InRange subject.method)
    {events events' : List Event} {e : StructuringError}
    (h : subject.sectionsTraced Recognizer.all events = .error e events') : e.isFault = false := by
  have hsafe := Subject.sections_safe hg (fun _ => id) events
  unfold Subject.sectionsTraced at h
  unfold Structuring.Safe Structuring.Ends at hsafe
  split at h
  · cases h
  · rename_i e' s hs
    cases h
    rw [hs] at hsafe
    exact hsafe.2

theorem Method.source_isFault {m : Method} {events events' : List Event} {e : DecompileError}
    (h : m.source events = .error e events') : e.isFault = false := by
  unfold Method.source at h
  rcases run_bind_eq_error h with hlabels | ⟨labels, _, _, h⟩
  · have hlabels := Traced.ofExcept_eq_error hlabels
    cases hcause : m.labels with
    | ok labels =>
      rw [hcause] at hlabels
      cases hlabels
    | error cause =>
      rw [hcause] at hlabels
      cases hlabels
      rfl
  · rcases run_bind_eq_error h with hlocals | ⟨_, _, _, h⟩
    · obtain ⟨cause, _, rfl⟩ := Traced.mapError_eq_error hlocals
      rfl
    · cases h

/-- A failure of lifting is a failure of one of its phases, after those before it have succeeded. -/
theorem Decompiler.decompile_eq_error {d : Decompiler} {m : Method} {events events' : List Event} {e : DecompileError}
    (h : d.decompile m events = .error e events') :
    m.source events = .error e events' ∨ ∃ src events₁, m.source events = .ok src events₁ ∧
      ((∃ cause, Graph.build src d.producers = .error cause ∧ e = .graph cause) ∨
        ∃ g, Graph.build src d.producers = .ok g ∧ ∃ events₂ events₃,
          (∃ cause, Subject.sectionsTraced ⟨src, g, d.settings⟩ d.recognizers events₂ = .error cause events₃ ∧
            e = .structuring cause) ∨
          ∃ sections cause, Subject.sectionsTraced ⟨src, g, d.settings⟩ d.recognizers events₂ = .ok sections events₃ ∧
            src.body d.settings sections events₃ = .error cause events' ∧ e = .statements cause) := by
  unfold Decompiler.decompile at h
  rcases run_bind_eq_error h with hsrc | ⟨src, events₁, hsrc, h⟩
  · exact .inl hsrc
  refine .inr ⟨src, events₁, hsrc, ?_⟩
  rcases run_bind_eq_error h with hgraph | ⟨g, _, hgraph, h⟩
  · obtain ⟨cause, hcause, rfl⟩ := Traced.mapError_eq_error hgraph
    unfold Graph.buildTraced at hcause
    rcases run_bind_eq_error hcause with hcause | ⟨g, _, _, hreport⟩
    · exact .inl ⟨cause, Traced.ofExcept_eq_error hcause, rfl⟩
    · cases hreport
  refine .inr ⟨g, Graph.build_of_buildTraced (Traced.mapError_eq_ok.1 hgraph), ?_⟩
  rcases run_bind_eq_error h with hreport | ⟨_, events₂, _, h⟩
  · cases hreport
  rcases run_bind_eq_error h with hsections | ⟨sections, events₃, hsections, h⟩
  · obtain ⟨cause, hcause, rfl⟩ := Traced.mapError_eq_error hsections
    exact ⟨events₂, events', .inl ⟨cause, hcause, rfl⟩⟩
  rcases run_bind_eq_error h with hbody | ⟨body, _, _, h⟩
  · obtain ⟨cause, hcause, rfl⟩ := Traced.mapError_eq_error hbody
    exact ⟨events₂, events₃, .inr ⟨sections, cause, Traced.mapError_eq_ok.1 hsections, hcause, rfl⟩⟩
  · cases h

/-- Lifting never faults: for every method whose parameters need at most 65535 slots and whatever the settings, each phase asks only
for labels, instances, blocks, places, entries, instructions and operands that exist; every construct that a recognizer finds at a
place takes the block there and none outside of the region; each synthesized instance is accepted; the sections stand for each
instruction once; and so lifting gives a result, or an error that says what is wrong with the method. -/
theorem lifting_never_faults (m : Method) (settings : Settings)
    (hslots : ∀ type, MethodType.parse m.descriptor = .ok type → m.slotsNeeded type ≤ 65535) : m.LiftsSafely settings := by
  have hstructures : ∀ events src events' g, m.source events = .ok src events' → Graph.build src Producer.all = .ok g →
      Subject.StructuresSafely ⟨src, g, settings⟩ := by
    intro events src events' g hsrc hgraph
    obtain ⟨_, hls⟩ := Method.source_explains hsrc
    have hb : Graph.Built src g := Graph.built_of_build hgraph
    exact Subject.structuresSafely hb hls
  refine ⟨Method.bindsSafely fun type htype => Nat.lt_succ_of_le (hslots type htype), ?_, hstructures, ?_⟩
  · intro events src events' _
    exact src.linksSafely
  · intro events e events' h
    obtain hsrc | ⟨src, events₁, hsrc, hcase⟩ := Decompiler.decompile_eq_error h
    · exact Method.source_isFault hsrc
    rcases hcase with ⟨cause, hgraph, rfl⟩ | ⟨g, hgraph, events₂, events₃, hcase⟩
    · exact (Graph.build_safely src).isFault hgraph
    have hsafe := hstructures events src events₁ g hsrc hgraph
    rcases hcase with ⟨cause, hsections, rfl⟩ | ⟨sections, cause, hsections, hbody, rfl⟩
    · have hb : Graph.Built src g := Graph.built_of_build hgraph
      exact @Subject.sectionsTraced_isFault ⟨src, g, settings⟩ hb.inRange _ _ cause hsections
    · exact (hsafe.statements events₂ sections events₃ events₃ events' hsections).2 cause hbody

/-- A method with an entry that ends before it starts. -/
def reversedTry : Method where
  owner := "A"
  name := "m"
  descriptor := "(JI)V"
  isStatic := false
  code := [.label ⟨0⟩, .load .int 3, .jump .eq ⟨2⟩, .label ⟨1⟩, .goto ⟨3⟩, .label ⟨2⟩, .store .reference 4, .label ⟨3⟩, .ret none]
  variableTable := []
  handlerTable := [⟨⟨1⟩, ⟨0⟩, ⟨2⟩, .any⟩]

/-- The parameters of the method need four slots. It cannot be lifted without comments, but nothing goes wrong in finding that out. -/
theorem lifting_never_faults_reversed :
    MethodType.parse reversedTry.descriptor = .ok ⟨["J", "I"], none⟩ ∧ reversedTry.slotsNeeded ⟨["J", "I"], none⟩ = 4 ∧
      reversedTry.LiftsSafely ⟨false, 10, true⟩ ∧ ∃ e events,
        (Decompiler.standard ⟨false, 10, true⟩).decompile reversedTry [] = .error e events ∧ e.isFault = false := by
  have htype : MethodType.parse reversedTry.descriptor = .ok ⟨["J", "I"], none⟩ := by decide +kernel
  have hslots : reversedTry.slotsNeeded ⟨["J", "I"], none⟩ = 4 := by decide +kernel
  have hsafe : reversedTry.LiftsSafely ⟨false, 10, true⟩ := by
    apply lifting_never_faults
    intro type h
    rw [htype] at h
    cases h
    rw [hslots]
    decide
  refine ⟨htype, hslots, hsafe, ?_⟩
  have hfails : succeedsWith (fun _ => true) ((Decompiler.standard ⟨false, 10, true⟩).decompile reversedTry []) = false := by
    decide +kernel
  obtain ⟨e, events, h⟩ := exists_error_of_not_succeedsWith hfails
  exact ⟨e, events, h, hsafe.outcome [] e events h⟩

end CodeLift
