import CodeLift.Decompiler
import CodeLift.Proofs.Graph.Refinement
import CodeLift.Proofs.Statement.Sound
import CodeLift.Proofs.Structuring.Parts

/-!
# Sections can be executed

Blocks end with their jumps and hold no others, and every construct takes blocks of the kinds it needs. So the sections of a method
hold jumps only where statements are built from them, and building the statements can fail only for the values of the code.
-/

namespace CodeLift

/-! ## The code of blocks -/

/-- With what instructions a block can end, by where control goes from it. -/
def BlockKind.endsWith : BlockKind → Insn → Bool
  | .body _, i | .exit, i => !i.isJump
  | .goto _, .goto _ => true
  | .branch _ _ _, i => i.isConditional
  | .switch _ _, i => i.isSwitch
  | _, _ => false

/-- A goto can end a body. -/
theorem Insn.endsBody_of_goto {target : BlockId} {i : Insn} (h : (BlockKind.goto target).endsWith i = true) :
    i.endsBody = true := by
  cases i <;> simp_all [BlockKind.endsWith, endsBody]

theorem Insn.endsBody_of_not_isJump {i : Insn} (h : i.isJump = false) : i.endsBody = true := by
  cases i <;> simp_all [isJump, endsBody]

namespace Span

variable {code : List Insn} {last last' : Insn → Bool} {span : Span}

/-- A span that ends in one kind of instruction ends in a wider kind. -/
theorem runsTo_mono (h : ∀ i, last i = true → last' i = true) (hspan : span.runsTo code last = true) :
    span.runsTo code last' = true := by
  simp only [runsTo, Bool.and_eq_true, Option.any_eq_true] at hspan ⊢
  obtain ⟨hinside, i, hi, hlast⟩ := hspan
  exact ⟨hinside, i, hi, h i hlast⟩

/-- What stands before the last instruction of a span is straight code, if anything does. -/
theorem runsTo_before_last (h : span.runsTo code last = true) (hne : span.start < span.stop - 1) :
    Span.runsTo code Insn.endsBody ⟨span.start, span.stop - 1⟩ = true := by
  obtain ⟨stop, _, hstop, _, _, _, hinside⟩ := exists_of_runsTo h
  simp only [runsTo, Bool.and_eq_true, decide_eq_true_eq, List.all_eq_true, Option.any_eq_true, mem_indices, mem_def]
  refine ⟨⟨hne, ?_⟩, ?_⟩
  · rintro index ⟨hge, hlt⟩
    obtain ⟨i, hi, hjump⟩ := hinside index hge (by omega)
    exact ⟨i, hi, by simpa using hjump⟩
  · obtain ⟨i, hi, hjump⟩ := hinside (span.stop - 1 - 1) (by omega) (by omega)
    exact ⟨i, hi, Insn.endsBody_of_not_isJump hjump⟩

end Span

namespace Graph

variable {src : Source} {g : Graph}

/-- A block ends in an instruction of its kind. -/
theorem Dictated.endsWith {id : BlockId} {i : Insn} {kind : BlockKind} (h : Dictated src g id (some i) kind) :
    kind.endsWith i = true := by
  cases h with
  | ret kind => rfl
  | throw => rfl
  | goto _ => rfl
  | jump _ _ => rfl
  | switch _ _ => rfl
  | plain hplain =>
    have hplain := hplain i rfl
    cases i <;> simp_all [Insn.isPlain, Insn.isJump, BlockKind.endsWith]

theorem isJump_of_isPlain {i : Insn} (h : i.isPlain = true) : i.isJump = false := by
  cases i <;> simp_all [Insn.isPlain, Insn.isJump]

/-- A block that is no marker holds no jump but maybe its last instruction, and that is one of its kind. -/
theorem Built.runsTo (hb : Built src g) {id : BlockId} {span : Span} {kind : BlockKind} (h : g.block? id = some ⟨span, kind⟩)
    (hkind : ∀ mark, kind ≠ .marker mark) : span.runsTo src.method.code kind.endsWith = true := by
  have hid := hb.lt_codeBlocks_of_block? h hkind
  obtain ⟨kind', hblock, hdictated⟩ := hb.dictated id hid
  cases h.symm.trans hblock
  obtain ⟨i, hi⟩ := hb.exists_last hid
  rw [hb.lastInsn?_eq hid, hi] at hdictated
  simp only [Span.runsTo, Bool.and_eq_true, decide_eq_true_eq, List.all_eq_true, Option.any_eq_true, Span.mem_indices,
    Span.mem_def]
  refine ⟨⟨hb.nonempty id hid, ?_⟩, i, hi, hdictated.endsWith⟩
  rintro index ⟨hge, hlt⟩
  obtain ⟨insn, hinsn, hplain⟩ := hb.inside id index hid hge (by omega)
  exact ⟨insn, hinsn, by simp [isJump_of_isPlain hplain]⟩

end Graph

/-! ## The code of conditions -/

namespace Region

variable {src : Source} {g : Graph} {r : Region}

/-- The spans of a chain of branches end in conditional jumps. -/
theorem BranchesTo.runsTo (hb : Graph.Built src g) {start count : Nat} {target : BlockId} (h : r.BranchesTo g start count target)
    (negate : Bool) {span : Span} (hspan : span ∈ Guard.spansAll (r.jumpGuards g negate start count)) :
    span.runsTo src.method.code Insn.isConditional = true := by
  rw [spansAll_jumpGuards negate start count none] at hspan
  obtain ⟨id, hid, rfl⟩ := List.mem_map.1 hspan
  obtain ⟨test, next, hblock⟩ := h.block_of_mem none hid
  exact hb.runsTo hblock nofun

/-- Every block of a condition in front of code ends with a conditional jump. -/
theorem guardChain?_runsTo (hb : Graph.Built src g) {start : Nat} {chain : Chain} (h : r.guardChain? g start = some chain) :
    ∀ span ∈ chain.guard.spans, span.runsTo src.method.code Insn.isConditional = true := by
  obtain ⟨count, target, _, hrun, rfl | ⟨skip, hskip, _, rfl⟩⟩ := guardChain?_cases h
  · intro span hspan
    rw [Guard.spans_combine (fun _ => by simp [Guard.spans])] at hspan
    exact hrun.runsTo hb true hspan
  · intro span hspan
    simp only [Guard.spans, Guard.spansAll_append, List.mem_append] at hspan
    rcases hspan with hspan | hspan
    · exact hrun.runsTo hb false hspan
    · exact hskip.runsTo hb true hspan

/-- Every block of a condition at the bottom of a loop ends with a conditional jump. -/
theorem loopGuard?_runsTo (hb : Graph.Built src g) {start last : Nat} {bodyEntry : BlockId} {guard : Guard} (hle : start ≤ last)
    (h : r.loopGuard? g start last bodyEntry = some guard) :
    ∀ span ∈ guard.spans, span.runsTo src.method.code Insn.isConditional = true := by
  obtain ⟨hrun, rfl⟩ | ⟨exit, hrun, hlast, _, rfl⟩ := loopGuard?_cases hle h
  · intro span hspan
    rw [Guard.spans_combine (fun _ => by simp [Guard.spans])] at hspan
    exact hrun.runsTo hb false hspan
  · intro span hspan
    simp only [Guard.spans, Guard.spansAll_append, List.mem_append] at hspan
    rcases hspan with hspan | hspan
    · exact hrun.runsTo hb true hspan
    · exact hlast.runsTo hb false hspan

end Region

/-! ## Regions -/

/-- Comments, breaks and continues can be executed. -/
theorem admits_isExecutable (code : List Insn) : Admits fun _ s => s.isExecutable code :=
  ⟨fun _ _ _ => rfl, fun _ _ _ _ => rfl, fun _ _ _ _ => rfl⟩

section

variable {subject : Subject} {P : RegionProperty} {around : List Breakable} {r : Region} {index : Nat}

/-- The sections of straight code can be executed. -/
theorem isExecutable_bodySections {code : List Insn} {span : Span}
    (h : span.start < span.stop → span.runsTo code Insn.endsBody = true) {s : Section} (hs : s ∈ bodySections span) :
    s.isExecutable code = true := by
  unfold bodySections at hs
  split at hs
  · cases hs
  · rename_i hempty
    rw [List.mem_singleton.1 hs]
    exact h (by simpa [Span.isEmpty] using hempty)

/-- A break or continue can be executed. -/
theorem isExecutable_resolveFrom {g : Graph} {target : BlockId} {jump : Option Nat} {s : Section} (code : List Insn)
    (h : resolveFrom g target jump 0 0 around = some s) : s.isExecutable code = true := by
  rcases resolveFrom_isJump h with ⟨d, rfl⟩ | ⟨d, rfl⟩
  · rfl
  · rfl

/-- The headers of clauses lie in the code. -/
theorem ClausesTaken.headers (hb : Graph.Built subject.toSource subject.graph) {exit : Option BlockId} {pending : List Marker}
    {cursor stop : Nat} {clauses : List (CatchSection (List Section))}
    (h : ClausesTaken subject P around r exit pending cursor clauses stop) :
    (clauses.all fun c => decide (c.header.start ≤ c.header.stop ∧ c.header.stop ≤ subject.method.code.length)) = true := by
  induction h with
  | nil => rfl
  | cons hshape _ _ ih =>
    obtain ⟨entries, used, handler, hat⟩ := Recognizer.handlerShape_cases hshape
    obtain ⟨hle, hstop⟩ := hb.spanOf_bounds handler
    rw [List.all_cons, ih, Bool.and_true, decide_eq_true_eq, hat.start]
    rcases Recognizer.handlerStart_cases subject handler with ⟨_, hheader⟩ | ⟨binding, _, hheader, _⟩
    · rw [hheader]
      exact ⟨Nat.le_refl _, hle.trans hstop⟩
    · rw [hheader]
      exact ⟨hle, hstop⟩

/-- The sections that a step takes can be executed. -/
theorem Taken.isExecutable (hb : Graph.Built subject.toSource subject.graph) {found : Match}
    (ht : Taken subject P around r index found) : ∀ s ∈ found.sections, s.isExecutable subject.method.code = true := by
  have hentry : ∀ {shape : Recognizer.EntryLoopShape}, Recognizer.entryLoopShape subject.graph r index = .ok (some shape) →
      Span.runsTo subject.method.code Insn.endsBody (subject.graph.spanOf shape.entry) = true ∧
        shape.guard.spans.all (Span.runsTo subject.method.code Insn.isConditional) = true := by
    intro shape hshape
    obtain ⟨_, _, _, hle, _, ⟨target, htarget, _⟩, bodyEntry, _, hguard⟩ := Recognizer.entryLoopShape_cases hshape
    obtain ⟨span, hblock⟩ := Graph.gotoTarget?_eq_some htarget
    have hspan : subject.graph.spanOf shape.entry = span := by rw [Graph.spanOf, hblock]; rfl
    rw [hspan, List.all_eq_true]
    exact ⟨Span.runsTo_mono (fun i hi => Insn.endsBody_of_goto hi) (hb.runsTo hblock (by simp)),
      Region.loopGuard?_runsTo hb hle hguard⟩
  cases ht with
  | straight _ hblock hkind =>
    intro s hs
    refine isExecutable_bodySections (fun _ => ?_) hs
    rcases hkind with rfl | ⟨next, rfl⟩
    · exact Span.runsTo_mono (fun i hi => Insn.endsBody_of_not_isJump (by simpa [BlockKind.endsWith] using hi))
        (hb.runsTo hblock (by simp))
    · exact Span.runsTo_mono (fun i hi => Insn.endsBody_of_not_isJump (by simpa [BlockKind.endsWith] using hi))
        (hb.runsTo hblock (by simp))
  | falling _ hblock _ =>
    intro s hs
    exact isExecutable_bodySections (fun _ => Span.runsTo_mono (fun i hi => Insn.endsBody_of_goto hi) (hb.runsTo hblock (by simp))) hs
  | jumping _ hblock _ hjump =>
    intro s hs
    rcases List.mem_append.1 hs with hs | hs
    · exact isExecutable_bodySections (Span.runsTo_before_last (hb.runsTo hblock (by simp))) hs
    · rw [List.mem_singleton.1 hs]
      exact isExecutable_resolveFrom _ hjump
  | leaving hchain _ _ => simpa [Section.isExecutable] using Region.guardChain?_runsTo hb hchain
  | branch hchain _ _ _ => simpa [Section.isExecutable] using Region.guardChain?_runsTo hb hchain
  | branchElse hchain _ _ _ _ => simpa [Section.isExecutable] using Region.guardChain?_runsTo hb hchain
  | loop _ hshape _ =>
    obtain ⟨_, _, ⟨testAt, test, guard, _, hle, _, hguard, heq⟩ | ⟨last, _, _, ⟨chain, hchain, _, _, heq⟩ | heq⟩⟩ :=
      Recognizer.loopShape_cases hshape
    · rw [heq]
      simpa [Section.isExecutable] using Region.loopGuard?_runsTo hb hle hguard
    · rw [heq]
      simpa [Section.isExecutable] using Region.guardChain?_runsTo hb hchain
    · rw [heq]
      simp [Section.isExecutable]
  | entryLoop hshape _ => simpa [Section.isExecutable] using hentry hshape
  | entryLoopUpdate hshape _ _ _ _ _ _ => simpa [Section.isExecutable] using hentry hshape
  | switch hlayout _ =>
    obtain ⟨id, arms, otherwise, _, hblock, _⟩ := Recognizer.switchLayout_cases hlayout
    have hkey : Span.runsTo subject.method.code Insn.isSwitch _ = true := hb.runsTo hblock (by simp)
    simpa [Section.isExecutable] using hkey
  | tryCatch _ _ _ _ hclauses => simpa [Section.isExecutable] using hclauses.headers hb

/-- What a region becomes can be executed. -/
theorem Scanned.isExecutable (hb : Graph.Built subject.toSource subject.graph) {sections : List Section}
    (h : Scanned subject (Passes fun _ s => s.isExecutable subject.method.code) around r index sections) :
    Passes (fun _ s => s.isExecutable subject.method.code) around r sections :=
  h.everywhere (admits_isExecutable _) (fun _ _ _ => id) fun _ _ htaken => htaken.isExecutable hb

end

/-- Every section of a method can be executed. -/
theorem everywhereAll_isExecutable (subject : Subject) (hb : Graph.Built subject.toSource subject.graph)
    {recognizers : List Recognizer} (hrec : ∀ recognizer ∈ recognizers, recognizer ∈ Recognizer.all) {s t : Session}
    {sections : List Section} (hs : s.breakables = []) (h : subject.sections recognizers s = .ok sections t) :
    Section.everywhereAll (fun _ s => s.isExecutable subject.method.code) .outermost sections = true := by
  have hinner := Subject.inner_of_sections (fun _ _ _ hscanned => hscanned.isExecutable hb) hrec h
  rw [hs] at hinner
  exact hinner.everywhere (admits_isExecutable _)

/-- The sections of a method can be built into statements. -/
theorem everywhereAll_isBuildable (subject : Subject) (hb : Graph.Built subject.toSource subject.graph)
    {recognizers : List Recognizer} (hrec : ∀ recognizer ∈ recognizers, recognizer ∈ Recognizer.all) {s t : Session}
    {sections : List Section} (hs : s.breakables = []) (h : subject.sections recognizers s = .ok sections t) :
    Section.everywhereAll (Section.isBuildable subject.method.code) .outermost sections = true :=
  Section.everywhereAll_and (fun _ _ hexecutable hwell => by rw [Section.isBuildable, hexecutable, hwell, Bool.and_self])
    (everywhereAll_isExecutable subject hb hrec hs h) (everywhereAll_isWellFormed subject hrec hs h)

/-! ## Methods -/

/-- Binding keeps the method and explains all of its accesses. -/
theorem Method.source_explains {m : Method} {events events' : List Event} {src : Source} (h : m.source events = .ok src events') :
    src.method = m ∧ src.locals.Explains src.method.code := by
  unfold Method.source at h
  obtain ⟨labels, _, _, h⟩ := run_bind_eq_ok.1 h
  obtain ⟨locals, _, hlocals, h⟩ := run_bind_eq_ok.1 h
  cases h
  obtain ⟨type, declared, stores, _, _, _, hls⟩ := Method.bindLocals_cases (Traced.mapError_eq_ok.1 hlocals)
  have hknown := m.bindKnown_disjoint type declared
  rw [Binding.offerAll_of_foldlM (b := ⟨_, []⟩) (foldlM_insert?_synthesized hknown)] at hls
  rw [hls]
  exact ⟨rfl, synthesized_explains hknown⟩

/-- In the sections of a method straight code holds no jump but maybe a goto at its end, and conditions and keys of switches end with
their jump and hold no other. So the statements can be built from them, whatever the settings, unless the stack does not hold what
the code takes, or more than it leaves, a condition does more than compare, or a descriptor cannot be read. -/
theorem structured_sections_execute (m : Method) (src : Source) (g : Graph) (settings : Settings)
    (events events₁ events₂ events₃ : List Event) (sections : List Section) (hsrc : m.source events = .ok src events₁)
    (hgraph : Graph.build src Producer.all = .ok g)
    (hsections : Subject.sectionsTraced ⟨src, g, settings⟩ Recognizer.all events₂ = .ok sections events₃) :
    Section.everywhereAll (fun _ s => s.isExecutable m.code) .outermost sections = true ∧
      ∀ (settings' : Settings) (events events' : List Event) (e : StatementError),
        src.body settings' sections events = .error e events' → e.isAboutValues = true := by
  obtain ⟨rfl, hls⟩ := Method.source_explains hsrc
  obtain ⟨s, hs⟩ := Subject.exists_of_sectionsTraced hsections
  have hb : Graph.Built src g := Graph.built_of_build hgraph
  refine ⟨everywhereAll_isExecutable ⟨src, g, settings⟩ hb (fun _ => id) rfl hs, ?_⟩
  intro settings' events events' e herror
  exact Source.isAboutValues_of_body hls (everywhereAll_isBuildable ⟨src, g, settings⟩ hb (fun _ => id) rfl hs) herror

/-- A method with a switch in a loop, one of whose cases discards a value that is not there. -/
def emptyStack : Method where
  owner := "A"
  name := "m"
  descriptor := "(I)V"
  isStatic := true
  code := [.label ⟨0⟩, .load .int 0, .switch ⟨2⟩ [(1, ⟨1⟩)], .label ⟨1⟩, .pop, .label ⟨2⟩, .load .int 0, .jump .eq ⟨0⟩, .load .int 1,
    .jump .lt ⟨0⟩, .ret none]
  variableTable := []
  handlerTable := []

/-- The sections of the method can be executed up to the value that is missing. -/
theorem structured_sections_execute_underflow :
    ∃ src g sections events₁ events₃ events', emptyStack.source [] = .ok src events₁ ∧ Graph.build src Producer.all = .ok g ∧
      Subject.sectionsTraced ⟨src, g, ⟨false, 10, true⟩⟩ Recognizer.all [] = .ok sections events₃ ∧
      src.body ⟨false, 10, true⟩ sections [] = .error (.stackUnderflow 4) events' ∧
      Section.everywhereAll (fun _ s => s.isExecutable emptyStack.code) .outermost sections = true ∧
      (StatementError.stackUnderflow 4).isAboutValues = true := by
  have hlifts : (match emptyStack.source [] with
      | .ok src _ => src.structuresInto ⟨false, 10, true⟩ fun sections =>
        match src.body ⟨false, 10, true⟩ sections [] with
        | .error (.stackUnderflow 4) _ => true
        | _ => false
      | .error _ _ => false) = true := by decide +kernel
  split at hlifts
  · rename_i src events₁ hsrc
    obtain ⟨g, sections, events₃, hgraph, hsections, htest⟩ := Source.exists_of_structuresInto hlifts
    split at htest
    · rename_i events' hbody
      obtain ⟨hexecutable, herrors⟩ := structured_sections_execute emptyStack src g _ [] _ [] _ sections hsrc hgraph hsections
      exact ⟨src, g, sections, events₁, events₃, events', hsrc, hgraph, hsections, hbody, hexecutable, herrors _ _ _ _ hbody⟩
    · cases htest
  · cases hlifts

end CodeLift
