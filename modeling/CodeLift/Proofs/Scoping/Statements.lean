import CodeLift.Proofs.Comments.Lifting
import CodeLift.Proofs.Executable

/-!
# Lifted methods are well scoped

The statements of a method take the scopes of its sections over, and the passes keep them: breaks and continues name constructs
around them, updates of loops are straight, and conditions that combine others combine two at least.
-/

namespace CodeLift

/-! ## Passes -/

namespace Statement

section

variable {p : Scope → Statement → Bool} {change : List Statement → Id (List Statement)}

/-- A change to lists of statements keeps a test: a statement passes it still after the lists inside it are changed, and a list of
which all passes it does so after the change. -/
structure Keeps (p : Scope → Statement → Bool) (change : List Statement → Id (List Statement)) : Prop where
  own : ∀ scope s, p scope s = true → p scope (mapInner change s).run = true
  lists : ∀ scope statements, everywhereAll p scope statements = true → everywhereAll p scope (change statements).run = true

mutual

/-- A change of the inner lists keeps a test on all of a statement. -/
theorem everywhere_mapInner (h : Keeps p change) {scope : Scope} (s : Statement) (hs : everywhere p scope s = true) :
    everywhere p scope (mapInner change s).run = true := by
  cases s with
  | branch condition thenPart elsePart =>
    simp only [everywhere, Bool.and_eq_true] at hs
    have hown := h.own _ _ hs.1.1
    have hthen := h.lists _ _ (everywhereAll_mapEach h thenPart hs.1.2)
    have helse := h.lists _ _ (everywhereAll_mapEach h elsePart hs.2)
    simp_all [mapInner]
  | whileDo condition body =>
    simp only [everywhere, Bool.and_eq_true] at hs
    have hown := h.own _ _ hs.1
    have hbody := h.lists _ _ (everywhereAll_mapEach h body hs.2)
    simp_all [mapInner]
  | doWhile condition body =>
    simp only [everywhere, Bool.and_eq_true] at hs
    have hown := h.own _ _ hs.1
    have hbody := h.lists _ _ (everywhereAll_mapEach h body hs.2)
    simp_all [mapInner]
  | forUpdate condition update body =>
    simp only [everywhere, Bool.and_eq_true] at hs
    have hown := h.own _ _ hs.1.1
    have hupdate := h.lists _ _ (everywhereAll_mapEach h update hs.1.2)
    have hbody := h.lists _ _ (everywhereAll_mapEach h body hs.2)
    simp_all [mapInner]
  | switch key cases =>
    simp only [everywhere, Bool.and_eq_true] at hs
    have hown := h.own _ _ hs.1
    have hcases := everywhereCases_mapCases h cases hs.2
    simp_all [mapInner]
  | tryCatch body clauses =>
    simp only [everywhere, Bool.and_eq_true] at hs
    have hown := h.own _ _ hs.1.1
    have hbody := h.lists _ _ (everywhereAll_mapEach h body hs.1.2)
    have hclauses := everywhereClauses_mapClauses h clauses hs.2
    simp_all [mapInner]
  | _ => exact hs

/-- A change of the inner lists of each statement keeps a test on all of them. -/
theorem everywhereAll_mapEach (h : Keeps p change) {scope : Scope} (statements : List Statement)
    (hs : everywhereAll p scope statements = true) : everywhereAll p scope (mapEach change statements).run = true := by
  cases statements with
  | nil => simp [mapEach]
  | cons s rest =>
    simp only [everywhereAll, Bool.and_eq_true] at hs
    simp [mapEach, everywhere_mapInner h s hs.1, everywhereAll_mapEach h rest hs.2]

theorem everywhereCases_mapCases (h : Keeps p change) {scope : Scope} (cases : List (Case (List Statement)))
    (hs : everywhereCases p scope cases = true) : everywhereCases p scope (mapCases change cases).run = true := by
  cases cases with
  | nil => simp [mapCases]
  | cons c rest =>
    obtain ⟨values, isDefault, body⟩ := c
    simp only [everywhereCases, Bool.and_eq_true] at hs
    have hbody := h.lists _ _ (everywhereAll_mapEach h body hs.1)
    simp [mapCases, hbody, everywhereCases_mapCases h rest hs.2]

theorem everywhereClauses_mapClauses (h : Keeps p change) {scope : Scope} (clauses : List (Catch (List Statement)))
    (hs : everywhereClauses p scope clauses = true) : everywhereClauses p scope (mapClauses change clauses).run = true := by
  cases clauses with
  | nil => simp [mapClauses]
  | cons c rest =>
    obtain ⟨catches, boundTo, body⟩ := c
    simp only [everywhereClauses, Bool.and_eq_true] at hs
    have hbody := h.lists _ _ (everywhereAll_mapEach h body hs.1)
    simp [mapClauses, hbody, everywhereClauses_mapClauses h rest hs.2]

end

/-- A change that keeps a test for single lists keeps it for the whole tree. -/
theorem everywhereAll_mapLists (h : Keeps p change) {scope : Scope} {statements : List Statement}
    (hs : everywhereAll p scope statements = true) : everywhereAll p scope (mapLists change statements).run = true := by
  simpa [mapLists] using h.lists _ _ (everywhereAll_mapEach h statements hs)

/-- Straight statements hold no lists that could be changed. -/
theorem mapEach_of_straight {statements : List Statement} (h : statements.all isStraight = true) :
    (mapEach change statements).run = statements := by
  induction statements with
  | nil => simp [mapEach]
  | cons s rest ih =>
    simp only [List.all_cons, Bool.and_eq_true] at h
    have hinner : (mapInner change s).run = s := by
      cases s <;> simp_all [isStraight, isSimple, mapInner]
    simp [mapEach, hinner, ih h.2]

end

end Statement

namespace Pass

variable {arena : Arena}

/-- Rewriting keeps straight statements straight. -/
theorem isStraight_toIncrement {s : Statement} (h : s.isStraight = true) : (toIncrement arena s).isStraight = true := by
  unfold toIncrement
  split
  · split
    · rfl
    · rfl
  · exact h

/-- Rewriting a sound statement gives a sound one. -/
theorem everywhere_toIncrement {n : Nat} {scope : Scope} {s : Statement}
    (h : Statement.everywhere (Statement.isSound n) scope s = true) :
    Statement.everywhere (Statement.isSound n) scope (toIncrement arena s) = true := by
  unfold toIncrement
  split
  · split
    · rfl
    · exact h
  · exact h

theorem everywhereAll_map_toIncrement {n : Nat} {scope : Scope} {statements : List Statement}
    (h : Statement.SoundAll scope n statements) : Statement.SoundAll scope n (statements.map (toIncrement arena)) := by
  induction statements with
  | nil => rfl
  | cons s rest ih =>
    simp only [Statement.SoundAll, Statement.everywhereAll, Bool.and_eq_true] at h
    simp only [Statement.SoundAll, List.map_cons, Statement.everywhereAll, Bool.and_eq_true]
    exact ⟨everywhere_toIncrement h.1, ih h.2⟩

/-- The pass keeps statements sound. -/
theorem keeps_toIncrement (n : Nat) :
    Statement.Keeps (Statement.isSound n) fun statements => pure (statements.map (toIncrement arena)) := by
  constructor
  · intro scope s hs
    cases s with
    | forUpdate condition update body =>
      simp only [Statement.isSound, Statement.isWellFormed, Statement.operands, Bool.and_eq_true] at hs
      obtain ⟨⟨hproper, hstraight⟩, hoperands⟩ := hs
      have hupdate : (update.map (toIncrement arena)).all Statement.isStraight = true := by
        rw [List.all_map, List.all_eq_true]
        intro s hs
        exact isStraight_toIncrement (List.all_eq_true.1 hstraight s hs)
      simp [Statement.mapInner, Statement.mapEach_of_straight hstraight, Statement.isSound, Statement.isWellFormed,
        Statement.operands, hproper, hupdate, hoperands]
    | _ => exact hs
  · intro scope statements hs
    exact everywhereAll_map_toIncrement hs

/-- The passes keep statements well formed, over the same arena. -/
theorem soundAll_runAll (m : Method) (ls : Locals) (runPasses : Bool) {body : Body} {n : Nat}
    (h : Statement.SoundAll .outermost n body.statements) :
    (runAll m ls (if runPasses then [increment] else []) body).1.arena = body.arena ∧
      Statement.SoundAll .outermost n (runAll m ls (if runPasses then [increment] else []) body).1.statements := by
  cases runPasses with
  | false => exact ⟨rfl, h⟩
  | true => exact ⟨rfl, Statement.everywhereAll_mapLists (keeps_toIncrement n) h⟩

end Pass

/-! ## Lifted methods -/

theorem Graph.build_of_buildTraced {src : Source} {producers : List Producer} {g : Graph} {events events' : List Event}
    (h : Graph.buildTraced src producers events = .ok g events') : Graph.build src producers = .ok g := by
  unfold Graph.buildTraced at h
  obtain ⟨g', _, hbuild, h⟩ := run_bind_eq_ok.1 h
  obtain ⟨_, _, _, h⟩ := run_bind_eq_ok.1 h
  cases h
  exact (Traced.ofExcept_eq_ok.1 hbuild).1

/-- What is known of a lifted method: its sections can be built, and its statements refer to expressions of its arena only. -/
structure Decompiled.Sound (code : List Insn) (r : Decompiled) : Prop where
  sections : Section.everywhereAll (Section.isBuildable code) .outermost r.sections = true
  closed : r.body.arena.IsClosed
  statements : Statement.SoundAll .outermost r.body.arena.size r.body.statements

/-- What lifting gives is sound. -/
theorem Decompiler.decompile_sound {m : Method} {settings : Settings} {events events' : List Event} {r : Decompiled}
    (h : (Decompiler.standard settings).decompile m events = .ok r events') : r.Sound m.code := by
  obtain ⟨src, events₁, g, events₂, sections, events₃, body, events₄, hsrc, hgraph, hsections, hbody, rfl, _⟩ :=
    Decompiler.decompile_eq_ok.1 h
  obtain ⟨rfl, hls⟩ := Method.source_explains hsrc
  obtain ⟨s, hs⟩ := Subject.exists_of_sectionsTraced hsections
  have hb : Graph.Built src g := Graph.built_of_build (Graph.build_of_buildTraced hgraph)
  have hbuildable := everywhereAll_isBuildable ⟨src, g, settings⟩ hb (fun _ => id) rfl hs
  obtain ⟨hclosed, hstatements⟩ := Source.body_sound hls hbuildable hbody
  obtain ⟨harena, hpasses⟩ := Pass.soundAll_runAll src.method src.locals settings.runPasses hstatements
  refine ⟨hbuildable, ?_, ?_⟩
  · exact harena ▸ hclosed
  · exact harena ▸ hpasses

/-- In the sections and in the statements of a lifted method, whatever the settings, every break leaves a loop or switch around it
and every continue is of a loop around it; a loop has no condition exactly if it goes on forever, only a loop with an update has
one, of straight code, and conditions that combine others combine two at least. -/
theorem lifted_code_is_well_scoped (m : Method) (settings : Settings) (events events' : List Event) (r : Decompiled)
    (h : (Decompiler.standard settings).decompile m events = .ok r events') :
    Section.everywhereAll Section.isWellFormed .outermost r.sections = true ∧
      Statement.everywhereAll Statement.isWellFormed .outermost r.body.statements = true := by
  have hsound := Decompiler.decompile_sound h
  constructor
  · exact Section.everywhereAll_and (fun _ _ hs _ => (Bool.and_eq_true_iff.1 hs).2) hsound.sections hsound.sections
  · exact Statement.everywhereAll_mono (fun _ _ hs => (Bool.and_eq_true_iff.1 hs).1) hsound.statements

/-- The method with a switch in a loop, with its two variables as parameters. -/
def countedSwitch : Method := { loopWithSwitch.method with descriptor := "(II)V" }

/-- The break of the method leaves the switch and the loop around it. -/
theorem lifted_code_is_well_scoped_break :
    ∃ r events, (Decompiler.standard ⟨false, 10, true⟩).decompile countedSwitch [] = .ok r events ∧
      Section.everywhereAll Section.isWellFormed .outermost r.sections = true ∧
      Statement.everywhereAll Statement.isWellFormed .outermost r.body.statements = true ∧
      Statement.everywhereAll (fun _ s => !(s matches .breakOut 1)) .outermost r.body.statements = false := by
  have hlifts : succeedsWith
      (fun r => !Statement.everywhereAll (fun _ s => !(s matches .breakOut 1)) .outermost r.body.statements)
      ((Decompiler.standard ⟨false, 10, true⟩).decompile countedSwitch []) = true := by decide +kernel
  obtain ⟨r, events, h, hbreak⟩ := exists_of_succeedsWith hlifts
  obtain ⟨hsections, hstatements⟩ := lifted_code_is_well_scoped _ _ _ _ _ h
  exact ⟨r, events, h, hsections, hstatements, by simpa using hbreak⟩

end CodeLift
