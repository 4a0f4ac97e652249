import CodeLift.Proofs.Executable

/-!
# Code that a structure implies

Not all code becomes statements. A goto can be implied by the construct around it, and so is what a handler does first with the
exception it catches. `everywhereAll_impliesOnly` says that where there are no comments nothing else is left out.
-/

namespace CodeLift

/-- Whether an instruction can be implied by the construct that it belongs to. -/
def Insn.isImplied : Insn → Bool
  | .label _ | .line _ | .goto _ | .store _ _ | .pop => true
  | _ => false

theorem Insn.isImplied_of_isMarker {i : Insn} (h : i.isMarker = true) : i.isImplied = true := by
  cases i <;> first | rfl | cases h

namespace Section

/-- The instructions that a section stands for without any of its parts standing for them. -/
def implied : Section → List Nat
  | .breakOut _ jump | .continueNext _ jump => jump.toList
  | .tryCatch _ clauses => clauses.flatMap fun c => c.header.indices
  | .comment _ spans => spans.flatMap Span.indices
  | _ => []

/-- Whether the instructions that a section implies can be implied. -/
def impliesOnly (code : List Insn) (s : Section) : Bool := s.implied.all fun index => code[index]?.any Insn.isImplied

section

variable (code : List Insn)

@[simp] theorem impliesOnly_body (span : Span) : (body span).impliesOnly code = true := rfl

@[simp] theorem impliesOnly_branch (guard : Guard) (thenPart elsePart : List Section) :
    (branch guard thenPart elsePart).impliesOnly code = true := rfl

@[simp] theorem impliesOnly_loop (kind : LoopKind) (guard : Option Guard) (loopBody update : List Section) :
    (loop kind guard loopBody update).impliesOnly code = true := rfl

@[simp] theorem impliesOnly_switch (key : Span) (cases : List (Case (List Section))) :
    (switch key cases).impliesOnly code = true := rfl

end

end Section

/-- What stands in a handler up to its binding is implied. -/
theorem isImplied_of_handlerBinding? {code : List Insn} {handler binding index : Nat}
    (h : handlerBinding? code handler = some binding) (hge : handler ≤ index) (hle : index ≤ binding) :
    code[index]?.any Insn.isImplied = true := by
  obtain ⟨found, hfound, h⟩ := Option.bind_eq_some_iff.1 h
  obtain ⟨offset, hoffset, rfl⟩ := Option.map_eq_some_iff.1 hfound
  obtain ⟨hlt, _, hbefore⟩ := List.findIdx?_eq_some_iff_getElem.1 hoffset
  rw [List.length_drop] at hlt
  have hbinding : binding = handler + offset ∧ code[binding]?.any Insn.isImplied = true := by
    split at h
    · rename_i hinsn
      cases h
      simp [hinsn, Insn.isImplied]
    · rename_i hinsn
      cases h
      simp [hinsn, Insn.isImplied]
    · cases h
  by_cases heq : index = binding
  · rw [heq]
    exact hbinding.2
  · have hmarker := hbefore (index - handler) (by omega)
    rw [List.getElem_drop] at hmarker
    have hi : code[index]? = some code[handler + (index - handler)] := by
      rw [← List.getElem?_eq_getElem, Nat.add_sub_cancel' hge]
    rw [hi, Option.any_some]
    exact Insn.isImplied_of_isMarker (by simpa using hmarker)

/-- A region becomes sections that imply only what can be implied. -/
def ImpliesOnly (subject : Subject) : RegionProperty := fun _ _ sections =>
  ∀ scope, Section.everywhereAll (fun _ s => s.impliesOnly subject.method.code) scope sections = true

section

variable {subject : Subject} {around : List Breakable} {r : Region} {index : Nat}

theorem everywhereAll_impliesOnly_bodySections (code : List Insn) (scope : Scope) (span : Span) :
    Section.everywhereAll (fun _ s => s.impliesOnly code) scope (bodySections span) = true := by
  refine everywhereAll_bodySections fun s hs => ?_
  unfold bodySections at hs
  split at hs <;> simp_all [Section.impliesOnly, Section.implied]

theorem everywhere_impliesOnly_resolveFrom {g : Graph} {target : BlockId} {jump : Option Nat} {code : List Insn} {s : Section}
    (h : resolveFrom g target jump 0 0 around = some s) (hjump : ∀ index ∈ jump, code[index]?.any Insn.isImplied = true)
    (scope : Scope) : Section.everywhere (fun _ s => s.impliesOnly code) scope s = true := by
  rcases resolveFrom_isJump h with ⟨d, rfl⟩ | ⟨d, rfl⟩ <;> cases jump <;> simp_all [Section.impliesOnly, Section.implied]

theorem CasesTaken.impliesOnly (hset : subject.settings.commentOnError = false) {s : Recognizer.SwitchLayout} {stop : Nat}
    {places : List Nat} {cases : List (Case (List Section))}
    (h : CasesTaken subject (ImpliesOnly subject) around r s stop places cases) (scope : Scope) :
    Section.everywhereCases (fun _ s => s.impliesOnly subject.method.code) scope cases = true := by
  induction h with
  | nil => rfl
  | cons _ _ hbody _ ih => simp [hbody.of_strict hset scope, ih]

theorem ClausesTaken.impliesOnly (hset : subject.settings.commentOnError = false) {exit : Option BlockId} {pending : List Marker}
    {cursor stop : Nat} {clauses : List (CatchSection (List Section))}
    (h : ClausesTaken subject (ImpliesOnly subject) around r exit pending cursor clauses stop) (scope : Scope) :
    Section.everywhereClauses (fun _ s => s.impliesOnly subject.method.code) scope clauses = true ∧
      ∀ c ∈ clauses, ∀ index ∈ c.header.indices, subject.method.code[index]?.any Insn.isImplied = true := by
  induction h with
  | nil => simp
  | cons hshape hbody _ ih =>
    obtain ⟨entries, used, handler, hat⟩ := Recognizer.handlerShape_cases hshape
    refine ⟨by simp [hbody.of_strict hset scope, ih.1], List.forall_mem_cons.2 ⟨?_, ih.2⟩⟩
    dsimp only
    intro index hindex
    rw [hat.start] at hindex
    rcases Recognizer.handlerStart_cases subject handler with ⟨_, hheader⟩ | ⟨binding, _, hheader, hstop, hbinding⟩
    · simp [hheader] at hindex
    · rw [hheader, Span.mem_indices, Span.mem_def] at hindex
      exact isImplied_of_handlerBinding? hbinding hindex.1 (by omega)

/-- What one step takes implies only what can be implied. -/
theorem Taken.impliesOnly (hb : Graph.Built subject.toSource subject.graph) (hset : subject.settings.commentOnError = false)
    {found : Match} (ht : Taken subject (ImpliesOnly subject) around r index found) (scope : Scope) :
    Section.everywhereAll (fun _ s => s.impliesOnly subject.method.code) scope found.sections = true := by
  cases ht with
  | straight _ _ _ => exact everywhereAll_impliesOnly_bodySections _ scope _
  | falling _ _ _ => exact everywhereAll_impliesOnly_bodySections _ scope _
  | @jumping id target span jump _ hblock _ hjump =>
    obtain ⟨stop, i, hstop, _, hi, hlast, _⟩ := Span.exists_of_runsTo (hb.runsTo hblock (by simp))
    have hgoto : i.isImplied = true := by cases i <;> simp_all [BlockKind.endsWith, Insn.isImplied]
    rw [Section.everywhereAll_append, everywhereAll_impliesOnly_bodySections, Bool.true_and, Section.everywhereAll,
      Section.everywhereAll, Bool.and_true]
    refine everywhere_impliesOnly_resolveFrom hjump ?_ scope
    rintro _ ⟨⟩
    rw [hstop, Nat.add_sub_cancel, hi, Option.any_some, hgoto]
  | leaving _ _ hjump => simp [everywhere_impliesOnly_resolveFrom hjump (by simp)]
  | branch _ _ _ hthen => simp [hthen.of_strict hset scope]
  | branchElse _ _ _ hthen helsePart => simp [hthen.of_strict hset scope, helsePart.of_strict hset scope]
  | loop _ _ hbody => simp [hbody.of_strict hset scope.inLoop]
  | entryLoop _ hbody => simp [hbody.of_strict hset scope.inLoop]
  | entryLoopUpdate _ _ _ _ _ hbody hupdate => simp [hbody.of_strict hset scope.inLoop, hupdate scope]
  | @switch key s stop cases _ hcases =>
    have hskipped : Section.everywhereCases (fun _ s => s.impliesOnly subject.method.code) scope.inSwitch
        (s.skippedCases stop) = true := by
      unfold Recognizer.SwitchLayout.skippedCases
      split <;> simp [Section.impliesOnly, Section.implied]
    simp [hcases.impliesOnly hset scope.inSwitch, hskipped]
  | @tryCatch _ _ _ _ body clauses _ _ _ _ hbody hclauses =>
    obtain ⟨hinner, hheaders⟩ := hclauses.impliesOnly hset scope
    have hown : (Section.tryCatch body clauses).impliesOnly subject.method.code = true := by
      simpa [Section.impliesOnly, Section.implied] using hheaders
    simp [hown, hbody.of_strict hset scope, hinner]

/-- What a region becomes implies only what can be implied. -/
theorem Scanned.impliesOnly (hb : Graph.Built subject.toSource subject.graph) (hset : subject.settings.commentOnError = false)
    {sections : List Section} (h : Scanned subject (ImpliesOnly subject) around r index sections) :
    ImpliesOnly subject around r sections := by
  intro scope
  induction h with
  | done _ => rfl
  | step htaken _ _ ih => rw [Section.everywhereAll_append, htaken.impliesOnly hb hset scope, ih, Bool.and_self]

end

/-- Where comments are not allowed, the sections of a method imply markers, gotos and the bindings of exceptions only. -/
theorem everywhereAll_impliesOnly (subject : Subject) (hb : Graph.Built subject.toSource subject.graph)
    (hset : subject.settings.commentOnError = false) {recognizers : List Recognizer}
    (hrec : ∀ recognizer ∈ recognizers, recognizer ∈ Recognizer.all) {s t : Session} {sections : List Section}
    (h : subject.sections recognizers s = .ok sections t) (scope : Scope) :
    Section.everywhereAll (fun _ s => s.impliesOnly subject.method.code) scope sections = true :=
  (Subject.inner_of_sections (fun _ _ _ hscanned => hscanned.impliesOnly hb hset) hrec h).of_strict hset scope

end CodeLift
