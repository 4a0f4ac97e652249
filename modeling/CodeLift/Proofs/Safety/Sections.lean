import CodeLift.Proofs.Coverage
import CodeLift.Proofs.Executable
import CodeLift.Proofs.Safety.Graph

/-!
# Sections lie in the code

Every span that the sections of a method stand for starts no later than it ends, and ends in the code, also if it is empty.
-/

namespace CodeLift

/-- A span of the code of a given length. -/
def Span.LiesIn (n : Nat) (span : Span) : Prop := span.start ≤ span.stop ∧ span.stop ≤ n

/-- Whatever sections stand for is a span of the code. -/
def Section.LieIn (n : Nat) (sections : List Section) : Prop := ∀ span ∈ spansAll sections, span.LiesIn n

namespace Section.LieIn

variable {n : Nat} {xs ys : List Section}

theorem nil (n : Nat) : LieIn n [] := fun _ h => by cases h

/-- Sections in a row lie in the code. -/
theorem append (hx : LieIn n xs) (hy : LieIn n ys) : LieIn n (xs ++ ys) := by
  intro span hspan
  rw [spansAll_append] at hspan
  rcases List.mem_append.1 hspan with hspan | hspan
  · exact hx span hspan
  · exact hy span hspan

/-- A section whose own spans and the spans inside which lie in the code. -/
theorem single {s : Section} (h : ∀ span ∈ s.spans, span.LiesIn n) : LieIn n [s] := by
  intro span hspan
  rw [spansAll, spansAll, List.append_nil] at hspan
  exact h span hspan

/-- A branch lies in the code if its condition and its lists do. -/
theorem branch {guard : Guard} (hguard : ∀ span ∈ guard.spans, span.LiesIn n) (hx : LieIn n xs) (hy : LieIn n ys) :
    LieIn n [.branch guard xs ys] := by
  refine single fun span hspan => ?_
  simp only [spans, List.mem_append] at hspan
  rcases hspan with (hspan | hspan) | hspan
  · exact hguard span hspan
  · exact hx span hspan
  · exact hy span hspan

/-- A loop lies in the code if its condition and its lists do. -/
theorem loop {kind : LoopKind} {guard : Option Guard} (hguard : ∀ g, guard = some g → ∀ span ∈ g.spans, span.LiesIn n)
    (hx : LieIn n xs) (hy : LieIn n ys) : LieIn n [.loop kind guard xs ys] := by
  refine single fun span hspan => ?_
  simp only [spans, List.mem_append] at hspan
  rcases hspan with (hspan | hspan) | hspan
  · cases guard with
    | none => cases hspan
    | some g => exact hguard g rfl span hspan
  · exact hx span hspan
  · exact hy span hspan

/-- A switch lies in the code if its key and its cases do. -/
theorem switch {key : Span} {cases : List (Case (List Section))} (hkey : key.LiesIn n)
    (hcases : ∀ span ∈ spansCases cases, span.LiesIn n) : LieIn n [.switch key cases] := by
  refine single fun span hspan => ?_
  rw [spans] at hspan
  rcases List.mem_cons.1 hspan with rfl | hspan
  · exact hkey
  · exact hcases span hspan

/-- A try lies in the code if its body and its clauses do. -/
theorem tryCatch {clauses : List (CatchSection (List Section))} (hx : LieIn n xs)
    (hclauses : ∀ span ∈ spansClauses clauses, span.LiesIn n) : LieIn n [.tryCatch xs clauses] := by
  refine single fun span hspan => ?_
  rw [spans] at hspan
  rcases List.mem_append.1 hspan with hspan | hspan
  · exact hx span hspan
  · exact hclauses span hspan

/-- A body lies in the code if its span does. -/
theorem body {span : Span} (h : span.LiesIn n) : LieIn n [.body span] := by
  refine single fun span' hspan => ?_
  rw [spans, List.mem_singleton] at hspan
  rw [hspan]
  exact h

/-- The sections of a span lie in the code if the span does. -/
theorem bodySections {span : Span} (h : span.LiesIn n) : LieIn n (bodySections span) := by
  unfold CodeLift.bodySections
  split
  · exact nil n
  · exact body h

end Section.LieIn

/-- Code that runs to its last instruction lies in the code. -/
theorem Span.liesIn_of_runsTo {code : List Insn} {last : Insn → Bool} {span : Span} (h : span.runsTo code last = true) :
    span.LiesIn code.length := by
  obtain ⟨stop, insn, hstop, hle, hinsn, _⟩ := Span.exists_of_runsTo h
  have hlt := (List.getElem?_eq_some_iff.1 hinsn).1
  exact ⟨by omega, by omega⟩

section

variable {subject : Subject} {around : List Breakable} {r : Region} {index : Nat}

/-- Regions become sections that lie in the code. -/
def InCode (subject : Subject) : RegionProperty := fun _ _ sections => Section.LieIn subject.method.code.length sections

/-- What a part of a region becomes lies in the code. -/
theorem Inner.lieIn (hb : Graph.Built subject.toSource subject.graph) {sections : List Section}
    (h : Inner subject (InCode subject) around r sections) : Section.LieIn subject.method.code.length sections := by
  rcases h with h | ⟨_, rfl⟩
  · exact h
  · refine Section.LieIn.single fun span hspan => ?_
    obtain ⟨hspan, _⟩ := List.mem_filter.1 hspan
    obtain ⟨id, _, rfl⟩ := List.mem_map.1 hspan
    exact hb.spanOf_bounds id

/-- The cases that are taken lie in the code. -/
theorem CasesTaken.lieIn (hb : Graph.Built subject.toSource subject.graph) {s : Recognizer.SwitchLayout} {stop : Nat}
    {places : List Nat} {cases : List (Case (List Section))}
    (h : CasesTaken subject (InCode subject) around r s stop places cases) :
    ∀ span ∈ Section.spansCases cases, span.LiesIn subject.method.code.length := by
  induction h with
  | nil => exact fun _ h => by cases h
  | cons _ _ hbody _ ih =>
    intro span hspan
    rw [Section.spansCases] at hspan
    rcases List.mem_append.1 hspan with hspan | hspan
    · exact hbody.lieIn hb span hspan
    · exact ih span hspan

/-- The clauses that are taken lie in the code. -/
theorem ClausesTaken.lieIn (hb : Graph.Built subject.toSource subject.graph) {exit : Option BlockId} {pending : List Marker}
    {cursor stop : Nat} {clauses : List (CatchSection (List Section))}
    (h : ClausesTaken subject (InCode subject) around r exit pending cursor clauses stop) :
    ∀ span ∈ Section.spansClauses clauses, span.LiesIn subject.method.code.length := by
  induction h with
  | nil => exact fun _ h => by cases h
  | cons hshape hbody hothers ih =>
    have hheaders := (ClausesTaken.cons hshape hbody hothers).headers hb
    rw [List.all_cons, Bool.and_eq_true, decide_eq_true_eq] at hheaders
    intro span hspan
    rw [Section.spansClauses] at hspan
    rcases List.mem_append.1 hspan with hspan | hspan
    · rcases List.mem_cons.1 hspan with rfl | hspan
      · exact hheaders.1
      · exact hbody.lieIn hb span hspan
    · exact ih span hspan

/-- The section that a goto becomes stands for it, and for nothing if there is none. -/
theorem resolveFrom_lieIn {n target : Nat} {g : Graph} {jump : Option Nat} {s : Section}
    (h : resolveFrom g target jump 0 0 around = some s) (hjump : ∀ index, jump = some index → index < n) :
    Section.LieIn n [s] := by
  have hspans : s.spans = (jump.map Span.single).toList := by
    rcases resolveFrom_isJump h with ⟨out, rfl⟩ | ⟨out, rfl⟩
    · rfl
    · rfl
  refine Section.LieIn.single fun span hspan => ?_
  rw [hspans, Option.mem_toList] at hspan
  obtain ⟨index, hindex, rfl⟩ := Option.map_eq_some_iff.1 hspan
  exact ⟨Nat.le_succ index, hjump index hindex⟩

/-- What a step takes lies in the code. -/
theorem Taken.lieIn (hb : Graph.Built subject.toSource subject.graph) {found : Match}
    (ht : Taken subject (InCode subject) around r index found) :
    Section.LieIn subject.method.code.length found.sections := by
  have hown := ht.isExecutable hb
  have hblocks : ∀ {id span kind}, subject.graph.block? id = some ⟨span, kind⟩ → span.LiesIn subject.method.code.length :=
    fun hblock => hb.inRange.spans _ _ hblock
  -- Spans of guards, keys and straight code run to their last instruction.
  have hguard : ∀ {spans : List Span} {last}, spans.all (Span.runsTo subject.method.code last) = true →
      ∀ span ∈ spans, span.LiesIn subject.method.code.length :=
    fun h span hspan => Span.liesIn_of_runsTo (List.all_eq_true.1 h span hspan)
  cases ht with
  | straight _ hblock _ => exact .bodySections (hblocks hblock)
  | falling _ hblock _ => exact .bodySections (hblocks hblock)
  | @jumping id target span jump _ hblock _ hjump =>
    have hlt := hb.goto_nonempty hblock
    have hlies := hblocks hblock
    refine .append (.bodySections ⟨?_, ?_⟩) (resolveFrom_lieIn hjump fun index hindex => ?_)
    · dsimp only
      omega
    · have := hlies.2
      dsimp only
      omega
    · have := hlies.2
      cases hindex
      omega
  | leaving _ _ hjump => exact .branch (hguard (hown _ (List.mem_singleton.2 rfl))) (resolveFrom_lieIn hjump nofun) (.nil _)
  | branch _ _ _ hthen => exact .branch (hguard (hown _ (List.mem_singleton.2 rfl))) (hthen.lieIn hb) (.nil _)
  | branchElse _ _ _ hthen helsePart =>
    exact .branch (hguard (hown _ (List.mem_singleton.2 rfl))) (hthen.lieIn hb) (helsePart.lieIn hb)
  | @loop first shape body _ _ hbody =>
    have hown := hown _ (List.mem_singleton.2 rfl)
    refine .loop (fun guard hshape => ?_) (hbody.lieIn hb) (.nil _)
    rw [hshape] at hown
    exact hguard hown
  | entryLoop _ hbody =>
    have hown := hown _ (List.mem_cons_of_mem _ (List.mem_singleton.2 rfl))
    refine .append (.body (hb.spanOf_bounds _)) (.loop (fun guard hguard' => ?_) (hbody.lieIn hb) (.nil _))
    cases hguard'
    exact hguard hown
  | entryLoopUpdate _ _ _ _ _ hbody hupdate =>
    have hown := hown _ (List.mem_cons_of_mem _ (List.mem_singleton.2 rfl))
    refine .append (.body (hb.spanOf_bounds _)) (.loop (fun guard hguard' => ?_) (hbody.lieIn hb) hupdate)
    cases hguard'
    exact hguard hown
  | switch _ hcases =>
    refine .switch (Span.liesIn_of_runsTo (hown _ (List.mem_singleton.2 rfl))) fun span hspan => ?_
    rw [Section.spansCases_append] at hspan
    rcases List.mem_append.1 hspan with hspan | hspan
    · exact hcases.lieIn hb span hspan
    · unfold Recognizer.SwitchLayout.skippedCases at hspan
      split at hspan <;> cases hspan
  | tryCatch _ _ _ hbody hclauses => exact .tryCatch (hbody.lieIn hb) (hclauses.lieIn hb)

/-- What a scanned region becomes lies in the code. -/
theorem Scanned.lieIn (hb : Graph.Built subject.toSource subject.graph) {sections : List Section}
    (h : Scanned subject (InCode subject) around r index sections) : Section.LieIn subject.method.code.length sections := by
  induction h with
  | done _ => exact .nil _
  | step htaken _ _ ih => exact (htaken.lieIn hb).append ih

end

/-- The sections of a method lie in its code. -/
theorem Subject.sections_lieIn (subject : Subject) (hb : Graph.Built subject.toSource subject.graph)
    {recognizers : List Recognizer} (hrec : ∀ recognizer ∈ recognizers, recognizer ∈ Recognizer.all) {s t : Session}
    {sections : List Section} (h : subject.sections recognizers s = .ok sections t) :
    Section.LieIn subject.method.code.length sections :=
  (Subject.inner_of_sections (fun _ _ _ hscanned => hscanned.lieIn hb) hrec h).lieIn hb

end CodeLift
