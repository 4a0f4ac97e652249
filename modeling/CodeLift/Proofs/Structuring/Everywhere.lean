import CodeLift.Proofs.Everywhere
import CodeLift.Proofs.Structuring.Taken

/-!
# Tests on all that regions become

The loops and switches around a region in its session are those whose bodies its sections will stand in. So a test that all
sections of one step pass, given what stands inside them, is passed by the whole tree (`Scanned.everywhere`).
-/

namespace CodeLift

/-- Inside what a region stands, given the loops and switches around it. -/
def Scope.ofAround (around : List Breakable) : Scope := ⟨around.length, around.countP (·.continueTo.isSome)⟩

@[simp]
theorem Scope.ofAround_loop (breakTo : Option BlockId) (continueTo : BlockId) (around : List Breakable) :
    Scope.ofAround (⟨breakTo, some continueTo⟩ :: around) = (Scope.ofAround around).inLoop := by
  simp [Scope.ofAround, Scope.inLoop]

@[simp]
theorem Scope.ofAround_switch (breakTo : Option BlockId) (around : List Breakable) :
    Scope.ofAround (⟨breakTo, none⟩ :: around) = (Scope.ofAround around).inSwitch := by
  simp [Scope.ofAround, Scope.inSwitch]

/-- A jump out of a region leaves or continues one of the constructs around it. -/
theorem resolveFrom_scoped {g : Graph} {target : BlockId} {jump : Option Nat} {depth loops : Nat} {around : List Breakable}
    {s : Section} (h : resolveFrom g target jump depth loops around = some s) :
    (∃ d, s = .breakOut d jump ∧ d < depth + around.length) ∨
      ∃ d, s = .continueNext d jump ∧ d < loops + around.countP (·.continueTo.isSome) := by
  induction around generalizing depth loops with
  | nil => cases h
  | cons b rest ih =>
    rw [resolveFrom] at h
    rw [List.length_cons, List.countP_cons]
    split at h
    · cases h
      exact .inl ⟨depth, rfl, by omega⟩
    · split at h
      · rename_i hcontinue
        cases h
        have hloop : b.continueTo.isSome = true := by
          rw [← Option.isSome_map, hcontinue]
          rfl
        exact .inr ⟨loops, rfl, by rw [if_pos hloop]; omega⟩
      · rcases ih h with ⟨d, rfl, hd⟩ | ⟨d, rfl, hd⟩
        · exact .inl ⟨d, rfl, by omega⟩
        · refine .inr ⟨d, rfl, ?_⟩
          split at hd
          · rename_i hloop
            rw [if_pos hloop]
            omega
          · rename_i hloop
            rw [if_neg hloop]
            omega

/-- A test that comments pass, and breaks and continues of constructs around them. -/
structure Admits (p : Scope → Section → Bool) : Prop where
  comment : ∀ scope lines spans, p scope (.comment lines spans) = true
  breakOut : ∀ scope depth jump, depth < scope.breakables → p scope (.breakOut depth jump) = true
  continueNext : ∀ scope depth jump, depth < scope.loops → p scope (.continueNext depth jump) = true

/-- The sections of a region and all inside them pass a test. -/
def Passes (p : Scope → Section → Bool) : RegionProperty := fun around _ sections =>
  Section.everywhereAll p (Scope.ofAround around) sections = true

section

variable {p : Scope → Section → Bool} {subject : Subject} {around : List Breakable} {r : Region} {index : Nat}

/-- A jump that leaves what is around passes the test. -/
theorem Admits.resolveFrom (hp : Admits p) {g : Graph} {target : BlockId} {jump : Option Nat} {s : Section}
    (h : resolveFrom g target jump 0 0 around = some s) : Section.everywhere p (Scope.ofAround around) s = true := by
  rcases resolveFrom_scoped h with ⟨d, rfl, hd⟩ | ⟨d, rfl, hd⟩
  · exact hp.breakOut _ _ _ (by simpa [Scope.ofAround] using hd)
  · exact hp.continueNext _ _ _ (by simpa [Scope.ofAround] using hd)

/-- What a part of a region becomes passes the test. -/
theorem Inner.everywhere (hp : Admits p) {sections : List Section} (h : Inner subject (Passes p) around r sections) :
    Section.everywhereAll p (Scope.ofAround around) sections = true := by
  rcases h with h | ⟨_, rfl⟩
  · exact h
  · simpa [commentSection] using hp.comment _ _ _

/-- The cases that are taken pass the test. -/
theorem CasesTaken.everywhere (hp : Admits p) {s : Recognizer.SwitchLayout} {stop : Nat} {places : List Nat}
    {cases : List (Case (List Section))} (h : CasesTaken subject (Passes p) around r s stop places cases) :
    Section.everywhereCases p (Scope.ofAround around).inSwitch cases = true := by
  induction h with
  | nil => rfl
  | cons _ _ hbody _ ih =>
    have hbody := hbody.everywhere hp
    rw [Scope.ofAround_switch] at hbody
    simp [hbody, ih]

/-- The clauses that are taken pass the test. -/
theorem ClausesTaken.everywhere (hp : Admits p) {exit : Option BlockId} {pending : List Marker} {cursor stop : Nat}
    {clauses : List (CatchSection (List Section))} (h : ClausesTaken subject (Passes p) around r exit pending cursor clauses stop) :
    Section.everywhereClauses p (Scope.ofAround around) clauses = true := by
  induction h with
  | nil => rfl
  | cons _ hbody _ ih => simp [hbody.everywhere hp, ih]

theorem everywhereAll_bodySections {scope : Scope} {span : Span} (h : ∀ s ∈ bodySections span, p scope s = true) :
    Section.everywhereAll p scope (bodySections span) = true := by
  unfold bodySections at h ⊢
  split
  · rfl
  · rename_i hempty
    rw [if_neg hempty] at h
    simpa using h

/-- Cases that only leave the switch. -/
theorem everywhereCases_skippedCases (hp : Admits p) (s : Recognizer.SwitchLayout) (stop : Nat) (scope : Scope) :
    Section.everywhereCases p scope.inSwitch (s.skippedCases stop) = true := by
  unfold Recognizer.SwitchLayout.skippedCases
  split
  · simpa using hp.breakOut _ _ _ (Nat.succ_pos _)
  · rfl

/-- If the sections that a step takes pass a test, so does all that stands inside them. -/
theorem Taken.everywhere (hp : Admits p) {found : Match} (ht : Taken subject (Passes p) around r index found)
    (hown : ∀ s ∈ found.sections, p (Scope.ofAround around) s = true) :
    Section.everywhereAll p (Scope.ofAround around) found.sections = true := by
  cases ht with
  | straight _ _ _ => exact everywhereAll_bodySections hown
  | falling _ _ _ => exact everywhereAll_bodySections hown
  | jumping _ _ _ hjump =>
    rw [Section.everywhereAll_append, everywhereAll_bodySections fun s hs => hown s (List.mem_append_left _ hs)]
    simpa using hp.resolveFrom hjump
  | leaving _ _ hjump => simpa [hp.resolveFrom hjump] using hown
  | branch _ _ _ hthen => simpa [hthen.everywhere hp] using hown
  | branchElse _ _ _ hthen helsePart => simpa [hthen.everywhere hp, helsePart.everywhere hp] using hown
  | loop _ _ hbody =>
    have hbody := hbody.everywhere hp
    rw [Scope.ofAround_loop] at hbody
    simpa [hbody] using hown
  | entryLoop _ hbody =>
    have hbody := hbody.everywhere hp
    rw [Scope.ofAround_loop] at hbody
    simpa [hbody] using hown
  | entryLoopUpdate _ _ _ _ _ hbody hupdate =>
    have hbody := hbody.everywhere hp
    rw [Scope.ofAround_loop] at hbody
    have hupdate : Section.everywhereAll p (Scope.ofAround around) _ = true := hupdate
    simpa [hbody, hupdate] using hown
  | switch _ hcases => simpa [hcases.everywhere hp, everywhereCases_skippedCases hp] using hown
  | tryCatch _ _ _ hbody hclauses => simpa [hbody.everywhere hp, hclauses.everywhere hp] using hown

/-- A test that the sections of each step pass is passed by all that a region becomes. -/
theorem Scanned.everywhere (hp : Admits p) {P : RegionProperty}
    (hinner : ∀ around r sections, P around r sections → Passes p around r sections)
    (hown : ∀ index found, Taken subject P around r index found → ∀ s ∈ found.sections, p (Scope.ofAround around) s = true)
    {sections : List Section} (h : Scanned subject P around r index sections) :
    Section.everywhereAll p (Scope.ofAround around) sections = true := by
  induction h with
  | done _ => rfl
  | step htaken _ _ ih => rw [Section.everywhereAll_append, (htaken.mono hinner).everywhere hp (hown _ _ htaken), ih, Bool.and_self]

end

end CodeLift
