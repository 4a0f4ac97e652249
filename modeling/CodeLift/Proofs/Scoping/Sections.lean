import CodeLift.Proofs.ControlFlow.Preservation
import CodeLift.Proofs.Structuring.Everywhere

/-!
# Sections are well scoped

Breaks and continues of a section tree name constructs around them, its loops have conditions where their kind asks for one and
updates of straight code where it allows one, and the conditions that combine others combine two at least.
-/

namespace CodeLift

/-! ## Conditions of two parts at least -/

namespace Guard

mutual

/-- Whether every "and" and "or" in a guard has two parts at least. -/
def isProper : Guard → Bool
  | .jump _ _ => true
  | .and parts | .or parts => decide (2 ≤ parts.length) && isProperAll parts
  | .not inner => inner.isProper

/-- Whether every "and" and "or" in some guards has two parts at least. -/
def isProperAll : List Guard → Bool
  | [] => true
  | part :: rest => part.isProper && isProperAll rest

end

attribute [simp] isProper isProperAll

@[simp]
theorem isProperAll_append (xs ys : List Guard) : isProperAll (xs ++ ys) = (isProperAll xs && isProperAll ys) := by
  induction xs with
  | nil => simp
  | cons part xs ih => simp [ih, Bool.and_assoc]

/-- A proper guard that is negated is proper. -/
theorem isProper_negated {guard : Guard} (h : guard.isProper = true) : guard.negated.isProper = true := by
  cases guard with
  | jump span negate => rfl
  | not inner => exact h
  | and parts => exact h
  | or parts => exact h

/-- Parts, of which there is one at least, combine into a proper guard: one part alone stands for itself. -/
theorem isProper_combine {connective : List Guard → Guard}
    (hconnective : ∀ parts, (connective parts).isProper = (decide (2 ≤ parts.length) && isProperAll parts)) {parts : List Guard}
    (hne : parts ≠ []) (h : isProperAll parts = true) : (combine connective parts).isProper = true := by
  unfold combine
  split
  · simpa using h
  · rename_i hmany
    rw [hconnective, h, Bool.and_true, decide_eq_true_eq]
    match parts, hne, hmany with
    | [part], _, hmany => exact absurd rfl (hmany part)
    | _ :: _ :: _, _, _ => simp

end Guard

namespace Region

variable {g : Graph} {r : Region}

theorem isProperAll_jumpGuards (negate : Bool) (start count : Nat) : Guard.isProperAll (r.jumpGuards g negate start count) = true := by
  unfold jumpGuards
  induction (r.blocks.drop start).take count with
  | nil => rfl
  | cons id ids ih => simp [Graph.jumpGuard, ih]

theorem length_jumpGuards {negate : Bool} {start count : Nat} (h : start + count ≤ r.length) :
    (r.jumpGuards g negate start count).length = count := by
  unfold length at h
  rw [jumpGuards, List.length_map, List.length_take, List.length_drop]
  omega

theorem jumpGuards_ne_nil {negate : Bool} {start count : Nat} (h : start + count ≤ r.length) (hcount : 0 < count) :
    r.jumpGuards g negate start count ≠ [] := by
  rw [← List.length_pos_iff, length_jumpGuards h]
  exact hcount

/-- A condition in front of code is proper. -/
theorem guardChain?_isProper {start : Nat} {chain : Chain} (h : r.guardChain? g start = some chain) :
    chain.guard.isProper = true := by
  obtain ⟨count, target, hcount, hrun, rfl | ⟨skip, hskip, _, rfl⟩⟩ := guardChain?_cases h
  · exact Guard.isProper_combine (fun _ => by simp) (jumpGuards_ne_nil hrun.1 hcount) (isProperAll_jumpGuards _ _ _)
  · simp only [Guard.isProper, List.length_append, length_jumpGuards hrun.1, length_jumpGuards hskip.1, Guard.isProperAll_append,
      isProperAll_jumpGuards, Bool.and_true, decide_eq_true_eq]
    omega

/-- A condition of one block at the bottom of a loop. -/
theorem loopGuard?_self {last : Nat} {bodyEntry : BlockId} {guard : Guard} (h : r.loopGuard? g last last bodyEntry = some guard) :
    guard = Guard.combine .or (r.jumpGuards g false last 1) := by
  obtain ⟨_, targets, htargets, hguard⟩ := loopGuard?_targets h
  rw [Nat.sub_self, List.range'_zero] at htargets
  cases htargets
  rcases hguard with ⟨_, hguard⟩ | ⟨_, hall, _⟩
  · rw [hguard, Nat.add_sub_cancel_left]
  · exact absurd rfl hall

/-- A condition at the bottom of a loop is proper. -/
theorem loopGuard?_isProper {start last : Nat} {bodyEntry : BlockId} {guard : Guard} (hle : start ≤ last)
    (h : r.loopGuard? g start last bodyEntry = some guard) : guard.isProper = true := by
  obtain ⟨hrun, rfl⟩ | ⟨exit, hrun, hlast, _, hguard⟩ := loopGuard?_cases hle h
  · exact Guard.isProper_combine (fun _ => by simp) (jumpGuards_ne_nil hrun.1 (by omega)) (isProperAll_jumpGuards _ _ _)
  · by_cases hlt : start < last
    · rw [hguard]
      simp only [Guard.isProper, List.length_append, length_jumpGuards hrun.1, length_jumpGuards hlast.1,
        Guard.isProperAll_append, isProperAll_jumpGuards, Bool.and_true, decide_eq_true_eq]
      omega
    · obtain rfl : start = last := by omega
      rw [loopGuard?_self h]
      exact Guard.isProper_combine (fun _ => by simp) (jumpGuards_ne_nil hlast.1 Nat.one_pos) (isProperAll_jumpGuards _ _ _)

end Region

/-! ## Regions -/

/-- Straight code. -/
def Section.isBody : Section → Bool
  | .body _ => true
  | _ => false

/-- Whether a section on its own is well formed: a break leaves a loop or switch around it, a continue is of a loop around it, a
loop has no condition exactly if it goes on forever, only a loop with an update has one, of straight code, and conditions are
proper. -/
def Section.isWellFormed (scope : Scope) : Section → Bool
  | .breakOut depth _ => decide (depth < scope.breakables)
  | .continueNext depth _ => decide (depth < scope.loops)
  | .branch guard _ _ => guard.isProper
  | .loop kind guard _ update =>
    guard.isNone == decide (kind = .forever) && guard.all Guard.isProper &&
      (update.isEmpty || decide (kind = .forUpdate) && update.all isBody)
  | _ => true

/-- Sections of a region that are well formed, all of them straight code if the region is. -/
def WellFormed (g : Graph) : RegionProperty := fun around r sections =>
  Passes Section.isWellFormed around r sections ∧ (r.Straight g → sections.all Section.isBody = true)

/-- Comments, breaks and continues are well formed inside what they leave. -/
theorem admits_isWellFormed : Admits Section.isWellFormed :=
  ⟨fun _ _ _ => rfl, fun _ _ _ => decide_eq_true, fun _ _ _ => decide_eq_true⟩

section

variable {subject : Subject} {around : List Breakable} {r : Region} {index : Nat}

theorem isWellFormed_bodySections {scope : Scope} {span : Span} {s : Section} (h : s ∈ bodySections span) :
    s.isWellFormed scope = true := by
  unfold bodySections at h
  split at h
  · cases h
  · rw [List.mem_singleton.1 h]
    rfl

/-- A jump that leaves what is around is well formed there. -/
theorem isWellFormed_resolveFrom {g : Graph} {target : BlockId} {jump : Option Nat} {s : Section}
    (h : resolveFrom g target jump 0 0 around = some s) : s.isWellFormed (Scope.ofAround around) = true := by
  have heverywhere := admits_isWellFormed.resolveFrom h
  rcases resolveFrom_isJump h with ⟨d, rfl⟩ | ⟨d, rfl⟩
  · exact heverywhere
  · exact heverywhere

/-- The kind of a loop says whether it has a condition, and its condition is proper. -/
theorem isWellFormed_loopShape {first : BlockId} {shape : Recognizer.LoopShape} {scope : Scope} {body : List Section}
    (h : Recognizer.loopShape subject.graph r index first = .ok (some shape)) :
    (Section.loop shape.kind shape.guard body []).isWellFormed scope = true := by
  obtain ⟨_, _, ⟨testAt, test, guard, _, hle, _, hguard, heq⟩ | ⟨last, _, _, ⟨chain, hchain, _, _, heq⟩ | heq⟩⟩ :=
    Recognizer.loopShape_cases h
  · rw [heq]
    simp [Section.isWellFormed, Region.loopGuard?_isProper hle hguard]
  · rw [heq]
    simp [Section.isWellFormed, Region.guardChain?_isProper hchain]
  · rw [heq]
    simp [Section.isWellFormed]

/-- The sections that a step takes are well formed. -/
theorem Taken.isWellFormed {found : Match} (ht : Taken subject (WellFormed subject.graph) around r index found) :
    ∀ s ∈ found.sections, s.isWellFormed (Scope.ofAround around) = true := by
  cases ht with
  | straight _ _ _ => exact fun s hs => isWellFormed_bodySections hs
  | falling _ _ _ => exact fun s hs => isWellFormed_bodySections hs
  | jumping _ _ _ hjump =>
    intro s hs
    rcases List.mem_append.1 hs with hs | hs
    · exact isWellFormed_bodySections hs
    · rw [List.mem_singleton.1 hs]
      exact isWellFormed_resolveFrom hjump
  | leaving hchain _ _ => simpa [Section.isWellFormed] using Guard.isProper_negated (Region.guardChain?_isProper hchain)
  | branch hchain _ _ _ => simpa [Section.isWellFormed] using Region.guardChain?_isProper hchain
  | branchElse hchain _ _ _ _ => simpa [Section.isWellFormed] using Region.guardChain?_isProper hchain
  | loop _ hshape _ => simpa using isWellFormed_loopShape hshape
  | entryLoop hshape _ =>
    obtain ⟨_, _, _, hle, _, _, _, _, hguard⟩ := Recognizer.entryLoopShape_cases hshape
    simp [Section.isWellFormed, Region.loopGuard?_isProper hle hguard]
  | entryLoopUpdate hshape hupdateAt hplace _ _ _ hupdate =>
    obtain ⟨_, _, _, hle, hlen, _, _, _, hguard⟩ := Recognizer.entryLoopShape_cases hshape
    have hstraight := hupdate.2 (Recognizer.updateRun_straight _ (by omega) hupdateAt hplace)
    simp [Section.isWellFormed, Region.loopGuard?_isProper hle hguard, hstraight]
  | switch _ _ => simp [Section.isWellFormed]
  | tryCatch _ _ _ _ _ => simp [Section.isWellFormed]

/-- Straight code becomes straight sections. -/
theorem Scanned.all_isBody {P : RegionProperty} (hs : r.Straight subject.graph) {sections : List Section}
    (h : Scanned subject P around r index sections) : sections.all Section.isBody = true := by
  induction h with
  | done _ => rfl
  | step htaken _ _ ih =>
    obtain ⟨id, span, next, _, _, rfl⟩ := htaken.of_straight hs
    rw [List.all_append, ih, Bool.and_true]
    unfold bodySections
    split
    · rfl
    · rfl

/-- The sections of a scanned region are well formed. -/
theorem Scanned.wellFormed {sections : List Section} (h : Scanned subject (WellFormed subject.graph) around r 0 sections) :
    WellFormed subject.graph around r sections :=
  ⟨h.everywhere admits_isWellFormed (fun _ _ _ hinner => hinner.1) fun _ _ htaken => htaken.isWellFormed, fun hs => h.all_isBody hs⟩

end

/-- The sections of a method are well formed, whatever the settings and in whatever order the constructs are looked for. -/
theorem everywhereAll_isWellFormed (subject : Subject) {recognizers : List Recognizer}
    (hrec : ∀ recognizer ∈ recognizers, recognizer ∈ Recognizer.all) {s t : Session} {sections : List Section}
    (hs : s.breakables = []) (h : subject.sections recognizers s = .ok sections t) :
    Section.everywhereAll Section.isWellFormed .outermost sections = true := by
  have hinner := Subject.inner_of_sections (fun _ _ _ hscanned => hscanned.wellFormed) hrec h
  rw [hs] at hinner
  exact (hinner.mono fun _ _ _ hwell => hwell.1).everywhere admits_isWellFormed

end CodeLift
