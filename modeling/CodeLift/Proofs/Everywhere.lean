import CodeLift.Statement.Basic

/-!
# Tests on all of a tree

A test on single sections or statements, which is told inside how many loops and switches its subject stands, is carried over to
whole trees. The update of a loop is not inside the body of the loop.
-/

namespace CodeLift

/-- Inside the bodies of how many loops and switches something stands, and how many of these are loops. -/
structure Scope where
  breakables : Nat
  loops : Nat
  deriving DecidableEq, Repr

namespace Scope

/-- Inside no loop or switch. -/
def outermost : Scope := ⟨0, 0⟩

/-- Inside the body of one more loop. -/
def inLoop (scope : Scope) : Scope := ⟨scope.breakables + 1, scope.loops + 1⟩

/-- Inside a case of one more switch. -/
def inSwitch (scope : Scope) : Scope := ⟨scope.breakables + 1, scope.loops⟩

end Scope

namespace Section

section

variable (p : Scope → Section → Bool)

mutual

/-- Whether a section and all sections inside it pass a test. -/
def everywhere (scope : Scope) : Section → Bool
  | .branch guard thenPart elsePart =>
    p scope (.branch guard thenPart elsePart) && everywhereAll scope thenPart && everywhereAll scope elsePart
  | .loop kind guard loopBody update =>
    p scope (.loop kind guard loopBody update) && everywhereAll scope.inLoop loopBody && everywhereAll scope update
  | .switch key cases => p scope (.switch key cases) && everywhereCases scope.inSwitch cases
  | .tryCatch tried clauses => p scope (.tryCatch tried clauses) && everywhereAll scope tried && everywhereClauses scope clauses
  | s => p scope s

/-- Whether all sections of a list and those inside them pass a test. -/
def everywhereAll (scope : Scope) : List Section → Bool
  | [] => true
  | s :: rest => everywhere scope s && everywhereAll scope rest

/-- Whether all sections in the bodies of cases pass a test. -/
def everywhereCases (scope : Scope) : List (Case (List Section)) → Bool
  | [] => true
  | ⟨_, _, caseBody⟩ :: rest => everywhereAll scope caseBody && everywhereCases scope rest

/-- Whether all sections in the bodies of clauses pass a test. -/
def everywhereClauses (scope : Scope) : List (CatchSection (List Section)) → Bool
  | [] => true
  | ⟨_, _, _, handlerBody⟩ :: rest => everywhereAll scope handlerBody && everywhereClauses scope rest

end

end

variable {p : Scope → Section → Bool} {scope : Scope}

attribute [simp] everywhere everywhereAll everywhereCases everywhereClauses

@[simp]
theorem everywhereAll_append (xs ys : List Section) :
    everywhereAll p scope (xs ++ ys) = (everywhereAll p scope xs && everywhereAll p scope ys) := by
  induction xs with
  | nil => simp
  | cons s xs ih => simp [ih, Bool.and_assoc]

@[simp]
theorem everywhereCases_append (xs ys : List (Case (List Section))) :
    everywhereCases p scope (xs ++ ys) = (everywhereCases p scope xs && everywhereCases p scope ys) := by
  induction xs with
  | nil => simp
  | cons c xs ih => simp [ih, Bool.and_assoc]

section

variable {q t : Scope → Section → Bool}

mutual

/-- Two tests that hold everywhere imply a third one everywhere. -/
theorem everywhere_and (h : ∀ scope s, p scope s = true → q scope s = true → t scope s = true) {scope : Scope} {s : Section}
    (hp : everywhere p scope s = true) (hq : everywhere q scope s = true) : everywhere t scope s = true := by
  cases s with
  | branch guard thenPart elsePart =>
    simp only [everywhere, Bool.and_eq_true] at hp hq ⊢
    exact ⟨⟨h _ _ hp.1.1 hq.1.1, everywhereAll_and h hp.1.2 hq.1.2⟩, everywhereAll_and h hp.2 hq.2⟩
  | loop kind guard loopBody update =>
    simp only [everywhere, Bool.and_eq_true] at hp hq ⊢
    exact ⟨⟨h _ _ hp.1.1 hq.1.1, everywhereAll_and h hp.1.2 hq.1.2⟩, everywhereAll_and h hp.2 hq.2⟩
  | switch key cases =>
    simp only [everywhere, Bool.and_eq_true] at hp hq ⊢
    exact ⟨h _ _ hp.1 hq.1, everywhereCases_and h hp.2 hq.2⟩
  | tryCatch tried clauses =>
    simp only [everywhere, Bool.and_eq_true] at hp hq ⊢
    exact ⟨⟨h _ _ hp.1.1 hq.1.1, everywhereAll_and h hp.1.2 hq.1.2⟩, everywhereClauses_and h hp.2 hq.2⟩
  | _ => exact h _ _ hp hq

/-- What follows from two tests on single sections follows from both on all of a tree. -/
theorem everywhereAll_and (h : ∀ scope s, p scope s = true → q scope s = true → t scope s = true) {scope : Scope}
    {sections : List Section} (hp : everywhereAll p scope sections = true) (hq : everywhereAll q scope sections = true) :
    everywhereAll t scope sections = true := by
  cases sections with
  | nil => rfl
  | cons s rest =>
    simp only [everywhereAll, Bool.and_eq_true] at hp hq ⊢
    exact ⟨everywhere_and h hp.1 hq.1, everywhereAll_and h hp.2 hq.2⟩

theorem everywhereCases_and (h : ∀ scope s, p scope s = true → q scope s = true → t scope s = true) {scope : Scope}
    {cases : List (Case (List Section))} (hp : everywhereCases p scope cases = true)
    (hq : everywhereCases q scope cases = true) : everywhereCases t scope cases = true := by
  cases cases with
  | nil => rfl
  | cons c rest =>
    simp only [everywhereCases, Bool.and_eq_true] at hp hq ⊢
    exact ⟨everywhereAll_and h hp.1 hq.1, everywhereCases_and h hp.2 hq.2⟩

theorem everywhereClauses_and (h : ∀ scope s, p scope s = true → q scope s = true → t scope s = true) {scope : Scope}
    {clauses : List (CatchSection (List Section))} (hp : everywhereClauses p scope clauses = true)
    (hq : everywhereClauses q scope clauses = true) : everywhereClauses t scope clauses = true := by
  cases clauses with
  | nil => rfl
  | cons c rest =>
    simp only [everywhereClauses, Bool.and_eq_true] at hp hq ⊢
    exact ⟨everywhereAll_and h hp.1 hq.1, everywhereClauses_and h hp.2 hq.2⟩

end

end

end Section

namespace Statement

section

variable (p : Scope → Statement → Bool)

mutual

/-- Whether a statement and all statements inside it pass a test. -/
def everywhere (scope : Scope) : Statement → Bool
  | .branch condition thenPart elsePart =>
    p scope (.branch condition thenPart elsePart) && everywhereAll scope thenPart && everywhereAll scope elsePart
  | .whileDo condition loopBody => p scope (.whileDo condition loopBody) && everywhereAll scope.inLoop loopBody
  | .doWhile condition loopBody => p scope (.doWhile condition loopBody) && everywhereAll scope.inLoop loopBody
  | .forUpdate condition update loopBody =>
    p scope (.forUpdate condition update loopBody) && everywhereAll scope update && everywhereAll scope.inLoop loopBody
  | .switch key cases => p scope (.switch key cases) && everywhereCases scope.inSwitch cases
  | .tryCatch tried clauses => p scope (.tryCatch tried clauses) && everywhereAll scope tried && everywhereClauses scope clauses
  | s => p scope s

/-- Whether all statements of a list and those inside them pass a test. -/
def everywhereAll (scope : Scope) : List Statement → Bool
  | [] => true
  | s :: rest => everywhere scope s && everywhereAll scope rest

/-- Whether all statements in the bodies of cases pass a test. -/
def everywhereCases (scope : Scope) : List (Case (List Statement)) → Bool
  | [] => true
  | ⟨_, _, caseBody⟩ :: rest => everywhereAll scope caseBody && everywhereCases scope rest

/-- Whether all statements in the bodies of clauses pass a test. -/
def everywhereClauses (scope : Scope) : List (Catch (List Statement)) → Bool
  | [] => true
  | ⟨_, _, handlerBody⟩ :: rest => everywhereAll scope handlerBody && everywhereClauses scope rest

end

end

variable {p : Scope → Statement → Bool} {scope : Scope}

attribute [simp] everywhere everywhereAll everywhereCases everywhereClauses

@[simp]
theorem everywhereAll_append (xs ys : List Statement) :
    everywhereAll p scope (xs ++ ys) = (everywhereAll p scope xs && everywhereAll p scope ys) := by
  induction xs with
  | nil => simp
  | cons s xs ih => simp [ih, Bool.and_assoc]

section

variable {q t : Scope → Statement → Bool}

mutual

/-- Two tests that hold everywhere in a statement imply a third one everywhere. -/
theorem everywhere_and (h : ∀ scope s, p scope s = true → q scope s = true → t scope s = true) {scope : Scope} {s : Statement}
    (hp : everywhere p scope s = true) (hq : everywhere q scope s = true) : everywhere t scope s = true := by
  cases s with
  | branch condition thenPart elsePart =>
    simp only [everywhere, Bool.and_eq_true] at hp hq ⊢
    exact ⟨⟨h _ _ hp.1.1 hq.1.1, everywhereAll_and h hp.1.2 hq.1.2⟩, everywhereAll_and h hp.2 hq.2⟩
  | whileDo condition loopBody =>
    simp only [everywhere, Bool.and_eq_true] at hp hq ⊢
    exact ⟨h _ _ hp.1 hq.1, everywhereAll_and h hp.2 hq.2⟩
  | doWhile condition loopBody =>
    simp only [everywhere, Bool.and_eq_true] at hp hq ⊢
    exact ⟨h _ _ hp.1 hq.1, everywhereAll_and h hp.2 hq.2⟩
  | forUpdate condition update loopBody =>
    simp only [everywhere, Bool.and_eq_true] at hp hq ⊢
    exact ⟨⟨h _ _ hp.1.1 hq.1.1, everywhereAll_and h hp.1.2 hq.1.2⟩, everywhereAll_and h hp.2 hq.2⟩
  | switch key cases =>
    simp only [everywhere, Bool.and_eq_true] at hp hq ⊢
    exact ⟨h _ _ hp.1 hq.1, everywhereCases_and h hp.2 hq.2⟩
  | tryCatch tried clauses =>
    simp only [everywhere, Bool.and_eq_true] at hp hq ⊢
    exact ⟨⟨h _ _ hp.1.1 hq.1.1, everywhereAll_and h hp.1.2 hq.1.2⟩, everywhereClauses_and h hp.2 hq.2⟩
  | _ => exact h _ _ hp hq

/-- What follows from two tests on single statements follows from both on all of a tree. -/
theorem everywhereAll_and (h : ∀ scope s, p scope s = true → q scope s = true → t scope s = true) {scope : Scope}
    {statements : List Statement} (hp : everywhereAll p scope statements = true) (hq : everywhereAll q scope statements = true) :
    everywhereAll t scope statements = true := by
  cases statements with
  | nil => rfl
  | cons s rest =>
    simp only [everywhereAll, Bool.and_eq_true] at hp hq ⊢
    exact ⟨everywhere_and h hp.1 hq.1, everywhereAll_and h hp.2 hq.2⟩

theorem everywhereCases_and (h : ∀ scope s, p scope s = true → q scope s = true → t scope s = true) {scope : Scope}
    {cases : List (Case (List Statement))} (hp : everywhereCases p scope cases = true)
    (hq : everywhereCases q scope cases = true) : everywhereCases t scope cases = true := by
  cases cases with
  | nil => rfl
  | cons c rest =>
    simp only [everywhereCases, Bool.and_eq_true] at hp hq ⊢
    exact ⟨everywhereAll_and h hp.1 hq.1, everywhereCases_and h hp.2 hq.2⟩

theorem everywhereClauses_and (h : ∀ scope s, p scope s = true → q scope s = true → t scope s = true) {scope : Scope}
    {clauses : List (Catch (List Statement))} (hp : everywhereClauses p scope clauses = true)
    (hq : everywhereClauses q scope clauses = true) : everywhereClauses t scope clauses = true := by
  cases clauses with
  | nil => rfl
  | cons c rest =>
    simp only [everywhereClauses, Bool.and_eq_true] at hp hq ⊢
    exact ⟨everywhereAll_and h hp.1 hq.1, everywhereClauses_and h hp.2 hq.2⟩

end

/-- A weaker test is passed too. -/
theorem everywhereAll_mono (h : ∀ scope s, p scope s = true → q scope s = true) {scope : Scope} {statements : List Statement}
    (hs : everywhereAll p scope statements = true) : everywhereAll q scope statements = true :=
  everywhereAll_and (fun _ _ hp _ => h _ _ hp) hs hs

end

end Statement

end CodeLift
