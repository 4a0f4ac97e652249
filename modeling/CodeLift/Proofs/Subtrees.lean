import CodeLift.Proofs.Everywhere

/-!
# All that stands in a tree

The sections and the statements of a tree as a list, each before those inside it.
-/

namespace CodeLift

namespace Section

mutual

/-- A section and all sections inside it. -/
def subtree : Section → List Section
  | .branch guard thenPart elsePart => .branch guard thenPart elsePart :: (subtrees thenPart ++ subtrees elsePart)
  | .loop kind guard loopBody update => .loop kind guard loopBody update :: (subtrees loopBody ++ subtrees update)
  | .switch key cases => .switch key cases :: subtreesCases cases
  | .tryCatch tried clauses => .tryCatch tried clauses :: (subtrees tried ++ subtreesClauses clauses)
  | s => [s]

/-- The sections of a list and all sections inside them. -/
def subtrees : List Section → List Section
  | [] => []
  | s :: rest => s.subtree ++ subtrees rest

/-- All sections in the bodies of cases. -/
def subtreesCases : List (Case (List Section)) → List Section
  | [] => []
  | ⟨_, _, caseBody⟩ :: rest => subtrees caseBody ++ subtreesCases rest

/-- All sections in the bodies of clauses. -/
def subtreesClauses : List (CatchSection (List Section)) → List Section
  | [] => []
  | ⟨_, _, _, handlerBody⟩ :: rest => subtrees handlerBody ++ subtreesClauses rest

end

attribute [simp] subtree subtrees subtreesCases subtreesClauses

/-- The subtrees of two lists in a row. -/
@[simp]
theorem subtrees_append (xs ys : List Section) : subtrees (xs ++ ys) = subtrees xs ++ subtrees ys := by
  induction xs with
  | nil => rfl
  | cons s xs ih => simp [ih]

/-- The subtrees of cases in a row. -/
@[simp]
theorem subtreesCases_append (xs ys : List (Case (List Section))) :
    subtreesCases (xs ++ ys) = subtreesCases xs ++ subtreesCases ys := by
  induction xs with
  | nil => rfl
  | cons c xs ih => simp [ih]

section

variable {p : Scope → Section → Bool}

mutual

/-- What holds everywhere in a section holds of each section in it. -/
theorem everywhere_subtree {scope : Scope} {s t : Section} (h : everywhere p scope s = true) (ht : t ∈ s.subtree) :
    ∃ scope', p scope' t = true := by
  cases s with
  | branch guard thenPart elsePart =>
    simp only [everywhere, Bool.and_eq_true] at h
    simp only [subtree, List.mem_cons, List.mem_append] at ht
    rcases ht with rfl | ht | ht
    · exact ⟨scope, h.1.1⟩
    · exact everywhereAll_subtrees h.1.2 ht
    · exact everywhereAll_subtrees h.2 ht
  | loop kind guard loopBody update =>
    simp only [everywhere, Bool.and_eq_true] at h
    simp only [subtree, List.mem_cons, List.mem_append] at ht
    rcases ht with rfl | ht | ht
    · exact ⟨scope, h.1.1⟩
    · exact everywhereAll_subtrees h.1.2 ht
    · exact everywhereAll_subtrees h.2 ht
  | switch key cases =>
    simp only [everywhere, Bool.and_eq_true] at h
    simp only [subtree, List.mem_cons] at ht
    rcases ht with rfl | ht
    · exact ⟨scope, h.1⟩
    · exact everywhereCases_subtrees h.2 ht
  | tryCatch tried clauses =>
    simp only [everywhere, Bool.and_eq_true] at h
    simp only [subtree, List.mem_cons, List.mem_append] at ht
    rcases ht with rfl | ht | ht
    · exact ⟨scope, h.1.1⟩
    · exact everywhereAll_subtrees h.1.2 ht
    · exact everywhereClauses_subtrees h.2 ht
  | _ =>
    simp only [subtree, List.mem_singleton] at ht
    subst ht
    exact ⟨scope, h⟩

/-- What holds everywhere holds of each section of a tree. -/
theorem everywhereAll_subtrees {scope : Scope} {sections : List Section} {t : Section}
    (h : everywhereAll p scope sections = true) (ht : t ∈ subtrees sections) : ∃ scope', p scope' t = true := by
  cases sections with
  | nil => cases ht
  | cons s rest =>
    simp only [everywhereAll, Bool.and_eq_true] at h
    rcases List.mem_append.1 ht with ht | ht
    · exact everywhere_subtree h.1 ht
    · exact everywhereAll_subtrees h.2 ht

/-- What holds everywhere in cases holds of each section in them. -/
theorem everywhereCases_subtrees {scope : Scope} {cases : List (Case (List Section))} {t : Section}
    (h : everywhereCases p scope cases = true) (ht : t ∈ subtreesCases cases) : ∃ scope', p scope' t = true := by
  cases cases with
  | nil => cases ht
  | cons c rest =>
    simp only [everywhereCases, Bool.and_eq_true] at h
    rcases List.mem_append.1 ht with ht | ht
    · exact everywhereAll_subtrees h.1 ht
    · exact everywhereCases_subtrees h.2 ht

/-- What holds everywhere in clauses holds of each section in them. -/
theorem everywhereClauses_subtrees {scope : Scope} {clauses : List (CatchSection (List Section))} {t : Section}
    (h : everywhereClauses p scope clauses = true) (ht : t ∈ subtreesClauses clauses) : ∃ scope', p scope' t = true := by
  cases clauses with
  | nil => cases ht
  | cons c rest =>
    simp only [everywhereClauses, Bool.and_eq_true] at h
    rcases List.mem_append.1 ht with ht | ht
    · exact everywhereAll_subtrees h.1 ht
    · exact everywhereClauses_subtrees h.2 ht

end

end

mutual

/-- A test that ignores the scope holds everywhere if it holds of all sections inside. -/
theorem everywhere_eq_all (p : Section → Bool) (scope : Scope) (s : Section) :
    everywhere (fun _ => p) scope s = s.subtree.all p := by
  cases s with
  | branch guard thenPart elsePart => simp [everywhereAll_eq_all p, Bool.and_assoc]
  | loop kind guard loopBody update => simp [everywhereAll_eq_all p, Bool.and_assoc]
  | switch key cases => simp [everywhereCases_eq_all p]
  | tryCatch tried clauses => simp [everywhereAll_eq_all p, everywhereClauses_eq_all p, Bool.and_assoc]
  | _ => simp

/-- A test that does not look at the scope passes everywhere if it passes for all that stands in the tree. -/
theorem everywhereAll_eq_all (p : Section → Bool) (scope : Scope) (sections : List Section) :
    everywhereAll (fun _ => p) scope sections = (subtrees sections).all p := by
  cases sections with
  | nil => rfl
  | cons s rest => simp [everywhere_eq_all p scope s, everywhereAll_eq_all p scope rest]

/-- The same for cases. -/
theorem everywhereCases_eq_all (p : Section → Bool) (scope : Scope) (cases : List (Case (List Section))) :
    everywhereCases (fun _ => p) scope cases = (subtreesCases cases).all p := by
  cases cases with
  | nil => rfl
  | cons c rest => simp [everywhereAll_eq_all p scope c.body, everywhereCases_eq_all p scope rest]

/-- The same for clauses. -/
theorem everywhereClauses_eq_all (p : Section → Bool) (scope : Scope) (clauses : List (CatchSection (List Section))) :
    everywhereClauses (fun _ => p) scope clauses = (subtreesClauses clauses).all p := by
  cases clauses with
  | nil => rfl
  | cons c rest => simp [everywhereAll_eq_all p scope c.body, everywhereClauses_eq_all p scope rest]

end

end Section

namespace Statement

mutual

/-- A statement and all statements inside it. -/
def subtree : Statement → List Statement
  | .branch condition thenPart elsePart => .branch condition thenPart elsePart :: (subtrees thenPart ++ subtrees elsePart)
  | .whileDo condition body => .whileDo condition body :: subtrees body
  | .doWhile condition body => .doWhile condition body :: subtrees body
  | .forUpdate condition update body => .forUpdate condition update body :: (subtrees body ++ subtrees update)
  | .switch key cases => .switch key cases :: subtreesCases cases
  | .tryCatch body clauses => .tryCatch body clauses :: (subtrees body ++ subtreesClauses clauses)
  | s => [s]

/-- The statements of a list and all statements inside them. -/
def subtrees : List Statement → List Statement
  | [] => []
  | s :: rest => s.subtree ++ subtrees rest

/-- All statements in the bodies of cases. -/
def subtreesCases : List (Case (List Statement)) → List Statement
  | [] => []
  | ⟨_, _, caseBody⟩ :: rest => subtrees caseBody ++ subtreesCases rest

/-- All statements in the bodies of clauses. -/
def subtreesClauses : List (Catch (List Statement)) → List Statement
  | [] => []
  | ⟨_, _, handlerBody⟩ :: rest => subtrees handlerBody ++ subtreesClauses rest

end

attribute [simp] subtree subtrees subtreesCases subtreesClauses

/-- The subtrees of two lists of statements in a row. -/
@[simp]
theorem subtrees_append (xs ys : List Statement) : subtrees (xs ++ ys) = subtrees xs ++ subtrees ys := by
  induction xs with
  | nil => rfl
  | cons s xs ih => simp [ih]

section

variable {p : Scope → Statement → Bool}

mutual

/-- What holds everywhere in a statement holds of each statement in it. -/
theorem everywhere_subtree {scope : Scope} {s t : Statement} (h : everywhere p scope s = true) (ht : t ∈ s.subtree) :
    ∃ scope', p scope' t = true := by
  cases s with
  | branch condition thenPart elsePart =>
    simp only [everywhere, Bool.and_eq_true] at h
    simp only [subtree, List.mem_cons, List.mem_append] at ht
    rcases ht with rfl | ht | ht
    · exact ⟨scope, h.1.1⟩
    · exact everywhereAll_subtrees h.1.2 ht
    · exact everywhereAll_subtrees h.2 ht
  | whileDo condition body =>
    simp only [everywhere, Bool.and_eq_true] at h
    rcases List.mem_cons.1 ht with rfl | ht
    · exact ⟨scope, h.1⟩
    · exact everywhereAll_subtrees h.2 ht
  | doWhile condition body =>
    simp only [everywhere, Bool.and_eq_true] at h
    rcases List.mem_cons.1 ht with rfl | ht
    · exact ⟨scope, h.1⟩
    · exact everywhereAll_subtrees h.2 ht
  | forUpdate condition update body =>
    simp only [everywhere, Bool.and_eq_true] at h
    simp only [subtree, List.mem_cons, List.mem_append] at ht
    rcases ht with rfl | ht | ht
    · exact ⟨scope, h.1.1⟩
    · exact everywhereAll_subtrees h.2 ht
    · exact everywhereAll_subtrees h.1.2 ht
  | switch key cases =>
    simp only [everywhere, Bool.and_eq_true] at h
    rcases List.mem_cons.1 ht with rfl | ht
    · exact ⟨scope, h.1⟩
    · exact everywhereCases_subtrees h.2 ht
  | tryCatch body clauses =>
    simp only [everywhere, Bool.and_eq_true] at h
    simp only [subtree, List.mem_cons, List.mem_append] at ht
    rcases ht with rfl | ht | ht
    · exact ⟨scope, h.1.1⟩
    · exact everywhereAll_subtrees h.1.2 ht
    · exact everywhereClauses_subtrees h.2 ht
  | _ =>
    simp only [subtree, List.mem_singleton] at ht
    subst ht
    exact ⟨scope, h⟩

/-- What holds everywhere holds of each statement of a tree. -/
theorem everywhereAll_subtrees {scope : Scope} {statements : List Statement} {t : Statement}
    (h : everywhereAll p scope statements = true) (ht : t ∈ subtrees statements) : ∃ scope', p scope' t = true := by
  cases statements with
  | nil => cases ht
  | cons s rest =>
    simp only [everywhereAll, Bool.and_eq_true] at h
    rcases List.mem_append.1 ht with ht | ht
    · exact everywhere_subtree h.1 ht
    · exact everywhereAll_subtrees h.2 ht

/-- What holds everywhere in cases holds of each statement in them. -/
theorem everywhereCases_subtrees {scope : Scope} {cases : List (Case (List Statement))} {t : Statement}
    (h : everywhereCases p scope cases = true) (ht : t ∈ subtreesCases cases) : ∃ scope', p scope' t = true := by
  cases cases with
  | nil => cases ht
  | cons c rest =>
    simp only [everywhereCases, Bool.and_eq_true] at h
    rcases List.mem_append.1 ht with ht | ht
    · exact everywhereAll_subtrees h.1 ht
    · exact everywhereCases_subtrees h.2 ht

/-- What holds everywhere in clauses holds of each statement in them. -/
theorem everywhereClauses_subtrees {scope : Scope} {clauses : List (Catch (List Statement))} {t : Statement}
    (h : everywhereClauses p scope clauses = true) (ht : t ∈ subtreesClauses clauses) : ∃ scope', p scope' t = true := by
  cases clauses with
  | nil => cases ht
  | cons c rest =>
    simp only [everywhereClauses, Bool.and_eq_true] at h
    rcases List.mem_append.1 ht with ht | ht
    · exact everywhereAll_subtrees h.1 ht
    · exact everywhereClauses_subtrees h.2 ht

end

end

mutual

/-- A test that ignores the scope holds everywhere if it holds of all statements inside. -/
theorem everywhere_eq_all (p : Statement → Bool) (scope : Scope) (s : Statement) :
    everywhere (fun _ => p) scope s = s.subtree.all p := by
  cases s with
  | branch condition thenPart elsePart => simp [everywhereAll_eq_all p, Bool.and_assoc]
  | whileDo condition body => simp [everywhereAll_eq_all p]
  | doWhile condition body => simp [everywhereAll_eq_all p]
  | forUpdate condition update body =>
    simp [everywhereAll_eq_all p, Bool.and_assoc, Bool.and_comm ((subtrees update).all p)]
  | switch key cases => simp [everywhereCases_eq_all p]
  | tryCatch body clauses => simp [everywhereAll_eq_all p, everywhereClauses_eq_all p, Bool.and_assoc]
  | _ => simp

/-- A test that does not look at the scope passes everywhere if it passes for all that stands in the tree. -/
theorem everywhereAll_eq_all (p : Statement → Bool) (scope : Scope) (statements : List Statement) :
    everywhereAll (fun _ => p) scope statements = (subtrees statements).all p := by
  cases statements with
  | nil => rfl
  | cons s rest => simp [everywhere_eq_all p scope s, everywhereAll_eq_all p scope rest]

/-- The same for cases. -/
theorem everywhereCases_eq_all (p : Statement → Bool) (scope : Scope) (cases : List (Case (List Statement))) :
    everywhereCases (fun _ => p) scope cases = (subtreesCases cases).all p := by
  cases cases with
  | nil => rfl
  | cons c rest => simp [everywhereAll_eq_all p scope c.body, everywhereCases_eq_all p scope rest]

/-- The same for clauses. -/
theorem everywhereClauses_eq_all (p : Statement → Bool) (scope : Scope) (clauses : List (Catch (List Statement))) :
    everywhereClauses (fun _ => p) scope clauses = (subtreesClauses clauses).all p := by
  cases clauses with
  | nil => rfl
  | cons c rest => simp [everywhereAll_eq_all p scope c.body, everywhereClauses_eq_all p scope rest]

end

end Statement

end CodeLift
