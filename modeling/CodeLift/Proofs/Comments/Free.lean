import CodeLift.Statement.Basic

/-!
# Trees without comments

A comment stands for code that could not be lifted. These are the trees of sections and of statements that hold none, at any
depth.
-/

namespace CodeLift

namespace Section

mutual

/-- Whether no comment stands in a section. -/
def commentFree : Section → Bool
  | .body _ | .breakOut _ _ | .continueNext _ _ => true
  | .branch _ thenPart elsePart => commentFreeAll thenPart && commentFreeAll elsePart
  | .loop _ _ loopBody update => commentFreeAll loopBody && commentFreeAll update
  | .switch _ cases => commentFreeCases cases
  | .tryCatch tried clauses => commentFreeAll tried && commentFreeClauses clauses
  | .comment _ _ => false

/-- Whether no comment stands in a list of sections. -/
def commentFreeAll : List Section → Bool
  | [] => true
  | s :: rest => s.commentFree && commentFreeAll rest

/-- Whether no comment stands in the bodies of cases. -/
def commentFreeCases : List (Case (List Section)) → Bool
  | [] => true
  | ⟨_, _, caseBody⟩ :: rest => commentFreeAll caseBody && commentFreeCases rest

/-- Whether no comment stands in the bodies of clauses. -/
def commentFreeClauses : List (CatchSection (List Section)) → Bool
  | [] => true
  | ⟨_, _, _, handlerBody⟩ :: rest => commentFreeAll handlerBody && commentFreeClauses rest

end

/-- Two lists are tested for comments in a row. -/
@[simp]
theorem commentFreeAll_append (xs ys : List Section) :
    commentFreeAll (xs ++ ys) = (commentFreeAll xs && commentFreeAll ys) := by
  induction xs with
  | nil => simp [commentFreeAll]
  | cons s xs ih => simp [commentFreeAll, ih, Bool.and_assoc]

/-- The cases of two lists are tested for comments in a row. -/
@[simp]
theorem commentFreeCases_append (xs ys : List (Case (List Section))) :
    commentFreeCases (xs ++ ys) = (commentFreeCases xs && commentFreeCases ys) := by
  induction xs with
  | nil => simp [commentFreeCases]
  | cons c xs ih => simp [commentFreeCases, ih, Bool.and_assoc]

attribute [simp] commentFree commentFreeAll commentFreeCases commentFreeClauses

/-- No comment stands in a list of sections. -/
def CommentFree (sections : List Section) : Prop := commentFreeAll sections = true

@[simp]
theorem commentFree_nil : CommentFree [] := rfl

/-- A list is free of comments if its first section is, and the rest. -/
@[simp]
theorem commentFree_cons {s : Section} {rest : List Section} :
    CommentFree (s :: rest) ↔ s.commentFree = true ∧ CommentFree rest := by
  simp [CommentFree]

/-- Two lists in a row are free of comments if both are. -/
@[simp]
theorem commentFree_append {xs ys : List Section} : CommentFree (xs ++ ys) ↔ CommentFree xs ∧ CommentFree ys := by
  simp [CommentFree]

@[simp]
theorem commentFreeAll_eq_true {sections : List Section} : commentFreeAll sections = true ↔ CommentFree sections := Iff.rfl

end Section

namespace Statement

mutual

/-- Whether no comment stands in a statement. -/
def commentFree : Statement → Bool
  | .branch _ thenPart elsePart => commentFreeAll thenPart && commentFreeAll elsePart
  | .whileDo _ loopBody | .doWhile _ loopBody => commentFreeAll loopBody
  | .forUpdate _ update loopBody => commentFreeAll update && commentFreeAll loopBody
  | .switch _ cases => commentFreeCases cases
  | .tryCatch tried clauses => commentFreeAll tried && commentFreeClauses clauses
  | .comment _ => false
  | _ => true

/-- Whether no comment stands in a list of statements. -/
def commentFreeAll : List Statement → Bool
  | [] => true
  | s :: rest => s.commentFree && commentFreeAll rest

/-- Whether no comment stands in the bodies of cases. -/
def commentFreeCases : List (Case (List Statement)) → Bool
  | [] => true
  | ⟨_, _, caseBody⟩ :: rest => commentFreeAll caseBody && commentFreeCases rest

/-- Whether no comment stands in the bodies of clauses. -/
def commentFreeClauses : List (Catch (List Statement)) → Bool
  | [] => true
  | ⟨_, _, handlerBody⟩ :: rest => commentFreeAll handlerBody && commentFreeClauses rest

end

/-- Two lists of statements are tested for comments in a row. -/
@[simp]
theorem commentFreeAll_append (xs ys : List Statement) :
    commentFreeAll (xs ++ ys) = (commentFreeAll xs && commentFreeAll ys) := by
  induction xs with
  | nil => simp [commentFreeAll]
  | cons s xs ih => simp [commentFreeAll, ih, Bool.and_assoc]

attribute [simp] commentFree commentFreeAll commentFreeCases commentFreeClauses

/-- No comment stands in a list of statements. -/
def CommentFree (statements : List Statement) : Prop := commentFreeAll statements = true

@[simp]
theorem commentFree_nil : CommentFree [] := rfl

/-- A list is free of comments if its first statement is, and the rest. -/
@[simp]
theorem commentFree_cons {s : Statement} {rest : List Statement} :
    CommentFree (s :: rest) ↔ s.commentFree = true ∧ CommentFree rest := by
  simp [CommentFree]

/-- Two lists of statements in a row are free of comments if both are. -/
@[simp]
theorem commentFree_append {xs ys : List Statement} : CommentFree (xs ++ ys) ↔ CommentFree xs ∧ CommentFree ys := by
  simp [CommentFree]

@[simp]
theorem commentFreeAll_eq_true {statements : List Statement} : commentFreeAll statements = true ↔ CommentFree statements :=
  Iff.rfl

/-- A list is free of comments if all its statements are. -/
theorem commentFree_of_forall {statements : List Statement} (h : ∀ s ∈ statements, s.commentFree = true) :
    CommentFree statements := by
  induction statements with
  | nil => exact commentFree_nil
  | cons s rest ih =>
    rw [commentFree_cons]
    exact ⟨h s List.mem_cons_self, ih fun s' hs' => h s' (List.mem_cons_of_mem _ hs')⟩

end Statement

end CodeLift
