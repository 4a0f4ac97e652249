import CodeLift.Decompiler
import CodeLift.Proofs.Comments.Sections
import CodeLift.Proofs.Comments.Statements

/-!
# Comments only replace failures

Lifting a method with comments not allowed gives exactly the results without a comment that lifting it with comments allowed
gives. The phases before structuring do not ask whether comments are allowed, and the passes neither make nor remove comments.
-/

namespace CodeLift

/-! ## Passes -/

namespace Statement

section

variable {change : List Statement → Id (List Statement)}

mutual

theorem commentFree_mapInner (h : ∀ statements, commentFreeAll (change statements).run = commentFreeAll statements)
    (s : Statement) : (mapInner change s).run.commentFree = s.commentFree := by
  cases s with
  | branch condition thenPart elsePart =>
    simp [mapInner, h, commentFreeAll_mapEach h thenPart, commentFreeAll_mapEach h elsePart]
  | whileDo condition body => simp [mapInner, h, commentFreeAll_mapEach h body]
  | doWhile condition body => simp [mapInner, h, commentFreeAll_mapEach h body]
  | forUpdate condition update body =>
    simp [mapInner, h, commentFreeAll_mapEach h update, commentFreeAll_mapEach h body]
  | switch key cases => simp [mapInner, commentFreeCases_mapCases h cases]
  | tryCatch body clauses => simp [mapInner, h, commentFreeAll_mapEach h body, commentFreeClauses_mapClauses h clauses]
  | _ => simp [mapInner]

theorem commentFreeAll_mapEach (h : ∀ statements, commentFreeAll (change statements).run = commentFreeAll statements)
    (statements : List Statement) : commentFreeAll (mapEach change statements).run = commentFreeAll statements := by
  cases statements with
  | nil => simp [mapEach]
  | cons s rest => simp [mapEach, commentFree_mapInner h s, commentFreeAll_mapEach h rest]

theorem commentFreeCases_mapCases (h : ∀ statements, commentFreeAll (change statements).run = commentFreeAll statements)
    (cases : List (Case (List Statement))) : commentFreeCases (mapCases change cases).run = commentFreeCases cases := by
  cases cases with
  | nil => simp [mapCases]
  | cons c rest =>
    obtain ⟨values, isDefault, body⟩ := c
    simp [mapCases, h, commentFreeAll_mapEach h body, commentFreeCases_mapCases h rest]

theorem commentFreeClauses_mapClauses (h : ∀ statements, commentFreeAll (change statements).run = commentFreeAll statements)
    (clauses : List (Catch (List Statement))) :
    commentFreeClauses (mapClauses change clauses).run = commentFreeClauses clauses := by
  cases clauses with
  | nil => simp [mapClauses]
  | cons c rest =>
    obtain ⟨catches, boundTo, body⟩ := c
    simp [mapClauses, h, commentFreeAll_mapEach h body, commentFreeClauses_mapClauses h rest]

end

/-- A change that keeps every list as free of comments as it is does so for the whole tree. -/
theorem commentFreeAll_mapLists (h : ∀ statements, commentFreeAll (change statements).run = commentFreeAll statements)
    (statements : List Statement) : commentFreeAll (mapLists change statements).run = commentFreeAll statements := by
  simp [mapLists, h, commentFreeAll_mapEach h]

end

end Statement

namespace Pass

theorem commentFree_toIncrement (arena : Arena) (s : Statement) : (toIncrement arena s).commentFree = s.commentFree := by
  unfold toIncrement
  split
  · split
    · rfl
    · rfl
  · rfl

/-- The pass for increments neither makes nor removes comments. -/
theorem commentFree_increment {m : Method} {ls : Locals} {body body' : Body} (h : increment.run m ls body = .ok body') :
    Statement.CommentFree body'.statements ↔ Statement.CommentFree body.statements := by
  cases h
  unfold Statement.CommentFree
  dsimp only
  rw [Statement.commentFreeAll_mapLists]
  intro statements
  induction statements with
  | nil => rfl
  | cons s rest ih =>
    rw [Id.run_pure] at ih ⊢
    simp [commentFree_toIncrement, ih]

end Pass

/-! ## The phases -/

/-- Lifting a method is its phases, one after the other. -/
theorem Decompiler.decompile_eq_ok {d : Decompiler} {m : Method} {events events' : List Event} {r : Decompiled} :
    d.decompile m events = .ok r events' ↔ ∃ src events₁ g events₂ sections events₃ body events₄,
      m.source events = .ok src events₁ ∧ Graph.buildTraced src d.producers events₁ = .ok g events₂ ∧
      Subject.sectionsTraced ⟨src, g, d.settings⟩ d.recognizers (events₂ ++ [Subject.sizeEvent ⟨src, g, d.settings⟩]) =
        .ok sections events₃ ∧
      src.body d.settings sections events₃ = .ok body events₄ ∧
      r = ⟨src.locals, sections, (Pass.runAll m src.locals (if d.settings.runPasses then d.passes else []) body).1⟩ ∧
      events' = events₄ ++ (Pass.runAll m src.locals (if d.settings.runPasses then d.passes else []) body).2 := by
  unfold Decompiler.decompile
  constructor
  · intro h
    obtain ⟨src, events₁, hsrc, h⟩ := run_bind_eq_ok.1 h
    obtain ⟨g, events₂, hg, h⟩ := run_bind_eq_ok.1 h
    obtain ⟨_, _, hreport, h⟩ := run_bind_eq_ok.1 h
    obtain ⟨sections, events₃, hsections, h⟩ := run_bind_eq_ok.1 h
    obtain ⟨body, events₄, hbody, h⟩ := run_bind_eq_ok.1 h
    obtain ⟨_, _, hreport', h⟩ := run_bind_eq_ok.1 h
    cases Traced.report_eq_ok.1 hreport
    cases Traced.report_eq_ok.1 hreport'
    cases h
    exact ⟨src, events₁, g, events₂, sections, events₃, body, events₄, hsrc, Traced.mapError_eq_ok.1 hg,
      Traced.mapError_eq_ok.1 hsections, Traced.mapError_eq_ok.1 hbody, rfl, rfl⟩
  · rintro ⟨src, events₁, g, events₂, sections, events₃, body, events₄, hsrc, hg, hsections, hbody, rfl, rfl⟩
    have hreport : (Traced.report [Subject.sizeEvent ⟨src, g, d.settings⟩] : Traced DecompileError Unit) events₂ =
        .ok () (events₂ ++ [Subject.sizeEvent ⟨src, g, d.settings⟩]) := Traced.report_eq_ok.2 rfl
    rw [run_bind_of_ok hsrc, run_bind_of_ok (Traced.mapError_eq_ok.2 hg), run_bind_of_ok hreport,
      run_bind_of_ok (Traced.mapError_eq_ok.2 hsections), run_bind_of_ok (Traced.mapError_eq_ok.2 hbody)]
    rfl

/-- Comments only ever replace failures: with all else the same, lifting a method where comments are not allowed gives a result
exactly if lifting it where they are allowed gives that result and no comment stands in its sections or in its statements. -/
theorem comments_only_replace_failures (m : Method) (maxDepth : Nat) (runPasses : Bool) (events events' : List Event)
    (r : Decompiled) :
    (Decompiler.standard ⟨false, maxDepth, runPasses⟩).decompile m events = .ok r events' ↔
      (Decompiler.standard ⟨true, maxDepth, runPasses⟩).decompile m events = .ok r events' ∧
        Section.CommentFree r.sections ∧ Statement.CommentFree r.body.statements := by
  rw [Decompiler.decompile_eq_ok, Decompiler.decompile_eq_ok]
  let off : Settings := ⟨false, maxDepth, runPasses⟩
  let on : Settings := ⟨true, maxDepth, runPasses⟩
  have hpasses : ∀ (src : Source) (body : Body), Statement.CommentFree
      (Pass.runAll m src.locals (if runPasses then [.increment] else []) body).1.statements ↔
        Statement.CommentFree body.statements := by
    intro src body
    split
    · exact Pass.commentFree_increment (rfl : Pass.increment.run m src.locals body = .ok _)
    · exact Iff.rfl
  constructor
  · rintro ⟨src, events₁, g, events₂, sections, events₃, body, events₄, hsrc, hg, hsections, hbody, rfl, rfl⟩
    obtain ⟨hsections, hfree⟩ := (sectionsTraced_eq_ok_iff src g off on rfl rfl).1 hsections
    obtain ⟨hbody, hfree'⟩ := (src.body_eq_ok_iff off on rfl hfree).1 hbody
    refine ⟨⟨src, events₁, g, events₂, sections, events₃, body, events₄, hsrc, hg, hsections, hbody, rfl, rfl⟩, hfree, ?_⟩
    exact (hpasses src body).2 hfree'
  · rintro ⟨⟨src, events₁, g, events₂, sections, events₃, body, events₄, hsrc, hg, hsections, hbody, rfl, rfl⟩, hfree, hfree'⟩
    refine ⟨src, events₁, g, events₂, sections, events₃, body, events₄, hsrc, hg, ?_, ?_, rfl, rfl⟩
    · exact (sectionsTraced_eq_ok_iff src g off on rfl rfl).2 ⟨hsections, hfree⟩
    · exact (src.body_eq_ok_iff off on rfl hfree).2 ⟨hbody, (hpasses src body).1 hfree'⟩

end CodeLift
