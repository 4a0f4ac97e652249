import CodeLift.Proofs.Comments.Free
import CodeLift.Proofs.Statement.Making

/-!
# Comments among statements

Building statements where comments are not allowed succeeds exactly where building them with comments allowed makes none. A
comment is a statement of the list at hand, and lists only grow: once made, it stays.
-/

namespace CodeLift

open Building

namespace Building

variable {α β : Type}

/-- The first action gives exactly the good results of the second. -/
def Tracks (good : α → Prop) (x y : Building α) : Prop := ∀ b a b', x b = .ok a b' ↔ y b = .ok a b' ∧ good a

namespace Tracks

variable {good : α → Prop} {good' : β → Prop}

/-- An action whose results are all good tracks itself. -/
theorem of_yields {x : Building α} (h : ∀ b, Yields b x fun a _ => good a) : Tracks good x x := by
  intro b a b'
  constructor
  · intro hrun
    exact ⟨hrun, h b a b' hrun⟩
  · exact And.left

theorem pure {a : α} (h : good a) : Tracks good (Pure.pure a) (Pure.pure a) := of_yields fun _ => .pure h

/-- Sequences of actions that track each other. What is not good stays visible in what is made of it. -/
theorem bind {x y : Building α} {f g : α → Building β} (hx : Tracks good x y) (hf : ∀ a, good a → Tracks good' (f a) (g a))
    (hkeep : ∀ a b, Yields b (g a) fun c _ => good' c → good a) : Tracks good' (x >>= f) (y >>= g) := by
  intro b c b''
  rw [run_bind_eq_ok, run_bind_eq_ok]
  constructor
  · rintro ⟨a, b', ha, hc⟩
    obtain ⟨ha, hgood⟩ := (hx b a b').1 ha
    obtain ⟨hc, hgood'⟩ := (hf a hgood b' c b'').1 hc
    exact ⟨⟨a, b', ha, hc⟩, hgood'⟩
  · rintro ⟨⟨a, b', ha, hc⟩, hgood'⟩
    have hgood := hkeep a b' c b'' hc hgood'
    exact ⟨a, b', (hx b a b').2 ⟨ha, hgood⟩, (hf a hgood b' c b'').2 ⟨hc, hgood'⟩⟩

/-- Sequences that start with the same action. -/
theorem same {z : Building α} {f g : α → Building β} {P : α → Prop} (hz : ∀ b, Yields b z fun a _ => P a)
    (hf : ∀ a, P a → Tracks good' (f a) (g a)) : Tracks good' (z >>= f) (z >>= g) := by
  intro b c b''
  rw [run_bind_eq_ok, run_bind_eq_ok]
  constructor
  · rintro ⟨a, b', ha, hc⟩
    obtain ⟨hc, hgood'⟩ := (hf a (hz b a b' ha) b' c b'').1 hc
    exact ⟨⟨a, b', ha, hc⟩, hgood'⟩
  · rintro ⟨⟨a, b', ha, hc⟩, hgood'⟩
    exact ⟨a, b', ha, (hf a (hz b a b' ha) b' c b'').2 ⟨hc, hgood'⟩⟩

end Tracks

end Building

/-! ## Frames -/

/-- No comment stands in the statements of a frame. -/
def Frame.CommentFree (f : Frame) : Prop := Statement.CommentFree f.out

/-- A statement free of comments can be added. -/
@[simp]
theorem Frame.commentFree_emit {f : Frame} {s : Statement} :
    (f.emit s).CommentFree ↔ f.CommentFree ∧ s.commentFree = true := by
  simp [CommentFree, emit]

theorem Frame.commentFree_empty (stack : List ExprId) : Frame.CommentFree ⟨stack, []⟩ := Statement.commentFree_nil

/-- A simple statement is no comment. -/
theorem Statement.commentFree_of_isSimple {s : Statement} (h : s.isSimple = true) : s.commentFree = true := by
  cases s <;> simp_all [isSimple]

namespace Build

variable {src : Source} {off settings : Settings} {f f' : Frame}

/-- Adding simple statements adds no comment. -/
theorem AddsSimple.commentFree (h : AddsSimple f f') (hf : f.CommentFree) : f'.CommentFree := by
  obtain ⟨more, hout, hmore⟩ := h
  unfold Frame.CommentFree at hf ⊢
  rw [hout, Statement.commentFree_append]
  exact ⟨hf, Statement.commentFree_of_forall fun s hs => Statement.commentFree_of_isSimple (hmore s hs)⟩

/-- A frame that is free of comments was so before it grew. -/
theorem commentFree_of_grows {P : Statement → Prop} (h : f.Grows P f') (hf' : f'.CommentFree) : f.CommentFree := by
  obtain ⟨more, hout, _⟩ := h
  unfold Frame.CommentFree at hf' ⊢
  rw [hout, Statement.commentFree_append] at hf'
  exact hf'.1

/-! ## Sections -/

/-- A list that cannot be built fails where comments are not allowed, and else fails or becomes a comment. -/
theorem orComment_tracks (hoff : off.commentOnError = false) (sections : List Section) {x y : Building Frame}
    (h : Tracks Frame.CommentFree x y) :
    Tracks Statement.CommentFree (orComment src off sections x) (orComment src settings sections y) := by
  have hfinish : Tracks Statement.CommentFree (x >>= Frame.finish) (y >>= Frame.finish) := by
    refine h.bind (fun f hf => ?_) fun f b => ?_
    · refine .of_yields fun b => f.finish_yields.mono ?_
      rintro _ _ rfl
      exact hf
    · refine f.finish_yields.mono ?_
      rintro _ _ rfl
      exact id
  intro b statements b'
  have hrun := hfinish b
  unfold orComment
  cases hx : (x >>= Frame.finish) b with
  | ok statements' b₁ =>
    obtain ⟨hy, hfree⟩ := (hrun statements' b₁).1 hx
    simp only [hy]
    constructor
    · intro heq
      cases heq
      exact ⟨rfl, hfree⟩
    · exact And.left
  | error e b₁ =>
    simp only [hoff, Bool.and_false, Bool.false_eq_true, if_false, reduceCtorEq, false_iff, not_and]
    intro hy hfree
    cases hrun' : (y >>= Frame.finish) b with
    | ok statements' b₂ =>
      rw [hrun'] at hy
      cases hy
      rw [(hrun statements b').2 ⟨hrun', hfree⟩] at hx
      cases hx
    | error e' b₂ =>
      rw [hrun'] at hy
      dsimp only at hy
      split at hy
      · cases hy
        simp at hfree
      · cases hy

/-- Building a list of sections into any frame without comments tracks itself under other settings. -/
def InnerTracks (src : Source) (off settings : Settings) (sections : List Section) : Prop :=
  ∀ f : Frame, f.CommentFree → Tracks Frame.CommentFree (sectionsInto src off sections f) (sectionsInto src settings sections f)

/-- A nested list is tracked where the first run has no comments. -/
theorem inner_tracks (hoff : off.commentOnError = false) {sections : List Section}
    (h : InnerTracks src off settings sections) (stack : List ExprId) :
    Tracks Statement.CommentFree (orComment src off sections (sectionsInto src off sections ⟨stack, []⟩))
      (orComment src settings sections (sectionsInto src settings sections ⟨stack, []⟩)) :=
  orComment_tracks hoff sections (h ⟨stack, []⟩ (Frame.commentFree_empty stack))

/-- A loop is tracked, whichever kind it is. -/
theorem loop_tracks (hoff : off.commentOnError = false) (kind : LoopKind) (guard : Option Guard)
    {loopBody update : List Section} (hbody : InnerTracks src off settings loopBody)
    (hupdate : InnerTracks src off settings update) (hf : f.CommentFree) :
    Tracks Frame.CommentFree (sectionInto src off (.loop kind guard loopBody update) f)
      (sectionInto src settings (.loop kind guard loopBody update) f) := by
  -- The body of a loop in a list of its own, as the last thing that is built.
  have hlast : ∀ statement : List Statement → Statement,
      (∀ body, (statement body).commentFree = true ↔ Statement.CommentFree body) →
      Tracks Frame.CommentFree
        (orComment src off loopBody (sectionsInto src off loopBody ⟨[], []⟩) >>= fun body => pure (f.emit (statement body)))
        (orComment src settings loopBody (sectionsInto src settings loopBody ⟨[], []⟩) >>= fun body =>
          pure (f.emit (statement body))) := by
    intro statement hstatement
    refine (inner_tracks hoff hbody []).bind (fun body hfree => ?_) fun body b => ?_
    · exact .pure (by simp [hf, hstatement, hfree])
    · exact .pure (by simp [hstatement])
  cases guard with
  | none => cases kind <;> simp only [sectionInto] <;> exact hlast (.whileDo none) (by simp)
  | some g =>
    cases kind with
    | whileDo =>
      simp only [sectionInto]
      exact .same (fun b => Yields.any _) fun condition _ => hlast (.whileDo (some condition)) (by simp)
    | forever =>
      simp only [sectionInto]
      exact .same (fun b => Yields.any _) fun condition _ => hlast (.whileDo (some condition)) (by simp)
    | forUpdate =>
      simp only [sectionInto]
      refine .same (fun b => Yields.any _) fun condition _ => ?_
      refine (inner_tracks hoff hupdate []).bind (fun update' hupdate' => ?_) fun update' b => ?_
      · exact hlast (.forUpdate condition update') (by simp [hupdate'])
      · exact (Yields.any _).bind fun body _ _ => .pure (by simp +contextual)
    | doWhile =>
      simp only [sectionInto]
      refine (hbody ⟨[], []⟩ (Frame.commentFree_empty [])).bind (fun inner hinner => ?_) fun inner b => ?_
      · refine .same (fun b => condition_yields src b g true inner) fun r hr => ?_
        refine .same (fun b => r.2.2.finish_yields) fun statements hstatements => ?_
        have hfree : Statement.CommentFree statements := by
          rw [hstatements]
          exact hr.commentFree hinner
        exact .pure (by simp [hf, hfree])
      · refine (condition_yields src b g true inner).bind fun r _ hr => ?_
        refine r.2.2.finish_yields.bind fun statements _ hstatements => .pure fun hfree => ?_
        refine commentFree_of_grows hr ?_
        unfold Frame.CommentFree
        rw [← hstatements]
        simpa using (Frame.commentFree_emit.1 hfree).2

mutual

/-- Every section is tracked. -/
theorem sectionInto_tracks (hoff : off.commentOnError = false) (s : Section) (hs : s.commentFree = true) (f : Frame)
    (hf : f.CommentFree) : Tracks Frame.CommentFree (sectionInto src off s f) (sectionInto src settings s f) := by
  cases s with
  | body span =>
    simp only [sectionInto]
    exact .of_yields fun b => (body_yields src span f).mono fun f' _ h => h.commentFree hf
  | branch g thenPart elsePart =>
    simp only [Section.commentFree, Bool.and_eq_true] at hs
    simp only [sectionInto]
    refine .same (fun b => condition_yields src b g true f) fun r hr => ?_
    refine (inner_tracks hoff (sectionsInto_tracks hoff thenPart hs.1) []).bind (fun thenPart' hthen => ?_) fun thenPart' b => ?_
    · refine (inner_tracks hoff (sectionsInto_tracks hoff elsePart hs.2) []).bind (fun elsePart' helse => ?_) fun elsePart' b => ?_
      · exact .pure (by simp [hr.commentFree hf, hthen, helse])
      · exact .pure (by simp)
    · exact (Yields.any _).bind fun elsePart' _ _ => .pure (by simp +contextual)
  | loop kind guard loopBody update =>
    simp only [Section.commentFree, Bool.and_eq_true] at hs
    exact loop_tracks hoff kind guard (sectionsInto_tracks hoff loopBody hs.1) (sectionsInto_tracks hoff update hs.2) hf
  | switch key cases =>
    simp only [Section.commentFree] at hs
    simp only [sectionInto]
    refine .same (fun b => Yields.any _) fun last _ => ?_
    refine .same (fun b => body_yields src _ f) fun f' hf' => ?_
    refine .same (fun b => f'.pop_yields last) fun r hr => ?_
    have hr' : r.2.CommentFree := by
      unfold Frame.CommentFree
      rw [hr]
      exact hf'.commentFree hf
    refine (switchCases_tracks hoff cases hs).bind (fun cases' hcases => ?_) fun cases' b => ?_
    · exact .pure (by simp [hr', hcases])
    · exact .pure (by simp)
  | tryCatch tried clauses =>
    simp only [Section.commentFree, Bool.and_eq_true] at hs
    simp only [sectionInto]
    refine (inner_tracks hoff (sectionsInto_tracks hoff tried hs.1) []).bind (fun tried' htried => ?_) fun tried' b => ?_
    · refine (catches_tracks hoff clauses hs.2).bind (fun clauses' hclauses => ?_) fun clauses' b => ?_
      · exact .pure (by simp [hf, htried, hclauses])
      · exact .pure (by simp)
    · exact (Yields.any _).bind fun clauses' _ _ => .pure (by simp +contextual)
  | breakOut depth jump =>
    simp only [sectionInto]
    exact .pure (by simp [hf])
  | continueNext depth jump =>
    simp only [sectionInto]
    exact .pure (by simp [hf])
  | comment lines spans => simp at hs

/-- Sections in a row are tracked. -/
theorem sectionsInto_tracks (hoff : off.commentOnError = false) (sections : List Section)
    (hs : Section.commentFreeAll sections = true) : InnerTracks src off settings sections := by
  intro f hf
  cases sections with
  | nil =>
    simp only [sectionsInto]
    exact .pure hf
  | cons s rest =>
    simp only [Section.commentFreeAll, Bool.and_eq_true] at hs
    simp only [sectionsInto]
    refine (sectionInto_tracks hoff s hs.1 f hf).bind (fun f' hf' => ?_) fun f' b => ?_
    · exact sectionsInto_tracks hoff rest hs.2 f' hf'
    · exact (sectionsInto_yields src settings rest f').mono fun f'' _ h hf'' => commentFree_of_grows h hf''

/-- Every case is tracked. -/
theorem switchCases_tracks (hoff : off.commentOnError = false) (cases : List (Case (List Section)))
    (hs : Section.commentFreeCases cases = true) :
    Tracks (Statement.commentFreeCases · = true) (switchCases src off cases) (switchCases src settings cases) := by
  cases cases with
  | nil =>
    simp only [switchCases]
    exact .pure rfl
  | cons c rest =>
    obtain ⟨values, isDefault, caseBody⟩ := c
    simp only [Section.commentFreeCases, Bool.and_eq_true] at hs
    simp only [switchCases]
    refine (inner_tracks hoff (sectionsInto_tracks hoff caseBody hs.1) []).bind (fun body hbody => ?_) fun body b => ?_
    · refine (switchCases_tracks hoff rest hs.2).bind (fun rest' hrest => ?_) fun rest' b => ?_
      · exact .pure (by simp [hbody, hrest])
      · exact .pure (by simp)
    · exact (Yields.any _).bind fun rest' _ _ => .pure (by simp +contextual)

/-- Every clause is tracked. -/
theorem catches_tracks (hoff : off.commentOnError = false) (clauses : List (CatchSection (List Section)))
    (hs : Section.commentFreeClauses clauses = true) :
    Tracks (Statement.commentFreeClauses · = true) (catches src off clauses) (catches src settings clauses) := by
  cases clauses with
  | nil =>
    simp only [catches]
    exact .pure rfl
  | cons c rest =>
    obtain ⟨types, boundTo, header, handlerBody⟩ := c
    simp only [Section.commentFreeClauses, Bool.and_eq_true] at hs
    simp only [catches]
    refine .same (fun b => Yields.any _) fun stack _ => ?_
    refine (inner_tracks hoff (sectionsInto_tracks hoff handlerBody hs.1) stack).bind (fun body hbody => ?_) fun body b => ?_
    · refine (catches_tracks hoff rest hs.2).bind (fun rest' hrest => ?_) fun rest' b => ?_
      · exact .pure (by simp [hbody, hrest])
      · exact .pure (by simp)
    · exact (Yields.any _).bind fun rest' _ _ => .pure (by simp +contextual)

end

end Build

/-- From sections without a comment, the statements of a method where comments are not allowed are those without a comment where
they are allowed. -/
theorem Source.body_eq_ok_iff (src : Source) (off settings : Settings) (hoff : off.commentOnError = false)
    {sections : List Section} (hfree : Section.CommentFree sections) {body : Body} {events events' : List Event} :
    src.body off sections events = .ok body events' ↔
      src.body settings sections events = .ok body events' ∧ Statement.CommentFree body.statements := by
  rw [Source.body_eq_ok, Source.body_eq_ok]
  exact Build.inner_tracks hoff (Build.sectionsInto_tracks hoff sections hfree) [] _ _ _

end CodeLift
