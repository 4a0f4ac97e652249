import CodeLift.Proofs.Scoping.Sections
import CodeLift.Proofs.Statement.Operands

/-!
# What sections become

A section becomes a statement of its kind, after the simple statements that the code of its condition or of its key adds. What is
asked of single statements, and of the sections that they are made of, is a `Making`; trees are read once, for all of them
(`Making.sectionsInto_makes`). A list that cannot be built becomes a comment.
-/

namespace CodeLift

open Building Build

/-- The statement is one that the section can become: it is of the same kind, its condition is proper if the guard is, its update
is straight if that of the section is, and its clauses bind the variables that those of the section bind. -/
inductive Section.MadeInto : Section → Statement → Prop where
  | branch {g : Guard} {c : Condition} (thenPart elsePart : List Section) (thenOut elseOut : List Statement)
      (hproper : g.isProper = true → c.isProper = true) : MadeInto (.branch g thenPart elsePart) (.branch c thenOut elseOut)
  | forever (kind : LoopKind) (loopBody update : List Section) (out : List Statement) :
      MadeInto (.loop kind none loopBody update) (.whileDo none out)
  | whileDo (kind : LoopKind) {g : Guard} {c : Condition} (loopBody update : List Section) (out : List Statement)
      (hproper : g.isProper = true → c.isProper = true) :
      MadeInto (.loop kind (some g) loopBody update) (.whileDo (some c) out)
  | doWhile {g : Guard} {c : Condition} (loopBody update : List Section) (out : List Statement)
      (hproper : g.isProper = true → c.isProper = true) :
      MadeInto (.loop .doWhile (some g) loopBody update) (.doWhile c out)
  | forUpdate {g : Guard} {c : Condition} (loopBody : List Section) {update : List Section} (out : List Statement)
      {updateOut : List Statement} (hproper : g.isProper = true → c.isProper = true)
      (hstraight : update.all Section.isBody = true → updateOut.all Statement.isStraight = true) :
      MadeInto (.loop .forUpdate (some g) loopBody update) (.forUpdate c updateOut out)
  | switch (key : Span) (cases : List (Case (List Section))) (value : ExprId) (casesOut : List (Case (List Statement))) :
      MadeInto (.switch key cases) (.switch value casesOut)
  | tryCatch (tried : List Section) {clauses : List (CatchSection (List Section))} (triedOut : List Statement)
      {clausesOut : List (Catch (List Statement))}
      (hbound : clausesOut.map Catch.boundTo = clauses.map CatchSection.boundTo) :
      MadeInto (.tryCatch tried clauses) (.tryCatch triedOut clausesOut)
  | breakOut (depth : Nat) (jump : Option Nat) : MadeInto (.breakOut depth jump) (.breakOut depth)
  | continueNext (depth : Nat) (jump : Option Nat) : MadeInto (.continueNext depth jump) (.continueNext depth)
  | comment (lines : List String) (spans : List Span) : MadeInto (.comment lines spans) (.comment lines)

/-- A test on single statements, and a test on single sections which is enough for what they become. -/
structure Making (src : Source) where
  allows : Scope → Section → Bool
  wants : Scope → Statement → Bool
  /-- What an instruction adds is wanted wherever it stands. -/
  insn : ∀ {scope b index i f}, Yields b (Build.insn src.locals index i f) fun f' _ => f.Grows (wants scope · = true) f'
  madeInto : ∀ {scope s t}, allows scope s = true → s.MadeInto t → wants scope t = true
  comment : ∀ {scope lines}, wants scope (.comment lines) = true

namespace Build

variable {src : Source} {settings : Settings} {b : Builder} {f : Frame}

/-! ## Conditions and updates -/

mutual

/-- A proper guard becomes a proper condition. -/
theorem condition_isProper (g : Guard) (isOpen : Bool) (f : Frame) (b : Builder) :
    Yields b (condition src g isOpen f) fun r _ => g.isProper = true → r.1.isProper = true := by
  cases g with
  | jump span negate =>
    unfold condition jump
    intro r b' hrun _
    obtain ⟨r', b₁, hjump, h₁⟩ := run_bind_eq_ok.1 hrun
    cases h₁
    obtain ⟨_, _, _, h₂⟩ := run_bind_eq_ok.1 hjump
    obtain ⟨_, _, _, h₃⟩ := run_bind_eq_ok.1 h₂
    dsimp only at h₃
    split at h₃
    · obtain ⟨_, _, _, h₄⟩ := run_bind_eq_ok.1 h₃
      cases h₄
      rfl
    · cases h₃
  | and parts =>
    unfold condition
    refine (conditions_isProper parts isOpen f b).bind fun r _ hr => .pure fun hproper => ?_
    simp only [Guard.isProper, Bool.and_eq_true, decide_eq_true_eq] at hproper
    simp [hr.1, hproper.1, hr.2 hproper.2]
  | or parts =>
    unfold condition
    refine (conditions_isProper parts isOpen f b).bind fun r _ hr => .pure fun hproper => ?_
    simp only [Guard.isProper, Bool.and_eq_true, decide_eq_true_eq] at hproper
    simp [hr.1, hproper.1, hr.2 hproper.2]
  | not inner =>
    unfold condition
    refine (condition_isProper inner isOpen f b).bind fun r _ hr => .pure fun hproper => ?_
    rw [Condition.isProper_negate]
    exact hr hproper

/-- Proper guards become as many proper conditions. -/
theorem conditions_isProper (parts : List Guard) (isOpen : Bool) (f : Frame) (b : Builder) :
    Yields b (conditions src parts isOpen f) fun r _ =>
      r.1.length = parts.length ∧ (Guard.isProperAll parts = true → Condition.isProperAll r.1 = true) := by
  cases parts with
  | nil =>
    unfold conditions
    exact .pure ⟨rfl, fun _ => rfl⟩
  | cons part rest =>
    unfold conditions
    refine (condition_isProper part isOpen f b).bind fun r b₁ hr => ?_
    refine (conditions_isProper rest r.2.1 r.2.2 b₁).bind fun r' _ hr' => .pure ⟨by simp [hr'.1], fun hproper => ?_⟩
    simp only [Guard.isProperAll, Bool.and_eq_true] at hproper
    simp [hr hproper.1, hr'.2 hproper.2]

end

/-- The condition of a loop tested at the top is proper if its guard is. -/
theorem headGuard_isProper (g : Guard) (b : Builder) :
    Yields b (headGuard src g) fun c _ => g.isProper = true → c.isProper = true := by
  unfold headGuard
  refine (condition_isProper g false ⟨[], []⟩ b).bind fun r _ hr => ?_
  exact (Yields.any _).bind fun _ _ _ => .pure hr

/-- A list is built to its end, or becomes a comment. -/
theorem orComment_yields {sections : List Section} {x : Building Frame} {Q : List Statement → Prop}
    (hx : Yields b x fun f _ => Q f.out) (hcomment : Q [.comment (commentLines src sections)]) :
    Yields b (orComment src settings sections x) fun statements _ => Q statements := by
  have hfinish : Yields b (x >>= Frame.finish) fun statements _ => Q statements := by
    refine hx.bind fun f _ hf => f.finish_yields.mono ?_
    rintro _ _ rfl
    exact hf
  intro statements b' hrun
  unfold orComment at hrun
  cases hrun' : (x >>= Frame.finish) b with
  | ok statements' b₁ =>
    rw [hrun'] at hrun
    cases hrun
    exact hfinish _ _ hrun'
  | error e b₁ =>
    rw [hrun'] at hrun
    dsimp only at hrun
    split at hrun
    · cases hrun
      exact hcomment
    · cases hrun

/-- Straight code becomes simple statements. -/
theorem sectionsInto_simple {sections : List Section} (h : sections.all Section.isBody = true) :
    Yields b (sectionsInto src settings sections f) fun f' _ => AddsSimple f f' := by
  induction sections generalizing f b with
  | nil =>
    simp only [sectionsInto]
    exact .pure (.refl f)
  | cons s rest ih =>
    simp only [List.all_cons, Bool.and_eq_true] at h
    cases s with
    | body span =>
      simp only [sectionsInto, sectionInto]
      refine (body_yields src span f).bind fun f' _ hf' => ?_
      exact (ih h.2).mono fun f'' _ hf'' => hf'.trans hf''
    | _ => exact absurd h.1 (by simp [Section.isBody])

/-- Straight code in a list of its own becomes simple statements, or a comment. -/
theorem list_isStraight {sections : List Section} (h : sections.all Section.isBody = true) :
    Yields b (list src settings sections) fun statements _ => statements.all Statement.isStraight = true := by
  refine orComment_yields ((sectionsInto_simple h).mono fun f' _ hf' => ?_) rfl
  obtain ⟨more, hout, hmore⟩ := hf'
  rw [List.all_eq_true, hout]
  exact fun s hs => Statement.isStraight_of_isSimple (hmore s hs)

end Build

/-! ## Trees -/

namespace Making

variable {src : Source} {settings : Settings} (M : Making src) {scope : Scope} {b : Builder} {f : Frame}

/-- The statement is wanted, and so is all that stands inside it. -/
def Makes (scope : Scope) (s : Statement) : Prop := Statement.everywhere M.wants scope s = true

/-- What an instruction adds holds nothing inside it. -/
theorem insn_makes (scope : Scope) {index : Nat} {i : Insn} :
    Yields b (Build.insn src.locals index i f) fun f' _ => f.Grows (M.Makes scope) f' := by
  intro f' b' hrun
  obtain ⟨more, hout, hmore⟩ := M.insn f' b' hrun
  obtain ⟨more', hout', hsimple⟩ := insn_yields _ _ _ _ f' b' hrun
  obtain rfl : more = more' := List.append_cancel_left (hout.symm.trans hout')
  refine ⟨more, hout, fun s hs => ?_⟩
  unfold Makes
  rw [Statement.everywhere_of_isSimple (hsimple s hs)]
  exact hmore s hs

/-- A list of sections is built into statements that are wanted, in any frame. -/
def BuildsWanted (settings : Settings) (scope : Scope) (sections : List Section) : Prop :=
  ∀ (b : Builder) (f : Frame), Yields b (sectionsInto src settings sections f) fun f' _ => f.Grows (M.Makes scope) f'

variable {M}

/-- Statements that are wanted with all inside them are so as a list. -/
theorem everywhereAll_of_forall {statements : List Statement} (h : ∀ s ∈ statements, M.Makes scope s) :
    Statement.everywhereAll M.wants scope statements = true := by
  induction statements with
  | nil => rfl
  | cons s rest ih =>
    obtain ⟨hs, hrest⟩ := List.forall_mem_cons.1 h
    rw [Statement.everywhereAll, ih hrest, Bool.and_true]
    exact hs

/-- A nested list becomes statements that are wanted, or a comment. -/
theorem BuildsWanted.inner {sections : List Section} (h : M.BuildsWanted settings scope sections) (stack : List ExprId) :
    Yields b (orComment src settings sections (sectionsInto src settings sections ⟨stack, []⟩)) fun statements _ =>
      Statement.everywhereAll M.wants scope statements = true := by
  refine orComment_yields ((h b ⟨stack, []⟩).mono fun f' _ hf' => ?_) ?_
  · obtain ⟨more, hout, hmore⟩ := hf'
    rw [hout]
    exact everywhereAll_of_forall hmore
  · simp [M.comment]

/-- A statement is added that the section can become. -/
theorem emit {s : Section} {t : Statement} (hs : M.allows scope s = true) (h : s.MadeInto t)
    (hinner : M.wants scope t = true → M.Makes scope t) : f.Grows (M.Makes scope) (f.emit t) :=
  .emit (hinner (M.madeInto hs h))

/-- A loop becomes a statement that is wanted, whichever kind it is. -/
theorem loop_makes {kind : LoopKind} {guard : Option Guard} {loopBody update : List Section}
    (hs : M.allows scope (.loop kind guard loopBody update) = true) (hbody : M.BuildsWanted settings scope.inLoop loopBody)
    (hupdate : M.BuildsWanted settings scope update) :
    Yields b (sectionInto src settings (.loop kind guard loopBody update) f) fun f' _ => f.Grows (M.Makes scope) f' := by
  cases guard with
  | none =>
    cases kind <;> simp only [sectionInto] <;>
      exact (hbody.inner []).bind fun out _ hout => .pure (emit hs (.forever _ _ _ out) fun ht => by simp [Makes, ht, hout])
  | some g =>
    -- A loop tested at the top, without an update.
    have htop : Yields b (headGuard src g >>= fun condition =>
        orComment src settings loopBody (sectionsInto src settings loopBody ⟨[], []⟩) >>= fun out =>
          pure (f.emit (.whileDo (some condition) out))) fun f' _ => f.Grows (M.Makes scope) f' := by
      refine (headGuard_isProper g b).bind fun c b₁ hproper => ?_
      exact (hbody.inner []).bind fun out _ hout => .pure (emit hs (.whileDo _ _ _ out hproper) fun ht => by simp [Makes, ht, hout])
    cases kind with
    | whileDo =>
      simp only [sectionInto]
      exact htop
    | forever =>
      simp only [sectionInto]
      exact htop
    | forUpdate =>
      simp only [sectionInto]
      refine (headGuard_isProper g b).bind fun c b₁ hproper => ?_
      intro f' b' hrun
      obtain ⟨updateOut, b₂, hrun₁, h₁⟩ := run_bind_eq_ok.1 hrun
      obtain ⟨out, b₃, hrun₂, h₂⟩ := run_bind_eq_ok.1 h₁
      cases h₂
      have hupdateOut := hupdate.inner [] _ _ hrun₁
      have hout := hbody.inner [] _ _ hrun₂
      have hmade : Section.MadeInto (.loop .forUpdate (some g) loopBody update) (.forUpdate c updateOut out) :=
        .forUpdate loopBody out hproper fun hstraight => list_isStraight hstraight _ _ hrun₁
      exact emit hs hmade fun ht => by simp [Makes, ht, hout, hupdateOut]
    | doWhile =>
      simp only [sectionInto]
      refine (hbody b ⟨[], []⟩).bind fun inner b₁ hinner => ?_
      intro f' b' hrun
      obtain ⟨r, b₂, hcondition, h₁⟩ := run_bind_eq_ok.1 hrun
      obtain ⟨out, b₃, hfinish, h₂⟩ := run_bind_eq_ok.1 h₁
      cases h₂
      have hgrows := condition_grows (M.insn_makes scope.inLoop) _ g true inner _ _ hcondition
      have hout : Statement.everywhereAll M.wants scope.inLoop out = true := by
        obtain rfl := r.2.2.finish_yields _ _ hfinish
        obtain ⟨more, hmore, hwanted⟩ := hinner.trans hgrows
        rw [hmore]
        exact everywhereAll_of_forall hwanted
      have hproper := condition_isProper g true inner _ _ _ hcondition
      exact emit hs (.doWhile loopBody update out hproper) fun ht => by simp [Makes, ht, hout]

mutual

/-- Every section that is allowed adds statements that are wanted. -/
theorem sectionInto_makes {scope : Scope} (s : Section) (hs : Section.everywhere M.allows scope s = true) (f : Frame)
    (b : Builder) : Yields b (sectionInto src settings s f) fun f' _ => f.Grows (M.Makes scope) f' := by
  cases s with
  | body span =>
    simp only [sectionInto]
    exact body_grows (M.insn_makes scope) span f
  | branch g thenPart elsePart =>
    simp only [Section.everywhere, Bool.and_eq_true] at hs
    simp only [sectionInto]
    intro f' b' hrun
    obtain ⟨r, b₁, hcondition, h₁⟩ := run_bind_eq_ok.1 hrun
    obtain ⟨thenOut, b₂, hthen, h₂⟩ := run_bind_eq_ok.1 h₁
    obtain ⟨elseOut, b₃, helse, h₃⟩ := run_bind_eq_ok.1 h₂
    cases h₃
    have hthen := (sectionsInto_makes thenPart hs.1.2).inner [] _ _ hthen
    have helse := (sectionsInto_makes elsePart hs.2).inner [] _ _ helse
    have hproper := condition_isProper g true f b _ _ hcondition
    refine (condition_grows (M.insn_makes scope) b g true f _ _ hcondition).trans ?_
    exact emit hs.1.1 (.branch thenPart elsePart thenOut elseOut hproper) fun ht => by simp [Makes, ht, hthen, helse]
  | loop kind guard loopBody update =>
    simp only [Section.everywhere, Bool.and_eq_true] at hs
    exact loop_makes hs.1.1 (sectionsInto_makes loopBody hs.1.2) (sectionsInto_makes update hs.2)
  | switch key cases =>
    simp only [Section.everywhere, Bool.and_eq_true] at hs
    simp only [sectionInto]
    refine (Yields.any _).bind fun last _ _ => ?_
    refine (body_grows (M.insn_makes scope) _ f).bind fun f₁ b₂ hf₁ => ?_
    refine (f₁.pop_yields last).bind fun r b₃ hr => ?_
    refine (switchCases_makes cases hs.2 b₃).bind fun casesOut _ hcases => .pure ?_
    refine (hf₁.trans (.of_out_eq hr)).trans ?_
    exact emit hs.1 (.switch key cases r.1 casesOut) fun ht => by simp [Makes, ht, hcases]
  | tryCatch tried clauses =>
    simp only [Section.everywhere, Bool.and_eq_true] at hs
    simp only [sectionInto]
    refine ((sectionsInto_makes tried hs.1.2).inner []).bind fun triedOut b₁ htried => ?_
    refine (catches_makes clauses hs.2 b₁).bind fun clausesOut _ hclauses => .pure ?_
    exact emit hs.1.1 (.tryCatch tried triedOut hclauses.1) fun ht => by simp [Makes, ht, htried, hclauses.2]
  | breakOut depth jump =>
    simp only [sectionInto]
    exact .pure (emit hs (.breakOut depth jump) fun ht => by simpa [Makes] using ht)
  | continueNext depth jump =>
    simp only [sectionInto]
    exact .pure (emit hs (.continueNext depth jump) fun ht => by simpa [Makes] using ht)
  | comment lines spans =>
    simp only [sectionInto]
    exact .pure (emit hs (.comment lines spans) fun ht => by simpa [Makes] using ht)

/-- Sections that are allowed are built into statements that are wanted. -/
theorem sectionsInto_makes {scope : Scope} (sections : List Section) (hs : Section.everywhereAll M.allows scope sections = true) :
    M.BuildsWanted settings scope sections := by
  intro b f
  cases sections with
  | nil =>
    simp only [sectionsInto]
    exact .pure (.refl f)
  | cons s rest =>
    simp only [Section.everywhereAll, Bool.and_eq_true] at hs
    simp only [sectionsInto]
    refine (sectionInto_makes s hs.1 f b).bind fun f₁ b₁ hf₁ => ?_
    exact (sectionsInto_makes rest hs.2 b₁ f₁).mono fun f₂ _ hf₂ => hf₁.trans hf₂

/-- The cases of a switch hold statements that are wanted. -/
theorem switchCases_makes {scope : Scope} (cases : List (Case (List Section)))
    (hs : Section.everywhereCases M.allows scope cases = true) (b : Builder) :
    Yields b (switchCases src settings cases) fun out _ => Statement.everywhereCases M.wants scope out = true := by
  cases cases with
  | nil =>
    simp only [switchCases]
    exact .pure rfl
  | cons c rest =>
    simp only [Section.everywhereCases, Bool.and_eq_true] at hs
    simp only [switchCases]
    refine ((sectionsInto_makes c.body hs.1).inner []).bind fun body b₁ hbody => ?_
    exact (switchCases_makes rest hs.2 b₁).bind fun out _ hout => .pure (by simp [hbody, hout])

/-- The clauses of a try hold statements that are wanted, and bind the same variables. -/
theorem catches_makes {scope : Scope} (clauses : List (CatchSection (List Section)))
    (hs : Section.everywhereClauses M.allows scope clauses = true) (b : Builder) :
    Yields b (catches src settings clauses) fun out _ =>
      out.map Catch.boundTo = clauses.map CatchSection.boundTo ∧ Statement.everywhereClauses M.wants scope out = true := by
  cases clauses with
  | nil =>
    simp only [catches]
    exact .pure ⟨rfl, rfl⟩
  | cons c rest =>
    simp only [Section.everywhereClauses, Bool.and_eq_true] at hs
    simp only [catches]
    refine (Yields.any _).bind fun stack b₁ _ => ?_
    refine ((sectionsInto_makes c.body hs.1).inner stack).bind fun body b₂ hbody => ?_
    exact (catches_makes rest hs.2 b₂).bind fun out _ hout => .pure (by simp [hbody, hout])

end

/-- The statements that a list of sections becomes. -/
theorem list_makes (M : Making src) {sections : List Section} (hs : Section.everywhereAll M.allows scope sections = true) :
    Yields b (list src settings sections) fun statements _ => Statement.everywhereAll M.wants scope statements = true :=
  (sectionsInto_makes sections hs).inner []

/-- Nothing is asked. -/
def any (src : Source) : Making src where
  allows _ _ := true
  wants _ _ := true
  insn := (insn_yields _ _ _ _).mono fun _ _ h => h.mono fun _ _ => rfl
  madeInto _ _ := rfl
  comment := rfl

end Making

/-- Building sections adds statements to the list at hand and takes none away. -/
theorem Build.sectionsInto_yields (src : Source) (settings : Settings) (sections : List Section) (f : Frame) {b : Builder} :
    Yields b (sectionsInto src settings sections f) fun f' _ => f.Grows (fun _ => True) f' := by
  have hall : Section.everywhereAll (Making.any src).allows .outermost sections = true := by
    refine (Section.everywhereAll_eq_all (fun _ => true) .outermost sections).trans ?_
    simp
  exact (Making.sectionsInto_makes sections hall b f).mono fun f' _ h => h.mono fun _ _ => trivial

end CodeLift
