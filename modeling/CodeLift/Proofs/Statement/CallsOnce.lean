import CodeLift.Proofs.Coverage
import CodeLift.Proofs.Scoping.Statements
import CodeLift.Proofs.Statement.Lines
import CodeLift.Proofs.Structuring.Implied

/-!
# Calls happen once

The calls of the code of a method become calls of its expressions, one for one. An expression can occur in several places of the
statements, since a value that is copied is one expression. `calls_occur_once` says that calls do not, where the code copies no
value that holds a call.
-/

namespace CodeLift

/-- Whether a section on its own can be built, leaves out no call, and uses the values on the stacks inside it only as often as they
may be used. -/
def Section.isTracked (code : List Insn) (scope : Scope) (s : Section) : Bool :=
  s.isBuildable code scope && (s.innerLines code).all (fun (start, line) => isLinear code start line) && s.impliesOnly code

@[simp] theorem Frame.stack_emit (f : Frame) (s : Statement) : (f.emit s).stack = f.stack := rfl

namespace Build

variable {code : List Insn} {index : Nat} {src : Source} {settings : Settings} {f f' : Frame} {b b' : Builder}

/-! ## Sections -/

/-- What is implied makes no calls. -/
theorem callsAt_of_isImplied (h : code[index]?.any Insn.isImplied = true) : callsAt code index = [] := by
  obtain ⟨i, hi, himplied⟩ := (Option.any_eq_true _ _).1 h
  rw [callsAt_eq hi]
  cases i <;> simp_all [Insn.isImplied, Insn.calls]

/-- A section made of implied code runs without statements. -/
theorem implied_runs {s : Section} (hs : s.impliesOnly code = true) (hspans : s.spans.flatMap Span.indices = s.implied) (a : Arena)
    (stack : List ExprId) : Runs code (s.spans.flatMap Span.indices) [] a stack [] a stack := by
  have hcover := (Runs.refl a stack).cover fun index hindex => callsAt_of_isImplied (List.all_eq_true.1 hs index hindex)
  rw [List.append_nil] at hcover
  rw [hspans]
  exact hcover

/-- Whatever a list of sections is built into, what it makes is known. -/
def BuildsRuns (src : Source) (settings : Settings) (sections : List Section) : Prop :=
  ∀ f b f' b', sectionsInto src settings sections f b = .ok f' b' → ∃ more, f'.out = f.out ++ more ∧
    Runs src.method.code (Section.covered sections) (Section.lines sections) b.arena f.stack (Statement.roots more) b'.arena
      f'.stack

/-- What a list of sections makes inside another one. -/
theorem BuildsRuns.list (hstrict : settings.commentOnError = false) {sections : List Section}
    (h : BuildsRuns src settings sections) (hlinear : Section.isLinear src.method.code [] (Section.lines sections) = true)
    {statements : List Statement}
    (hrun : orComment src settings sections (sectionsInto src settings sections ⟨[], []⟩) b = .ok statements b')
    (stack : List ExprId) :
    Runs src.method.code (Section.covered sections) [] b.arena stack (Statement.roots statements) b'.arena stack := by
  obtain ⟨more, hout, hruns⟩ := h _ _ _ _ (orComment_eq_ok hstrict hrun)
  rw [show statements = more from hout]
  exact hruns.nested rfl (reaches_start _ hlinear) stack

/-- The calls of a loop are made once, in its test, its body or its update. -/
theorem loop_runs (hstrict : settings.commentOnError = false) {kind : LoopKind} {guard : Option Guard}
    {loopBody update : List Section} {scope : Scope}
    (hs : (Section.loop kind guard loopBody update).isTracked src.method.code scope = true)
    (hbody : BuildsRuns src settings loopBody) (hupdate : BuildsRuns src settings update)
    (h : sectionInto src settings (.loop kind guard loopBody update) f b = .ok f' b') :
    ∃ more, f'.out = f.out ++ more ∧
      Runs src.method.code ((Section.loop kind guard loopBody update).spans.flatMap Span.indices) [] b.arena f.stack
        (Statement.roots more) b'.arena f'.stack := by
  simp only [Section.isTracked, Section.isBuildable, Section.isExecutable, Section.isWellFormed, Bool.and_eq_true] at hs
  obtain ⟨⟨⟨hexecutable, hwell⟩, hlinear⟩, _⟩ := hs
  have hcovered : (Section.loop kind guard loopBody update).spans.flatMap Span.indices =
      (guard.map fun g => g.spans.flatMap Span.indices).getD [] ++ Section.covered loopBody ++ Section.covered update := by
    cases guard <;> simp [Section.spans, Section.covered]
  rw [hcovered]
  cases guard with
  | none =>
    have hforever : kind = .forever := by simpa using hwell.1.1
    subst hforever
    obtain rfl : update = [] := by simpa using hwell.2
    simp only [Section.innerLines, List.all_cons, Bool.and_eq_true] at hlinear
    simp only [sectionInto] at h
    obtain ⟨statements, b₁, hlist, hrest⟩ := run_bind_eq_ok.1 h
    cases hrest
    have hlist := hbody.list hstrict hlinear.2.1 hlist f.stack
    exact ⟨_, rfl, by simpa using hlist⟩
  | some g =>
    have hspans := runsTo_spans hexecutable
    rw [Option.map_some, Option.getD_some]
    cases kind with
    | doWhile =>
      obtain rfl : update = [] := by simpa using hwell.2
      simp only [Section.innerLines, List.all_cons, Bool.and_eq_true] at hlinear
      simp only [sectionInto] at h
      obtain ⟨inner, b₁, hinner, h₁⟩ := run_bind_eq_ok.1 h
      obtain ⟨r, b₂, hcondition, h₂⟩ := run_bind_eq_ok.1 h₁
      obtain ⟨statements, b₃, hfinish, h₃⟩ := run_bind_eq_ok.1 h₂
      cases h₃
      obtain ⟨hframe, rfl⟩ := Frame.finish_eq_ok hfinish
      obtain ⟨more, hout, hruns⟩ := hbody _ _ _ _ hinner
      obtain ⟨effects, hout', hruns'⟩ := condition_runs g hspans hcondition
      rw [hframe, hout] at hout'
      obtain rfl : statements = more ++ effects := hout'
      rw [hframe] at hruns'
      -- The body and the test after it run on one stack.
      have hnested := (hruns.trans hruns').nested rfl (reaches_start _ hlinear.1) f.stack
      refine ⟨_, rfl, hnested.mono ?_ (List.Perm.subperm ?_)⟩
      · simpa using List.perm_append_comm
      · rw [List.perm_iff_count]
        intro id
        simp only [Statement.roots_doWhile, Statement.roots_append, List.count_append]
        omega
    | forUpdate =>
      simp only [Section.innerLines, List.all_cons, Bool.and_eq_true, Option.map_some, Option.getD_some] at hlinear
      simp only [sectionInto] at h
      obtain ⟨condition, b₁, hguard, h₁⟩ := run_bind_eq_ok.1 h
      obtain ⟨update', b₂, hupdates, h₂⟩ := run_bind_eq_ok.1 h₁
      obtain ⟨statements, b₃, hlist, h₃⟩ := run_bind_eq_ok.1 h₂
      cases h₃
      have hguard := headGuard_runs hspans hlinear.1 hguard f.stack
      have hupdates := hupdate.list hstrict hlinear.2.2.1 hupdates f.stack
      have hlist := hbody.list hstrict hlinear.2.1 hlist f.stack
      refine ⟨_, rfl, (hguard.trans (hupdates.trans hlist)).mono ?_ (List.Perm.subperm ?_)⟩
      · rw [List.append_assoc]
        exact List.perm_append_comm.append_left _
      · rw [Statement.roots_forUpdate]
        exact List.perm_append_comm.append_left _
    | whileDo =>
      obtain rfl : update = [] := by simpa using hwell.2
      simp only [Section.innerLines, List.all_cons, Bool.and_eq_true, Option.map_some, Option.getD_some] at hlinear
      simp only [sectionInto] at h
      obtain ⟨condition, b₁, hguard, h₁⟩ := run_bind_eq_ok.1 h
      obtain ⟨statements, b₂, hlist, h₂⟩ := run_bind_eq_ok.1 h₁
      cases h₂
      have hguard := headGuard_runs hspans hlinear.1 hguard f.stack
      have hlist := hbody.list hstrict hlinear.2.1 hlist f.stack
      exact ⟨_, rfl, by simpa using hguard.trans hlist⟩
    | forever => simp at hwell

mutual

/-- The calls of a section are made once by what it becomes. -/
theorem sectionInto_runs (hstrict : settings.commentOnError = false) {scope : Scope} (s : Section)
    (hs : Section.everywhere (Section.isTracked src.method.code) scope s = true) {f f' : Frame} {b b' : Builder}
    (h : sectionInto src settings s f b = .ok f' b') :
    ∃ more, f'.out = f.out ++ more ∧
      Runs src.method.code (s.spans.flatMap Span.indices) s.line b.arena f.stack (Statement.roots more) b'.arena f'.stack := by
  cases s with
  | body span =>
    simp only [sectionInto] at h
    simpa [Section.spans, Section.line] using body_runs h
  | branch g thenPart elsePart =>
    simp only [Section.everywhere, Bool.and_eq_true] at hs
    obtain ⟨⟨htracked, hthenPart⟩, helsePart⟩ := hs
    simp only [Section.isTracked, Section.isBuildable, Section.isExecutable, Section.innerLines, List.all_cons,
      Bool.and_eq_true] at htracked
    simp only [sectionInto] at h
    obtain ⟨r, b₁, hcondition, h₁⟩ := run_bind_eq_ok.1 h
    obtain ⟨statements, b₂, hthen, h₂⟩ := run_bind_eq_ok.1 h₁
    obtain ⟨statements', b₃, helse, h₃⟩ := run_bind_eq_ok.1 h₂
    cases h₃
    obtain ⟨before, hout, hruns⟩ := condition_runs g (runsTo_spans htracked.1.1.1) hcondition
    have hthen := (sectionsInto_runs hstrict thenPart hthenPart).list hstrict htracked.1.2.1 hthen r.2.2.stack
    have helse := (sectionsInto_runs hstrict elsePart helsePart).list hstrict htracked.1.2.2.1 helse r.2.2.stack
    refine ⟨before ++ [.branch r.1 statements statements'], ?_, ?_⟩
    · rw [← List.append_assoc, ← hout]
      rfl
    · simpa [Section.spans, Section.line, Section.covered] using (hruns.trans hthen).trans helse
  | loop kind guard loopBody update =>
    simp only [Section.everywhere, Bool.and_eq_true] at hs
    exact loop_runs hstrict hs.1.1 (sectionsInto_runs hstrict loopBody hs.1.2) (sectionsInto_runs hstrict update hs.2) h
  | switch key cases =>
    simp only [Section.everywhere, Bool.and_eq_true] at hs
    obtain ⟨htracked, hcasesTracked⟩ := hs
    simp only [Section.isTracked, Section.isBuildable, Section.isExecutable, Section.innerLines, Bool.and_eq_true] at htracked
    simp only [sectionInto] at h
    obtain ⟨last, b₁, hkey, h₁⟩ := run_bind_eq_ok.1 h
    obtain ⟨f₁, b₂, hbody, h₂⟩ := run_bind_eq_ok.1 h₁
    obtain ⟨⟨value, f₂⟩, b₃, hpop, h₃⟩ := run_bind_eq_ok.1 h₂
    obtain ⟨cases', b₄, hcases, h₄⟩ := run_bind_eq_ok.1 h₃
    cases h₄
    obtain ⟨hstop, rfl, otherwise, arms, hi⟩ := spanSwitch_eq_ok hkey
    obtain ⟨before, hout, hruns⟩ := body_runs hbody
    obtain ⟨rfl, rfl⟩ := Frame.pop_eq_ok hpop
    have hvalue : Runs src.method.code [last] [last] b₃.arena ([value] ++ f₂.stack) [value] b₃.arena f₂.stack :=
      Runs.spend hi rfl rfl rfl
    have hcases := switchCases_runs hstrict cases hcasesTracked (by simpa using htracked.1.2) hcases f₂.stack
    obtain ⟨stop, _, hstop', hle, _⟩ := Span.exists_of_runsTo htracked.1.1.1
    have hindices := Span.indices_concat hstop (by omega)
    refine ⟨before ++ [.switch value cases'], ?_, ?_⟩
    · rw [← List.append_assoc, ← hout]
      rfl
    · simpa [Section.spans, Section.line, hindices] using (hruns.trans hvalue).trans hcases
  | tryCatch tried clauses =>
    simp only [Section.everywhere, Bool.and_eq_true] at hs
    obtain ⟨⟨htracked, htriedTracked⟩, hclausesTracked⟩ := hs
    simp only [Section.isTracked, Section.innerLines, List.all_cons, Bool.and_eq_true] at htracked
    simp only [sectionInto] at h
    obtain ⟨statements, b₁, htried, h₁⟩ := run_bind_eq_ok.1 h
    obtain ⟨clauses', b₂, hclauses, h₂⟩ := run_bind_eq_ok.1 h₁
    cases h₂
    have htried := (sectionsInto_runs hstrict tried htriedTracked).list hstrict htracked.1.2.1 htried f.stack
    have hheaders : ∀ c ∈ clauses, ∀ index ∈ c.header.indices, callsAt src.method.code index = [] := by
      intro c hc index hindex
      have himplied := htracked.2
      rw [Section.impliesOnly, List.all_eq_true] at himplied
      exact callsAt_of_isImplied (himplied index (List.mem_flatMap.2 ⟨c, hc, hindex⟩))
    have hclauses := catches_runs hstrict clauses hclausesTracked (by simpa using htracked.1.2.2) hheaders hclauses f.stack
    refine ⟨_, rfl, ?_⟩
    simpa [Section.spans, Section.line, Section.covered] using htried.trans hclauses
  | breakOut depth jump =>
    simp only [Section.everywhere, Section.isTracked, Bool.and_eq_true] at hs
    simp only [sectionInto] at h
    cases h
    exact ⟨_, rfl, implied_runs hs.2 (by cases jump <;> simp [Section.spans, Section.implied]) _ _⟩
  | continueNext depth jump =>
    simp only [Section.everywhere, Section.isTracked, Bool.and_eq_true] at hs
    simp only [sectionInto] at h
    cases h
    exact ⟨_, rfl, implied_runs hs.2 (by cases jump <;> simp [Section.spans, Section.implied]) _ _⟩
  | comment lines spans =>
    simp only [Section.everywhere, Section.isTracked, Bool.and_eq_true] at hs
    simp only [sectionInto] at h
    cases h
    exact ⟨_, rfl, implied_runs hs.2 rfl _ _⟩

/-- Where comments are not allowed, the calls of sections become calls of the arena, and what they make is a segment. -/
theorem sectionsInto_runs (hstrict : settings.commentOnError = false) {scope : Scope} (sections : List Section)
    (hs : Section.everywhereAll (Section.isTracked src.method.code) scope sections = true) : BuildsRuns src settings sections := by
  intro f b f' b' h
  cases sections with
  | nil =>
    simp only [sectionsInto] at h
    cases h
    exact ⟨[], (List.append_nil _).symm, .refl _ _⟩
  | cons s rest =>
    simp only [Section.everywhereAll, Bool.and_eq_true] at hs
    simp only [sectionsInto] at h
    obtain ⟨f₁, b₁, hfirst, hrest⟩ := run_bind_eq_ok.1 h
    obtain ⟨more, hout, hruns⟩ := sectionInto_runs hstrict s hs.1 hfirst
    obtain ⟨more', hout', hruns'⟩ := sectionsInto_runs hstrict rest hs.2 _ _ _ _ hrest
    refine ⟨more ++ more', by rw [hout', hout, List.append_assoc], ?_⟩
    simpa [Section.covered, Section.spansAll, Section.lines] using hruns.trans hruns'

/-- The calls of the cases are made once, each in its own case. -/
theorem switchCases_runs (hstrict : settings.commentOnError = false) {scope : Scope} (cases : List (Case (List Section)))
    (hs : Section.everywhereCases (Section.isTracked src.method.code) scope cases = true)
    (hlinear : ∀ c ∈ cases, Section.isLinear src.method.code [] (Section.lines c.body) = true) {b b' : Builder}
    {cases' : List (Case (List Statement))} (h : switchCases src settings cases b = .ok cases' b') (stack : List ExprId) :
    Runs src.method.code ((Section.spansCases cases).flatMap Span.indices) [] b.arena stack (Statement.rootsCases cases') b'.arena
      stack := by
  cases cases with
  | nil =>
    simp only [switchCases] at h
    cases h
    exact .refl _ _
  | cons c rest =>
    simp only [Section.everywhereCases, Bool.and_eq_true] at hs
    simp only [switchCases] at h
    obtain ⟨statements, b₁, hlist, h₁⟩ := run_bind_eq_ok.1 h
    obtain ⟨rest', b₂, hrest, h₂⟩ := run_bind_eq_ok.1 h₁
    cases h₂
    obtain ⟨hfirst, hothers⟩ := List.forall_mem_cons.1 hlinear
    have hlist := (sectionsInto_runs hstrict c.body hs.1).list hstrict hfirst hlist stack
    have hrest := switchCases_runs hstrict rest hs.2 hothers hrest stack
    simpa [Section.spansCases, Section.covered] using hlist.trans hrest

/-- The calls of the clauses are made once, each in its own clause. -/
theorem catches_runs (hstrict : settings.commentOnError = false) {scope : Scope} (clauses : List (CatchSection (List Section)))
    (hs : Section.everywhereClauses (Section.isTracked src.method.code) scope clauses = true)
    (hlinear : ∀ c ∈ clauses, Section.isLinear src.method.code
      (if (c.header.slice src.method.code).any (!·.isMarker) then [] else [.free]) (Section.lines c.body) = true)
    (hheaders : ∀ c ∈ clauses, ∀ index ∈ c.header.indices, callsAt src.method.code index = []) {b b' : Builder}
    {clauses' : List (Catch (List Statement))} (h : catches src settings clauses b = .ok clauses' b') (stack : List ExprId) :
    Runs src.method.code ((Section.spansClauses clauses).flatMap Span.indices) [] b.arena stack (Statement.rootsClauses clauses')
      b'.arena stack := by
  cases clauses with
  | nil =>
    simp only [catches] at h
    cases h
    exact .refl _ _
  | cons c rest =>
    simp only [Section.everywhereClauses, Bool.and_eq_true] at hs
    simp only [catches] at h
    obtain ⟨start, b₁, hstart, h₁⟩ := run_bind_eq_ok.1 h
    obtain ⟨statements, b₂, hlist, h₂⟩ := run_bind_eq_ok.1 h₁
    obtain ⟨rest', b₃, hrest, h₃⟩ := run_bind_eq_ok.1 h₂
    cases h₃
    obtain ⟨hfirst, hothers⟩ := List.forall_mem_cons.1 hlinear
    obtain ⟨hheader, hheaders⟩ := List.forall_mem_cons.1 hheaders
    have hrest := catches_runs hstrict rest hs.2 hothers hheaders hrest stack
    obtain ⟨more, hout, hruns⟩ := sectionsInto_runs hstrict c.body hs.1 _ _ _ _ (orComment_eq_ok hstrict hlist)
    obtain rfl : statements = more := hout
    have hnested : Runs src.method.code (Section.covered c.body) [] b.arena stack (Statement.roots statements) b₂.arena stack := by
      have hstart := handlerStack_eq_ok hstart
      by_cases htakes : (c.header.slice src.method.code).any (!·.isMarker) = true
      · rw [if_pos htakes] at hfirst hstart
        obtain ⟨rfl, rfl⟩ := hstart
        exact hruns.nested rfl (reaches_start _ hfirst) stack
      · rw [if_neg htakes] at hfirst hstart
        obtain ⟨rfl, rfl⟩ := hstart
        exact hruns.nested (by simp [Arena.calls_push, Expr.calls]) (reaches_caught _ _ hfirst) stack
    simpa [Section.spansClauses, Section.covered] using (hnested.cover hheader).trans hrest

end

end Build

/-! ## Occurrences -/

/-- An expression occurs at a place of a body: as an operand of a statement, or as an operand of an expression that occurs. A place
lists the positions among the operands, from the expression up to the statement. -/
inductive Body.Occurs (body : Body) : List Nat → ExprId → Prop where
  | root {k : Nat} {id : ExprId} (hk : (Statement.roots body.statements)[k]? = some id) : Occurs body [k] id
  | operand {place : List Nat} {k : Nat} {parent id : ExprId} {e : Expr} (hparent : Occurs body place parent)
      (he : body.arena[parent]? = some e) (hk : e.children[k]? = some id) : Occurs body (k :: place) id

section

variable {α β : Type} [DecidableEq β] {x : β}

/-- What stands at most once in a list has one position. -/
theorem position_eq_of_count_le_one {xs : List β} (h : xs.count x ≤ 1) {i j : Nat} (hi : xs[i]? = some x) (hj : xs[j]? = some x) :
    i = j := by
  induction xs generalizing i j with
  | nil => cases hi
  | cons y xs ih =>
    rw [List.count_cons] at h
    -- An element at the head and again in the tail is counted twice.
    have hboth : ∀ {k : Nat}, y = x → xs[k]? ≠ some x := by
      intro k hy hk
      have hpos := List.count_pos_iff.2 (List.mem_of_getElem? hk)
      simp only [hy, BEq.rfl, if_true] at h
      omega
    cases i with
    | zero =>
      cases j with
      | zero => rfl
      | succ j => exact absurd (by simpa using hj) (hboth (by simpa using hi))
    | succ i =>
      cases j with
      | zero => exact absurd (by simpa using hi) (hboth (by simpa using hj))
      | succ j =>
        have hsame : i = j := ih (by omega) (by simpa using hi) (by simpa using hj)
        rw [hsame]

/-- What stands at most once in the lists of all has one position in one of them. -/
theorem positions_eq_of_count_flatMap_le_one {xs : List α} {f : α → List β} (h : (xs.flatMap f).count x ≤ 1) {p q i j : Nat}
    {u w : α} (hu : xs[p]? = some u) (hi : (f u)[i]? = some x) (hw : xs[q]? = some w) (hj : (f w)[j]? = some x) :
    p = q ∧ i = j := by
  induction xs generalizing p q with
  | nil => cases hu
  | cons y xs ih =>
    rw [List.flatMap_cons, List.count_append] at h
    have hboth : ∀ {k k' l : Nat} {v : α}, (f y)[k]? = some x → xs[l]? = some v → (f v)[k']? ≠ some x := by
      intro k k' l v hk hl hk'
      have hpos := List.count_pos_iff.2 (List.mem_of_getElem? hk)
      have hpos' := List.count_pos_iff.2 (List.mem_flatMap.2 ⟨v, List.mem_of_getElem? hl, List.mem_of_getElem? hk'⟩)
      omega
    cases p with
    | zero =>
      obtain rfl : y = u := by simpa using hu
      cases q with
      | zero =>
        obtain rfl : y = w := by simpa using hw
        exact ⟨rfl, position_eq_of_count_le_one (by omega) hi hj⟩
      | succ q => exact absurd hj (hboth hi (by simpa using hw))
    | succ p =>
      cases q with
      | zero =>
        obtain rfl : y = w := by simpa using hw
        exact absurd hi (hboth hj (by simpa using hu))
      | succ q =>
        obtain ⟨rfl, rfl⟩ := ih (by omega) (by simpa using hu) (by simpa using hw)
        exact ⟨rfl, rfl⟩

end

/-- In a segment that is all of the arena, what holds a call occurs in one place only. -/
theorem Segment.occurs_unique {body : Body} {held : Set ExprId}
    (h : Segment #[] body.arena held [] (Statement.roots body.statements)) {place place' : List Nat} {id : ExprId}
    (hid : id ∈ held) (hraw : body.arena.isRaw id = false) (ho : body.Occurs place id) (ho' : body.Occurs place' id) :
    place = place' := by
  have hcount : ∀ id ∈ held, body.arena.isRaw id = false →
      (Statement.roots body.statements).count id + (Arena.childrenFrom 0 body.arena).count id ≤ 1 := by
    intro id hid hraw
    have hsingle := h.single id hid hraw
    rwa [references, List.map_nil, List.nil_append, List.count_append] at hsingle
  have hchild : ∀ {parent id : ExprId} {e : Expr} {k : Nat}, body.arena[parent]? = some e → e.children[k]? = some id →
      id ∈ Arena.childrenFrom 0 body.arena := fun he hk =>
    Arena.mem_childrenFrom.2 ⟨_, _, Nat.zero_le _, he, List.mem_of_getElem? hk⟩
  induction ho generalizing place' with
  | @root k id hk =>
    cases ho' with
    | @root k' _ hk' =>
      rw [position_eq_of_count_le_one (Nat.le_trans (Nat.le_add_right _ _) (hcount id hid hraw)) hk hk']
    | operand _ he' hk' =>
      have hpos := List.count_pos_iff.2 (List.mem_of_getElem? hk)
      have hpos' := List.count_pos_iff.2 (hchild he' hk')
      have := hcount id hid hraw
      omega
  | @operand place k parent id e hparent he hk ih =>
    cases ho' with
    | root hk' =>
      have hpos := List.count_pos_iff.2 (List.mem_of_getElem? hk')
      have hpos' := List.count_pos_iff.2 (hchild he hk)
      have := hcount id hid hraw
      omega
    | @operand place' k' parent' _ e' hparent' he' hk' =>
      have hone : ((body.arena.toList.drop 0).flatMap Expr.children).count id ≤ 1 :=
        Nat.le_trans (Nat.le_add_left _ _) (hcount id hid hraw)
      rw [List.drop_zero] at hone
      obtain ⟨rfl, rfl⟩ := positions_eq_of_count_flatMap_le_one hone (by simpa using he) hk (by simpa using he') hk'
      have hheld : parent ∈ held := h.parents parent e (Nat.zero_le _) he id (List.mem_of_getElem? hk) hid
      have hparentRaw : body.arena.isRaw parent = false := Arena.isRaw_of_mem_children he (List.mem_of_getElem? hk)
      rw [ih hheld hparentRaw hparent']

/-- Each call of a body occurs at one place at most, if its expressions are a segment of which it keeps some references. -/
theorem Segment.calls_unique {body body' : Body} {held : Set ExprId}
    (h : Segment #[] body.arena held [] (Statement.roots body.statements)) (harena : body'.arena = body.arena)
    (hroots : (Statement.roots body'.statements).Sublist (Statement.roots body.statements)) :
    ∀ id e, body'.arena[id]? = some e → e.IsCall →
      ∀ place place', body'.Occurs place id → body'.Occurs place' id → place = place' := by
  intro id e he hcall place place' ho ho'
  have heffects := Expr.hasEffects_iff.2 hcall
  have hsegment : Segment #[] body'.arena held [] (Statement.roots body'.statements) := by
    rw [harena]
    exact h.weaken hroots.subperm (fun _ hp => hp) fun id hid => h.isRaw_of_mem_roots (hroots.subset hid)
  exact hsegment.occurs_unique (hsegment.effects id e (Nat.zero_le _) he heffects) (Arena.isRaw_of_hasEffects he heffects) ho ho'

/-! ## Passes -/

namespace Statement

/-- A change to lists of statements makes no new references to expressions. -/
def KeepsRoots (change : List Statement → Id (List Statement)) : Prop :=
  ∀ statements, (roots (change statements).run).Sublist (roots statements)

variable {change : List Statement → Id (List Statement)}

mutual

/-- Changing the inner lists of a statement adds no roots. -/
theorem roots_mapInner (h : KeepsRoots change) (s : Statement) : (roots [(mapInner change s).run]).Sublist (roots [s]) := by
  cases s with
  | branch condition thenPart elsePart =>
    have hthen := (h _).trans (roots_mapEach h thenPart)
    have helse := (h _).trans (roots_mapEach h elsePart)
    simpa [mapInner] using (hthen.append helse).append_left condition.operands
  | whileDo condition body =>
    have hbody := (h _).trans (roots_mapEach h body)
    simpa [mapInner] using hbody
  | doWhile condition body =>
    have hbody := (h _).trans (roots_mapEach h body)
    simpa [mapInner] using hbody
  | forUpdate condition update body =>
    have hbody := (h _).trans (roots_mapEach h body)
    have hupdate := (h _).trans (roots_mapEach h update)
    simpa [mapInner] using (hbody.append hupdate).append_left condition.operands
  | switch key cases => simpa [mapInner] using roots_mapCases h cases
  | tryCatch body clauses =>
    have hbody := (h _).trans (roots_mapEach h body)
    simpa [mapInner] using hbody.append (roots_mapClauses h clauses)
  | _ => exact .refl _

/-- Changing the inner lists of each statement adds no roots. -/
theorem roots_mapEach (h : KeepsRoots change) (statements : List Statement) :
    (roots (mapEach change statements).run).Sublist (roots statements) := by
  cases statements with
  | nil => exact .refl _
  | cons s rest =>
    have hfirst := roots_mapInner h s
    have hrest := roots_mapEach h rest
    simpa [mapEach, roots] using hfirst.append hrest

/-- Changing the lists of cases adds no roots. -/
theorem roots_mapCases (h : KeepsRoots change) (cases : List (Case (List Statement))) :
    (rootsCases (mapCases change cases).run).Sublist (rootsCases cases) := by
  cases cases with
  | nil => exact .refl _
  | cons c rest =>
    obtain ⟨values, isDefault, body⟩ := c
    have hbody := (h _).trans (roots_mapEach h body)
    simpa [mapCases] using hbody.append (roots_mapCases h rest)

/-- Changing the lists of clauses adds no roots. -/
theorem roots_mapClauses (h : KeepsRoots change) (clauses : List (Catch (List Statement))) :
    (rootsClauses (mapClauses change clauses).run).Sublist (rootsClauses clauses) := by
  cases clauses with
  | nil => exact .refl _
  | cons c rest =>
    obtain ⟨catches, boundTo, body⟩ := c
    have hbody := (h _).trans (roots_mapEach h body)
    simpa [mapClauses] using hbody.append (roots_mapClauses h rest)

end

end Statement

/-- The pass adds no roots: an increment has none. -/
theorem Pass.keepsRoots_toIncrement (arena : Arena) :
    Statement.KeepsRoots fun statements => pure (statements.map (toIncrement arena)) := by
  intro statements
  change (Statement.roots (statements.map (toIncrement arena))).Sublist _
  induction statements with
  | nil => exact .refl _
  | cons s rest ih =>
    have hfirst : (Statement.roots [toIncrement arena s]).Sublist (Statement.roots [s]) := by
      unfold toIncrement
      split
      · split
        · exact List.nil_sublist _
        · exact .refl _
      · exact .refl _
    simpa [Statement.roots] using hfirst.append ih

/-- The passes keep the arena and make no new references. -/
theorem Pass.roots_runAll (m : Method) (ls : Locals) (runPasses : Bool) (body : Body) :
    (runAll m ls (if runPasses then [increment] else []) body).1.arena = body.arena ∧
      (Statement.roots (runAll m ls (if runPasses then [increment] else []) body).1.statements).Sublist
        (Statement.roots body.statements) := by
  cases runPasses with
  | false => exact ⟨rfl, .refl _⟩
  | true =>
    have hkeeps := keepsRoots_toIncrement body.arena
    exact ⟨rfl, (hkeeps _).trans (Statement.roots_mapEach hkeeps body.statements)⟩

/-! ## Lifted methods -/

/-- The calls at all indices are the calls of the code. -/
theorem flatMap_callsAt_range (code : List Insn) : (List.range code.length).flatMap (callsAt code) = code.flatMap Insn.calls := by
  have hmap : (List.range code.length).map (callsAt code) = code.map Insn.calls := by
    refine List.ext_getElem (by simp) fun index hindex _ => ?_
    simp only [List.length_map, List.length_range] at hindex
    simp [callsAt, hindex]
  rw [List.flatMap_def, hmap, ← List.flatMap_def]

/-- The statements of a method are made of the calls of its sections, and its expressions are a segment. -/
theorem Source.body_segment {src : Source} {settings : Settings} {sections : List Section} {body : Body}
    {events events' : List Event} (hstrict : settings.commentOnError = false)
    (htracked : Section.everywhereAll (Section.isTracked src.method.code) .outermost sections = true)
    (hlinear : Section.isLinear src.method.code [] (Section.lines sections) = true)
    (h : src.body settings sections events = .ok body events') :
    (Arena.calls body.arena).Perm ((Section.covered sections).flatMap (callsAt src.method.code)) ∧
      ∃ held, Segment #[] body.arena held [] (Statement.roots body.statements) := by
  have hrun := Build.list_eq_ok hstrict (Source.body_eq_ok.1 h)
  obtain ⟨more, hout, hruns⟩ := Build.sectionsInto_runs hstrict sections htracked _ _ _ _ hrun
  obtain rfl : body.statements = more := hout
  refine ⟨hruns.calls, ?_⟩
  have hstart := Build.reaches_start #[] hlinear
  rw [← List.append_nil (Section.lines sections)] at hstart
  obtain ⟨held, entries, hsegment, hempty, _⟩ := hruns.keeps hstart
  obtain rfl := List.map_eq_nil_iff.1 hempty
  exact ⟨held, hsegment⟩

/-- The calls of a lifted method are those of its code, each of the same method and made in the same way. Where every line of the
code uses its values only as often as they may be used, each call occurs at one place of the statements at most. -/
theorem calls_occur_once (m : Method) (settings : Settings) (events events' : List Event) (r : Decompiled)
    (hstrict : settings.commentOnError = false) (h : (Decompiler.standard settings).decompile m events = .ok r events')
    (hlinear : Section.isLinearAll m.code r.sections = true) :
    (Arena.calls r.body.arena).Perm (m.code.flatMap Insn.calls) ∧
      ∀ id e, r.body.arena[id]? = some e → e.IsCall →
        ∀ place place', r.body.Occurs place id → r.body.Occurs place' id → place = place' := by
  obtain ⟨src, events₁, g, events₂, sections, events₃, body, events₄, hsrc, hgraph, hsections, hbody, rfl, _⟩ :=
    Decompiler.decompile_eq_ok.1 h
  obtain ⟨rfl, _⟩ := Method.source_explains hsrc
  obtain ⟨s, hs⟩ := Subject.exists_of_sectionsTraced hsections
  have hb : Graph.Built src g := Graph.built_of_build (Graph.build_of_buildTraced hgraph)
  have hbuildable := everywhereAll_isBuildable ⟨src, g, settings⟩ hb (fun _ => id) rfl hs
  have himplies := everywhereAll_impliesOnly ⟨src, g, settings⟩ hb hstrict (fun _ => id) hs .outermost
  simp only [Section.isLinearAll, Bool.and_eq_true] at hlinear
  have hlines : Section.everywhereAll (fun scope s => s.isBuildable src.method.code scope &&
      (s.innerLines src.method.code).all fun (start, line) => Section.isLinear src.method.code start line) .outermost sections =
        true :=
    Section.everywhereAll_and (fun _ _ hs hs' => by rw [hs, hs', Bool.and_self]) hbuildable hlinear.2
  have htracked : Section.everywhereAll (Section.isTracked src.method.code) .outermost sections = true :=
    Section.everywhereAll_and (fun _ _ hs hs' => by rw [Section.isTracked, hs, hs', Bool.and_self]) hlines himplies
  obtain ⟨hcalls, held, hsegment⟩ := Source.body_segment hstrict htracked hlinear.1 hbody
  obtain ⟨harena, hroots⟩ := Pass.roots_runAll src.method src.locals settings.runPasses body
  constructor
  · have hcovered := covered_perm_range ⟨src, g, settings⟩ hb (fun _ => id) hs
    rw [← flatMap_callsAt_range]
    exact (harena ▸ hcalls).trans (hcovered.flatMap_right _)
  · exact hsegment.calls_unique harena hroots

/-- A method with a loop that constructs an object of the result of a call, and that copies a variable for its test. -/
def constructsInLoop : Method where
  owner := "A"
  name := "m"
  descriptor := "(ILC;I)V"
  isStatic := true
  code := [.label ⟨0⟩, .new "C", .dup, .invoke ⟨.static, "A", "f", "()I"⟩, .invoke ⟨.special, "C", "<init>", "(I)V"⟩,
    .store .reference 1, .load .int 0, .dup, .store .int 2, .invoke ⟨.static, "A", "g", "(I)Z"⟩, .jump .ne ⟨0⟩, .ret none]
  variableTable := []
  handlerTable := []

/-- The three calls of the method occur once. -/
theorem calls_occur_once_loop :
    ∃ r events, (Decompiler.standard ⟨false, 10, true⟩).decompile constructsInLoop [] = .ok r events ∧
      Section.isLinearAll constructsInLoop.code r.sections = true ∧
      (Arena.calls r.body.arena).Perm [⟨.static, "A", "f", "()I"⟩, ⟨.special, "", "<init>", "(I)V"⟩, ⟨.static, "A", "g", "(I)Z"⟩] ∧
      ∀ id e, r.body.arena[id]? = some e → e.IsCall →
        ∀ place place', r.body.Occurs place id → r.body.Occurs place' id → place = place' := by
  have hlifts : succeedsWith (fun r => Section.isLinearAll constructsInLoop.code r.sections)
      ((Decompiler.standard ⟨false, 10, true⟩).decompile constructsInLoop []) = true := by decide +kernel
  obtain ⟨r, events, h, hlinear⟩ := exists_of_succeedsWith hlifts
  obtain ⟨hcalls, honce⟩ := calls_occur_once _ _ _ _ r rfl h hlinear
  exact ⟨r, events, h, hlinear, hcalls, honce⟩

/-- A method that stores the result of a call in two variables. -/
def storesTwice : Method where
  owner := "A"
  name := "m"
  descriptor := "(II)V"
  isStatic := true
  code := [.invoke ⟨.static, "A", "f", "()I"⟩, .dup, .store .int 0, .store .int 1, .ret none]
  variableTable := []
  handlerTable := []

/-- The call of the method occurs in both assignments. -/
theorem copied_call_occurs_twice :
    ∃ r events, (Decompiler.standard ⟨false, 10, true⟩).decompile storesTwice [] = .ok r events ∧
      ∃ id e place place', r.body.arena[id]? = some e ∧ e.IsCall ∧ r.body.Occurs place id ∧ r.body.Occurs place' id ∧
        place ≠ place' := by
  have hlifts : succeedsWith
      (fun r => decide (Statement.roots r.body.statements = [0, 0]) && r.body.arena[0]?.any Expr.hasEffects)
      ((Decompiler.standard ⟨false, 10, true⟩).decompile storesTwice []) = true := by decide +kernel
  obtain ⟨r, events, h, hcopied⟩ := exists_of_succeedsWith hlifts
  rw [Bool.and_eq_true, decide_eq_true_eq, Option.any_eq_true] at hcopied
  obtain ⟨hroots, e, he, heffects⟩ := hcopied
  exact ⟨r, events, h, 0, e, [0], [1], he, Expr.hasEffects_iff.1 heffects, .root (by rw [hroots]; rfl),
    .root (by rw [hroots]; rfl), by decide⟩

end CodeLift
