import CodeLift.Proofs.Comments.Statements
import CodeLift.Proofs.Statement.Operands
import CodeLift.Proofs.Statement.Steps
import CodeLift.Proofs.Structuring.Continues
import CodeLift.Proofs.Subtrees
import Mathlib.Data.List.Forall2

/-!
# Tests at the bottom of loops

The test of a loop can be preceded by code in its first block, which becomes statements at the end of the body. They run before the
test unless the loop is continued from inside, since a continue goes right to the test. The loops of the statements are those of
the sections (`Mirrors`), so such a continue comes from a jump of the body to the first block of the test, and not from one that only
skips to the end of the body.
-/

namespace CodeLift

/-- A loop tested at the bottom: its guard and its body. -/
def Section.bottomLoop? : Section → Option (Guard × List Section)
  | .loop .doWhile (some guard) loopBody _ => some (guard, loopBody)
  | _ => none

/-- A loop tested at the bottom: its condition and its body. -/
def Statement.bottomLoop? : Statement → Option (Condition × List Statement)
  | .doWhile condition body => some (condition, body)
  | _ => none

/-- Whether a statement is no continue of the loop in whose body the whole tree stands. -/
def Statement.avoidsContinue (scope : Scope) : Statement → Bool
  | .continueNext depth => depth != scope.loops
  | _ => true

section

variable {s : Statement} (h : s.isSimple = true)

include h

/-- A simple statement holds no others. -/
theorem Statement.subtree_of_isSimple : s.subtree = [s] := by
  cases s <;> first | rfl | cases h

/-- A simple statement is no loop with its test at the bottom. -/
theorem Statement.bottomLoop?_of_isSimple : s.bottomLoop? = none := by
  cases s <;> first | rfl | cases h

/-- A simple statement continues no loop. -/
theorem Statement.avoidsContinue_of_isSimple (scope : Scope) : s.avoidsContinue scope = true := by
  cases s <;> first | rfl | cases h

end

/-- Statements that the code of a block up to its jump becomes, on some stack. -/
def Source.LiftsTo (src : Source) (span : Span) (effects : List Statement) : Prop :=
  ∃ stack b stack' b', Build.body src ⟨span.start, span.stop - 1⟩ ⟨stack, []⟩ b = .ok ⟨stack', effects⟩ b'

namespace Build

variable {src : Source} {settings : Settings} {b b' : Builder} {f f' f'' : Frame}

/-! ## The statements before a condition -/

/-- What making a condition from the blocks with the given spans adds to a frame: the statements of the first block, if the prelude
is open; the frames before and after it come with whether the prelude is open there. -/
inductive Prelude (src : Source) : List Span → Bool → Frame → Bool → Frame → Prop where
  | closed {spans : List Span} {f f' : Frame} (hout : f'.out = f.out) : Prelude src spans false f false f'
  | empty {f f' : Frame} (hout : f'.out = f.out) : Prelude src [] true f true f'
  | first {span : Span} {rest : List Span} {effects : List Statement} {f f' : Frame} (heffects : src.LiftsTo span effects)
      (hout : f'.out = f.out ++ effects) : Prelude src (span :: rest) true f false f'

/-- What is evaluated for two lists of spans in a row. -/
theorem Prelude.trans {xs ys : List Span} {isOpen isOpen' isOpen'' : Bool} (h : Prelude src xs isOpen f isOpen' f')
    (h' : Prelude src ys isOpen' f' isOpen'' f'') : Prelude src (xs ++ ys) isOpen f isOpen'' f'' := by
  cases h with
  | closed hout =>
    cases h' with
    | closed hout' => exact .closed (hout'.trans hout)
  | empty hout =>
    cases h' with
    | empty hout' => exact .empty (hout'.trans hout)
    | first heffects hout' => exact .first heffects (by rw [hout', hout])
  | first heffects hout =>
    cases h' with
    | closed hout' => exact .first heffects (hout'.trans hout)

/-- The statements before a condition are those of its first block. -/
theorem Prelude.liftsTo {spans : List Span} {isOpen : Bool} {first : Span} {effects : List Statement}
    (h : Prelude src spans true f isOpen f') (hfirst : spans.head? = some first) (hout : f'.out = f.out ++ effects) :
    src.LiftsTo first effects := by
  cases h with
  | empty _ => cases hfirst
  | first heffects hout' =>
    cases hfirst
    rw [hout'] at hout
    exact List.append_cancel_left hout ▸ heffects

/-- A jump evaluates its span and closes the prelude. -/
theorem jump_prelude {span : Span} {negate isOpen : Bool} {r : Condition × Frame}
    (h : jump src span negate isOpen f b = .ok r b') : Prelude src [span] isOpen f false r.2 := by
  unfold jump at h
  obtain ⟨⟨test, last⟩, b₁, hspan, h₁⟩ := run_bind_eq_ok.1 h
  obtain ⟨inner, b₂, hbody, h₂⟩ := run_bind_eq_ok.1 h₁
  obtain ⟨hstop, rfl, _⟩ := spanJump_eq_ok hspan
  obtain rfl : last = span.stop - 1 := by
    rw [hstop]
    rfl
  split at h₂
  · rename_i hopen
    obtain ⟨r', b₃, hoperands, h₃⟩ := run_bind_eq_ok.1 h₂
    cases h₃
    have hout := operands_yields _ _ _ _ _ hoperands
    cases isOpen with
    | true => exact .first ⟨f.stack, b₁, inner.stack, b₂, hbody⟩ hout
    | false =>
      have hempty : inner.out = [] := by simpa using hopen
      exact .closed (by rw [hout, hempty, List.append_nil])
  · cases h₂

mutual

/-- A condition evaluates its spans in order, up to the first jump. -/
theorem condition_prelude (g : Guard) {isOpen : Bool} {f : Frame} {b b' : Builder} {r : Condition × Bool × Frame}
    (h : condition src g isOpen f b = .ok r b') : Prelude src g.spans isOpen f r.2.1 r.2.2 := by
  cases g with
  | jump span negate =>
    unfold condition at h
    obtain ⟨r₁, b₁, hjump, hrest⟩ := run_bind_eq_ok.1 h
    cases hrest
    exact jump_prelude hjump
  | and parts =>
    unfold condition at h
    obtain ⟨r₁, b₁, hparts, hrest⟩ := run_bind_eq_ok.1 h
    cases hrest
    exact conditions_prelude parts hparts
  | or parts =>
    unfold condition at h
    obtain ⟨r₁, b₁, hparts, hrest⟩ := run_bind_eq_ok.1 h
    cases hrest
    exact conditions_prelude parts hparts
  | not inner =>
    unfold condition at h
    obtain ⟨r₁, b₁, hinner, hrest⟩ := run_bind_eq_ok.1 h
    cases hrest
    have hprelude := condition_prelude inner hinner
    exact hprelude

/-- Several conditions evaluate their spans in order. -/
theorem conditions_prelude (parts : List Guard) {isOpen : Bool} {f : Frame} {b b' : Builder} {r : List Condition × Bool × Frame}
    (h : conditions src parts isOpen f b = .ok r b') : Prelude src (Guard.spansAll parts) isOpen f r.2.1 r.2.2 := by
  cases parts with
  | nil =>
    cases h
    cases isOpen with
    | true => exact .empty rfl
    | false => exact .closed rfl
  | cons part rest =>
    unfold conditions at h
    obtain ⟨r₁, b₁, hpart, h₁⟩ := run_bind_eq_ok.1 h
    obtain ⟨r₂, b₂, hrest, h₂⟩ := run_bind_eq_ok.1 h₁
    cases h₂
    have hfirst := condition_prelude part hpart
    have hothers := conditions_prelude rest hrest
    exact hfirst.trans hothers

end

/-! ## Loops of sections and of statements -/

/-- A loop tested at the bottom and what it is built from: its body ends with the statements of the first block of the test, and
it is continued from inside if and only if the section is. -/
def BottomTested (src : Source) (p : Guard × List Section) (q : Condition × List Statement) : Prop :=
  (∃ inner effects, q.2 = inner ++ effects ∧ ∀ first, p.1.spans.head? = some first → src.LiftsTo first effects) ∧
    ∀ scope, Statement.everywhereAll Statement.avoidsContinue scope q.2 =
      Section.everywhereAll Section.avoidsContinue scope p.2

/-- Sections and statements of a tree, each with the test whether the tree never continues the loop around it: the loops tested at
the bottom correspond to each other, and so do the continues. -/
def Mirrors (src : Source) (sections : List Section) (avoids : Scope → Bool) (statements : List Statement)
    (avoids' : Scope → Bool) : Prop :=
  List.Forall₂ (BottomTested src) (sections.filterMap Section.bottomLoop?) (statements.filterMap Statement.bottomLoop?) ∧
    ∀ scope, avoids' scope = avoids scope

/-- Statements mirror the sections they are built from. -/
abbrev MirrorsAll (src : Source) (sections : List Section) (statements : List Statement) : Prop :=
  Mirrors src (Section.subtrees sections) (Section.everywhereAll Section.avoidsContinue · sections)
    (Statement.subtrees statements) (Statement.everywhereAll Statement.avoidsContinue · statements)

/-- The cases of a switch mirror those they are built from. -/
abbrev MirrorsCases (src : Source) (cases : List (Case (List Section))) (cases' : List (Case (List Statement))) : Prop :=
  Mirrors src (Section.subtreesCases cases) (Section.everywhereCases Section.avoidsContinue · cases)
    (Statement.subtreesCases cases') (Statement.everywhereCases Statement.avoidsContinue · cases')

/-- The clauses of a try mirror those they are built from. -/
abbrev MirrorsClauses (src : Source) (clauses : List (CatchSection (List Section))) (clauses' : List (Catch (List Statement))) :
    Prop :=
  Mirrors src (Section.subtreesClauses clauses) (Section.everywhereClauses Section.avoidsContinue · clauses)
    (Statement.subtreesClauses clauses') (Statement.everywhereClauses Statement.avoidsContinue · clauses')

namespace MirrorsAll

variable {xs ys : List Section} {ss ts : List Statement}

theorem nil : MirrorsAll src [] [] := ⟨.nil, fun _ => rfl⟩

/-- A section and the rest become statements in a row. -/
theorem cons {s : Section} (hs : MirrorsAll src [s] ss) (hrest : MirrorsAll src xs ts) :
    MirrorsAll src (s :: xs) (ss ++ ts) := by
  refine ⟨?_, fun scope => ?_⟩
  · simpa using List.rel_append hs.1 hrest.1
  · have hs := hs.2 scope
    have hrest := hrest.2 scope
    simp_all

/-- Simple statements hold no loop and no continue. -/
theorem simple (h : ∀ t ∈ ts, t.isSimple = true) : MirrorsAll src [] ts := by
  induction ts with
  | nil => exact nil
  | cons t ts ih =>
    obtain ⟨ht, hts⟩ := List.forall_mem_cons.1 h
    obtain ⟨hloops, havoids⟩ := ih hts
    refine ⟨?_, fun scope => ?_⟩
    · simpa [Statement.subtree_of_isSimple ht, List.filterMap_cons, Statement.bottomLoop?_of_isSimple ht] using hloops
    · simpa [Statement.everywhere_of_isSimple ht, Statement.avoidsContinue_of_isSimple ht] using havoids scope

/-- Simple statements can follow. -/
theorem append_right (hs : ∀ t ∈ ss, t.isSimple = true) (h : MirrorsAll src xs ts) : MirrorsAll src xs (ts ++ ss) := by
  obtain ⟨hloops, havoids⟩ : MirrorsAll src [] ss := simple hs
  refine ⟨?_, fun scope => ?_⟩
  · simpa using List.rel_append h.1 hloops
  · have h := h.2 scope
    have havoids := havoids scope
    simp_all

/-- Simple statements can come before. -/
theorem append_left (hs : ∀ t ∈ ss, t.isSimple = true) (h : MirrorsAll src xs ts) : MirrorsAll src xs (ss ++ ts) := by
  obtain ⟨hloops, havoids⟩ : MirrorsAll src [] ss := simple hs
  refine ⟨?_, fun scope => ?_⟩
  · simpa using List.rel_append hloops h.1
  · have h := h.2 scope
    have havoids := havoids scope
    simp_all

/-- A body becomes simple statements. -/
theorem body (span : Span) (h : ∀ t ∈ ts, t.isSimple = true) : MirrorsAll src [.body span] ts := by
  obtain ⟨hloops, havoids⟩ : MirrorsAll src [] ts := simple h
  refine ⟨?_, fun scope => ?_⟩
  · simpa [List.filterMap_cons, Section.bottomLoop?] using hloops
  · have havoids := havoids scope
    simp_all [Section.avoidsContinue]

/-- A branch becomes a branch over what its lists become. -/
theorem branch {guard : Guard} {condition : Condition} (hx : MirrorsAll src xs ss) (hy : MirrorsAll src ys ts) :
    MirrorsAll src [.branch guard xs ys] [.branch condition ss ts] := by
  refine ⟨?_, fun scope => ?_⟩
  · simpa [List.filterMap_cons, Section.bottomLoop?, Statement.bottomLoop?] using List.rel_append hx.1 hy.1
  · have hx := hx.2 scope
    have hy := hy.2 scope
    simp_all [Section.avoidsContinue, Statement.avoidsContinue]

/-- A loop that is not tested at the bottom. -/
theorem whileDo {kind : LoopKind} {guard : Option Guard} {condition : Option Condition}
    (hkind : kind ≠ .doWhile ∨ guard = none) (hx : MirrorsAll src xs ss) :
    MirrorsAll src [.loop kind guard xs []] [.whileDo condition ss] := by
  have hloop : (Section.loop kind guard xs []).bottomLoop? = none := by
    cases kind <;> cases guard <;> simp_all [Section.bottomLoop?]
  refine ⟨?_, fun scope => ?_⟩
  · simpa [List.filterMap_cons, hloop, Statement.bottomLoop?] using hx.1
  · have hx := hx.2 scope.inLoop
    simp_all [Section.avoidsContinue, Statement.avoidsContinue]

/-- A loop with an update becomes one, with the update apart from the body. -/
theorem forUpdate {guard : Option Guard} {condition : Condition} (hx : MirrorsAll src xs ss) (hy : MirrorsAll src ys ts) :
    MirrorsAll src [.loop .forUpdate guard xs ys] [.forUpdate condition ts ss] := by
  refine ⟨?_, fun scope => ?_⟩
  · simpa [List.filterMap_cons, Section.bottomLoop?, Statement.bottomLoop?] using List.rel_append hx.1 hy.1
  · have hx := hx.2 scope.inLoop
    have hy := hy.2 scope
    simp_all [Section.avoidsContinue, Statement.avoidsContinue, Bool.and_comm]

/-- A loop tested at the bottom becomes one whose body ends in what its test evaluates first. -/
theorem doWhile {guard : Guard} {condition : Condition} (hx : MirrorsAll src xs ss)
    (heffects : ∃ inner effects, ss = inner ++ effects ∧ ∀ first, guard.spans.head? = some first → src.LiftsTo first effects) :
    MirrorsAll src [.loop .doWhile (some guard) xs []] [.doWhile condition ss] := by
  refine ⟨?_, fun scope => ?_⟩
  · simpa [List.filterMap_cons, Section.bottomLoop?, Statement.bottomLoop?] using ⟨⟨heffects, hx.2⟩, hx.1⟩
  · have hx := hx.2 scope.inLoop
    simp_all [Section.avoidsContinue, Statement.avoidsContinue]

/-- A switch becomes a switch over what its cases become. -/
theorem switch {key : Span} {value : ExprId} {cases : List (Case (List Section))} {cases' : List (Case (List Statement))}
    (h : MirrorsCases src cases cases') : MirrorsAll src [.switch key cases] [.switch value cases'] := by
  refine ⟨?_, fun scope => ?_⟩
  · simpa [List.filterMap_cons, Section.bottomLoop?, Statement.bottomLoop?] using h.1
  · have h := h.2 scope.inSwitch
    simp_all [Section.avoidsContinue, Statement.avoidsContinue]

/-- A try becomes a try over what its lists become. -/
theorem tryCatch {clauses : List (CatchSection (List Section))} {clauses' : List (Catch (List Statement))}
    (hx : MirrorsAll src xs ss) (h : MirrorsClauses src clauses clauses') :
    MirrorsAll src [.tryCatch xs clauses] [.tryCatch ss clauses'] := by
  refine ⟨?_, fun scope => ?_⟩
  · simpa [List.filterMap_cons, Section.bottomLoop?, Statement.bottomLoop?] using List.rel_append hx.1 h.1
  · have hx := hx.2 scope
    have h := h.2 scope
    simp_all [Section.avoidsContinue, Statement.avoidsContinue]

end MirrorsAll

/-- Whatever a list of sections is built into, the statements that it adds mirror it. -/
def BuildsMirrored (src : Source) (settings : Settings) (sections : List Section) : Prop :=
  ∀ f b f' b', sectionsInto src settings sections f b = .ok f' b' → ∃ more, f'.out = f.out ++ more ∧ MirrorsAll src sections more

/-- Without comments a list of its own is what its sections become. -/
theorem BuildsMirrored.list (hstrict : settings.commentOnError = false) {sections : List Section}
    (h : BuildsMirrored src settings sections) {stack : List ExprId} {statements : List Statement}
    (hrun : orComment src settings sections (sectionsInto src settings sections ⟨stack, []⟩) b = .ok statements b') :
    MirrorsAll src sections statements := by
  obtain ⟨more, hout, hmore⟩ := h _ _ _ _ (orComment_eq_ok hstrict hrun)
  rw [show statements = more from hout]
  exact hmore

/-- A loop becomes a loop of the same kind, whichever kind that is. -/
theorem loop_mirrors (hstrict : settings.commentOnError = false) {kind : LoopKind} {guard : Option Guard}
    {loopBody update : List Section} {scope : Scope} (hs : (Section.loop kind guard loopBody update).isWellFormed scope = true)
    (hbody : BuildsMirrored src settings loopBody) (hupdate : BuildsMirrored src settings update)
    (h : sectionInto src settings (.loop kind guard loopBody update) f b = .ok f' b') :
    ∃ more, f'.out = f.out ++ more ∧ MirrorsAll src [.loop kind guard loopBody update] more := by
  simp only [Section.isWellFormed, Bool.and_eq_true] at hs
  cases guard with
  | none =>
    have hforever : kind = .forever := by simpa using hs.1.1
    subst hforever
    obtain rfl : update = [] := by simpa using hs.2
    simp only [sectionInto] at h
    obtain ⟨statements, b₁, hlist, hrest⟩ := run_bind_eq_ok.1 h
    cases hrest
    exact ⟨_, rfl, .whileDo (.inr rfl) (hbody.list hstrict hlist)⟩
  | some g =>
    cases kind with
    | doWhile =>
      obtain rfl : update = [] := by simpa using hs.2
      simp only [sectionInto] at h
      obtain ⟨inner, b₁, hinner, h₁⟩ := run_bind_eq_ok.1 h
      obtain ⟨r, b₂, hcondition, h₂⟩ := run_bind_eq_ok.1 h₁
      obtain ⟨statements, b₃, hfinish, h₃⟩ := run_bind_eq_ok.1 h₂
      cases h₃
      obtain ⟨hframe, rfl⟩ := Frame.finish_eq_ok hfinish
      obtain ⟨more, hout, hmore⟩ := hbody _ _ _ _ hinner
      obtain ⟨effects, hafter, hsimple⟩ := condition_yields src b₁ g true inner _ _ hcondition
      have hstatements : statements = more ++ effects := by
        rw [hframe, hout] at hafter
        exact hafter
      rw [hstatements]
      refine ⟨_, rfl, .doWhile (.append_right hsimple hmore) ⟨more, effects, rfl, fun first hfirst => ?_⟩⟩
      exact (condition_prelude g hcondition).liftsTo hfirst hafter
    | forUpdate =>
      simp only [sectionInto] at h
      obtain ⟨condition, b₁, _, h₁⟩ := run_bind_eq_ok.1 h
      obtain ⟨update', b₂, hupdates, h₂⟩ := run_bind_eq_ok.1 h₁
      obtain ⟨statements, b₃, hlist, h₃⟩ := run_bind_eq_ok.1 h₂
      cases h₃
      exact ⟨_, rfl, .forUpdate (hbody.list hstrict hlist) (hupdate.list hstrict hupdates)⟩
    | whileDo =>
      obtain rfl : update = [] := by simpa using hs.2
      simp only [sectionInto] at h
      obtain ⟨condition, b₁, _, h₁⟩ := run_bind_eq_ok.1 h
      obtain ⟨statements, b₂, hlist, h₂⟩ := run_bind_eq_ok.1 h₁
      cases h₂
      exact ⟨_, rfl, .whileDo (.inl nofun) (hbody.list hstrict hlist)⟩
    | forever => simp at hs

mutual

/-- Every section becomes statements of the same form. -/
theorem sectionInto_mirrors (hstrict : settings.commentOnError = false) {scope : Scope} (s : Section)
    (hs : Section.everywhere Section.isWellFormed scope s = true) {f f' : Frame} {b b' : Builder}
    (h : sectionInto src settings s f b = .ok f' b') : ∃ more, f'.out = f.out ++ more ∧ MirrorsAll src [s] more := by
  cases s with
  | body span =>
    simp only [sectionInto] at h
    obtain ⟨more, hout, hsimple⟩ := body_yields src span f _ _ h
    exact ⟨more, hout, .body span hsimple⟩
  | branch g thenPart elsePart =>
    simp only [Section.everywhere, Bool.and_eq_true] at hs
    simp only [sectionInto] at h
    obtain ⟨r, b₁, hcondition, h₁⟩ := run_bind_eq_ok.1 h
    obtain ⟨statements, b₂, hthen, h₂⟩ := run_bind_eq_ok.1 h₁
    obtain ⟨statements', b₃, helse, h₃⟩ := run_bind_eq_ok.1 h₂
    cases h₃
    obtain ⟨before, hout, hsimple⟩ := condition_yields src b g true f _ _ hcondition
    have hthen := (sectionsInto_mirrors hstrict thenPart hs.1.2).list hstrict hthen
    have helse := (sectionsInto_mirrors hstrict elsePart hs.2).list hstrict helse
    refine ⟨before ++ [.branch r.1 statements statements'], ?_, .append_left hsimple (.branch hthen helse)⟩
    rw [← List.append_assoc, ← hout]
    rfl
  | loop kind guard loopBody update =>
    simp only [Section.everywhere, Bool.and_eq_true] at hs
    exact loop_mirrors hstrict hs.1.1 (sectionsInto_mirrors hstrict loopBody hs.1.2) (sectionsInto_mirrors hstrict update hs.2) h
  | switch key cases =>
    simp only [Section.everywhere, Bool.and_eq_true] at hs
    simp only [sectionInto] at h
    obtain ⟨last, b₁, _, h₁⟩ := run_bind_eq_ok.1 h
    obtain ⟨f₁, b₂, hbody, h₂⟩ := run_bind_eq_ok.1 h₁
    obtain ⟨⟨value, f₂⟩, b₃, hpop, h₃⟩ := run_bind_eq_ok.1 h₂
    obtain ⟨cases', b₄, hcases, h₄⟩ := run_bind_eq_ok.1 h₃
    cases h₄
    obtain ⟨before, hout, hsimple⟩ := body_yields src _ f _ _ hbody
    obtain ⟨rfl, _⟩ := Frame.pop_eq_ok hpop
    refine ⟨before ++ [.switch value cases'], ?_, .append_left hsimple (.switch (switchCases_mirrors hstrict cases hs.2 hcases))⟩
    rw [← List.append_assoc, ← hout]
    rfl
  | tryCatch tried clauses =>
    simp only [Section.everywhere, Bool.and_eq_true] at hs
    simp only [sectionInto] at h
    obtain ⟨statements, b₁, htried, h₁⟩ := run_bind_eq_ok.1 h
    obtain ⟨clauses', b₂, hclauses, h₂⟩ := run_bind_eq_ok.1 h₁
    cases h₂
    have htried := (sectionsInto_mirrors hstrict tried hs.1.2).list hstrict htried
    exact ⟨_, rfl, .tryCatch htried (catches_mirrors hstrict clauses hs.2 hclauses)⟩
  | breakOut depth jump =>
    simp only [sectionInto] at h
    cases h
    exact ⟨_, rfl, .nil, fun _ => rfl⟩
  | continueNext depth jump =>
    simp only [sectionInto] at h
    cases h
    exact ⟨_, rfl, .nil, fun _ => rfl⟩
  | comment lines spans =>
    simp only [sectionInto] at h
    cases h
    exact ⟨_, rfl, .nil, fun _ => rfl⟩

/-- Where comments are not allowed, the statements mirror the sections they are built from. -/
theorem sectionsInto_mirrors (hstrict : settings.commentOnError = false) {scope : Scope} (sections : List Section)
    (hs : Section.everywhereAll Section.isWellFormed scope sections = true) : BuildsMirrored src settings sections := by
  intro f b f' b' h
  cases sections with
  | nil =>
    simp only [sectionsInto] at h
    cases h
    exact ⟨[], (List.append_nil _).symm, .nil⟩
  | cons s rest =>
    simp only [Section.everywhereAll, Bool.and_eq_true] at hs
    simp only [sectionsInto] at h
    obtain ⟨f₁, b₁, hfirst, hrest⟩ := run_bind_eq_ok.1 h
    obtain ⟨more, hout, hmore⟩ := sectionInto_mirrors hstrict s hs.1 hfirst
    obtain ⟨more', hout', hmore'⟩ := sectionsInto_mirrors hstrict rest hs.2 _ _ _ _ hrest
    exact ⟨more ++ more', by rw [hout', hout, List.append_assoc], hmore.cons hmore'⟩

/-- Every case becomes a case of the same form. -/
theorem switchCases_mirrors (hstrict : settings.commentOnError = false) {scope : Scope} (cases : List (Case (List Section)))
    (hs : Section.everywhereCases Section.isWellFormed scope cases = true) {cases' : List (Case (List Statement))}
    {b b' : Builder} (h : switchCases src settings cases b = .ok cases' b') : MirrorsCases src cases cases' := by
  cases cases with
  | nil =>
    simp only [switchCases] at h
    cases h
    exact ⟨.nil, fun _ => rfl⟩
  | cons c rest =>
    obtain ⟨values, isDefault, caseBody⟩ := c
    simp only [Section.everywhereCases, Bool.and_eq_true] at hs
    simp only [switchCases] at h
    obtain ⟨statements, b₁, hbody, h₁⟩ := run_bind_eq_ok.1 h
    obtain ⟨rest', b₂, hrest, h₂⟩ := run_bind_eq_ok.1 h₁
    cases h₂
    obtain ⟨hloops, havoids⟩ := (sectionsInto_mirrors hstrict caseBody hs.1).list hstrict hbody
    obtain ⟨hloops', havoids'⟩ := switchCases_mirrors hstrict rest hs.2 hrest
    refine ⟨?_, fun scope => ?_⟩
    · simpa using List.rel_append hloops hloops'
    · have havoids := havoids scope
      have havoids' := havoids' scope
      simp_all

/-- Every clause becomes a clause of the same form. -/
theorem catches_mirrors (hstrict : settings.commentOnError = false) {scope : Scope}
    (clauses : List (CatchSection (List Section))) (hs : Section.everywhereClauses Section.isWellFormed scope clauses = true)
    {clauses' : List (Catch (List Statement))} {b b' : Builder} (h : catches src settings clauses b = .ok clauses' b') :
    MirrorsClauses src clauses clauses' := by
  cases clauses with
  | nil =>
    simp only [catches] at h
    cases h
    exact ⟨.nil, fun _ => rfl⟩
  | cons c rest =>
    obtain ⟨types, boundTo, header, handlerBody⟩ := c
    simp only [Section.everywhereClauses, Bool.and_eq_true] at hs
    simp only [catches] at h
    obtain ⟨stack, b₁, _, h₁⟩ := run_bind_eq_ok.1 h
    obtain ⟨statements, b₂, hbody, h₂⟩ := run_bind_eq_ok.1 h₁
    obtain ⟨rest', b₃, hrest, h₃⟩ := run_bind_eq_ok.1 h₂
    cases h₃
    obtain ⟨hloops, havoids⟩ := (sectionsInto_mirrors hstrict handlerBody hs.1).list hstrict hbody
    obtain ⟨hloops', havoids'⟩ := catches_mirrors hstrict rest hs.2 hrest
    refine ⟨?_, fun scope => ?_⟩
    · simpa using List.rel_append hloops hloops'
    · have havoids := havoids scope
      have havoids' := havoids' scope
      simp_all

end

end Build

end CodeLift
