import CodeLift.Proofs.Comments.Lifting
import CodeLift.Proofs.Comments.Listing
import CodeLift.Proofs.Safety.Lifting
import CodeLift.Proofs.Statement.Increments

/-!
# Lists that become comments

Where comments are allowed, every method whose graph can be built has statements. They have the shape of its sections, except that
a list of sections can have become a comment instead (`Section.ListBecomes`), whose lines then list the code of these sections. The
body of a loop with its test at the bottom is not such a list: it is built together with the test.
-/

namespace CodeLift

open Building

namespace Section

/-- A list of sections has become a comment that lists its code. -/
def Replaced (code : List Insn) (sections : List Section) (out : List Statement) : Prop :=
  out = [.comment (listing code (spansAll sections))]

section

variable (code : List Insn)

mutual

/-- The statements that a section has become: one of the same kind, the lists inside which are built or replaced, after simple ones
for the code that runs before it. -/
def Becomes : Section → List Statement → Prop
  | .body _, out => ∀ s ∈ out, s.isSimple = true
  | .branch _ thenPart elsePart, out => ∃ before condition thenOut elseOut, (∀ s ∈ before, s.isSimple = true) ∧
    out = before ++ [.branch condition thenOut elseOut] ∧
    (AllBecome thenPart thenOut ∨ Replaced code thenPart thenOut) ∧ (AllBecome elsePart elseOut ∨ Replaced code elsePart elseOut)
  | .loop .doWhile (some _) loopBody _, out => ∃ condition bodyOut after, (∀ s ∈ after, s.isSimple = true) ∧
    out = [.doWhile condition (bodyOut ++ after)] ∧ AllBecome loopBody bodyOut
  | .loop .forUpdate (some _) loopBody update, out => ∃ condition updateOut bodyOut,
    out = [.forUpdate condition updateOut bodyOut] ∧ (AllBecome update updateOut ∨ Replaced code update updateOut) ∧
    (AllBecome loopBody bodyOut ∨ Replaced code loopBody bodyOut)
  | .loop _ _ loopBody _, out => ∃ condition bodyOut, out = [.whileDo condition bodyOut] ∧
    (AllBecome loopBody bodyOut ∨ Replaced code loopBody bodyOut)
  | .switch _ cases, out => ∃ before value casesOut, (∀ s ∈ before, s.isSimple = true) ∧
    out = before ++ [.switch value casesOut] ∧ CasesBecome cases casesOut
  | .tryCatch tried clauses, out => ∃ triedOut clausesOut, out = [.tryCatch triedOut clausesOut] ∧
    (AllBecome tried triedOut ∨ Replaced code tried triedOut) ∧ ClausesBecome clauses clausesOut
  | .breakOut depth _, out => out = [.breakOut depth]
  | .continueNext depth _, out => out = [.continueNext depth]
  | .comment lines _, out => out = [.comment lines]

/-- The statements that sections have become, one section after the other. -/
def AllBecome : List Section → List Statement → Prop
  | [], out => out = []
  | s :: rest, out => ∃ first others, out = first ++ others ∧ Becomes s first ∧ AllBecome rest others

/-- The cases of statements that cases of sections have become. -/
def CasesBecome : List (Case (List Section)) → List (Case (List Statement)) → Prop
  | [], out => out = []
  | ⟨values, isDefault, caseBody⟩ :: rest, out => ∃ bodyOut others, out = ⟨values, isDefault, bodyOut⟩ :: others ∧
    (AllBecome caseBody bodyOut ∨ Replaced code caseBody bodyOut) ∧ CasesBecome rest others

/-- The clauses of statements that clauses of sections have become. -/
def ClausesBecome : List (CatchSection (List Section)) → List (Catch (List Statement)) → Prop
  | [], out => out = []
  | ⟨types, boundTo, _, handlerBody⟩ :: rest, out => ∃ bodyOut others, out = ⟨types, boundTo, bodyOut⟩ :: others ∧
    (AllBecome handlerBody bodyOut ∨ Replaced code handlerBody bodyOut) ∧ ClausesBecome rest others

end

/-- The statements of a list of its own: they are built from the sections, or a comment lists the code of the sections. -/
def ListBecomes (sections : List Section) (out : List Statement) : Prop :=
  AllBecome code sections out ∨ Replaced code sections out

end

end Section

/-! ## Building -/

namespace Build

variable {src : Source} {settings : Settings} {b : Builder} {f : Frame}

/-- The sections stand for no instruction twice. -/
abbrev Apart (spans : List Span) : Prop := (spans.flatMap Span.indices).Nodup

/-- Spans that are apart are so at the front. -/
theorem Apart.of_append_left {xs ys : List Span} (h : Apart (xs ++ ys)) : Apart xs := by
  rw [Apart, List.flatMap_append] at h
  exact h.of_append_left

/-- Spans that are apart are so at the back. -/
theorem Apart.of_append_right {xs ys : List Span} (h : Apart (xs ++ ys)) : Apart ys := by
  rw [Apart, List.flatMap_append] at h
  exact h.of_append_right

theorem Apart.tail {s : Span} {rest : List Span} (h : Apart (s :: rest)) : Apart rest := by
  rw [← List.singleton_append] at h
  exact h.of_append_right

/-- A list of its own becomes its statements, or a comment that lists its code. -/
theorem orComment_becomes {sections : List Section} (h : Apart (Section.spansAll sections)) {x : Building Frame}
    (hx : Yields b x fun f _ => Section.AllBecome src.method.code sections f.out) :
    Yields b (orComment src settings sections x) fun out _ => Section.ListBecomes src.method.code sections out := by
  refine orComment_yields (hx.mono fun f _ hf => .inl hf) (.inr ?_)
  rw [Section.Replaced, commentLines_eq_listing src h]

/-- Building sections into any frame adds what they become to it. -/
def BuildsInto (src : Source) (settings : Settings) (sections : List Section) : Prop :=
  ∀ (b : Builder) (f : Frame), Yields b (sectionsInto src settings sections f) fun f' _ =>
    ∃ out, f'.out = f.out ++ out ∧ Section.AllBecome src.method.code sections out

/-- A nested list that is built on its own becomes what it should. -/
theorem BuildsInto.list {sections : List Section} (h : BuildsInto src settings sections)
    (hapart : Apart (Section.spansAll sections)) (stack : List ExprId) :
    Yields b (orComment src settings sections (sectionsInto src settings sections ⟨stack, []⟩)) fun out _ =>
      Section.ListBecomes src.method.code sections out := by
  refine orComment_becomes hapart ((h b ⟨stack, []⟩).mono ?_)
  rintro f' _ ⟨out, hout, hbecome⟩
  rw [hout]
  exact hbecome

/-- A loop becomes a loop over what its lists become. -/
theorem loop_becomes (kind : LoopKind) (guard : Option Guard) {loopBody update : List Section}
    (hbody : BuildsInto src settings loopBody) (hupdate : BuildsInto src settings update)
    (hbodyApart : Apart (Section.spansAll loopBody)) (hupdateApart : Apart (Section.spansAll update)) :
    Yields b (sectionInto src settings (.loop kind guard loopBody update) f) fun f' _ =>
      ∃ out, f'.out = f.out ++ out ∧ (Section.loop kind guard loopBody update).Becomes src.method.code out := by
  cases guard with
  | none =>
    cases kind <;> simp only [sectionInto, Section.Becomes] <;>
      exact (hbody.list hbodyApart []).bind fun bodyOut _ hbodyOut => .pure ⟨_, rfl, _, _, rfl, hbodyOut⟩
  | some g =>
    cases kind with
    | whileDo =>
      simp only [sectionInto, Section.Becomes]
      refine (Yields.any _).bind fun condition _ _ => ?_
      exact (hbody.list hbodyApart []).bind fun bodyOut _ hbodyOut => .pure ⟨_, rfl, _, _, rfl, hbodyOut⟩
    | forever =>
      simp only [sectionInto, Section.Becomes]
      refine (Yields.any _).bind fun condition _ _ => ?_
      exact (hbody.list hbodyApart []).bind fun bodyOut _ hbodyOut => .pure ⟨_, rfl, _, _, rfl, hbodyOut⟩
    | forUpdate =>
      simp only [sectionInto, Section.Becomes]
      refine (Yields.any _).bind fun condition _ _ => ?_
      refine (hupdate.list hupdateApart []).bind fun updateOut _ hupdateOut => ?_
      refine (hbody.list hbodyApart []).bind fun bodyOut _ hbodyOut => ?_
      exact .pure ⟨_, rfl, _, _, _, rfl, hupdateOut, hbodyOut⟩
    | doWhile =>
      simp only [sectionInto, Section.Becomes]
      refine (hbody b ⟨[], []⟩).bind fun inner b₁ hinner => ?_
      obtain ⟨bodyOut, hout, hbodyOut⟩ := hinner
      refine (condition_yields src b₁ g true inner).bind fun r _ hr => ?_
      obtain ⟨after, hafter, hsimple⟩ := hr
      refine r.2.2.finish_yields.bind fun statements _ hstatements => .pure ⟨_, rfl, r.1, bodyOut, after, hsimple, ?_, hbodyOut⟩
      rw [hstatements, hafter, hout]
      rfl

mutual

/-- Every section becomes its statements, with comments only in place of whole lists. -/
theorem sectionInto_becomes (s : Section) (h : Apart s.spans) (b : Builder) (f : Frame) :
    Yields b (sectionInto src settings s f) fun f' _ => ∃ out, f'.out = f.out ++ out ∧ s.Becomes src.method.code out := by
  cases s with
  | body span =>
    simp only [sectionInto, Section.Becomes]
    exact body_yields src span f
  | branch g thenPart elsePart =>
    simp only [sectionInto, Section.Becomes]
    simp only [Section.spans, List.append_assoc] at h
    have hparts := h.of_append_right
    refine (condition_yields src b g true f).bind fun r _ hr => ?_
    obtain ⟨before, hbefore, hsimple⟩ := hr
    refine (BuildsInto.list (sectionsInto_becomes thenPart hparts.of_append_left) hparts.of_append_left []).bind
      fun thenOut _ hthen => ?_
    refine (BuildsInto.list (sectionsInto_becomes elsePart hparts.of_append_right) hparts.of_append_right []).bind
      fun elseOut _ helse => .pure ⟨_, ?_, before, r.1, thenOut, elseOut, hsimple, rfl, hthen, helse⟩
    simp [Frame.emit, hbefore]
  | loop kind guard loopBody update =>
    simp only [Section.spans, List.append_assoc] at h
    have hparts := h.of_append_right
    exact loop_becomes kind guard (sectionsInto_becomes loopBody hparts.of_append_left)
      (sectionsInto_becomes update hparts.of_append_right) hparts.of_append_left hparts.of_append_right
  | switch key cases =>
    simp only [sectionInto, Section.Becomes]
    simp only [Section.spans] at h
    refine (Yields.any _).bind fun last _ _ => ?_
    refine (body_yields src _ f).bind fun f' _ hf' => ?_
    obtain ⟨before, hbefore, hsimple⟩ := hf'
    refine (f'.pop_yields last).bind fun r b₁ hr => ?_
    refine (switchCases_becomes cases h.tail b₁).bind fun casesOut _ hcases => ?_
    refine .pure ⟨_, ?_, before, r.1, casesOut, hsimple, rfl, hcases⟩
    simp [Frame.emit, hr, hbefore]
  | tryCatch tried clauses =>
    simp only [sectionInto, Section.Becomes]
    simp only [Section.spans] at h
    refine (BuildsInto.list (sectionsInto_becomes tried h.of_append_left) h.of_append_left []).bind fun triedOut b₁ htried => ?_
    refine (catches_becomes clauses h.of_append_right b₁).bind fun clausesOut _ hclauses => ?_
    exact .pure ⟨_, rfl, triedOut, clausesOut, rfl, htried, hclauses⟩
  | breakOut depth jump =>
    simp only [sectionInto, Section.Becomes]
    exact .pure ⟨_, rfl, rfl⟩
  | continueNext depth jump =>
    simp only [sectionInto, Section.Becomes]
    exact .pure ⟨_, rfl, rfl⟩
  | comment lines spans =>
    simp only [sectionInto, Section.Becomes]
    exact .pure ⟨_, rfl, rfl⟩

/-- Sections in a row become statements in a row. -/
theorem sectionsInto_becomes (sections : List Section) (h : Apart (Section.spansAll sections)) :
    BuildsInto src settings sections := by
  intro b f
  cases sections with
  | nil =>
    simp only [sectionsInto, Section.AllBecome]
    exact .pure ⟨[], by simp, rfl⟩
  | cons s rest =>
    simp only [sectionsInto, Section.AllBecome]
    simp only [Section.spansAll] at h
    refine (sectionInto_becomes s h.of_append_left b f).bind fun f' b₁ hf' => ?_
    obtain ⟨first, hfirst, hs⟩ := hf'
    refine (sectionsInto_becomes rest h.of_append_right b₁ f').mono ?_
    rintro f'' _ ⟨others, hothers, hrest⟩
    exact ⟨first ++ others, by rw [hothers, hfirst, List.append_assoc], first, others, rfl, hs, hrest⟩

/-- Every case becomes a case. -/
theorem switchCases_becomes (cases : List (Case (List Section))) (h : Apart (Section.spansCases cases)) (b : Builder) :
    Yields b (switchCases src settings cases) fun out _ => Section.CasesBecome src.method.code cases out := by
  match cases with
  | [] =>
    simp only [switchCases, Section.CasesBecome]
    exact .pure rfl
  | ⟨values, isDefault, caseBody⟩ :: rest =>
    simp only [switchCases, Section.CasesBecome]
    simp only [Section.spansCases] at h
    refine (BuildsInto.list (sectionsInto_becomes caseBody h.of_append_left) h.of_append_left []).bind fun bodyOut b₁ hbody => ?_
    refine (switchCases_becomes rest h.of_append_right b₁).bind fun others _ hothers => ?_
    exact .pure ⟨bodyOut, others, rfl, hbody, hothers⟩

/-- Every clause becomes a clause. -/
theorem catches_becomes (clauses : List (CatchSection (List Section))) (h : Apart (Section.spansClauses clauses)) (b : Builder) :
    Yields b (catches src settings clauses) fun out _ => Section.ClausesBecome src.method.code clauses out := by
  match clauses with
  | [] =>
    simp only [catches, Section.ClausesBecome]
    exact .pure rfl
  | ⟨types, boundTo, header, handlerBody⟩ :: rest =>
    simp only [catches, Section.ClausesBecome]
    simp only [Section.spansClauses, List.cons_append] at h
    have hparts := h.tail
    refine (Yields.any _).bind fun stack _ _ => ?_
    refine (BuildsInto.list (sectionsInto_becomes handlerBody hparts.of_append_left) hparts.of_append_left stack).bind
      fun bodyOut b₁ hbody => ?_
    refine (catches_becomes rest hparts.of_append_right b₁).bind fun others _ hothers => ?_
    exact .pure ⟨bodyOut, others, rfl, hbody, hothers⟩

end

end Build

/-! ## The pass over the statements -/

namespace Statement

variable {R : Statement → Statement → Prop}

/-- A change of two lists in a row is a change of each. -/
theorem ChangedAllBy.exists_of_append {xs ys ts : List Statement} (h : ChangedAllBy R (xs ++ ys) ts) :
    ∃ xs' ys', ts = xs' ++ ys' ∧ ChangedAllBy R xs xs' ∧ ChangedAllBy R ys ys' := by
  induction xs generalizing ts with
  | nil => exact ⟨[], ts, rfl, by simp [ChangedAllBy], h⟩
  | cons x xs ih =>
    rw [List.cons_append, ChangedAllBy] at h
    obtain ⟨t, rest, rfl, hx, hrest⟩ := h
    obtain ⟨xs', ys', rfl, hxs, hys⟩ := ih hrest
    refine ⟨t :: xs', ys', rfl, ?_, hys⟩
    rw [ChangedAllBy]
    exact ⟨t, xs', rfl, hx, hxs⟩

/-- A list of one statement changes into a list of one. -/
theorem ChangedAllBy.exists_of_singleton {s : Statement} {ts : List Statement} (h : ChangedAllBy R [s] ts) :
    ∃ t, ts = [t] ∧ ChangedBy R s t := by
  simp only [ChangedAllBy] at h
  obtain ⟨t, _, rfl, hs, rfl⟩ := h
  exact ⟨t, rfl, hs⟩

/-- A list changed in its last statement, after others. -/
theorem ChangedAllBy.exists_of_concat {xs ts : List Statement} {s : Statement} (h : ChangedAllBy R (xs ++ [s]) ts) :
    ∃ xs' t, ts = xs' ++ [t] ∧ ChangedAllBy R xs xs' ∧ ChangedBy R s t := by
  obtain ⟨xs', _, rfl, hxs, hlast⟩ := h.exists_of_append
  obtain ⟨t, rfl, hs⟩ := hlast.exists_of_singleton
  exact ⟨xs', t, rfl, hxs, hs⟩

/-- A simple statement is changed itself. -/
theorem ChangedBy.of_isSimple {s t : Statement} (h : ChangedBy R s t) (hs : s.isSimple = true) : R s t := by
  cases s with
  | branch condition thenPart elsePart => cases hs
  | whileDo condition body => cases hs
  | doWhile condition body => cases hs
  | forUpdate condition update body => cases hs
  | switch key cases => cases hs
  | tryCatch body clauses => cases hs
  | _ =>
    simp only [ChangedBy] at h
    exact h

end Statement

namespace Pass

variable {a : Arena}

/-- A simple statement is rewritten to a simple one. -/
theorem RewrittenTo.isSimple {s t : Statement} (h : RewrittenTo a s t) (hs : s.isSimple = true) : t.isSimple = true := by
  cases h with
  | increment _ => rfl
  | kept _ => exact hs

/-- Simple statements stay simple. -/
theorem isSimple_of_changedAllBy {ss ts : List Statement} (h : Statement.ChangedAllBy (RewrittenTo a) ss ts)
    (hss : ∀ s ∈ ss, s.isSimple = true) : ∀ t ∈ ts, t.isSimple = true := by
  induction ss generalizing ts with
  | nil =>
    simp only [Statement.ChangedAllBy] at h
    simp [h]
  | cons s rest ih =>
    simp only [Statement.ChangedAllBy] at h
    obtain ⟨t, rest', rfl, hs, hrest⟩ := h
    obtain ⟨hsimple, hothers⟩ := List.forall_mem_cons.1 hss
    exact List.forall_mem_cons.2 ⟨(hs.of_isSimple hsimple).isSimple hsimple, ih hrest hothers⟩

end Pass

namespace Section

variable {code : List Insn} {a : Arena}

/-- A comment that replaces a list is not changed. -/
theorem Replaced.changed {sections : List Section} {out out' : List Statement} (h : Replaced code sections out)
    (hchanged : Statement.ChangedAllBy (Pass.RewrittenTo a) out out') : Replaced code sections out' := by
  rw [Replaced] at h
  subst h
  obtain ⟨t, rfl, ht⟩ := hchanged.exists_of_singleton
  simp only [Statement.ChangedBy] at ht
  cases ht
  rfl

/-- The sections still become the statements when the pass for increments has changed these. -/
def Withstands (code : List Insn) (a : Arena) (sections : List Section) : Prop :=
  ∀ out out', Statement.ChangedAllBy (Pass.RewrittenTo a) out out' → AllBecome code sections out → AllBecome code sections out'

/-- A list that has become what it should has done so after the pass too. -/
theorem Withstands.list {sections : List Section} (h : Withstands code a sections) {out out' : List Statement}
    (hchanged : Statement.ChangedAllBy (Pass.RewrittenTo a) out out') (hlist : ListBecomes code sections out) :
    ListBecomes code sections out' :=
  hlist.imp (h out out' hchanged) fun hreplaced => hreplaced.changed hchanged

/-- The pass keeps what a loop has become. -/
theorem loop_changed (kind : LoopKind) (guard : Option Guard) {loopBody update : List Section}
    (hbody : Withstands code a loopBody) (hupdate : Withstands code a update) {out out' : List Statement}
    (hchanged : Statement.ChangedAllBy (Pass.RewrittenTo a) out out')
    (h : (Section.loop kind guard loopBody update).Becomes code out) :
    (Section.loop kind guard loopBody update).Becomes code out' := by
  -- Whatever its kind and guard, a loop that is no statement with an update or a test at the bottom is a while.
  have hwhile : (∃ condition bodyOut, out = [.whileDo condition bodyOut] ∧ ListBecomes code loopBody bodyOut) →
      ∃ condition bodyOut, out' = [.whileDo condition bodyOut] ∧ ListBecomes code loopBody bodyOut := by
    rintro ⟨condition, bodyOut, rfl, hbodyOut⟩
    obtain ⟨t, rfl, ht⟩ := hchanged.exists_of_singleton
    rw [Statement.ChangedBy] at ht
    obtain ⟨bodyOut', rfl, hbodyOut'⟩ := ht
    exact ⟨condition, bodyOut', rfl, hbody.list hbodyOut' hbodyOut⟩
  cases guard with
  | none =>
    cases kind <;> simp only [Becomes] at h ⊢ <;> exact hwhile h
  | some g =>
    cases kind with
    | whileDo =>
      simp only [Becomes] at h ⊢
      exact hwhile h
    | forever =>
      simp only [Becomes] at h ⊢
      exact hwhile h
    | forUpdate =>
      simp only [Becomes] at h ⊢
      obtain ⟨condition, updateOut, bodyOut, rfl, hupdateOut, hbodyOut⟩ := h
      obtain ⟨t, rfl, ht⟩ := hchanged.exists_of_singleton
      rw [Statement.ChangedBy] at ht
      obtain ⟨updateOut', bodyOut', rfl, hupdateOut', hbodyOut'⟩ := ht
      exact ⟨condition, updateOut', bodyOut', rfl, hupdate.list hupdateOut' hupdateOut, hbody.list hbodyOut' hbodyOut⟩
    | doWhile =>
      simp only [Becomes] at h ⊢
      obtain ⟨condition, bodyOut, after, hafter, rfl, hbodyOut⟩ := h
      obtain ⟨t, rfl, ht⟩ := hchanged.exists_of_singleton
      rw [Statement.ChangedBy] at ht
      obtain ⟨_, rfl, hinner⟩ := ht
      obtain ⟨bodyOut', after', rfl, hbodyOut', hafter'⟩ := hinner.exists_of_append
      exact ⟨condition, bodyOut', after', Pass.isSimple_of_changedAllBy hafter' hafter, rfl, hbody _ _ hbodyOut' hbodyOut⟩

mutual

/-- The pass keeps what a section has become. -/
theorem becomes_changed (s : Section) {out out' : List Statement}
    (hchanged : Statement.ChangedAllBy (Pass.RewrittenTo a) out out') (h : s.Becomes code out) : s.Becomes code out' := by
  cases s with
  | body span =>
    simp only [Becomes] at h ⊢
    exact Pass.isSimple_of_changedAllBy hchanged h
  | branch g thenPart elsePart =>
    simp only [Becomes] at h ⊢
    obtain ⟨before, condition, thenOut, elseOut, hbefore, rfl, hthen, helse⟩ := h
    obtain ⟨before', t, rfl, hbefore', ht⟩ := hchanged.exists_of_concat
    rw [Statement.ChangedBy] at ht
    obtain ⟨thenOut', elseOut', rfl, hthen', helse'⟩ := ht
    exact ⟨before', condition, thenOut', elseOut', Pass.isSimple_of_changedAllBy hbefore' hbefore, rfl,
      Withstands.list (allBecome_changed thenPart) hthen' hthen, Withstands.list (allBecome_changed elsePart) helse' helse⟩
  | loop kind guard loopBody update =>
    exact loop_changed kind guard (allBecome_changed loopBody) (allBecome_changed update) hchanged h
  | switch key cases =>
    simp only [Becomes] at h ⊢
    obtain ⟨before, value, casesOut, hbefore, rfl, hcases⟩ := h
    obtain ⟨before', t, rfl, hbefore', ht⟩ := hchanged.exists_of_concat
    rw [Statement.ChangedBy] at ht
    obtain ⟨casesOut', rfl, hcases'⟩ := ht
    exact ⟨before', value, casesOut', Pass.isSimple_of_changedAllBy hbefore' hbefore, rfl, casesBecome_changed cases hcases' hcases⟩
  | tryCatch tried clauses =>
    simp only [Becomes] at h ⊢
    obtain ⟨triedOut, clausesOut, rfl, htried, hclauses⟩ := h
    obtain ⟨t, rfl, ht⟩ := hchanged.exists_of_singleton
    rw [Statement.ChangedBy] at ht
    obtain ⟨triedOut', clausesOut', rfl, htried', hclauses'⟩ := ht
    exact ⟨triedOut', clausesOut', rfl, Withstands.list (allBecome_changed tried) htried' htried,
      clausesBecome_changed clauses hclauses' hclauses⟩
  | breakOut depth jump | continueNext depth jump | comment lines spans =>
    simp only [Becomes] at h ⊢
    subst h
    obtain ⟨t, rfl, ht⟩ := hchanged.exists_of_singleton
    simp only [Statement.ChangedBy] at ht
    cases ht
    rfl

/-- The pass leaves the shape of the statements as it is. -/
theorem allBecome_changed (sections : List Section) : Withstands code a sections := by
  intro out out' hchanged h
  cases sections with
  | nil =>
    simp only [AllBecome] at h ⊢
    subst h
    simpa only [Statement.ChangedAllBy] using hchanged
  | cons s rest =>
    simp only [AllBecome] at h ⊢
    obtain ⟨first, others, rfl, hs, hrest⟩ := h
    obtain ⟨first', others', rfl, hfirst, hothers⟩ := hchanged.exists_of_append
    exact ⟨first', others', rfl, becomes_changed s hfirst hs, allBecome_changed rest others others' hothers hrest⟩

/-- The pass keeps what cases have become. -/
theorem casesBecome_changed (cases : List (Case (List Section))) {out out' : List (Case (List Statement))}
    (hchanged : Statement.ChangedCasesBy (Pass.RewrittenTo a) out out') (h : CasesBecome code cases out) :
    CasesBecome code cases out' := by
  match cases with
  | [] =>
    simp only [CasesBecome] at h ⊢
    subst h
    simpa only [Statement.ChangedCasesBy] using hchanged
  | ⟨values, isDefault, caseBody⟩ :: rest =>
    simp only [CasesBecome] at h ⊢
    obtain ⟨bodyOut, others, rfl, hbody, hothers⟩ := h
    rw [Statement.ChangedCasesBy] at hchanged
    obtain ⟨bodyOut', others', rfl, hbody', hothers'⟩ := hchanged
    exact ⟨bodyOut', others', rfl, Withstands.list (allBecome_changed caseBody) hbody' hbody,
      casesBecome_changed rest hothers' hothers⟩

/-- The pass keeps what clauses have become. -/
theorem clausesBecome_changed (clauses : List (CatchSection (List Section))) {out out' : List (Catch (List Statement))}
    (hchanged : Statement.ChangedClausesBy (Pass.RewrittenTo a) out out') (h : ClausesBecome code clauses out) :
    ClausesBecome code clauses out' := by
  match clauses with
  | [] =>
    simp only [ClausesBecome] at h ⊢
    subst h
    simpa only [Statement.ChangedClausesBy] using hchanged
  | ⟨types, boundTo, _, handlerBody⟩ :: rest =>
    simp only [ClausesBecome] at h ⊢
    obtain ⟨bodyOut, others, rfl, hbody, hothers⟩ := h
    rw [Statement.ChangedClausesBy] at hchanged
    obtain ⟨bodyOut', others', rfl, hbody', hothers'⟩ := hchanged
    exact ⟨bodyOut', others', rfl, Withstands.list (allBecome_changed handlerBody) hbody' hbody,
      clausesBecome_changed rest hothers' hothers⟩

end

end Section

/-! ## Lifted methods -/

/-- Where comments are allowed, every method whose graph has been built has sections. -/
theorem Graph.Built.sectionsTraced_isOk {subject : Subject} (hb : Graph.Built subject.toSource subject.graph)
    (hset : subject.settings.commentOnError = true) (events : List Event) :
    ∃ sections events', subject.sectionsTraced Recognizer.all events = .ok sections events' := by
  have hmeets : Nested.Meets subject (fun _ _ _ => True) (flatten subject Recognizer.all) :=
    flatten_meets (fun _ _ _ _ => trivial) fun _ => id
  obtain ⟨sections, s, hs⟩ := orComment_isOk (hmeets ⟨subject.graph.order, none⟩ (.start events)) hb.valid hset rfl
  refine ⟨sections, s.events, ?_⟩
  unfold Subject.sectionsTraced Subject.sections
  rw [hs]

/-- An error about values is a fault of the method's code, not of the lifter. -/
theorem StatementError.isGenuine_of_isAboutValues {e : StatementError} (h : e.isAboutValues = true) : e.isGenuine = true := by
  cases e with
  | missingInsn index => cases h
  | _ => rfl

/-- Where comments are allowed, a failure that says something about the method becomes one. -/
theorem Build.isGenuine_of_orComment {src : Source} {settings : Settings} (hset : settings.commentOnError = true)
    {sections : List Section} {x : Building Frame} {b b' : Builder} {e : StatementError}
    (h : orComment src settings sections x b = .error e b') : e.isGenuine = false := by
  unfold orComment at h
  split at h
  · cases h
  · split at h
    · cases h
    · rename_i hgenuine
      cases h
      simpa [hset] using hgenuine

/-- Where comments are allowed, sections that can be built have statements. -/
theorem Source.body_isOk {src : Source} {settings : Settings} (hset : settings.commentOnError = true) {sections : List Section}
    (hls : src.locals.Explains src.method.code)
    (hs : Section.everywhereAll (Section.isBuildable src.method.code) .outermost sections = true) (events : List Event) :
    ∃ body events', src.body settings sections events = .ok body events' := by
  cases hbody : src.body settings sections events with
  | ok body events' => exact ⟨body, events', rfl⟩
  | error e events' =>
    have hgenuine := StatementError.isGenuine_of_isAboutValues (Source.isAboutValues_of_body hls hs hbody)
    unfold Source.body at hbody
    cases hlist : Build.list src settings sections ⟨#[], events⟩ with
    | ok statements b =>
      rw [hlist] at hbody
      cases hbody
    | error e' b =>
      rw [hlist] at hbody
      cases hbody
      rw [Build.isGenuine_of_orComment hset hlist] at hgenuine
      cases hgenuine

/-- The sections of a method become its statements, if none of the code is covered twice. -/
theorem Source.body_becomes {src : Source} {settings : Settings} {sections : List Section}
    (hapart : (Section.covered sections).Nodup) {events events' : List Event} {body : Body}
    (h : src.body settings sections events = .ok body events') :
    Section.ListBecomes src.method.code sections body.statements := by
  unfold Source.body at h
  cases hlist : Build.list src settings sections ⟨#[], events⟩ with
  | ok statements b =>
    rw [hlist] at h
    cases h
    exact Build.BuildsInto.list (Build.sectionsInto_becomes sections hapart) hapart [] statements b hlist
  | error e b =>
    rw [hlist] at h
    cases h

/-- The passes leave the shape of the statements as it is. -/
theorem Pass.listBecomes_runAll (m : Method) (ls : Locals) (runPasses : Bool) {code : List Insn} {sections : List Section}
    {body : Body} (h : Section.ListBecomes code sections body.statements) :
    Section.ListBecomes code sections (runAll m ls (if runPasses then [increment] else []) body).1.statements := by
  cases runPasses with
  | false => exact h
  | true => exact Section.Withstands.list (Section.allBecome_changed sections) (changedAllBy_mapEach body.arena body.statements) h

/-- A graph that can be built without reports is built with them. -/
theorem Graph.buildTraced_of_build {src : Source} {producers : List Producer} {g : Graph} (h : Graph.build src producers = .ok g)
    (events : List Event) : ∃ events', Graph.buildTraced src producers events = .ok g events' := by
  unfold Graph.buildTraced
  rw [run_bind_of_ok (Traced.ofExcept_eq_ok.2 ⟨h, rfl⟩)]
  exact ⟨_, rfl⟩

/-- Where comments are allowed, every method whose graph can be built is lifted. Its statements have the shape of its sections, but
the list of all sections, or a list inside them, can be a single comment instead, whose lines are then the instructions that lie in
the spans of that list, each once and in the order of the code. And a comment among the sections stands for blocks in the order of
the layout: after one header for each block come the instructions of the block, and all but the headers are the instructions that
lie in the spans of the comment, each once and in the order of the code. -/
theorem fallback_comments_list_code (m : Method) (maxDepth : Nat) (runPasses : Bool) (events events₁ : List Event) (src : Source)
    (g : Graph) (hsrc : m.source events = .ok src events₁) (hgraph : Graph.build src Producer.all = .ok g) :
    ∃ r events', (Decompiler.standard ⟨true, maxDepth, runPasses⟩).decompile m events = .ok r events' ∧
      Section.ListBecomes m.code r.sections r.body.statements ∧
      ∀ lines spans, Section.comment lines spans ∈ Section.subtrees r.sections → ∃ blocks, g.ListedAs m.code blocks lines spans := by
  obtain ⟨rfl, hls⟩ := Method.source_explains hsrc
  have hb : Graph.Built src g := Graph.built_of_build hgraph
  let subject : Subject := ⟨src, g, ⟨true, maxDepth, runPasses⟩⟩
  obtain ⟨events₂, htraced⟩ := Graph.buildTraced_of_build hgraph events₁
  have hset : subject.settings.commentOnError = true := rfl
  obtain ⟨sections, events₃, hsections⟩ := Graph.Built.sectionsTraced_isOk hb hset (events₂ ++ [subject.sizeEvent])
  obtain ⟨s, hs⟩ := Subject.exists_of_sectionsTraced hsections
  have hbuildable := everywhereAll_isBuildable subject hb (fun _ => id) rfl hs
  obtain ⟨body, events₄, hbody⟩ := Source.body_isOk hset hls hbuildable events₃
  refine ⟨_, _, Decompiler.decompile_eq_ok.2 ⟨src, events₁, g, events₂, sections, events₃, body, events₄, hsrc, htraced, hsections,
    hbody, rfl, rfl⟩, ?_, ?_⟩
  · refine Pass.listBecomes_runAll _ _ runPasses (Source.body_becomes ?_ hbody)
    exact (covered_perm_range subject hb (fun _ => id) hs).nodup_iff.2 List.nodup_range
  · intro lines spans hmem
    exact subject.listedAs_of_sections hb (fun _ => id) hs hmem

/-- A method with a branch inside a branch, and after it a branch whose code discards a value that is not there. -/
def branchesTwiceUnbalanced : Method where
  owner := "A"
  name := "m"
  descriptor := "(I)V"
  isStatic := true
  code := [.load .int 0, .jump .eq ⟨1⟩, .load .int 0, .jump .eq ⟨0⟩, .nop, .label ⟨0⟩, .label ⟨1⟩, .load .int 0, .jump .eq ⟨2⟩,
    .pop, .label ⟨2⟩, .ret none]
  variableTable := []
  handlerTable := []

/-- Where regions may nest twice, the code of the inner branch is a comment among the sections and that of the last branch is made
one when it cannot be built. -/
theorem fallback_comments_list_code_branches :
    ∃ src g events₁ r events', branchesTwiceUnbalanced.source [] = .ok src events₁ ∧ Graph.build src Producer.all = .ok g ∧
      (Decompiler.standard ⟨true, 2, true⟩).decompile branchesTwiceUnbalanced [] = .ok r events' ∧
      Section.ListBecomes branchesTwiceUnbalanced.code r.sections r.body.statements ∧
      (Statement.subtrees r.body.statements).countP (· matches .comment ["block 2 [4..5): fallthrough -> 3", "nop"]) = 1 ∧
      (Statement.subtrees r.body.statements).countP (· matches .comment ["pop"]) = 1 := by
  have hsource : succeedsWith (fun src => (Graph.build src Producer.all).toOption.isSome) (branchesTwiceUnbalanced.source []) =
      true := by decide +kernel
  have hlifts : succeedsWith (fun r =>
      (Statement.subtrees r.body.statements).countP (· matches .comment ["block 2 [4..5): fallthrough -> 3", "nop"]) == 1 &&
      (Statement.subtrees r.body.statements).countP (· matches .comment ["pop"]) == 1)
      ((Decompiler.standard ⟨true, 2, true⟩).decompile branchesTwiceUnbalanced []) = true := by decide +kernel
  obtain ⟨src, events₁, hsrc, hbuilds⟩ := exists_of_succeedsWith hsource
  obtain ⟨r, events', hrun, hcomments⟩ := exists_of_succeedsWith hlifts
  simp only [Bool.and_eq_true, beq_iff_eq] at hcomments
  cases hgraph : Graph.build src Producer.all with
  | error e =>
    rw [hgraph] at hbuilds
    cases hbuilds
  | ok g =>
    obtain ⟨r', _, hrun', hbecomes, _⟩ := fallback_comments_list_code branchesTwiceUnbalanced 2 true [] events₁ src g hsrc hgraph
    rw [hrun] at hrun'
    cases hrun'
    exact ⟨src, g, events₁, r, events', hsrc, hgraph, hrun, hbecomes, hcomments.1, hcomments.2⟩

end CodeLift
