import CodeLift.Proofs.Actions
import CodeLift.Proofs.Structuring.Judgement
import CodeLift.Proofs.Structuring.Paired
import CodeLift.Proofs.Structuring.Protected
import CodeLift.Structuring.Flatten

/-!
# Structuring a method twice

Every recognizer is paired with itself under other settings, if the structuring of inner regions is. The regions inside a
construct are shorter than the region it is found in, except for the body of a loop that takes the whole region: there the head
of the loop is new (`Region.Inside`). `Companion.scan_paired` collects this for a whole region, and `Companion.sections_paired`
takes it to a whole method.
-/

namespace CodeLift

open Structuring

/-! ## Regions inside each other -/

/-- The loop whose head is the first block of the region is being structured. -/
def Region.Entered (g : Graph) (s : Session) (r : Region) : Prop :=
  ∃ first, r.blocks[0]? = some first ∧ g.entryBlock first ∈ s.loopHeads

/-- A region that may stand inside another, with the sessions they are structured in: it is shorter, or has as many blocks but
starts with the head of a loop that has been entered only now. -/
def Region.Inside (g : Graph) (s s' : Session) (r r' : Region) : Prop :=
  r'.length < r.length ∨ r'.length = r.length ∧ ¬ r.Entered g s ∧ r'.Entered g s'

/-- A part of a region that leaves out a block is shorter. -/
theorem Region.Inside.sub {g : Graph} {s s' : Session} {r : Region} {start stop : Nat} {follow : Option BlockId}
    (hstop : stop ≤ r.length) (h : stop - start < r.length) : Region.Inside g s s' r (r.sub start stop follow) := by
  refine .inl ?_
  rw [Region.length_sub hstop]
  exact h

/-- The body of a loop that has not been entered before is inside the region of the loop, also if it takes all blocks of it. -/
theorem Region.Inside.loopBody {g : Graph} {s s' : Session} {r : Region} {index : Nat} {first : BlockId}
    {shape : Recognizer.LoopShape} {follow : Option BlockId} (hshape : Recognizer.loopShape g r index first = .ok (some shape))
    (hfirst : r.blocks[index]? = some first) (hnew : g.entryBlock first ∉ s.loopHeads)
    (hentered : g.entryBlock first ∈ s'.loopHeads) :
    Region.Inside g s s' r (r.sub shape.bodyStart shape.bodyStop follow) := by
  obtain ⟨h1, h2, h3, h4⟩ := Recognizer.loopShape_bounds hshape
  by_cases hshort : shape.bodyStop - shape.bodyStart < r.length
  · exact .sub (by omega) hshort
  · have hstart : shape.bodyStart = 0 := by omega
    have hindex : index = 0 := by omega
    subst hindex
    refine .inr ⟨?_, ?_, first, ?_, hentered⟩
    · rw [Region.length_sub (by omega)]
      omega
    · rintro ⟨first', hfirst', hin⟩
      rw [hfirst] at hfirst'
      cases hfirst'
      exact hnew hin
    · rw [Region.getElem?_sub (by omega), hstart]
      exact hfirst

/-- Protected code is inside the region of the try. -/
theorem Recognizer.ProtectedAt.inside {g : Graph} {s s' : Session} {r : Region} {index last stop : Nat}
    {shape : Recognizer.ProtectedShape} {tail : List BlockId} (h : Recognizer.ProtectedAt g r index shape last stop tail) :
    Region.Inside g s s' r shape.body := by
  have hcursor := h.cursor_le
  have hlast := h.last_lt_stop
  have hstop := h.stop_le
  rw [h.cursor] at hcursor
  refine .inl ?_
  unfold Region.length at hcursor hstop ⊢
  rw [h.body, List.length_append, List.length_drop, List.length_take]
  omega

/-- The rest of a handler is inside the region of the try. -/
theorem Recognizer.HandlerAt.inside {subject : Subject} {s s' : Session} {r : Region} {pending : List Marker} {cursor : Nat}
    {shape : Recognizer.HandlerShape} {entries : List Nat} {used : List Marker} {handler : BlockId} {follow : Option BlockId}
    (h : Recognizer.HandlerAt subject r pending cursor shape entries used handler) :
    Region.Inside subject.graph s s' r (r.sub shape.bodyStart shape.bodyStop follow) := by
  have hmarkers := h.markers_le
  have hpos := List.length_pos_iff.2 h.nonempty
  have hlt := Region.lt_length_of_getElem? h.handlerAt
  have hstop := h.bodyStop_le
  exact .sub hstop (by omega)

/-- The cases of a switch start after it. -/
theorem Recognizer.SwitchLayout.firstCase_le_of_mem_starts {layout : Recognizer.SwitchLayout} {stop place : Nat}
    (h : place ∈ layout.starts stop) : layout.firstCase ≤ place := by
  obtain ⟨_, hplace⟩ := List.mem_filter.1 h
  simp only [Bool.or_eq_true, beq_iff_eq, List.any_eq_true] at hplace
  rcases hplace with rfl | ⟨arm, harm, rfl⟩
  · exact firstCase_le_defaultAt
  · exact firstCase_le harm

/-! ## Parts of regions -/

/-- What was found holds no comment. -/
def FoundFree (found : Option Match) : Prop := ∀ m, found = some m → Section.CommentFree m.sections

theorem foundFree_none : FoundFree none := nofun

theorem foundFree_some {m : Match} : FoundFree (some m) ↔ Section.CommentFree m.sections := by
  constructor
  · intro h
    exact h m rfl
  · intro h m' hm
    cases hm
    exact h

/-- A branch is free of comments where its two lists are. -/
theorem foundFree_branch {guard : Guard} {thenPart elsePart : List Section} {resume : Nat} :
    FoundFree (some ⟨[.branch guard thenPart elsePart], resume⟩) ↔
      Section.CommentFree thenPart ∧ Section.CommentFree elsePart := by
  simp [foundFree_some]

/-- A loop is free of comments where its body and update are. -/
theorem foundFree_loop {kind : LoopKind} {guard : Option Guard} {body update : List Section} {resume : Nat} :
    FoundFree (some ⟨[.loop kind guard body update], resume⟩) ↔ Section.CommentFree body ∧ Section.CommentFree update := by
  simp [foundFree_some]

/-- A try is free of comments where its body and clauses are. -/
theorem foundFree_tryCatch {body : List Section} {clauses : List (CatchSection (List Section))} {resume : Nat} :
    FoundFree (some ⟨[.tryCatch body clauses], resume⟩) ↔
      Section.CommentFree body ∧ Section.commentFreeClauses clauses = true := by
  simp [foundFree_some]

namespace Companion

variable {src : Source} {g : Graph} {settings settings' : Settings} {c : Companion ⟨src, g, settings'⟩}
  {nested nested' : Nested} {s : Session} {α β : Type} {good : α → Prop}

/-- Two runs that start with the same search of places inside a region. -/
theorem Paired.search {x : Except StructuringError β} {f f' : β → Structuring α} (hx : Succeeds x)
    (h : ∀ b, x = .ok b → c.Paired good s (f b) (f' b)) :
    c.Paired good s (Structuring.ofExcept x >>= f) (Structuring.ofExcept x >>= f') := by
  obtain ⟨b, hb⟩ := hx
  rw [ofExcept_of_ok hb, pure_bind, pure_bind]
  exact h b hb

/-- Both runs look up the same block. -/
theorem Paired.regionGet {r : Region} {index : Nat} (hindex : index < r.length) {f f' : BlockId → Structuring α}
    (h : ∀ id, r.blocks[index]? = some id → c.Paired good s (f id) (f' id)) :
    c.Paired good s (r.get index >>= f) (r.get index >>= f') :=
  .search (Region.succeeds_blockAt hindex) fun id hid => h id (Region.blockAt_eq_ok.1 hid)

/-- Both runs cut out the same part of the region. -/
theorem Paired.regionSlice {r : Region} {start stop : Nat} {follow : Option BlockId} (hle : start ≤ stop) (hstop : stop ≤ r.length)
    {f f' : Region → Structuring α} (h : c.Paired good s (f (r.sub start stop follow)) (f' (r.sub start stop follow))) :
    c.Paired good s (r.slice start stop follow >>= f) (r.slice start stop follow >>= f') := by
  rw [Region.slice_eq hle hstop, pure_bind, pure_bind]
  exact h

/-! ## Inner regions -/

/-- The structuring of all regions that may stand inside a region is paired. -/
def PairedInside (c : Companion ⟨src, g, settings'⟩) (s : Session) (r : Region) (nested nested' : Nested) : Prop :=
  ∀ s' r', Region.Inside g s s' r r' → c.Paired Section.CommentFree s' (nested r') (nested' r')

/-- A list of its own is paired where the first run has no comments. -/
theorem Paired.orComment (hoff : settings.commentOnError = false) {r : Region}
    (h : c.Paired Section.CommentFree s (nested r) (nested' r)) :
    c.Paired Section.CommentFree s (nested.orComment ⟨src, g, settings⟩ r) (nested'.orComment ⟨src, g, settings'⟩ r) := by
  obtain ⟨o, hgives, hgood, hholds⟩ := h
  exact ⟨o, hgives.orComment hoff, hgood, c.orComment hholds⟩

/-- The body of a loop is paired where the first run has no comments. -/
theorem Paired.loopBody (hoff : settings.commentOnError = false) {r : Region} {head : BlockId} {breakTo : Option BlockId}
    {continueTo : BlockId}
    (h : c.Paired Section.CommentFree
      { s with loopHeads := head :: s.loopHeads, breakables := ⟨breakTo, some continueTo⟩ :: s.breakables }
      (nested r) (nested' r)) :
    c.Paired Section.CommentFree s (nested.loopBody ⟨src, g, settings⟩ r head breakTo continueTo)
      (nested'.loopBody ⟨src, g, settings'⟩ r head breakTo continueTo) :=
  Paired.inLoop (Paired.inBreakable (Paired.orComment hoff h))

/-- The body of a switch is paired where the first run has no comments. -/
theorem Paired.breakable (hoff : settings.commentOnError = false) {r : Region} {breakTo : Option BlockId}
    (h : c.Paired Section.CommentFree { s with breakables := ⟨breakTo, none⟩ :: s.breakables } (nested r) (nested' r)) :
    c.Paired Section.CommentFree s (nested.breakable ⟨src, g, settings⟩ r breakTo)
      (nested'.breakable ⟨src, g, settings'⟩ r breakTo) :=
  Paired.inBreakable (Paired.orComment hoff h)

/-! ## Recognizers -/

/-- A recognizer is paired with itself under other settings, if the structuring of inner regions is. -/
def Respects (c : Companion ⟨src, g, settings'⟩) (settings : Settings) (recognizer : Recognizer) : Prop :=
  ∀ (nested nested' : Nested) (r : Region) (index : Nat) (s : Session), index < r.length →
    c.PairedInside s r nested nested' →
    c.Paired FoundFree s (recognizer ⟨src, g, settings⟩ nested r index) (recognizer ⟨src, g, settings'⟩ nested' r index)

/-- Branches are recognized in pairs. -/
theorem branch_respects (hoff : settings.commentOnError = false) : c.Respects settings Recognizer.branch := by
  intro nested nested' r index s hindex hn
  unfold Recognizer.branch
  dsimp only
  refine .search (Region.succeeds_guardChain hindex) fun chain hchain => ?_
  cases chain with
  | none => exact .pure foundFree_none
  | some chain =>
    have hlast := Region.guardChain?_last (toOption_join_eq_some.2 hchain)
    refine .search ⟨_, Recognizer.skipPlace_eq _ r chain⟩ fun skip hskip => ?_
    cases skip with
    | none =>
      refine .same (.resolveJump _ _ _) nofun fun jump hjump => ?_
      cases jump with
      | none => exact .pure foundFree_none
      | some jump =>
        refine .pure (foundFree_branch.2 ⟨?_, Section.commentFree_nil⟩)
        rcases resolveFrom_isJump (Except.ok.inj hjump) with ⟨_, rfl⟩ | ⟨_, rfl⟩ <;> simp
    | some skipAt =>
      obtain ⟨_, hle, hlen⟩ := Recognizer.skipPlace_bounds hskip
      refine .search (Recognizer.succeeds_elseEnd _ r _ skipAt) fun exit helse => ?_
      cases exit with
      | none =>
        refine .regionSlice hle hlen ?_
        refine .bind (.orComment hoff (hn _ _ (.sub hlen (by omega)))) (fun thenPart hthen => ?_) ?_
        · exact .pure (foundFree_branch.2 ⟨hthen, Section.commentFree_nil⟩)
        · intro thenPart t found u h hfound
          cases h
          exact (foundFree_branch.1 hfound).1
      | some exitAt =>
        obtain ⟨_, _, hlt, hexit, _⟩ := Recognizer.elseEnd_cases helse
        refine .regionSlice hle hlen ?_
        refine .bind (.orComment hoff (hn _ _ (.sub hlen (by omega)))) (fun thenPart hthen => ?_) ?_
        · refine .regionSlice (Nat.le_of_lt hlt) hexit ?_
          refine .bind (.orComment hoff (hn _ _ (.sub hexit (by omega)))) (fun elsePart helse => ?_) ?_
          · exact .pure (foundFree_branch.2 ⟨hthen, helse⟩)
          · intro elsePart t found u h hfound
            cases h
            exact (foundFree_branch.1 hfound).2
        · intro thenPart t found u h hfound
          obtain ⟨_, _, _, h⟩ := run_bind_eq_ok.1 h
          obtain ⟨_, _, _, h⟩ := run_bind_eq_ok.1 h
          cases h
          exact (foundFree_branch.1 hfound).1

/-- Loops are recognized in pairs. -/
theorem loop_respects (hoff : settings.commentOnError = false) : c.Respects settings Recognizer.loop := by
  intro nested nested' r index s hindex hn
  unfold Recognizer.loop
  dsimp only
  refine .regionGet hindex fun first hfirst => ?_
  refine .same (.isLoopHead _) nofun fun isHead hhead => ?_
  cases hhead
  split
  · exact .pure foundFree_none
  · rename_i hnew
    refine .search (Recognizer.succeeds_loopShape hindex first) fun shape hshape => ?_
    cases shape with
    | none => exact .pure foundFree_none
    | some shape =>
      obtain ⟨_, h2, h3, h4⟩ := Recognizer.loopShape_bounds hshape
      have hnew : g.entryBlock first ∉ s.loopHeads := by simpa using hnew
      refine .regionSlice h2 (by omega) ?_
      refine .bind (.loopBody hoff (hn _ _ (.loopBody hshape hfirst hnew (by simp)))) (fun body hbody => ?_) ?_
      · exact .pure (foundFree_loop.2 ⟨hbody, Section.commentFree_nil⟩)
      · intro body t found u h hfound
        cases h
        exact (foundFree_loop.1 hfound).1

/-- Two runs judged by what the companion says of them in a session. -/
def judgement (c : Companion ⟨src, g, settings'⟩) (s : Session) : Judgement where
  Holds good x y := c.Paired good s x y
  visible := True
  pure h := .pure h
  bind hx hf hkeep := hx.bind hf (hkeep trivial)
  attempt hx hf hagain := .attempt hx hf hagain

/-- Loops that start with a goto are recognized in pairs. -/
theorem entryLoop_respects (hoff : settings.commentOnError = false) : c.Respects settings Recognizer.entryLoop := by
  intro nested nested' r index s hindex hn
  unfold Recognizer.entryLoop
  dsimp only
  refine .search (Recognizer.succeeds_entryLoopShape hindex) fun shape hshape => ?_
  cases shape with
  | none => exact .pure foundFree_none
  | some shape =>
    obtain ⟨_, _, hlt, hle, hlen, _⟩ := Recognizer.entryLoopShape_cases hshape
    have hfree : ∀ kind body update, Section.CommentFree (shape.withParts g kind body update).sections ↔
        Section.CommentFree body ∧ Section.CommentFree update := by
      intro kind body update
      simp [Recognizer.EntryLoopShape.withParts]
    have hplain : c.Paired Section.CommentFree s (shape.plainBody ⟨src, g, settings⟩ nested r index)
        (shape.plainBody ⟨src, g, settings'⟩ nested' r index) :=
      .regionSlice (by omega) (by omega) (.loopBody hoff (hn _ _ (.sub (by omega) (by omega))))
    have hfound : (c.judgement s).Holds (fun m => Section.CommentFree m.sections)
        (shape.structured ⟨src, g, settings⟩ nested r index) (shape.structured ⟨src, g, settings'⟩ nested' r index) := by
      refine Judgement.structured hshape hplain (fun body hbody => (hfree _ _ _).2 ⟨hbody, rfl⟩)
        (fun _ body hfound => ((hfree _ _ _).1 hfound).1) fun updateAt place entry hupdateAt hplace hplaceLt _ => ?_
      have hspec := Recognizer.updateRun_spec hupdateAt hplace hplaceLt
      refine ⟨Section.CommentFree, Section.CommentFree, .loopBody hoff (hn _ _ (.sub (by omega) (by omega))),
        hn _ _ (.sub (by omega) (by omega)), fun body update hbody hupdate => (hfree _ _ _).2 ⟨hbody, hupdate⟩,
        fun _ body update => (hfree _ _ _).1⟩
    refine .bind hfound (fun m hm => .pure (foundFree_some.2 hm)) ?_
    intro m t found u h hfound
    cases h
    exact foundFree_some.1 hfound

/-- A switch's cases, which start at ascending places after it and before its end. -/
theorem switchCases_paired (hoff : settings.commentOnError = false) {r : Region} (hn : c.PairedInside s r nested nested')
    (layout : Recognizer.SwitchLayout) {stop : Nat} (hstop : stop ≤ r.length) (places : List Nat)
    (hsorted : places.Pairwise (· < ·)) (hplaces : ∀ place ∈ places, 0 < place ∧ place < stop) :
    c.Paired (Section.commentFreeCases · = true) s
      (Recognizer.switchCases ⟨src, g, settings⟩ nested r stop (places.map layout.caseAt))
      (Recognizer.switchCases ⟨src, g, settings'⟩ nested' r stop (places.map layout.caseAt)) := by
  induction places with
  | nil => exact .pure (by simp)
  | cons start rest ih =>
    obtain ⟨hfirst, hrest⟩ := List.pairwise_cons.1 hsorted
    have hpos := (hplaces start List.mem_cons_self).1
    have hbounds := Recognizer.switchCase_bounds hstop hfirst fun place hplace => (hplaces place hplace).2
    have ih := ih hrest fun place hplace => hplaces place (List.mem_cons_of_mem _ hplace)
    rw [List.map_cons, Recognizer.SwitchLayout.caseAt, Recognizer.switchCases, Recognizer.switchCases,
      Recognizer.SwitchLayout.map_head?_caseAt]
    dsimp only
    refine .regionSlice hbounds.1 hbounds.2 ?_
    refine Paired.bind (.breakable hoff (hn _ _ (.sub hbounds.2 (by omega)))) (fun body hbody => ?_) ?_
    · refine ih.bind (fun cases hcases => .pure (by simp [hbody, hcases])) ?_
      intro cases t found u h hfound
      cases h
      simp only [Section.commentFreeCases, Bool.and_eq_true] at hfound
      exact hfound.2
    · intro body t found u h hfound
      obtain ⟨_, _, _, h⟩ := run_bind_eq_ok.1 h
      cases h
      simp only [Section.commentFreeCases, Bool.and_eq_true] at hfound
      exact hfound.1

/-- Switches are recognized in pairs. -/
theorem switch_respects (hoff : settings.commentOnError = false) : c.Respects settings Recognizer.switch := by
  intro nested nested' r index s hindex hn
  unfold Recognizer.switch
  refine .search (Recognizer.succeeds_switchLayout hindex) fun layout hlayout => ?_
  cases layout with
  | none => exact .pure foundFree_none
  | some layout =>
    obtain ⟨key, layout, stop⟩ := layout
    obtain ⟨_, _, _, _, _, _, hfirst, _, hstop⟩ := Recognizer.switchLayout_cases hlayout
    have hplaces : ∀ place ∈ layout.starts stop, 0 < place ∧ place < stop := by
      intro place hplace
      have := Recognizer.SwitchLayout.firstCase_le_of_mem_starts hplace
      exact ⟨by omega, Recognizer.SwitchLayout.lt_of_mem_starts hplace⟩
    have hskipped : Section.commentFreeCases (layout.skippedCases stop) = true := by
      unfold Recognizer.SwitchLayout.skippedCases
      split <;> simp
    have hfree : ∀ cases, FoundFree (some ⟨[.switch key (cases ++ layout.skippedCases stop)], stop⟩) ↔
        Section.commentFreeCases cases = true := by
      intro cases
      simp [foundFree_some, hskipped]
    have hcases := switchCases_paired hoff hn layout hstop _ (layout.starts_pairwise_lt stop) hplaces
    dsimp only
    rw [Recognizer.SwitchLayout.labels_eq (Recognizer.switchLayout_arms_le hlayout)]
    refine hcases.bind (fun cases hcases => .pure ((hfree _).2 hcases)) ?_
    intro cases t found u h hfound
    cases h
    exact (hfree _).1 hfound

/-- The clauses of a try are structured in pairs. -/
theorem clauses_paired (hoff : settings.commentOnError = false) {r : Region} (hn : c.PairedInside s r nested nested')
    (exit : Option BlockId) (n : Nat) (pending : List Marker) (cursor : Nat) :
    c.Paired (fun found => Section.commentFreeClauses found.1 = true) s
      (Recognizer.clauses ⟨src, g, settings⟩ nested r exit n pending cursor)
      (Recognizer.clauses ⟨src, g, settings'⟩ nested' r exit n pending cursor) := by
  induction n generalizing pending cursor with
  | zero => cases pending <;> exact .pure (by simp)
  | succ n ih =>
    cases pending with
    | nil => exact .pure (by simp)
    | cons first rest =>
      unfold Recognizer.clauses
      refine .same (.ofExcept _) (fun limit h => ?_) fun shape hshape => ?_
      · rcases Recognizer.handlerShape_error_cases h with ⟨_, _, he⟩ | ⟨_, _, _, _, _, he⟩
        · cases he
        · cases he
      · obtain ⟨entries, used, handler, hat⟩ := Recognizer.handlerShape_cases hshape
        refine .regionSlice hat.bodyStart_le hat.bodyStop_le ?_
        refine Paired.bind (.orComment hoff (hn _ _ hat.inside)) (fun body hbody => ?_) ?_
        · refine (ih shape.pending shape.bodyStop).bind (fun others hothers => .pure (by simp [hbody, hothers])) ?_
          intro others t found u h hfound
          cases h
          simp only [Section.commentFreeClauses, Bool.and_eq_true] at hfound
          exact hfound.2
        · intro body t found u h hfound
          obtain ⟨_, _, _, h⟩ := run_bind_eq_ok.1 h
          cases h
          simp only [Section.commentFreeClauses, Bool.and_eq_true] at hfound
          exact hfound.1

/-- Tries are recognized in pairs. -/
theorem tryCatch_respects (hoff : settings.commentOnError = false) : c.Respects settings Recognizer.tryCatch := by
  intro nested nested' r index s hindex hn
  unfold Recognizer.tryCatch
  dsimp only
  refine .regionGet hindex fun first hfirst => ?_
  split
  · exact .pure foundFree_none
  · rename_i start hstart
    refine .same (.isLoopHead _) nofun fun inLoop _ => ?_
    refine .same (.ofExcept _) (fun limit h => ?_) fun shape hshape => ?_
    · obtain ⟨_, _, he⟩ := Recognizer.protectedShape_error h
      cases he
    · cases shape with
      | none => exact .pure foundFree_none
      | some shape =>
        obtain ⟨last, stop, tail, hat⟩ := Recognizer.protectedShape_cases hshape
        dsimp only
        refine .bind (.orComment hoff (hn _ _ hat.inside)) (fun body hbody => ?_) ?_
        · refine (clauses_paired hoff hn _ _ _ _).bind (fun found hfound => ?_) ?_
          · exact .pure (foundFree_tryCatch.2 ⟨hbody, hfound⟩)
          · intro clauses t found u h hfound
            cases h
            exact (foundFree_tryCatch.1 hfound).2
        · intro body t found u h hfound
          obtain ⟨_, _, _, h⟩ := run_bind_eq_ok.1 h
          cases h
          exact (foundFree_tryCatch.1 hfound).1

/-- Every recognizer is paired with itself. -/
theorem respects_of_mem_all (hoff : settings.commentOnError = false) {recognizer : Recognizer}
    (h : recognizer ∈ Recognizer.all) : c.Respects settings recognizer := by
  simp only [Recognizer.all, List.mem_cons, List.not_mem_nil, or_false] at h
  rcases h with rfl | rfl | rfl | rfl | rfl
  · exact tryCatch_respects hoff
  · exact loop_respects hoff
  · exact entryLoop_respects hoff
  · exact switch_respects hoff
  · exact branch_respects hoff

/-! ## From recognizers to regions -/

theorem commentFreeAll_bodySections (span : Span) : Section.CommentFree (bodySections span) := by
  unfold bodySections
  split <;> simp

/-- A single block becomes the same sections in both runs. -/
theorem blockSections_paired {r : Region} {index : Nat} (hindex : index < r.length) :
    c.Paired Section.CommentFree s (blockSections ⟨src, g, settings⟩ r index)
      (blockSections ⟨src, g, settings'⟩ r index) := by
  unfold blockSections
  dsimp only
  refine Paired.regionGet hindex fun id _ => ?_
  split
  · exact .throw nofun
  · rename_i span kind _
    cases kind with
    | marker mark => exact .throw nofun
    | body next => exact .pure (commentFreeAll_bodySections span)
    | exit => exact .pure (commentFreeAll_bodySections span)
    | branch test target next => exact .throw nofun
    | switch arms otherwise => exact .throw nofun
    | goto target =>
      dsimp only
      split
      · exact .pure (commentFreeAll_bodySections span)
      · split
        · exact .throw nofun
        · refine .same (.resolveJump _ _ _) nofun fun jump hjump => ?_
          cases jump with
          | none => exact .throw nofun
          | some jump =>
            refine .pure ?_
            rcases resolveFrom_isJump (Except.ok.inj hjump) with ⟨_, rfl⟩ | ⟨_, rfl⟩ <;> simp [commentFreeAll_bodySections]

/-- The first recognizer that matches is the same in both runs, up to comments inside. -/
theorem recognize_paired (hoff : settings.commentOnError = false) {recognizers : List Recognizer}
    (hrec : ∀ recognizer ∈ recognizers, recognizer ∈ Recognizer.all) {r : Region} {index : Nat} (hindex : index < r.length)
    (hn : c.PairedInside s r nested nested') :
    c.Paired FoundFree s (recognize ⟨src, g, settings⟩ nested r index recognizers)
      (recognize ⟨src, g, settings'⟩ nested' r index recognizers) := by
  induction recognizers with
  | nil => exact .pure foundFree_none
  | cons recognizer rest ih =>
    have ih := ih fun x hx => hrec x (List.mem_cons_of_mem _ hx)
    unfold recognize
    refine (respects_of_mem_all hoff (hrec _ List.mem_cons_self) nested nested' r index s hindex hn).bind
      (fun found hfound => ?_) ?_
    · cases found with
      | some m => exact .pure hfound
      | none => exact ih
    · intro found t result u h hresult
      cases found with
      | some m =>
        cases h
        exact hresult
      | none => exact foundFree_none

/-- One step over a region is paired. -/
theorem step_paired (hoff : settings.commentOnError = false) {recognizers : List Recognizer}
    (hrec : ∀ recognizer ∈ recognizers, recognizer ∈ Recognizer.all) {r : Region} {index : Nat} (hindex : index < r.length)
    (hn : c.PairedInside s r nested nested') :
    c.Paired (fun m => Section.CommentFree m.sections) s (step ⟨src, g, settings⟩ recognizers nested r index)
      (step ⟨src, g, settings'⟩ recognizers nested' r index) := by
  unfold step
  refine (recognize_paired hoff hrec hindex hn).bind (fun found hfound => ?_) ?_
  · cases found with
    | none =>
      refine Paired.bind (blockSections_paired hindex) (fun sections hsections => .pure hsections) ?_
      intro sections t m u h hm
      cases h
      exact hm
    | some m =>
      dsimp only
      split
      · exact .pure (foundFree_some.1 hfound)
      · exact .regionGet hindex fun _ _ => .throw nofun
  · intro found t m u h hm
    cases found with
    | none => exact foundFree_none
    | some m' =>
      dsimp only at h
      split at h
      · cases h
        exact foundFree_some.2 hm
      · obtain ⟨_, _, _, h⟩ := run_bind_eq_ok.1 h
        cases h

/-- Scanning a region is paired, if structuring the regions inside it is. -/
theorem scan_paired (hoff : settings.commentOnError = false) {recognizers : List Recognizer}
    (hrec : ∀ recognizer ∈ recognizers, recognizer ∈ Recognizer.all) {r : Region} (hn : c.PairedInside s r nested nested')
    (steps index : Nat) :
    c.Paired Section.CommentFree s (scan ⟨src, g, settings⟩ recognizers nested r steps index)
      (scan ⟨src, g, settings'⟩ recognizers nested' r steps index) := by
  induction steps generalizing index with
  | zero => exact Paired.pure rfl
  | succ steps ih =>
    unfold scan
    split
    · exact Paired.pure rfl
    · rename_i hlt
      refine (step_paired hoff hrec (Nat.lt_of_not_le hlt) hn).bind (fun found hfound => ?_) ?_
      · refine Paired.bind (ih found.resume) (fun rest hrest => .pure (by simp [hfound, hrest])) ?_
        intro rest t sections u h hsections
        cases h
        exact (Section.commentFree_append.1 hsections).2
      · intro found t sections u h hsections
        obtain ⟨_, _, _, h⟩ := run_bind_eq_ok.1 h
        cases h
        exact (Section.commentFree_append.1 hsections).1

/-- Structuring a method is paired, if structuring the region of all its blocks to the depth allowed is. -/
theorem sections_paired (hoff : settings.commentOnError = false) {recognizers : List Recognizer}
    (h : c.Paired Section.CommentFree s
      (flattenWithin ⟨src, g, settings⟩ recognizers (settings.maxDepth - s.depth) ⟨g.order, none⟩)
      (flattenWithin ⟨src, g, settings'⟩ recognizers (settings'.maxDepth - s.depth) ⟨g.order, none⟩)) :
    c.Paired Section.CommentFree s (Subject.sections ⟨src, g, settings⟩ recognizers)
      (Subject.sections ⟨src, g, settings'⟩ recognizers) := by
  obtain ⟨o, hgives, hgood, hholds⟩ := h
  refine .orComment hoff ⟨o, hgives.congr ?_, hgood, c.congr ?_ hholds⟩
  · exact fun _ => rfl
  · exact fun _ => rfl

end Companion

/-- What structuring gives in a session is what it gives in a session of its own. -/
theorem Subject.sectionsTraced_of_gives {subject : Subject} {recognizers : List Recognizer} {events : List Event}
    {o : Except StructuringError (List Section)} (h : Gives (.start events) (subject.sections recognizers) o) :
    subject.sectionsTraced recognizers events = Traced.ofExcept o events := by
  have hrun : subject.sections recognizers (.start events) = Structuring.ofExcept o (.start events) := h 0
  unfold Subject.sectionsTraced
  rw [hrun]
  cases o with
  | ok sections => rfl
  | error e => rfl

end CodeLift
