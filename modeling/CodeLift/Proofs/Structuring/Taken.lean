import CodeLift.Proofs.Structuring.Protected
import CodeLift.Structuring.Flatten

/-!
# What structuring can give

`Scanned` says what sections a region can become, one place after the other; `Taken` lists all that one step can do: a block that
stands for itself, or a construct whose inner regions have been structured. Both take a property `P` of inner regions as given, so
that a property of all structured regions follows once `Scanned` regions have it (`Subject.sections_meets`).
-/

namespace CodeLift

/-- A property of the sections that a region inside some loops and switches becomes. -/
abbrev RegionProperty := List Breakable → Region → List Section → Prop

section

variable (subject : Subject) (P : RegionProperty)

/-- The sections of an inner region: they have the property, or the region has become a comment. -/
def Inner (around : List Breakable) (r : Region) (sections : List Section) : Prop :=
  P around r sections ∨ subject.settings.commentOnError = true ∧ sections = [commentSection subject r]

/-- Cases of a switch that start at the given places, the last of which ends at `stop`. -/
inductive CasesTaken (around : List Breakable) (r : Region) (s : Recognizer.SwitchLayout) (stop : Nat) :
    List Nat → List (Case (List Section)) → Prop where
  | nil : CasesTaken around r s stop [] []
  | cons {start : Nat} {rest : List Nat} {body : List Section} {cases : List (Case (List Section))}
      (hstart : start ≤ rest.head?.getD stop) (hstop : rest.head?.getD stop ≤ r.length)
      (hbody : Inner subject P (⟨r.blockOrFollow? stop, none⟩ :: around)
        (r.sub start (rest.head?.getD stop) (r.blockOrFollow? (rest.head?.getD stop))) body)
      (hrest : CasesTaken around r s stop rest cases) :
      CasesTaken around r s stop (start :: rest) (⟨s.valuesAt start, s.defaultAt == start, body⟩ :: cases)

/-- Clauses for pending entries whose handlers are laid out from a place on, with the place after them. -/
inductive ClausesTaken (around : List Breakable) (r : Region) (exit : Option BlockId) :
    List Marker → Nat → List (CatchSection (List Section)) → Nat → Prop where
  | nil (cursor : Nat) : ClausesTaken around r exit [] cursor [] cursor
  | cons {first : Marker} {rest : List Marker} {cursor stop : Nat} {shape : Recognizer.HandlerShape} {body : List Section}
      {others : List (CatchSection (List Section))}
      (hshape : Recognizer.handlerShape subject r exit first (first :: rest) cursor = .ok shape)
      (hbody : Inner subject P around
        (r.sub shape.bodyStart shape.bodyStop (exit.or (r.blockOrFollow? shape.bodyStop))) body)
      (hothers : ClausesTaken around r exit shape.pending shape.bodyStop others stop) :
      ClausesTaken around r exit (first :: rest) cursor
        (⟨shape.catches, shape.start.boundTo, shape.start.header, body⟩ :: others) stop

/-- What one step at a place of a region can take. -/
inductive Taken (around : List Breakable) (r : Region) (index : Nat) : Match → Prop where
  /-- A block from which control goes on to the next one, or leaves the method. -/
  | straight {id : BlockId} {span : Span} {kind : BlockKind} (hid : r.blocks[index]? = some id)
      (hblock : subject.graph.block? id = some ⟨span, kind⟩) (hkind : kind = .exit ∨ ∃ next, kind = .body next) :
      Taken around r index ⟨bodySections span, index + 1⟩
  /-- A goto to what comes next. -/
  | falling {id target : BlockId} {span : Span} (hid : r.blocks[index]? = some id)
      (hblock : subject.graph.block? id = some ⟨span, .goto target⟩)
      (hnext : r.nextEntry? subject.graph index = some target) : Taken around r index ⟨bodySections span, index + 1⟩
  /-- A goto that leaves or continues a construct around the region. -/
  | jumping {id target : BlockId} {span : Span} {jump : Section} (hid : r.blocks[index]? = some id)
      (hblock : subject.graph.block? id = some ⟨span, .goto target⟩)
      (hnext : r.nextEntry? subject.graph index ≠ some target)
      (hjump : resolveFrom subject.graph target (some (span.stop - 1)) 0 0 around = some jump) :
      Taken around r index ⟨bodySections ⟨span.start, span.stop - 1⟩ ++ [jump], index + 1⟩
  /-- A condition that leaves or continues a construct around the region. -/
  | leaving {chain : Chain} {jump : Section} (hchain : r.guardChain? subject.graph index = some chain)
      (hskip : Recognizer.skipPlace subject.graph r chain = .ok none)
      (hjump : resolveFrom subject.graph chain.skip none 0 0 around = some jump) :
      Taken around r index ⟨[.branch chain.guard.negated [jump] []], chain.last + 1⟩
  | branch {chain : Chain} {skipAt : Nat} {thenPart : List Section} (hchain : r.guardChain? subject.graph index = some chain)
      (hskip : Recognizer.skipPlace subject.graph r chain = .ok (some skipAt))
      (helse : Recognizer.elseEnd subject.graph r (chain.last + 1) skipAt = .ok none)
      (hthen : Inner subject P around (r.sub (chain.last + 1) skipAt (r.blockOrFollow? skipAt)) thenPart) :
      Taken around r index ⟨[.branch chain.guard thenPart []], skipAt⟩
  | branchElse {chain : Chain} {skipAt exitAt : Nat} {thenPart elsePart : List Section}
      (hchain : r.guardChain? subject.graph index = some chain)
      (hskip : Recognizer.skipPlace subject.graph r chain = .ok (some skipAt))
      (helse : Recognizer.elseEnd subject.graph r (chain.last + 1) skipAt = .ok (some exitAt))
      (hthen : Inner subject P around (r.sub (chain.last + 1) skipAt (r.blockOrFollow? exitAt)) thenPart)
      (helsePart : Inner subject P around (r.sub skipAt exitAt (r.blockOrFollow? exitAt)) elsePart) :
      Taken around r index ⟨[.branch chain.guard thenPart elsePart], exitAt⟩
  | loop {first : BlockId} {shape : Recognizer.LoopShape} {body : List Section} (hfirst : r.blocks[index]? = some first)
      (hshape : Recognizer.loopShape subject.graph r index first = .ok (some shape))
      (hbody : Inner subject P (⟨r.blockOrFollow? (shape.tail + 1), some shape.continueTo⟩ :: around)
        (r.sub shape.bodyStart shape.bodyStop (some shape.follow)) body) :
      Taken around r index ⟨[.loop shape.kind shape.guard body []], shape.tail + 1⟩
  | entryLoop {shape : Recognizer.EntryLoopShape} {body : List Section}
      (hshape : Recognizer.entryLoopShape subject.graph r index = .ok (some shape))
      (hbody : Inner subject P (⟨r.blockOrFollow? (shape.last + 1), some shape.test⟩ :: around)
        (r.sub (index + 1) shape.testAt (some shape.test)) body) :
      Taken around r index
        ⟨[.body (subject.graph.spanOf shape.entry), .loop .whileDo (some shape.guard) body []], shape.last + 1⟩
  | entryLoopUpdate {shape : Recognizer.EntryLoopShape} {updateAt place : Nat} {updateEntry : BlockId}
      {body update : List Section}
      (hshape : Recognizer.entryLoopShape subject.graph r index = .ok (some shape))
      (hupdateAt : Recognizer.updateRun subject.graph r (index + 1) shape.testAt = .ok updateAt) (hplace : updateAt ≤ place)
      (hlt : place < shape.testAt)
      (hentry : r.blocks[place]? = some updateEntry)
      (hbody : Inner subject P (⟨r.blockOrFollow? (shape.last + 1), some updateEntry⟩ :: around)
        (r.sub (index + 1) place (some updateEntry)) body)
      (hupdate : P around (r.sub place shape.testAt (some shape.test)) update) :
      Taken around r index
        ⟨[.body (subject.graph.spanOf shape.entry), .loop .forUpdate (some shape.guard) body update], shape.last + 1⟩
  | switch {key : Span} {s : Recognizer.SwitchLayout} {stop : Nat} {cases : List (Case (List Section))}
      (hlayout : Recognizer.switchLayout subject.graph r index = .ok (some (key, s, stop)))
      (hcases : CasesTaken subject P around r s stop (s.starts stop) cases) :
      Taken around r index ⟨[.switch key (cases ++ s.skippedCases stop)], stop⟩
  | tryCatch {first : BlockId} {start : Marker} {inLoop : Bool} {shape : Recognizer.ProtectedShape} {body : List Section}
      {clauses : List (CatchSection (List Section))} {stop : Nat} (hfirst : r.blocks[index]? = some first)
      (hstart : subject.graph.markerOf? .tryStart first = some start)
      (hshape : Recognizer.protectedShape subject.graph r index first start inLoop = .ok (some shape))
      (hbody : Inner subject P around shape.body body)
      (hclauses : ClausesTaken subject P around r shape.body.follow shape.pending shape.cursor clauses stop) :
      Taken around r index ⟨[.tryCatch body clauses], stop⟩

/-- What a region can become from a place on. -/
inductive Scanned (around : List Breakable) (r : Region) : Nat → List Section → Prop where
  | done {index : Nat} (h : r.length ≤ index) : Scanned around r index []
  | step {index : Nat} {found : Match} {rest : List Section} (htaken : Taken subject P around r index found)
      (hlt : index < found.resume) (hrest : Scanned around r found.resume rest) :
      Scanned around r index (found.sections ++ rest)

end

/-! ## Weaker properties -/

section

variable {subject : Subject} {P Q : RegionProperty}

theorem Inner.imp {around : List Breakable} {r : Region} {sections : List Section}
    (h : P around r sections → Q around r sections) : Inner subject P around r sections → Inner subject Q around r sections :=
  Or.imp_left h

/-- Where there are no comments, inner regions have the property. -/
theorem Inner.of_strict (hset : subject.settings.commentOnError = false) {around : List Breakable} {r : Region}
    {sections : List Section} (h : Inner subject P around r sections) : P around r sections := by
  rcases h with h | ⟨hcomment, _⟩
  · exact h
  · rw [hset] at hcomment
    cases hcomment

section

variable {r : Region}
  (h : ∀ (around : List Breakable) (inner : Region) (sections : List Section), inner.blocks.Sublist r.blocks →
    P around inner sections → Q around inner sections)
  {around : List Breakable}
include h

theorem CasesTaken.mono_inside {s : Recognizer.SwitchLayout} {stop : Nat} {places : List Nat} {cases : List (Case (List Section))}
    (hc : CasesTaken subject P around r s stop places cases) : CasesTaken subject Q around r s stop places cases := by
  induction hc with
  | nil => exact .nil
  | cons hstart hstop hbody _ ih => exact .cons hstart hstop (hbody.imp (h _ _ _ (r.sub_sublist _ _ _))) ih

theorem ClausesTaken.mono_inside {exit : Option BlockId} {pending : List Marker} {cursor stop : Nat}
    {clauses : List (CatchSection (List Section))} (hc : ClausesTaken subject P around r exit pending cursor clauses stop) :
    ClausesTaken subject Q around r exit pending cursor clauses stop := by
  induction hc with
  | nil cursor => exact .nil cursor
  | cons hshape hbody _ ih => exact .cons hshape (hbody.imp (h _ _ _ (r.sub_sublist _ _ _))) ih

/-- What is taken with inner regions of a property is taken with inner regions of another that follows from it. The regions inside
a region hold blocks of it, in the same order. -/
theorem Taken.mono_inside {index : Nat} {found : Match} (ht : Taken subject P around r index found) :
    Taken subject Q around r index found := by
  have hsub : ∀ {around start stop follow sections}, P around (r.sub start stop follow) sections →
      Q around (r.sub start stop follow) sections := h _ _ _ (r.sub_sublist _ _ _)
  cases ht with
  | straight hid hblock hkind => exact .straight hid hblock hkind
  | falling hid hblock hnext => exact .falling hid hblock hnext
  | jumping hid hblock hnext hjump => exact .jumping hid hblock hnext hjump
  | leaving hchain hskip hjump => exact .leaving hchain hskip hjump
  | branch hchain hskip helse hthen => exact .branch hchain hskip helse (hthen.imp hsub)
  | branchElse hchain hskip helse hthen helsePart => exact .branchElse hchain hskip helse (hthen.imp hsub) (helsePart.imp hsub)
  | loop hfirst hshape hbody => exact .loop hfirst hshape (hbody.imp hsub)
  | entryLoop hshape hbody => exact .entryLoop hshape (hbody.imp hsub)
  | entryLoopUpdate hshape hupdateAt hplace hlt hentry hbody hupdate =>
    exact .entryLoopUpdate hshape hupdateAt hplace hlt hentry (hbody.imp hsub) (hsub hupdate)
  | switch hlayout hcases => exact .switch hlayout (hcases.mono_inside h)
  | tryCatch hfirst hstart hshape hbody hclauses =>
    obtain ⟨last, stop, tail, hat⟩ := Recognizer.protectedShape_cases hshape
    exact .tryCatch hfirst hstart hshape (hbody.imp (h _ _ _ hat.body_sublist)) (hclauses.mono_inside h)

theorem Scanned.mono_inside {index : Nat} {sections : List Section} (hs : Scanned subject P around r index sections) :
    Scanned subject Q around r index sections := by
  induction hs with
  | done hle => exact .done hle
  | step htaken hlt _ ih => exact .step (htaken.mono_inside h) hlt ih

end

theorem Inner.mono (h : ∀ around r sections, P around r sections → Q around r sections) {around : List Breakable} {r : Region}
    {sections : List Section} : Inner subject P around r sections → Inner subject Q around r sections :=
  Inner.imp (h around r sections)

/-- What is taken with inner regions of a property is taken with inner regions of a weaker one. -/
theorem Taken.mono (h : ∀ around r sections, P around r sections → Q around r sections) {around : List Breakable}
    {r : Region} {index : Nat} {found : Match} (ht : Taken subject P around r index found) :
    Taken subject Q around r index found :=
  ht.mono_inside fun around inner sections _ => h around inner sections

theorem Scanned.mono (h : ∀ around r sections, P around r sections → Q around r sections) {around : List Breakable}
    {r : Region} {index : Nat} {sections : List Section} (hs : Scanned subject P around r index sections) :
    Scanned subject Q around r index sections :=
  hs.mono_inside fun around inner sections _ => h around inner sections

/-! ## Bounds -/

/-- Handlers lie inside the region. -/
theorem ClausesTaken.bounds {around : List Breakable} {r : Region} {exit : Option BlockId} {pending : List Marker}
    {cursor stop : Nat} {clauses : List (CatchSection (List Section))} (hcursor : cursor ≤ r.length)
    (hc : ClausesTaken subject P around r exit pending cursor clauses stop) : cursor ≤ stop ∧ stop ≤ r.length := by
  induction hc with
  | nil cursor => exact ⟨Nat.le_refl _, hcursor⟩
  | cons hshape _ _ ih =>
    obtain ⟨entries, used, handler, hat⟩ := Recognizer.handlerShape_cases hshape
    have h1 := hat.markers_le
    have h2 := hat.bodyStart_le
    obtain ⟨h3, h4⟩ := ih hat.bodyStop_le
    exact ⟨by omega, h4⟩

/-- A step takes a block at least, and none outside of the region. -/
theorem Taken.bounds {around : List Breakable} {r : Region} {index : Nat} {found : Match}
    (ht : Taken subject P around r index found) : index < found.resume ∧ found.resume ≤ r.length := by
  cases ht with
  | straight hid _ _ => exact ⟨Nat.lt_succ_self _, Region.lt_length_of_getElem? hid⟩
  | falling hid _ _ => exact ⟨Nat.lt_succ_self _, Region.lt_length_of_getElem? hid⟩
  | jumping hid _ _ _ => exact ⟨Nat.lt_succ_self _, Region.lt_length_of_getElem? hid⟩
  | leaving hchain _ _ =>
    have := Region.guardChain?_last hchain
    exact ⟨Nat.lt_succ_of_le this.1, this.2⟩
  | branch hchain hskip _ _ =>
    have := Region.guardChain?_last hchain
    obtain ⟨_, hle, hlen⟩ := Recognizer.skipPlace_bounds hskip
    exact ⟨by dsimp only; omega, hlen⟩
  | branchElse hchain hskip helse _ _ =>
    have := Region.guardChain?_last hchain
    obtain ⟨_, hle, _⟩ := Recognizer.skipPlace_bounds hskip
    obtain ⟨_, _, hlt, hexit, _⟩ := Recognizer.elseEnd_cases helse
    exact ⟨by dsimp only; omega, hexit⟩
  | loop _ hshape _ =>
    obtain ⟨hle, hlt, _⟩ := Recognizer.loopShape_cases hshape
    exact ⟨Nat.lt_succ_of_le hle, hlt⟩
  | entryLoop hshape _ =>
    obtain ⟨_, _, hlt, hle, hlen, _⟩ := Recognizer.entryLoopShape_cases hshape
    exact ⟨by dsimp only; omega, hlen⟩
  | entryLoopUpdate hshape _ _ _ _ _ =>
    obtain ⟨_, _, hlt, hle, hlen, _⟩ := Recognizer.entryLoopShape_cases hshape
    exact ⟨by dsimp only; omega, hlen⟩
  | switch hlayout _ =>
    obtain ⟨_, _, _, _, _, _, hfirst, hlast, hstop⟩ := Recognizer.switchLayout_cases hlayout
    have hle := Recognizer.SwitchLayout.firstCase_le_lastCase.trans hlast
    rw [hfirst] at hle
    exact ⟨hle, hstop⟩
  | tryCatch _ _ hshape _ hclauses =>
    obtain ⟨last, stop, tail, hat⟩ := Recognizer.protectedShape_cases hshape
    have h1 := hat.index_le_last
    have h2 := hat.last_lt_stop
    have h3 := hat.cursor
    obtain ⟨h4, h5⟩ := hclauses.bounds hat.cursor_le
    exact ⟨by dsimp only; omega, h5⟩

end

end CodeLift
