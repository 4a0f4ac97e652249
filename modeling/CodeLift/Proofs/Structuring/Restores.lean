import CodeLift.Decompiler
import CodeLift.Proofs.Structuring.Judgement

/-!
# Structuring leaves its session as it found it

However an action of structuring ends, the loops and switches around, the loop heads, the depth and the number of strict attempts
are afterwards what they were before (`Restores`). It may have reported events, but not during a strict attempt, so that a failed
attempt leaves no trace at all and what comes after it starts in the very same session.

Regions are structured with the levels that are left, not with the depth of the session. `Alike` compares two runs at one depth,
so that reading the recognizers once gives both that sessions are restored and that the two ways to count agree (`flatten_run`).
-/

namespace CodeLift

/-- The second session is the first with events reported, and without any if an attempt is under way in it. -/
def Session.Reports (s t : Session) : Prop :=
  ∃ reported, t = { s with events := s.events ++ reported } ∧ (s.strict ≠ 0 → reported = [])

namespace Session.Reports

variable {s t u : Session}

theorem refl (s : Session) : s.Reports s := ⟨[], by rw [List.append_nil], fun _ => rfl⟩

/-- Reports of one run come before those of the next. -/
theorem trans (h : s.Reports t) (h' : t.Reports u) : s.Reports u := by
  obtain ⟨first, rfl, hfirst⟩ := h
  obtain ⟨second, rfl, hsecond⟩ := h'
  refine ⟨first ++ second, by rw [List.append_assoc], fun hstrict => ?_⟩
  rw [hfirst hstrict, hsecond hstrict, List.append_nil]

/-- A session that has only got reports agrees with the one before. -/
theorem agrees (h : s.Reports t) : s.Agrees t := by
  obtain ⟨_, rfl, _⟩ := h
  exact ⟨_, rfl⟩

/-- Reports change no depth. -/
theorem depth (h : s.Reports t) : t.depth = s.depth := by
  obtain ⟨_, rfl, _⟩ := h
  rfl

/-- While an attempt is under way nothing is reported. -/
theorem eq_of_strict (h : s.Reports t) (hstrict : s.strict ≠ 0) : t = s := by
  obtain ⟨reported, rfl, hnone⟩ := h
  rw [hnone hstrict, List.append_nil]

end Session.Reports

namespace Structuring

variable {α β : Type}

/-- The session that an action ends in, with a result or with a failure. -/
def sessionAfter : EStateM.Result StructuringError Session α → Session
  | .ok _ t => t
  | .error _ t => t

/-- Whatever session the action starts in, and however it ends, it changes nothing in the session but the events. -/
def Restores (x : Structuring α) : Prop := ∀ s : Session, s.Agrees (sessionAfter (x s))

/-- The action does not change the session at all. -/
def Reads (x : Structuring α) : Prop := ∀ s, sessionAfter (x s) = s

/-- In sessions of a depth the two actions run alike, and do no more to the session than report events. -/
def Alike (depth : Nat) (x y : Structuring α) : Prop :=
  ∀ s : Session, s.depth = depth → x s = y s ∧ s.Reports (sessionAfter (x s))

/-- What an action gives in sessions of a depth. -/
def Gets (depth : Nat) (x : Structuring α) (good : α → Prop) : Prop :=
  ∀ (s : Session) a t, s.depth = depth → x s = .ok a t → good a

/-! ## Actions that only read the session -/

namespace Reads

theorem pure (a : α) : Reads (Pure.pure a) := fun _ => rfl

theorem throw (e : StructuringError) : Reads (MonadExcept.throw e : Structuring α) := fun _ => rfl

theorem ofExcept (o : Except StructuringError α) : Reads (Structuring.ofExcept o) := by
  cases o with
  | ok a => exact pure a
  | error e => exact throw e

/-- Whether a block is the head of a loop is looked up. -/
theorem isLoopHead (head : BlockId) : Reads (Structuring.isLoopHead head) := fun _ => rfl

/-- Where a jump leads is looked up. -/
theorem resolveJump (g : Graph) (target : BlockId) (jump : Option Nat) : Reads (CodeLift.resolveJump g target jump) := fun _ => rfl

/-- The block at a place is looked up. -/
theorem regionGet (r : Region) (index : Nat) : Reads (r.get index) := ofExcept _

/-- A part of a region is cut out. -/
theorem regionSlice (r : Region) (start stop : Nat) (follow : Option BlockId) : Reads (r.slice start stop follow) := by
  intro s
  unfold Region.slice
  cases r.between start stop with
  | ok blocks => rfl
  | error e => rfl

end Reads

/-! ## Two runs at one depth -/

namespace Alike

variable {depth : Nat} {x y : Structuring α}

/-- An action that only reads is like itself. -/
theorem of_reads (h : x.Reads) : Alike depth x x := by
  intro s _
  rw [h s]
  exact ⟨rfl, .refl s⟩

theorem pure (a : α) : Alike depth (Pure.pure a) (Pure.pure a) := of_reads (.pure a)

theorem throw (e : StructuringError) : Alike depth (MonadExcept.throw e : Structuring α) (MonadExcept.throw e) :=
  of_reads (.throw e)

/-- Two runs go on alike after whatever result the first part of them can have. -/
theorem bind_of {f f' : α → Structuring β} (hx : Alike depth x y)
    (hf : ∀ (s : Session) a t, s.depth = depth → x s = .ok a t → Alike depth (f a) (f' a)) :
    Alike depth (x >>= f) (y >>= f') := by
  intro s hs
  obtain ⟨heq, hreports⟩ := hx s hs
  cases hxs : x s with
  | ok a t =>
    rw [hxs] at heq hreports
    rw [run_bind_of_ok hxs, run_bind_of_ok heq.symm]
    obtain ⟨heq', hreports'⟩ := hf s a t hs hxs t (hreports.depth.trans hs)
    exact ⟨heq', hreports.trans hreports'⟩
  | error e t =>
    rw [hxs] at heq hreports
    rw [run_bind_of_error hxs, run_bind_of_error heq.symm]
    exact ⟨rfl, hreports⟩

/-- Actions in a row are alike if each is. -/
theorem bind {f f' : α → Structuring β} (hx : Alike depth x y) (hf : ∀ a, Alike depth (f a) (f' a)) :
    Alike depth (x >>= f) (y >>= f') :=
  bind_of hx fun _ a _ _ _ => hf a

/-- Both runs start by reading the session. -/
theorem read {z : Structuring α} {f f' : α → Structuring β} (hz : z.Reads) (hf : ∀ a, Alike depth (f a) (f' a)) :
    Alike depth (z >>= f) (z >>= f') :=
  bind (of_reads hz) hf

/-- Actions run alike in a changed session, if leaving it undoes what entering it did. -/
theorem within {enter leave : Session → Session} {inner : Nat} (hdepth : ∀ s : Session, s.depth = depth → (enter s).depth = inner)
    (hevents : ∀ s, (enter s).events = s.events) (hstrict : ∀ s : Session, s.strict ≠ 0 → (enter s).strict ≠ 0)
    (hleave : ∀ s events, leave { enter s with events } = { s with events }) (h : Alike inner x y) :
    Alike depth (Structuring.within enter leave x) (Structuring.within enter leave y) := by
  intro s hs
  obtain ⟨heq, reported, hafter, hnone⟩ := h (enter s) (hdepth s hs)
  have hreports : s.Reports (leave (sessionAfter (x (enter s)))) := by
    rw [hafter, hleave, hevents]
    exact ⟨reported, rfl, fun h => hnone (hstrict s h)⟩
  unfold Structuring.within
  rw [← heq]
  cases hxs : x (enter s) with
  | ok a t =>
    rw [hxs] at hreports
    exact ⟨rfl, hreports⟩
  | error e t =>
    rw [hxs] at hreports
    exact ⟨rfl, hreports⟩

/-- Actions that are alike one level deeper are so from here. -/
theorem deeper (h : Alike (depth + 1) x y) : Alike depth (Structuring.deeper x) (Structuring.deeper y) :=
  within (fun _ hs => congrArg (· + 1) hs) (fun _ => rfl) (fun _ => id) (fun _ _ => rfl) h

/-- Inside one more loop or switch. -/
theorem inBreakable {b : Breakable} (h : Alike depth x y) :
    Alike depth (Structuring.inBreakable b x) (Structuring.inBreakable b y) :=
  within (fun _ => id) (fun _ => rfl) (fun _ => id) (fun _ _ => rfl) h

/-- Inside one more loop, with its head. -/
theorem inLoop {head : BlockId} (h : Alike depth x y) : Alike depth (Structuring.inLoop head x) (Structuring.inLoop head y) :=
  within (fun _ => id) (fun _ => rfl) (fun _ => id) (fun _ _ => rfl) h

/-- Strict actions are alike. -/
theorem strictly (h : Alike depth x y) : Alike depth (Structuring.strictly x) (Structuring.strictly y) :=
  within (fun _ => id) (fun _ => rfl) (fun _ _ => Nat.succ_ne_zero _) (fun _ _ => rfl) h

/-- A strict attempt leaves no trace: whatever the action reports elsewhere, it reports nothing there. -/
theorem sessionAfter_strictly {s : Session} (h : Alike s.depth x y) : sessionAfter (Structuring.strictly x s) = s := by
  have hsame := (h { s with strict := s.strict + 1 } rfl).2.eq_of_strict (Nat.succ_ne_zero _)
  unfold Structuring.strictly Structuring.within
  cases hxs : x { s with strict := s.strict + 1 } with
  | ok a t =>
    rw [hxs] at hsame
    cases hsame
    rfl
  | error e t =>
    rw [hxs] at hsame
    cases hsame
    rfl

/-- Outcomes of actions that are alike are alike. -/
theorem attempt (h : Alike depth x y) : Alike depth (Structuring.attempt x) (Structuring.attempt y) := by
  intro s hs
  obtain ⟨heq, hreports⟩ := h s hs
  unfold Structuring.attempt
  rw [← heq]
  refine ⟨rfl, ?_⟩
  cases hxs : x s with
  | ok a t =>
    rw [hxs] at hreports
    exact hreports
  | error e t =>
    rw [hxs] at hreports
    dsimp only
    split
    · exact hreports
    · exact hreports

/-- What a sequence of two actions gives. The second starts at the depth of the first. -/
theorem gets_bind {f : α → Structuring β} {good : α → Prop} {good' : β → Prop} (hx : Alike depth x y) (hgood : Gets depth x good)
    (hf : ∀ a, good a → Gets depth (f a) good') : Gets depth (x >>= f) good' := by
  intro s b u hs hb
  obtain ⟨a, t, ha, hb⟩ := run_bind_eq_ok.1 hb
  have ht := (hx s hs).2.depth
  rw [ha] at ht
  exact hf a (hgood s a t hs ha) t b u (ht.trans hs) hb

end Alike

theorem Gets.any {depth : Nat} {x : Structuring α} : Gets depth x fun _ => True := fun _ _ _ _ _ => trivial

/-- What a strict attempt gives, the action gives in a strict session. -/
theorem Gets.attempt {depth : Nat} {x : Structuring α} {good : α → Prop} (h : Gets depth x good) :
    Gets depth (Structuring.attempt (strictly x)) fun o => ∀ a, o = .ok a → good a := by
  rintro s o t hs ho a rfl
  unfold Structuring.attempt strictly Structuring.within at ho
  cases hxs : x { s with strict := s.strict + 1 } with
  | ok a' t' =>
    simp only [hxs] at ho
    cases ho
    exact h { s with strict := s.strict + 1 } a t' hs hxs
  | error e t' =>
    simp only [hxs] at ho
    split at ho
    · cases ho
    · cases ho

/-- A session is restored by an action that runs like itself at every depth. -/
theorem Restores.of_alike {x : Structuring α} (h : ∀ depth, Alike depth x x) : x.Restores := fun s => (h s.depth s rfl).2.agrees

end Structuring

open Structuring

/-! ## Inner regions -/

section

variable {subject : Subject} {nested nested' : Nested} {depth : Nat} (hn : ∀ r, Alike depth (nested r) (nested' r))
include hn

/-- Lists of their own are alike if the nested structuring is. -/
theorem orComment_alike (r : Region) : Alike depth (nested.orComment subject r) (nested'.orComment subject r) := by
  unfold Nested.orComment
  refine (hn r).attempt.bind fun outcome => ?_
  cases outcome with
  | ok sections => exact .pure sections
  | error e =>
    -- The comment is reported only if the session is not strict, which reading it says.
    intro s _
    refine ⟨rfl, ?_⟩
    dsimp only
    rw [run_bind_of_ok (rfl : (get : Structuring Session) s = .ok s s)]
    split
    · rename_i hallowed
      rw [Bool.and_eq_true, beq_iff_eq] at hallowed
      exact ⟨_, rfl, fun hstrict => absurd hallowed.2 hstrict⟩
    · exact .refl s

/-- Bodies of loops are alike if the nested structuring is. -/
theorem loopBody_alike (r : Region) (head : BlockId) (breakTo : Option BlockId) (continueTo : BlockId) :
    Alike depth (nested.loopBody subject r head breakTo continueTo) (nested'.loopBody subject r head breakTo continueTo) :=
  .inLoop (.inBreakable (orComment_alike hn r))

/-- Bodies of switches are alike if the nested structuring is. -/
theorem breakable_alike (r : Region) (breakTo : Option BlockId) :
    Alike depth (nested.breakable subject r breakTo) (nested'.breakable subject r breakTo) :=
  .inBreakable (orComment_alike hn r)

end

/-! ## Recognizers -/

namespace Recognizer

/-- The recognizer runs alike with actions for inner regions that do. -/
def RunsAlike (recognizer : Recognizer) : Prop :=
  ∀ (subject : Subject) (nested nested' : Nested) (depth : Nat), (∀ r, Alike depth (nested r) (nested' r)) →
    ∀ (r : Region) (index : Nat), Alike depth (recognizer subject nested r index) (recognizer subject nested' r index)

/-- A branch is recognized alike. -/
theorem branch_runsAlike : RunsAlike branch := by
  intro subject nested nested' depth hn r index
  unfold branch
  dsimp only
  refine .read (.ofExcept _) fun chain => ?_
  cases chain with
  | none => exact .pure none
  | some chain =>
    refine .read (.ofExcept _) fun skip => ?_
    cases skip with
    | none =>
      refine .read (.resolveJump _ _ _) fun jump => ?_
      cases jump with
      | none => exact .pure none
      | some jump => exact .pure _
    | some skipAt =>
      refine .read (.ofExcept _) fun exit => ?_
      cases exit with
      | none =>
        refine .read (.regionSlice _ _ _ _) fun thenRegion => ?_
        exact (orComment_alike hn thenRegion).bind fun thenPart => .pure _
      | some exitAt =>
        refine .read (.regionSlice _ _ _ _) fun thenRegion => ?_
        refine (orComment_alike hn thenRegion).bind fun thenPart => ?_
        refine .read (.regionSlice _ _ _ _) fun elseRegion => ?_
        exact (orComment_alike hn elseRegion).bind fun elsePart => .pure _

/-- A loop is recognized alike. -/
theorem loop_runsAlike : RunsAlike loop := by
  intro subject nested nested' depth hn r index
  unfold loop
  dsimp only
  refine .read (.regionGet _ _) fun first => ?_
  refine .read (.isLoopHead _) fun isHead => ?_
  split
  · exact .pure none
  · refine .read (.ofExcept _) fun shape => ?_
    cases shape with
    | none => exact .pure none
    | some shape =>
      refine .read (.regionSlice _ _ _ _) fun region => ?_
      exact (loopBody_alike hn region _ _ _).bind fun body => .pure _

/-- Two runs at a depth, judged by whether they are alike. -/
def alikeAt (depth : Nat) : Judgement where
  Holds good x y := Alike depth x y ∧ Gets depth x good
  visible := False
  pure h := ⟨.pure _, fun _ _ _ _ ha => by cases ha; exact h⟩
  bind hx hf _ := ⟨hx.1.bind_of fun s a t hs ha => (hf a (hx.2 s a t hs ha)).1, hx.1.gets_bind hx.2 fun a ha => (hf a ha).2⟩
  attempt hx hf _ := by
    have hattempt := hx.1.strictly.attempt
    have hgets := hx.2.attempt
    exact ⟨hattempt.bind_of fun s o t hs ho => (hf o (hgets s o t hs ho)).1, hattempt.gets_bind hgets fun o ho => (hf o ho).2⟩

/-- A loop that starts with a goto to its condition is recognized alike, although its body may be structured twice. -/
theorem entryLoop_runsAlike : RunsAlike entryLoop := by
  intro subject nested nested' depth hn r index
  unfold entryLoop
  cases hshape : entryLoopShape subject.graph r index with
  | error e => exact .throw e
  | ok found =>
    cases found with
    | none => exact .pure none
    | some shape =>
      have hplain : Alike depth (shape.plainBody subject nested r index) (shape.plainBody subject nested' r index) :=
        .read (.regionSlice _ _ _ _) fun region => loopBody_alike hn region _ _ _
      have hfound : (alikeAt depth).Holds (fun _ => True) (shape.structured subject nested r index)
          (shape.structured subject nested' r index) := by
        refine Judgement.structured hshape ⟨hplain, .any⟩ (fun _ _ => trivial) nofun fun updateAt place entry _ _ _ _ => ?_
        refine ⟨fun _ => True, fun _ => True, ⟨loopBody_alike hn _ _ _ _, .any⟩, ⟨hn _, .any⟩, fun _ _ _ _ => trivial, nofun⟩
      exact hfound.1.bind fun found => .pure (some found)

/-- The cases of a switch are structured alike. -/
theorem switchCases_alike {subject : Subject} {nested nested' : Nested} {depth : Nat}
    (hn : ∀ r, Alike depth (nested r) (nested' r)) (r : Region) (stop : Nat) (cases : List (Nat × CaseLabels)) :
    Alike depth (switchCases subject nested r stop cases) (switchCases subject nested' r stop cases) := by
  induction cases with
  | nil => exact .pure _
  | cons first rest ih =>
    unfold switchCases
    refine .read (.regionSlice _ _ _ _) fun region => ?_
    refine (breakable_alike hn region _).bind fun body => ?_
    exact ih.bind fun cases => .pure _

/-- A switch is recognized alike. -/
theorem switch_runsAlike : RunsAlike switch := by
  intro subject nested nested' depth hn r index
  unfold switch
  refine .read (.ofExcept _) fun layout => ?_
  cases layout with
  | none => exact .pure none
  | some layout => exact (switchCases_alike hn r _ _).bind fun cases => .pure _

/-- The clauses of a try are structured alike. -/
theorem clauses_alike {subject : Subject} {nested nested' : Nested} {depth : Nat}
    (hn : ∀ r, Alike depth (nested r) (nested' r)) (r : Region) (exit : Option BlockId) (n : Nat) (pending : List Marker)
    (cursor : Nat) :
    Alike depth (clauses subject nested r exit n pending cursor) (clauses subject nested' r exit n pending cursor) := by
  induction n generalizing pending cursor with
  | zero =>
    cases pending with
    | nil => exact .pure _
    | cons first rest => exact .pure _
  | succ n ih =>
    cases pending with
    | nil => exact .pure _
    | cons first rest =>
      unfold clauses
      refine .read (.ofExcept _) fun shape => ?_
      refine .read (.regionSlice _ _ _ _) fun region => ?_
      refine (orComment_alike hn region).bind fun body => ?_
      exact (ih shape.pending shape.bodyStop).bind fun others => .pure _

/-- A try is recognized alike. -/
theorem tryCatch_runsAlike : RunsAlike tryCatch := by
  intro subject nested nested' depth hn r index
  unfold tryCatch
  dsimp only
  refine .read (.regionGet _ _) fun first => ?_
  split
  · exact .pure none
  · refine .read (.isLoopHead _) fun inLoop => ?_
    refine .read (.ofExcept _) fun shape => ?_
    cases shape with
    | none => exact .pure none
    | some shape =>
      refine (orComment_alike hn shape.body).bind fun body => ?_
      exact (clauses_alike hn r _ _ _ _).bind fun found => .pure _

/-- All recognizers run alike. -/
theorem runsAlike_of_mem_all {recognizer : Recognizer} (h : recognizer ∈ all) : recognizer.RunsAlike := by
  simp only [all, List.mem_cons, List.not_mem_nil, or_false] at h
  rcases h with rfl | rfl | rfl | rfl | rfl
  · exact tryCatch_runsAlike
  · exact loop_runsAlike
  · exact entryLoop_runsAlike
  · exact switch_runsAlike
  · exact branch_runsAlike

end Recognizer

/-! ## From recognizers to regions -/

/-- What a single block becomes depends on the session only as it may. -/
theorem blockSections_alike (subject : Subject) (r : Region) (index depth : Nat) :
    Alike depth (blockSections subject r index) (blockSections subject r index) := by
  unfold blockSections
  dsimp only
  refine .read (.regionGet _ _) fun id => ?_
  split
  · exact .throw _
  · rename_i span kind _
    cases kind with
    | marker mark => exact .throw _
    | body next => exact .pure _
    | exit => exact .pure _
    | branch test target next => exact .throw _
    | switch arms otherwise => exact .throw _
    | goto target =>
      dsimp only
      split
      · exact .pure _
      · split
        · exact .throw _
        · refine .read (.resolveJump _ _ _) fun jump => ?_
          cases jump with
          | none => exact .throw _
          | some jump => exact .pure _

section

variable (subject : Subject) {recognizers : List Recognizer}
  (hrec : ∀ recognizer ∈ recognizers, recognizer ∈ Recognizer.all)
include hrec

section

variable {nested nested' : Nested} {depth : Nat} (hn : ∀ r, Alike depth (nested r) (nested' r))
include hn

/-- The first recognizer that matches is found alike. -/
theorem recognize_alike (r : Region) (index : Nat) :
    Alike depth (recognize subject nested r index recognizers) (recognize subject nested' r index recognizers) := by
  induction recognizers with
  | nil => exact .pure none
  | cons recognizer rest ih =>
    unfold recognize
    have hfirst := Recognizer.runsAlike_of_mem_all (hrec _ List.mem_cons_self)
    refine (hfirst subject nested nested' depth hn r index).bind fun found => ?_
    cases found with
    | some found => exact .pure _
    | none => exact ih fun x hx => hrec x (List.mem_cons_of_mem _ hx)

/-- One step over a region is alike. -/
theorem step_alike (r : Region) (index : Nat) :
    Alike depth (step subject recognizers nested r index) (step subject recognizers nested' r index) := by
  unfold step
  refine (recognize_alike subject hrec hn r index).bind fun found => ?_
  cases found with
  | none => exact (blockSections_alike subject r index depth).bind fun sections => .pure _
  | some found =>
    dsimp only
    split
    · exact .pure found
    · exact .read (.regionGet _ _) fun id => .throw _

/-- Several steps over a region are alike. -/
theorem scan_alike (r : Region) (steps index : Nat) :
    Alike depth (scan subject recognizers nested r steps index) (scan subject recognizers nested' r steps index) := by
  induction steps generalizing index with
  | zero => exact .pure []
  | succ steps ih =>
    unfold scan
    split
    · exact .pure []
    · refine (step_alike subject hrec hn r index).bind fun found => ?_
      exact (ih found.resume).bind fun rest => .pure _

end

/-- At the depth that leaves just these levels, structuring to that many levels is structuring as deeply as the settings allow. -/
theorem flattenWithin_alike (levels depth : Nat) (hlevels : subject.settings.maxDepth - depth = levels) (r : Region) :
    Alike depth (flattenWithin subject recognizers levels r) (flatten subject recognizers r) := by
  induction levels generalizing depth r with
  | zero =>
    rintro s rfl
    refine ⟨?_, .refl s⟩
    change _ = flattenWithin subject recognizers (subject.settings.maxDepth - s.depth) r s
    rw [hlevels]
  | succ levels ih =>
    have hscan := scan_alike subject hrec (ih (depth + 1) (by omega)) r r.length 0
    rintro s rfl
    constructor
    · change _ = flattenWithin subject recognizers (subject.settings.maxDepth - s.depth) r s
      rw [hlevels]
    · exact (Alike.deeper hscan s rfl).2

/-- Structuring a region is like itself at any depth. -/
theorem flatten_alike (depth : Nat) (r : Region) :
    Alike depth (flatten subject recognizers r) (flatten subject recognizers r) := by
  intro s hs
  obtain ⟨heq, hreports⟩ := flattenWithin_alike subject hrec _ depth rfl r s hs
  rw [← heq]
  exact ⟨rfl, hreports⟩

/-- A region is refused at the depth that the settings allow, and else scanned one level deeper, where the regions inside it are
structured in the same way. -/
theorem flatten_run (r : Region) (s : Session) :
    flatten subject recognizers r s =
      if subject.settings.maxDepth ≤ s.depth then .error (.tooDeep subject.settings.maxDepth) s
      else deeper (scan subject recognizers (flatten subject recognizers) r r.length 0) s := by
  change flattenWithin subject recognizers (subject.settings.maxDepth - s.depth) r s = _
  cases hlevels : subject.settings.maxDepth - s.depth with
  | zero =>
    rw [if_pos (by omega)]
    rfl
  | succ levels =>
    rw [if_neg (by omega)]
    have hinner := flattenWithin_alike subject hrec levels (s.depth + 1) (by omega)
    exact (Alike.deeper (scan_alike subject hrec hinner r r.length 0) s rfl).1

end

/-! ## Loops whose body is structured twice -/

namespace Recognizer

/-- A strict attempt that fails without naming a place for an update shows that there is none. -/
theorem tryWithout_of_error {g : Graph} {r : Region} {start stop : Nat} {body : Structuring (List Section)} {s t : Session}
    {e : StructuringError} (hlt : start < stop) (hfail : strictly body s = .error e t) (he : e.isGenuine = true)
    (hnone : ∀ block target, e = .unresolvedJump block target → updatePlace g r start stop target = .ok none) :
    tryWithout g r start stop body s = .ok .absent t := by
  have hattempt : attempt (strictly body) s = .ok (.error e) t := by simp only [attempt, hfail, he, if_true]
  unfold tryWithout
  rw [if_pos hlt, run_bind_of_ok hattempt]
  cases e with
  | unresolvedJump block target =>
    dsimp only
    rw [hnone block target rfl]
    rfl
  | _ => rfl

/-- Where there is no update, the loop is made of its body, structured in the session that the attempt ended in. -/
theorem entryLoop_of_absent {subject : Subject} {nested : Nested} {r : Region} {index updateAt : Nat} {shape : EntryLoopShape}
    {s t : Session} (hshape : entryLoopShape subject.graph r index = .ok (some shape))
    (hupdateAt : updateRun subject.graph r (index + 1) shape.testAt = .ok updateAt)
    (habsent : tryWithout subject.graph r updateAt shape.testAt (shape.plainBody subject nested r index) s = .ok .absent t) :
    entryLoop subject nested r index s =
      (do return some (shape.withParts subject.graph .whileDo (← shape.plainBody subject nested r index) [])) t := by
  unfold entryLoop EntryLoopShape.structured
  rw [ofExcept_of_ok hshape, pure_bind]
  dsimp only
  rw [ofExcept_of_ok hupdateAt, pure_bind, bind_assoc, run_bind_of_ok habsent]
  dsimp only
  rw [bind_assoc]
  rfl

end Recognizer

/-- Structuring leaves its session as it found it, whether it succeeds or fails, and whatever the session is: so do the ways to
structure a region, with recognizers of any choice and order, and so does each recognizer. The regions inside a region are
structured by the same action, which the depth in the session keeps from nesting too deeply. If a strict attempt at the body of a
loop fails, the session is exactly as it was before, and it is in this session that the body is structured once more. -/
theorem structuring_restores_session (subject : Subject) (recognizers : List Recognizer)
    (hrec : ∀ recognizer ∈ recognizers, recognizer ∈ Recognizer.all) :
    (∀ r, Restores (flatten subject recognizers r)) ∧
    (∀ r, Restores ((flatten subject recognizers).orComment subject r)) ∧
    (∀ r head breakTo continueTo, Restores ((flatten subject recognizers).loopBody subject r head breakTo continueTo)) ∧
    (∀ r breakTo, Restores ((flatten subject recognizers).breakable subject r breakTo)) ∧
    (∀ recognizer ∈ Recognizer.all, ∀ r index, Restores (recognizer subject (flatten subject recognizers) r index)) ∧
    (∀ r s, flatten subject recognizers r s =
      if subject.settings.maxDepth ≤ s.depth then .error (.tooDeep subject.settings.maxDepth) s
      else deeper (scan subject recognizers (flatten subject recognizers) r r.length 0) s) ∧
    ∀ r index shape s e t, Recognizer.entryLoopShape subject.graph r index = .ok (some shape) →
      strictly (shape.plainBody subject (flatten subject recognizers) r index) s = .error e t →
      t = s ∧ (e.isGenuine = true → ∃ updateAt, Recognizer.updateRun subject.graph r (index + 1) shape.testAt = .ok updateAt ∧
        (updateAt < shape.testAt →
        (∀ block target, e = .unresolvedJump block target →
          Recognizer.updatePlace subject.graph r updateAt shape.testAt target = .ok none) →
        Recognizer.entryLoop subject (flatten subject recognizers) r index s =
          (do return some (shape.withParts subject.graph .whileDo
            (← shape.plainBody subject (flatten subject recognizers) r index) [])) t)) := by
  have hflatten := flatten_alike subject hrec
  refine ⟨fun r => .of_alike fun depth => hflatten depth r, fun r => .of_alike fun depth => orComment_alike (hflatten depth) r,
    fun r head breakTo continueTo => .of_alike fun depth => loopBody_alike (hflatten depth) r head breakTo continueTo,
    fun r breakTo => .of_alike fun depth => breakable_alike (hflatten depth) r breakTo, ?_, flatten_run subject hrec, ?_⟩
  · intro recognizer hmem r index
    exact .of_alike fun depth => Recognizer.runsAlike_of_mem_all hmem subject _ _ depth (hflatten depth) r index
  · intro r index shape s e t hshape hfail
    have hplain : Alike s.depth (shape.plainBody subject (flatten subject recognizers) r index)
        (shape.plainBody subject (flatten subject recognizers) r index) :=
      .read (.regionSlice _ _ _ _) fun region => loopBody_alike (hflatten s.depth) region _ _ _
    have hsame := hplain.sessionAfter_strictly
    rw [hfail] at hsame
    obtain ⟨_, _, hlt, hle, hlen, _⟩ := Recognizer.entryLoopShape_cases hshape
    obtain ⟨updateAt, hupdateAt⟩ : Succeeds (Recognizer.updateRun subject.graph r (index + 1) shape.testAt) :=
      Region.succeeds_walkBack _ _ (by omega)
    refine ⟨hsame, fun he => ⟨updateAt, hupdateAt, fun hlt hnone => ?_⟩⟩
    exact Recognizer.entryLoop_of_absent hshape hupdateAt (Recognizer.tryWithout_of_error hlt hfail he hnone)

/-- A loop that starts with a jump to its condition, and inside it a branch with a jump past the code after the loop. -/
def jumpsPastLoop : Method where
  owner := "A"
  name := "m"
  descriptor := "(I)V"
  isStatic := true
  code := [.goto ⟨1⟩, .label ⟨0⟩, .load .int 0, .jump .eq ⟨2⟩, .load .int 0, .jump .eq ⟨3⟩, .nop, .label ⟨2⟩, .increment 0 1,
    .label ⟨1⟩, .load .int 0, .jump .ne ⟨0⟩, .nop, .label ⟨3⟩, .ret none]
  variableTable := []
  handlerTable := []

/-- The failure that an action ends with. -/
def Structuring.failure? {α : Type} : EStateM.Result StructuringError Session α → Option StructuringError
  | .ok _ _ => none
  | .error e _ => some e

/-- An outcome with an error is this error. -/
theorem Structuring.eq_error_of_failure? {α : Type} {outcome : EStateM.Result StructuringError Session α} {e : StructuringError}
    (h : failure? outcome = some e) : outcome = .error e (sessionAfter outcome) := by
  cases outcome with
  | ok a t => cases h
  | error e' t =>
    cases h
    rfl

/-- Inside another loop the attempt fails in the branch, two regions further in, with nothing changed. The second time the code of
the branch becomes a comment, and the session is kept but for the warning. -/
theorem structuring_restores_session_retried :
    ∃ (subject : Subject) (events : List Event) (shape : Recognizer.EntryLoopShape) (s : Session),
      jumpsPastLoop.source [] = .ok subject.toSource events ∧ Graph.build subject.toSource Producer.all = .ok subject.graph ∧
      Recognizer.entryLoopShape subject.graph ⟨subject.graph.order, none⟩ 0 = .ok (some shape) ∧
      s = ⟨[⟨none, some 0⟩], [0], 3, 0, []⟩ ∧
      strictly (shape.plainBody subject (flatten subject Recognizer.all) ⟨subject.graph.order, none⟩ 0) s =
        .error (.unrecognized 2) s ∧
      Recognizer.entryLoop subject (flatten subject Recognizer.all) ⟨subject.graph.order, none⟩ 0 s =
        (do return some (shape.withParts subject.graph .whileDo
          (← shape.plainBody subject (flatten subject Recognizer.all) ⟨subject.graph.order, none⟩ 0) [])) s ∧
      ∃ warning, sessionAfter (Recognizer.entryLoop subject (flatten subject Recognizer.all) ⟨subject.graph.order, none⟩ 0 s) =
        { s with events := [warning] } := by
  let s : Session := ⟨[⟨none, some 0⟩], [0], 3, 0, []⟩
  have hruns : succeedsWith (fun src => (Graph.build src Producer.all).toOption.any fun g =>
      (Recognizer.entryLoopShape g ⟨g.order, none⟩ 0).toOption.join.any fun shape =>
        ((Recognizer.updateRun g ⟨g.order, none⟩ 1 shape.testAt).toOption.all (· < shape.testAt)) &&
        failure? (strictly (shape.plainBody ⟨src, g, ⟨true, 8, true⟩⟩ (flatten ⟨src, g, ⟨true, 8, true⟩⟩ Recognizer.all)
          ⟨g.order, none⟩ 0) s) == some (.unrecognized 2) &&
        (sessionAfter (Recognizer.entryLoop ⟨src, g, ⟨true, 8, true⟩⟩ (flatten ⟨src, g, ⟨true, 8, true⟩⟩ Recognizer.all)
          ⟨g.order, none⟩ 0 s)).events.length == 1) (jumpsPastLoop.source []) = true := by decide +kernel
  obtain ⟨src, events, hsource, hruns⟩ := exists_of_succeedsWith hruns
  cases hgraph : Graph.build src Producer.all with
  | error e =>
    rw [hgraph] at hruns
    cases hruns
  | ok g =>
    rw [hgraph] at hruns
    change (Recognizer.entryLoopShape g ⟨g.order, none⟩ 0).toOption.join.any _ = true at hruns
    obtain ⟨shape, hshape, hruns⟩ := (Option.any_eq_true _ _).1 hruns
    simp only [Bool.and_eq_true, beq_iff_eq] at hruns
    obtain ⟨⟨hlt, hfailure⟩, hevents⟩ := hruns
    have hshape := toOption_join_eq_some.1 hshape
    obtain ⟨_, _, _, _, hrestores, _, hretries⟩ :=
      structuring_restores_session ⟨src, g, ⟨true, 8, true⟩⟩ Recognizer.all fun _ => id
    have hfail := eq_error_of_failure? hfailure
    obtain ⟨hsame, hretries⟩ := hretries _ _ shape s _ _ hshape hfail
    rw [hsame] at hfail hretries
    obtain ⟨updateAt, hupdateAt, hretries⟩ := hretries rfl
    have hlt : updateAt < shape.testAt := by simpa [hupdateAt, Except.toOption] using hlt
    obtain ⟨events', hafter⟩ := hrestores Recognizer.entryLoop (by simp [Recognizer.all]) ⟨g.order, none⟩ 0 s
    rw [hafter, List.length_eq_one_iff] at hevents
    obtain ⟨warning, rfl⟩ := hevents
    have hretried := hretries hlt fun block target h => by cases h
    exact ⟨⟨src, g, ⟨true, 8, true⟩⟩, events, shape, s, hsource, hgraph, hshape, rfl, hfail, hretried, warning, hafter⟩

end CodeLift
