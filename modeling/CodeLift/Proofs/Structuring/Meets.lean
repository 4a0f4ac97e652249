import CodeLift.Proofs.Actions
import CodeLift.Proofs.Lookups
import CodeLift.Recognizer.Basic

/-!
# What an action on a session guarantees

`Ends E s action Q` says three things at once of an action that starts in the session `s`: it leaves the session as it was, events
apart, whether it succeeds or fails; its result satisfies `Q`; and its failure satisfies `E`. One lemma for each way actions are made
lets a recognizer be read from top to bottom. `Meets valid` is the case in which, provided `valid`, a failure says something about
the method.
-/

namespace CodeLift

/-- Two sessions that differ in their events only. -/
def Session.Agrees (s t : Session) : Prop := ∃ events, t = { s with events }

namespace Session.Agrees

theorem refl (s : Session) : s.Agrees s := ⟨s.events, rfl⟩

/-- Sessions that agree with a third in a row. -/
theorem trans {s t u : Session} (h : s.Agrees t) (h' : t.Agrees u) : s.Agrees u := by
  obtain ⟨_, rfl⟩ := h
  obtain ⟨events, rfl⟩ := h'
  exact ⟨events, rfl⟩

/-- Sessions that agree can be left the same way. -/
theorem breakables {s t : Session} (h : s.Agrees t) : t.breakables = s.breakables := by
  obtain ⟨_, rfl⟩ := h
  rfl

/-- Sessions that agree are equally strict. -/
theorem strict {s t : Session} (h : s.Agrees t) : t.strict = s.strict := by
  obtain ⟨_, rfl⟩ := h
  rfl

end Session.Agrees

/-- Inside its bounds a region can be cut. -/
theorem Region.slice_eq {r : Region} {start stop : Nat} {follow : Option BlockId} (hle : start ≤ stop) (hstop : stop ≤ r.length) :
    r.slice start stop follow = pure (r.sub start stop follow) := by
  obtain ⟨blocks, hblocks⟩ := Region.succeeds_between hle hstop
  unfold Region.slice
  rw [hblocks, (Region.between_eq_ok.1 hblocks).2]
  rfl

/-- What is cut out of a region. -/
theorem Region.slice_eq_ok {r r' : Region} {start stop : Nat} {follow : Option BlockId} {s t : Session}
    (h : r.slice start stop follow s = .ok r' t) : r' = r.sub start stop follow ∧ t = s := by
  unfold Region.slice at h
  cases hblocks : r.between start stop with
  | ok blocks =>
    rw [hblocks] at h
    cases h
    rw [(Region.between_eq_ok.1 hblocks).2]
    exact ⟨rfl, rfl⟩
  | error e =>
    rw [hblocks] at h
    cases h

namespace Structuring

variable {α β : Type}

/-- A search that gives a result, as an action. -/
theorem ofExcept_of_ok {x : Except StructuringError α} {a : α} (h : x = .ok a) : ofExcept x = pure a := by
  rw [h]
  rfl

/-- What needs no session leaves it as it is. -/
theorem ofExcept_eq_ok {x : Except StructuringError α} {a : α} {s t : Session} (h : ofExcept x s = .ok a t) : x = .ok a ∧ t = s := by
  cases x with
  | ok a' =>
    cases h
    exact ⟨rfl, rfl⟩
  | error e => cases h

/-- The action leaves the session, events apart; its result satisfies `Q`, and its failure `E`. -/
def Ends (E : StructuringError → Prop) (s : Session) (action : Structuring α) (Q : α → Prop) : Prop :=
  match action s with
  | .ok a t => s.Agrees t ∧ Q a
  | .error e t => s.Agrees t ∧ E e

/-- The action leaves the session, events apart; its result satisfies `Q`; and if `valid` holds, its failure is a genuine one. -/
abbrev Meets (valid : Prop) (s : Session) (action : Structuring α) (Q : α → Prop) : Prop :=
  Ends (fun e => valid → e.isGenuine = true) s action Q

namespace Ends

variable {E : StructuringError → Prop} {s : Session}

theorem pure {a : α} {Q : α → Prop} (h : Q a) : Ends E s (Pure.pure a) Q := ⟨.refl s, h⟩

/-- An error that is allowed can be raised. -/
theorem throw {e : StructuringError} {Q : α → Prop} (h : E e) : Ends E s (MonadExcept.throw e : Structuring α) Q := ⟨.refl s, h⟩

/-- What a sequence of two actions guarantees. The second starts in a session that agrees with that of the first. -/
theorem bind {x : Structuring α} {f : α → Structuring β} {Q : α → Prop} {R : β → Prop} (hx : Ends E s x Q)
    (hf : ∀ a t, s.Agrees t → Q a → Ends E t (f a) R) : Ends E s (x >>= f) R := by
  unfold Ends at hx ⊢
  change match EStateM.bind x f s with
    | .ok b u => s.Agrees u ∧ R b
    | .error e u => s.Agrees u ∧ E e
  unfold EStateM.bind
  cases hxs : x s with
  | error e t => simpa only [hxs] using hx
  | ok a t =>
    simp only [hxs] at hx
    have h := hf a t hx.1 hx.2
    unfold Ends at h
    dsimp only
    cases hfs : f a t with
    | ok b u =>
      simp only [hfs] at h
      exact ⟨hx.1.trans h.1, h.2⟩
    | error e u =>
      simp only [hfs] at h
      exact ⟨hx.1.trans h.1, h.2⟩

/-- A weaker guarantee. -/
theorem imp {E' : StructuringError → Prop} {x : Structuring α} {Q R : α → Prop} (hE : ∀ e, E e → E' e) (hQ : ∀ a, Q a → R a)
    (h : Ends E s x Q) : Ends E' s x R := by
  unfold Ends at h ⊢
  cases hxs : x s with
  | ok a t =>
    simp only [hxs] at h
    exact ⟨h.1, hQ a h.2⟩
  | error e t =>
    simp only [hxs] at h
    exact ⟨h.1, hE e h.2⟩

/-- A weaker property of the result holds too. -/
theorem mono {x : Structuring α} {Q R : α → Prop} (hQ : ∀ a, Q a → R a) (h : Ends E s x Q) : Ends E s x R :=
  h.imp (fun _ => id) hQ

/-- What a result that does not look at the session guarantees. -/
theorem ofExcept {x : Except StructuringError α} {Q : α → Prop} (hok : ∀ a, x = .ok a → Q a)
    (herr : ∀ e, x = .error e → E e) : Ends E s (Structuring.ofExcept x) Q := by
  cases x with
  | ok a => exact Ends.pure (hok a rfl)
  | error e => exact Ends.throw (herr e rfl)

/-! ## Actions in a changed session -/

/-- An action in a changed session guarantees what it guarantees there, if leaving undoes what entering did. -/
theorem within {enter leave : Session → Session} {x : Structuring α} {Q : α → Prop}
    (hleave : ∀ events, leave { enter s with events } = { s with events }) (h : Ends E (enter s) x Q) :
    Ends E s (Structuring.within enter leave x) Q := by
  unfold Ends at h ⊢
  unfold Structuring.within
  cases hxs : x (enter s) with
  | ok a t =>
    simp only [hxs] at h
    obtain ⟨⟨events, rfl⟩, hQ⟩ := h
    exact ⟨⟨events, hleave events⟩, hQ⟩
  | error e t =>
    simp only [hxs] at h
    obtain ⟨⟨events, rfl⟩, hE⟩ := h
    exact ⟨⟨events, hleave events⟩, hE⟩

/-- What ends well one level deeper ends well here. -/
theorem deeper {x : Structuring α} {Q : α → Prop} (h : Ends E { s with depth := s.depth + 1 } x Q) :
    Ends E s (Structuring.deeper x) Q :=
  within (fun _ => by simp) h

/-- What ends well in a strict attempt ends well here. -/
theorem strictly {x : Structuring α} {Q : α → Prop} (h : Ends E { s with strict := s.strict + 1 } x Q) :
    Ends E s (Structuring.strictly x) Q :=
  within (fun _ => by simp) h

/-- What ends well inside one more loop or switch ends well here. -/
theorem inBreakable {b : Breakable} {x : Structuring α} {Q : α → Prop}
    (h : Ends E { s with breakables := b :: s.breakables } x Q) : Ends E s (Structuring.inBreakable b x) Q :=
  within (fun _ => rfl) h

/-- What ends well inside one more loop, with its head, ends well here. -/
theorem inLoop {head : BlockId} {x : Structuring α} {Q : α → Prop}
    (h : Ends E { s with loopHeads := head :: s.loopHeads } x Q) : Ends E s (Structuring.inLoop head x) Q :=
  within (fun _ => rfl) h

/-- An attempt gives what the action gives, or a genuine failure of it. -/
theorem attempt {x : Structuring α} {Q : α → Prop} (h : Ends E s x Q) :
    Ends E s (Structuring.attempt x) fun
      | .ok a => Q a
      | .error e => e.isGenuine = true ∧ E e := by
  unfold Ends at h ⊢
  unfold Structuring.attempt
  cases hxs : x s with
  | ok a t => simpa only [hxs] using h
  | error e t =>
    simp only [hxs] at h
    by_cases hg : e.isGenuine = true
    · simp only [hg, if_true]
      exact ⟨h.1, trivial, h.2⟩
    · simp only [hg]
      exact h

/-! ## Questions to the session -/

theorem get : Ends E s (MonadState.get : Structuring Session) fun t => t = s := ⟨.refl s, rfl⟩

/-- Asking for the head of a loop ends with what the session knows. -/
theorem isLoopHead (head : BlockId) : Ends E s (Structuring.isLoopHead head) fun b => b = s.loopHeads.contains head :=
  bind get fun t _ _ ht => by rw [ht]; exact pure rfl

/-- Reporting events changes nothing else. -/
theorem report (change : List Event → List Event) :
    Ends E s (modify fun t => { t with events := change t.events } : Structuring Unit) fun _ => True :=
  ⟨⟨_, rfl⟩, trivial⟩

/-- Resolving a jump ends with what can be left. -/
theorem resolveJump (g : Graph) (target : BlockId) (jump : Option Nat) :
    Ends E s (CodeLift.resolveJump g target jump) fun found => found = resolveFrom g target jump 0 0 s.breakables :=
  bind get fun t _ _ ht => by rw [ht]; exact pure rfl

/-! ## Parts of regions -/

/-- A search that gives a result. -/
theorem ofSucceeds {x : Except StructuringError α} (h : Succeeds x) : Ends E s (Structuring.ofExcept x) fun a => x = .ok a := by
  obtain ⟨a, rfl⟩ := h
  exact pure rfl

/-- Asking for a block inside the region. -/
theorem regionGet {r : Region} {index : Nat} (h : index < r.length) : Ends E s (r.get index) fun id => r.blocks[index]? = some id :=
  (ofSucceeds (Region.succeeds_blockAt h)).mono fun _ => Region.blockAt_eq_ok.1

/-- Cutting a region inside its bounds. -/
theorem regionSlice {r : Region} {start stop : Nat} {follow : Option BlockId} (hle : start ≤ stop) (hstop : stop ≤ r.length) :
    Ends E s (r.slice start stop follow) fun r' => r' = r.sub start stop follow := by
  rw [Region.slice_eq hle hstop]
  exact pure rfl

end Ends

end Structuring

/-! ## The fallback to a comment -/

open Structuring

section

variable {subject : Subject} {nested : Nested} {r : Region} {s t : Session}

/-- What can be structured does not become a comment. -/
theorem orComment_of_ok {sections : List Section} (h : nested r s = .ok sections t) :
    nested.orComment subject r s = .ok sections t := by
  have hattempt : attempt (nested r) s = .ok (.ok sections) t := by simp only [attempt, h]
  unfold Nested.orComment
  rw [run_bind_of_ok hattempt]
  rfl

/-- Where comments are not allowed, a failure stays one. -/
theorem orComment_of_error {e : StructuringError} (h : nested r s = .error e t)
    (hno : (subject.settings.commentOnError && t.strict == 0) = false) : nested.orComment subject r s = .error e t := by
  unfold Nested.orComment
  by_cases he : e.isGenuine = true
  · have hattempt : attempt (nested r) s = .ok (.error e) t := by simp only [attempt, h, he, if_true]
    rw [run_bind_of_ok hattempt]
    dsimp only
    rw [run_bind_of_ok (rfl : (get : Structuring Session) t = .ok t t), hno]
    rfl
  · have hattempt : attempt (nested r) s = .error e t := by simp only [attempt, h, he, Bool.false_eq_true, if_false]
    exact run_bind_of_error hattempt

/-- What cannot be structured becomes a comment, if anything. -/
theorem eq_comment_of_orComment {e : StructuringError} {sections : List Section} {u : Session} (h : nested r s = .error e t)
    (hrun : nested.orComment subject r s = .ok sections u) : sections = [commentSection subject r] := by
  unfold Nested.orComment at hrun
  obtain ⟨outcome, t', hattempt, hrun⟩ := run_bind_eq_ok.1 hrun
  simp only [attempt, h] at hattempt
  split at hattempt
  · cases hattempt
    obtain ⟨_, _, _, hrun⟩ := run_bind_eq_ok.1 hrun
    split at hrun
    · obtain ⟨_, _, _, hrun⟩ := run_bind_eq_ok.1 hrun
      cases hrun
      rfl
    · cases hrun
  · cases hattempt

end

end CodeLift
