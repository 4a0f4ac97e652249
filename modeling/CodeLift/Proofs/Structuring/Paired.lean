import CodeLift.Proofs.Actions
import CodeLift.Proofs.Comments.Free
import CodeLift.Proofs.Structuring.Meets

/-!
# Two runs of an action side by side

The first run is one in which no comments are made: it leaves the session as it is, and how many strict attempts are under way
does not matter to it, so that it has a plain outcome (`Gives`). A `Companion` says what is known of a second run, under other
settings, from the outcome of the first, in a way that holds for each way actions are made. `Companion.Paired` puts the two
together: one lemma for each way actions are made lets a recognizer be read once for all companions.
-/

namespace CodeLift

namespace Structuring

variable {α β : Type}

/-- The action leaves the session as it is and has this outcome, however many strict attempts are under way. -/
def Gives (s : Session) (x : Structuring α) (o : Except StructuringError α) : Prop :=
  ∀ strict, x { s with strict } = ofExcept o { s with strict }

/-- What an attempt makes of an outcome: a genuine failure is a value. -/
def attempted : Except StructuringError α → Except StructuringError (Except StructuringError α)
  | .ok a => .ok (.ok a)
  | .error e => if e.isGenuine then .ok (.error e) else .error e

/-- An attempt that has a value has seen the outcome itself. -/
theorem attempted_eq_ok {o o' : Except StructuringError α} (h : attempted o = .ok o') : o' = o := by
  cases o with
  | ok a => exact (Except.ok.inj h).symm
  | error e =>
    simp only [attempted] at h
    split at h
    · exact (Except.ok.inj h).symm
    · cases h

/-- An attempt only lets errors through that are not genuine. -/
theorem attempted_eq_error {o : Except StructuringError α} {e : StructuringError} (h : attempted o = .error e) :
    e.isGenuine = false := by
  cases o with
  | ok a => cases h
  | error e' =>
    simp only [attempted] at h
    split at h
    · cases h
    · rename_i he
      cases h
      exact Bool.eq_false_iff.2 he

/-- Actions that run alike from a session go on alike. -/
theorem bind_congr_run {x y : Structuring α} {s : Session} (h : x s = y s) (f : α → Structuring β) :
    (x >>= f) s = (y >>= f) s := by
  change EStateM.bind x f s = EStateM.bind y f s
  rw [EStateM.bind, EStateM.bind, h]

/-- An action in a changed session has the outcome it has there. -/
theorem within_of_run {enter leave : Session → Session} {x : Structuring α} {o : Except StructuringError α} {s t : Session}
    (h : x (enter s) = ofExcept o t) : within enter leave x s = ofExcept o (leave t) := by
  unfold within
  rw [h]
  cases o with
  | ok a => rfl
  | error e => rfl

/-- An attempt at an action with a known outcome. -/
theorem attempt_of_run {x : Structuring α} {o : Except StructuringError α} {s t : Session} (h : x s = ofExcept o t) :
    attempt x s = ofExcept (attempted o) t := by
  cases o with
  | ok a =>
    have h : x s = .ok a t := h
    simp only [attempt, h]
    rfl
  | error e =>
    have h : x s = .error e t := h
    simp only [attempt, h, attempted]
    split
    · rfl
    · rfl

namespace Gives

variable {s : Session}

theorem pure (a : α) : Gives s (Pure.pure a) (.ok a) := fun _ => rfl

theorem throw (e : StructuringError) : Gives s (MonadExcept.throw e : Structuring α) (.error e) := fun _ => rfl

theorem ofExcept (o : Except StructuringError α) : Gives s (Structuring.ofExcept o) o := fun _ => rfl

/-- Actions that do the same have the same outcome. -/
theorem congr {x y : Structuring α} {o : Except StructuringError α}
    (h : ∀ strict, x { s with strict } = y { s with strict }) (hx : Gives s x o) : Gives s y o :=
  fun strict => (h strict).symm.trans (hx strict)

/-- After an action with a known outcome the next one goes on as if that outcome had been given. -/
theorem bind_run {x : Structuring α} {o : Except StructuringError α} (hx : Gives s x o) (f : α → Structuring β)
    (strict : Nat) : (x >>= f) { s with strict } = (Structuring.ofExcept o >>= f) { s with strict } :=
  bind_congr_run (hx strict) f

/-- The next action runs on the result. -/
theorem bind_ok {x : Structuring α} {a : α} (hx : Gives s x (.ok a)) {f : α → Structuring β}
    {o : Except StructuringError β} (hf : Gives s (f a) o) : Gives s (x >>= f) o :=
  fun strict => (hx.bind_run f strict).trans (hf strict)

/-- An error ends the run. -/
theorem bind_error {x : Structuring α} {e : StructuringError} (hx : Gives s x (.error e)) (f : α → Structuring β) :
    Gives s (x >>= f) (.error e) :=
  fun strict => hx.bind_run f strict

/-- An action between entering and leaving has its own outcome. -/
theorem within {enter leave : Session → Session} {x : Structuring α} {o : Except StructuringError α}
    (henter : ∀ strict, enter { s with strict } = { enter s with strict })
    (hleave : ∀ strict, leave { enter s with strict } = { s with strict }) (hx : Gives (enter s) x o) :
    Gives s (Structuring.within enter leave x) o := by
  intro strict
  rw [← hleave strict]
  exact within_of_run (by rw [hleave, henter]; exact hx strict)

/-- A strict attempt depends on strict sessions only. -/
theorem attempt_run {x : Structuring α} {o : Except StructuringError α} {strict : Nat}
    (hx : x { s with strict := strict + 1 } = Structuring.ofExcept o { s with strict := strict + 1 }) :
    Structuring.attempt (strictly x) { s with strict } = Structuring.ofExcept (attempted o) { s with strict } := by
  apply attempt_of_run
  exact within_of_run (t := { s with strict := strict + 1 }) hx

/-- A strict attempt turns a genuine failure into a value. -/
theorem attempt {x : Structuring α} {o : Except StructuringError α} (hx : Gives s x o) :
    Gives s (Structuring.attempt (strictly x)) (attempted o) :=
  fun strict => attempt_run (hx (strict + 1))

/-! ## Questions to the session -/

/-- Whether a block is the head of a loop is known from the session. -/
theorem isLoopHead (head : BlockId) : Gives s (Structuring.isLoopHead head) (.ok (s.loopHeads.contains head)) := fun _ => rfl

/-- Where a jump leads is known from the session. -/
theorem resolveJump (g : Graph) (target : BlockId) (jump : Option Nat) :
    Gives s (CodeLift.resolveJump g target jump) (.ok (resolveFrom g target jump 0 0 s.breakables)) :=
  fun _ => rfl

end Gives

end Structuring

open Structuring

/-- Where comments are not allowed, the fallback to a comment is none. -/
theorem Structuring.Gives.orComment {subject : Subject} (hoff : subject.settings.commentOnError = false) {nested : Nested}
    {r : Region} {s : Session} {o : Except StructuringError (List Section)} (h : Gives s (nested r) o) :
    Gives s (nested.orComment subject r) o := by
  intro strict
  cases o with
  | ok sections => exact orComment_of_ok (h strict)
  | error e => exact orComment_of_error (h strict) (by rw [hoff, Bool.false_and])

/-- What is known of a run of an action from the outcome `o` of a run without comments in the same session. Results of the first
run are `good`; the second may fail to be like the first by giving a result that is not. -/
structure Companion (subject : Subject) where
  Holds : {α : Type} → (good : α → Prop) → Session → (o : Except StructuringError α) → Structuring α → Prop
  congr : ∀ {α : Type} {good : α → Prop} {s : Session} {o : Except StructuringError α} {y z : Structuring α},
    (∀ strict, y { s with strict } = z { s with strict }) → Holds good s o y → Holds good s o z
  pure : ∀ {α : Type} {good : α → Prop} {s : Session} {a : α}, Holds good s (.ok a) (Pure.pure a)
  throw : ∀ {α : Type} {good : α → Prop} {s : Session} {e : StructuringError}, (∀ limit, e ≠ .tooDeep limit) →
    Holds good s (.error e) (MonadExcept.throw e)
  bind_ok : ∀ {α β : Type} {good : α → Prop} {good' : β → Prop} {s : Session} {a : α} {o : Except StructuringError β}
    {y : Structuring α} {f : α → Structuring β}, Holds good s (.ok a) y → Holds good' s o (f a) → Holds good' s o (y >>= f)
  /-- What is not good stays visible in whatever is made of it. -/
  bind_error : ∀ {α β : Type} {good : α → Prop} {good' : β → Prop} {s : Session} {e : StructuringError} {y : Structuring α}
    {f : α → Structuring β}, Holds good s (.error e) y → (∀ a t b u, f a t = .ok b u → good' b → good a) →
    Holds good' s (.error e) (y >>= f)
  within : ∀ {α : Type} {good : α → Prop} {s : Session} {o : Except StructuringError α} {y : Structuring α}
    {enter leave : Session → Session}, (∀ strict, enter { s with strict } = { enter s with strict }) →
    (∀ strict, leave { enter s with strict } = { s with strict }) → Holds good (enter s) o y →
    Holds good s o (Structuring.within enter leave y)
  /-- An attempt may turn out otherwise only if the first run failed for its depth, and does so in the end. -/
  attempt : ∀ {α β : Type} {good : α → Prop} {good' : β → Prop} {s : Session} {o : Except StructuringError α}
    {o' : Except StructuringError β} {y : Structuring α} {f : Except StructuringError α → Structuring β}, Holds good s o y →
    (∀ limit, o = .error (.tooDeep limit) → o' = .error (.tooDeep limit)) →
    Holds good' s o' (Structuring.ofExcept (attempted o) >>= f) → Holds good' s o' (Structuring.attempt (strictly y) >>= f)
  orComment : ∀ {nested : Nested} {r : Region} {s : Session} {o : Except StructuringError (List Section)},
    Holds Section.CommentFree s o (nested r) → Holds Section.CommentFree s o (nested.orComment subject r)

namespace Companion

variable {subject : Subject} {α β : Type} {s : Session}

/-- The first run of two has an outcome, which is good if it is a result, and the second is what the companion says then. -/
def Paired (c : Companion subject) (good : α → Prop) (s : Session) (x y : Structuring α) : Prop :=
  ∃ o, Gives s x o ∧ (∀ a, o = .ok a → good a) ∧ c.Holds good s o y

namespace Paired

variable {c : Companion subject} {good : α → Prop} {good' : β → Prop}

/-- Two runs return the same good value. -/
theorem pure {a : α} (h : good a) : c.Paired good s (Pure.pure a) (Pure.pure a) := by
  refine ⟨.ok a, .pure a, fun a' ha => ?_, c.pure⟩
  cases ha
  exact h

/-- Two runs fail alike, unless the nesting is too deep. -/
theorem throw {e : StructuringError} (he : ∀ limit, e ≠ .tooDeep limit) :
    c.Paired good s (MonadExcept.throw e) (MonadExcept.throw e) :=
  ⟨.error e, .throw e, nofun, c.throw he⟩

/-- Two runs go on in pairs, where the second can only be good after a good first part. -/
theorem bind {x y : Structuring α} {f f' : α → Structuring β} (hx : c.Paired good s x y)
    (hf : ∀ a, good a → c.Paired good' s (f a) (f' a)) (hkeep : ∀ a t b u, f' a t = .ok b u → good' b → good a) :
    c.Paired good' s (x >>= f) (y >>= f') := by
  obtain ⟨o, hgives, hgood, hholds⟩ := hx
  cases o with
  | ok a =>
    obtain ⟨o', hgives', hgood', hholds'⟩ := hf a (hgood a rfl)
    exact ⟨o', hgives.bind_ok hgives', hgood', c.bind_ok hholds hholds'⟩
  | error e => exact ⟨.error e, hgives.bind_error f, nofun, c.bind_error hholds hkeep⟩

/-- Two runs that start with the same action, whose outcome does not depend on the settings. -/
theorem same {z : Structuring α} {o : Except StructuringError α} {f f' : α → Structuring β} (hz : Gives s z o)
    (herror : ∀ limit, o ≠ .error (.tooDeep limit)) (hf : ∀ a, o = .ok a → c.Paired good' s (f a) (f' a)) :
    c.Paired good' s (z >>= f) (z >>= f') := by
  cases o with
  | ok a =>
    obtain ⟨o', hgives, hgood, hholds⟩ := hf a rfl
    exact ⟨o', hz.bind_ok hgives, hgood, c.congr (fun strict => (hz.bind_run f' strict).symm) hholds⟩
  | error e =>
    have he : ∀ limit, e ≠ .tooDeep limit := fun limit h => herror limit (h ▸ rfl)
    exact ⟨.error e, hz.bind_error f, nofun, c.congr (fun strict => (hz.bind_run f' strict).symm) (c.throw he)⟩

/-- Two runs are paired between entering and leaving. -/
theorem within {x y : Structuring α} {enter leave : Session → Session}
    (henter : ∀ strict, enter { s with strict } = { enter s with strict })
    (hleave : ∀ strict, leave { enter s with strict } = { s with strict }) (h : c.Paired good (enter s) x y) :
    c.Paired good s (Structuring.within enter leave x) (Structuring.within enter leave y) := by
  obtain ⟨o, hgives, hgood, hholds⟩ := h
  exact ⟨o, hgives.within henter hleave, hgood, c.within henter hleave hholds⟩

/-- Two runs are paired one level deeper. -/
theorem deeper {x y : Structuring α} (h : c.Paired good { s with depth := s.depth + 1 } x y) :
    c.Paired good s (Structuring.deeper x) (Structuring.deeper y) :=
  within (fun _ => rfl) (fun _ => rfl) h

/-- Two runs are paired inside one more loop or switch. -/
theorem inBreakable {b : Breakable} {x y : Structuring α}
    (h : c.Paired good { s with breakables := b :: s.breakables } x y) :
    c.Paired good s (Structuring.inBreakable b x) (Structuring.inBreakable b y) :=
  within (fun _ => rfl) (fun _ => rfl) h

/-- Two runs are paired inside one more loop, with its head. -/
theorem inLoop {head : BlockId} {x y : Structuring α}
    (h : c.Paired good { s with loopHeads := head :: s.loopHeads } x y) :
    c.Paired good s (Structuring.inLoop head x) (Structuring.inLoop head y) :=
  within (fun _ => rfl) (fun _ => rfl) h

/-- Two runs that start with an attempt. If the attempt fails for its depth, the first run makes it again and fails with it. -/
theorem attempt {x y : Structuring α} {f f' : Except StructuringError α → Structuring β} (hx : c.Paired good s x y)
    (hf : ∀ o, (∀ a, o = .ok a → good a) → c.Paired good' s (f o) (f' o))
    (hagain : ∀ limit, ∃ k, f (.error (.tooDeep limit)) = x >>= k) :
    c.Paired good' s (Structuring.attempt (strictly x) >>= f) (Structuring.attempt (strictly y) >>= f') := by
  obtain ⟨o, hgives, hgood, hholds⟩ := hx
  have hafter : c.Paired good' s (Structuring.ofExcept (attempted o) >>= f) (Structuring.ofExcept (attempted o) >>= f') := by
    refine same (.ofExcept _) (fun limit h => ?_) fun o' ho' => ?_
    · cases attempted_eq_error h
    · cases attempted_eq_ok ho'
      exact hf o hgood
  obtain ⟨o', hgives', hgood', hholds'⟩ := hafter
  refine ⟨o', hgives'.congr fun strict => (hgives.attempt.bind_run f strict).symm, hgood', c.attempt hholds ?_ hholds'⟩
  rintro limit rfl
  obtain ⟨k, hk⟩ := hagain limit
  have hdeep : Gives s (f (.error (.tooDeep limit))) (.error (.tooDeep limit)) := by
    rw [hk]
    exact hgives.bind_error k
  have heq := (hgives' s.strict).symm.trans (hdeep s.strict)
  cases o' with
  | ok b => cases heq
  | error e =>
    cases heq
    rfl

end Paired

end Companion

end CodeLift
