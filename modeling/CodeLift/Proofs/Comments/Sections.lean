import CodeLift.Proofs.Structuring.Recognition
import CodeLift.Proofs.Structuring.TwoRuns

/-!
# Comments among sections

Allowing comments changes nothing about a method that can be structured without them. While strict attempts are under way no
comments are made, so that an attempt has the outcome it has where comments are not allowed; and whatever else fails there becomes
a comment here, or fails too.
-/

namespace CodeLift

open Structuring

variable {α : Type}

/-- A run that may make comments, given the outcome of the run that makes none: strictly it has that outcome; else it has the same
result, and it has no good one where there is none. -/
structure Degrades (good : α → Prop) (s : Session) (o : Except StructuringError α) (y : Structuring α) : Prop where
  strictly : ∀ strict, y { s with strict := strict + 1 } = ofExcept o { s with strict := strict + 1 }
  ok : ∀ a, o = .ok a → y { s with strict := 0 } = .ok a { s with strict := 0 }
  error : ∀ e, o = .error e → ∀ a t, y { s with strict := 0 } = .ok a t → ¬ good a

namespace Degrades

variable {β : Type} {good : α → Prop} {good' : β → Prop} {s : Session}

theorem congr {o : Except StructuringError α} {y z : Structuring α} (h : ∀ strict, y { s with strict } = z { s with strict })
    (hy : Degrades good s o y) : Degrades good s o z := by
  refine ⟨fun strict => ?_, fun a ha => ?_, fun e he a t hz => ?_⟩
  · rw [← h]
    exact hy.strictly strict
  · rw [← h]
    exact hy.ok a ha
  · rw [← h] at hz
    exact hy.error e he a t hz

/-- A run that has the outcome in every session. -/
theorem of_gives {o : Except StructuringError α} {y : Structuring α} (h : Gives s y o) : Degrades good s o y := by
  refine ⟨fun strict => h (strict + 1), ?_, ?_⟩
  · rintro a rfl
    exact h 0
  · rintro e rfl a t hy
    rw [h 0] at hy
    cases hy

theorem bind_ok {a : α} {o : Except StructuringError β} {y : Structuring α} {f : α → Structuring β}
    (hy : Degrades good s (.ok a) y) (hf : Degrades good' s o (f a)) : Degrades good' s o (y >>= f) := by
  refine hf.congr fun strict => ?_
  have hrun : y { s with strict } = (Pure.pure a : Structuring α) { s with strict } := by
    cases strict with
    | zero => exact hy.ok a rfl
    | succ strict => exact hy.strictly strict
  exact (bind_congr_run hrun f).symm

theorem bind_error {e : StructuringError} {y : Structuring α} {f : α → Structuring β} (hy : Degrades good s (.error e) y)
    (hkeep : ∀ a t b u, f a t = .ok b u → good' b → good a) : Degrades good' s (.error e) (y >>= f) := by
  refine ⟨fun strict => bind_congr_run (hy.strictly strict) f, nofun, fun e' _ b u hb hgood => ?_⟩
  obtain ⟨a, t, ha, hb⟩ := run_bind_eq_ok.1 hb
  exact hy.error e rfl a t ha (hkeep a t b u hb hgood)

theorem within {o : Except StructuringError α} {y : Structuring α} {enter leave : Session → Session}
    (henter : ∀ strict, enter { s with strict } = { enter s with strict })
    (hleave : ∀ strict, leave { enter s with strict } = { s with strict }) (hy : Degrades good (enter s) o y) :
    Degrades good s o (Structuring.within enter leave y) := by
  refine ⟨fun strict => ?_, fun a ha => ?_, fun e he a t h => ?_⟩
  · rw [← hleave]
    exact within_of_run (by rw [hleave, henter]; exact hy.strictly strict)
  · rw [← hleave]
    exact within_of_run (o := .ok a) (by rw [hleave, henter]; exact hy.ok a ha)
  · unfold Structuring.within at h
    rw [henter] at h
    split at h
    · rename_i a' t' hrun
      cases h
      exact hy.error e he a t' hrun
    · cases h

/-- The fallback to a comment is not used strictly, and what it makes is not free of comments. -/
theorem orComment {subject : Subject} {nested : Nested} {r : Region} {o : Except StructuringError (List Section)}
    (h : Degrades Section.CommentFree s o (nested r)) : Degrades Section.CommentFree s o (nested.orComment subject r) := by
  refine ⟨fun strict => ?_, fun sections hsections => orComment_of_ok (h.ok sections hsections), ?_⟩
  · have hrun := h.strictly strict
    cases o with
    | ok sections => exact orComment_of_ok hrun
    | error e => exact orComment_of_error hrun (Bool.and_false _)
  · intro e he sections t hrun hfree
    cases hinner : nested r { s with strict := 0 } with
    | ok sections' t' =>
      rw [orComment_of_ok hinner] at hrun
      cases hrun
      exact h.error e he sections t hinner hfree
    | error e' t' =>
      rw [eq_comment_of_orComment hinner hrun] at hfree
      simp [commentSection] at hfree

end Degrades

/-- Comments only ever replace failures. -/
def Companion.degrading (subject : Subject) : Companion subject where
  Holds := Degrades
  congr := Degrades.congr
  pure := .of_gives (.pure _)
  throw _ := .of_gives (.throw _)
  bind_ok := Degrades.bind_ok
  bind_error := Degrades.bind_error
  within := Degrades.within
  attempt hy _ hf := hf.congr fun strict => (bind_congr_run (Gives.attempt_run (hy.strictly strict)) _).symm
  orComment := Degrades.orComment

variable (src : Source) (g : Graph) {settings settings' : Settings}

/-- Structuring a region under other settings degrades, if the limit on nesting is the same. -/
theorem flattenWithin_degrading (hoff : settings.commentOnError = false) (hlimit : settings'.maxDepth = settings.maxDepth)
    (levels : Nat) (r : Region) (s : Session) :
    (Companion.degrading ⟨src, g, settings'⟩).Paired Section.CommentFree s
      (flattenWithin ⟨src, g, settings⟩ Recognizer.all levels r)
      (flattenWithin ⟨src, g, settings'⟩ Recognizer.all levels r) := by
  induction levels generalizing r s with
  | zero =>
    refine ⟨.error (.tooDeep settings.maxDepth), .throw _, nofun, ?_⟩
    rw [← hlimit]
    exact .of_gives (.throw _)
  | succ levels ih =>
    refine .deeper (Companion.scan_paired hoff (fun _ => id) ?_ r.length 0)
    intro s' r' _
    exact ih r' s'

/-- The sections of a method where comments are not allowed are those without a comment where they are allowed. -/
theorem sectionsTraced_eq_ok_iff (settings settings' : Settings) (hoff : settings.commentOnError = false)
    (hlimit : settings'.maxDepth = settings.maxDepth) {sections : List Section} {events events' : List Event} :
    Subject.sectionsTraced ⟨src, g, settings⟩ Recognizer.all events = .ok sections events' ↔
      Subject.sectionsTraced ⟨src, g, settings'⟩ Recognizer.all events = .ok sections events' ∧
        Section.CommentFree sections := by
  have hregion := flattenWithin_degrading src g hoff hlimit (settings.maxDepth - 0) ⟨g.order, none⟩ (.start events)
  nth_rewrite 2 [← hlimit] at hregion
  obtain ⟨o, hgives, hgood, hdegrades⟩ := Companion.sections_paired hoff hregion
  rw [Subject.sectionsTraced_of_gives hgives, Traced.ofExcept_eq_ok]
  -- What the run that may make comments gives, if the other gives sections.
  have hok : ∀ sections', o = .ok sections' →
      Subject.sectionsTraced ⟨src, g, settings'⟩ Recognizer.all events = .ok sections' events := by
    intro sections' ho
    have hrun : Subject.sections ⟨src, g, settings'⟩ Recognizer.all (.start events) = .ok sections' (.start events) :=
      hdegrades.ok sections' ho
    rw [Subject.sectionsTraced, hrun]
    rfl
  constructor
  · rintro ⟨ho, hevents⟩
    rw [hevents]
    exact ⟨hok sections ho, hgood sections ho⟩
  · rintro ⟨htraced, hfree⟩
    cases o with
    | error e =>
      obtain ⟨t, hrun⟩ := Subject.exists_of_sectionsTraced htraced
      exact absurd hfree (hdegrades.error e rfl sections t hrun)
    | ok sections' =>
      rw [hok sections' rfl] at htraced
      cases htraced
      exact ⟨rfl, rfl⟩

end CodeLift
