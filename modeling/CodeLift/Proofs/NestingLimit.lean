import CodeLift.Proofs.Structuring.TwoRuns

/-!
# The limit on nesting is only a guard

Regions nest at most twice as deeply as there are blocks: each region is shorter than the one around it, or enters a loop that
takes all blocks, which can be entered only once. So with a limit above that bound structuring never fails for its depth, and
with a lower one it either fails for its depth or does not notice the limit at all. An attempt that fails for its depth must not
change what is made of a loop: the body is then structured once more, and fails again.
-/

namespace CodeLift

open Structuring

/-! ## Enough levels -/

/-- Nothing is asked of the second run, but the first does not fail for its depth. -/
def Companion.shallow (subject : Subject) : Companion subject where
  Holds _ _ o _ := ∀ limit, o ≠ .error (.tooDeep limit)
  congr _ h := h
  pure := nofun
  throw he limit h := he limit (Except.error.inj h)
  bind_ok _ h := h
  bind_error h _ limit he := h limit (congrArg Except.error (Except.error.inj he))
  within _ _ h := h
  attempt _ _ h := h
  orComment h := h

variable (src : Source) (g : Graph) {settings settings' : Settings}

/-- Twice as many levels as there are blocks are enough for a region whose loop has been entered, and one more is enough for any
region. -/
theorem flattenWithin_shallow (hoff : settings.commentOnError = false) (levels : Nat) (r : Region) (s : Session)
    (h : 2 * r.length + 1 ≤ levels ∨ r.Entered g s ∧ 2 * r.length ≤ levels) :
    (Companion.shallow ⟨src, g, settings⟩).Paired Section.CommentFree s
      (flattenWithin ⟨src, g, settings⟩ Recognizer.all levels r)
      (flattenWithin ⟨src, g, settings⟩ Recognizer.all levels r) := by
  induction levels generalizing r s with
  | zero =>
    rcases h with h | ⟨⟨first, hfirst, _⟩, h⟩
    · omega
    · have := Region.lt_length_of_getElem? hfirst
      omega
  | succ levels ih =>
    refine .deeper (Companion.scan_paired hoff (fun _ => id) ?_ r.length 0)
    intro s' r' hinside
    apply ih r' s'
    rcases hinside with hshort | ⟨hsame, hnew, hentered⟩
    · left
      omega
    · -- The loop has not been entered around `r`, so that `r` was given the one level more.
      right
      rcases h with h | ⟨hold, _⟩
      · exact ⟨hentered, by omega⟩
      · exact absurd hold hnew

/-! ## Fewer levels -/

/-- The second run has the outcome of the first, unless the first fails for the limit `d`. -/
def Companion.guarded (subject : Subject) (hoff : subject.settings.commentOnError = false) (d : Nat) : Companion subject where
  Holds _ s o y := Gives s y o ∨ o = .error (.tooDeep d)
  congr hyz h := h.imp_left (Gives.congr hyz)
  pure := .inl (.pure _)
  throw _ := .inl (.throw _)
  bind_ok hy hf := by
    rcases hy with hy | hy
    · exact hf.imp_left hy.bind_ok
    · cases hy
  bind_error hy _ := by
    rcases hy with hy | hy
    · exact .inl (hy.bind_error _)
    · exact .inr (congrArg Except.error (Except.error.inj hy))
  within henter hleave h := h.imp_left (Gives.within henter hleave)
  attempt hy hdeep hf := by
    rcases hy with hy | hy
    · exact hf.imp_left (Gives.congr fun strict => (hy.attempt.bind_run _ strict).symm)
    · exact .inr (hdeep d hy)
  orComment h := h.imp_left (Gives.orComment hoff)

/-- Structuring with fewer levels fails for the limit, or goes as with more levels under any other limit. -/
theorem flattenWithin_guarded (hoff : settings.commentOnError = false) (hoff' : settings'.commentOnError = false)
    {levels levels' : Nat} (hle : levels ≤ levels') (r : Region) (s : Session) :
    (Companion.guarded ⟨src, g, settings'⟩ hoff' settings.maxDepth).Paired Section.CommentFree s
      (flattenWithin ⟨src, g, settings⟩ Recognizer.all levels r)
      (flattenWithin ⟨src, g, settings'⟩ Recognizer.all levels' r) := by
  induction levels generalizing levels' r s with
  | zero => exact ⟨.error (.tooDeep settings.maxDepth), .throw _, nofun, .inr rfl⟩
  | succ levels ih =>
    cases levels' with
    | zero => omega
    | succ levels' =>
      refine .deeper (Companion.scan_paired hoff (fun _ => id) ?_ r.length 0)
      intro s' r' _
      exact ih (by omega) r' s'

/-! ## Methods -/

/-- With a limit that all regions of a method fit into, structuring it does not fail for its depth. -/
theorem Subject.sectionsTraced_ne_tooDeep {subject : Subject} (hoff : subject.settings.commentOnError = false)
    (hlimit : 2 * subject.graph.order.length + 1 ≤ subject.settings.maxDepth) {events events' : List Event} {limit : Nat} :
    subject.sectionsTraced Recognizer.all events ≠ .error (.tooDeep limit) events' := by
  have hregion := flattenWithin_shallow subject.toSource subject.graph hoff subject.settings.maxDepth
    ⟨subject.graph.order, none⟩ (.start events) (.inl hlimit)
  obtain ⟨o, hgives, -, hshallow⟩ := Companion.sections_paired hoff hregion
  rw [Subject.sectionsTraced_of_gives hgives]
  intro h
  cases o with
  | ok sections => cases h
  | error e =>
    cases h
    exact hshallow limit rfl

/-- Under the lower of two limits a method fails for its depth, or becomes what it becomes under the other. -/
theorem Subject.sectionsTraced_of_le (hoff : settings.commentOnError = false) (hoff' : settings'.commentOnError = false)
    (hle : settings.maxDepth ≤ settings'.maxDepth) (events : List Event) :
    Subject.sectionsTraced ⟨src, g, settings⟩ Recognizer.all events = .error (.tooDeep settings.maxDepth) events ∨
      Subject.sectionsTraced ⟨src, g, settings⟩ Recognizer.all events =
        Subject.sectionsTraced ⟨src, g, settings'⟩ Recognizer.all events := by
  have hregion := flattenWithin_guarded src g hoff hoff' hle ⟨g.order, none⟩ (.start events)
  obtain ⟨o, hgives, -, hguarded⟩ := Companion.sections_paired hoff hregion
  rw [Subject.sectionsTraced_of_gives hgives]
  rcases hguarded with hgives' | rfl
  · right
    exact (Subject.sectionsTraced_of_gives hgives').symm
  · left
    rfl

/-- The limit on nesting is only a guard: twice as many levels as there are blocks, and one more, are always enough, and a lower
limit either makes structuring fail for its depth or changes nothing, neither in the sections nor in the failure. -/
theorem nesting_limit_only_guards (src : Source) (g : Graph) (runPasses : Bool) (events : List Event) :
    (∀ d, 2 * g.order.length + 1 ≤ d → ∀ limit events',
      Subject.sectionsTraced ⟨src, g, ⟨false, d, runPasses⟩⟩ Recognizer.all events ≠ .error (.tooDeep limit) events') ∧
    ∀ d, Subject.sectionsTraced ⟨src, g, ⟨false, d, runPasses⟩⟩ Recognizer.all events = .error (.tooDeep d) events ∨
      Subject.sectionsTraced ⟨src, g, ⟨false, d, runPasses⟩⟩ Recognizer.all events =
        Subject.sectionsTraced ⟨src, g, ⟨false, 2 * g.order.length + 1, runPasses⟩⟩ Recognizer.all events := by
  constructor
  · intro d hd limit events'
    exact Subject.sectionsTraced_ne_tooDeep rfl hd
  · intro d
    rcases Nat.le_total d (2 * g.order.length + 1) with hle | hle
    · exact Subject.sectionsTraced_of_le src g rfl rfl hle events
    · have hbound : (⟨false, 2 * g.order.length + 1, runPasses⟩ : Settings).maxDepth ≤
          (⟨false, d, runPasses⟩ : Settings).maxDepth := hle
      rcases Subject.sectionsTraced_of_le src g rfl rfl hbound events with hdeep | heq
      · exact absurd hdeep (Subject.sectionsTraced_ne_tooDeep rfl (Nat.le_refl _))
      · right
        exact heq.symm

end CodeLift
