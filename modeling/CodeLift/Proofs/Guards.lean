import CodeLift.Section

/-!
# Evaluating guards

A guard is evaluated from left to right, given for each of its jumps whether it is taken. Conjunctions and disjunctions stop at the
first part that decides them, so that not all jumps are evaluated.
-/

namespace CodeLift

/-- The evaluation of a guard: the spans of the jumps that are evaluated, and whether the guard holds. -/
structure Evaluation where
  spans : List Span
  holds : Bool
  deriving DecidableEq, Repr

namespace Guard

mutual

/-- Evaluates a guard, given for each of its jumps from left to right whether it is taken. -/
def evaluate : Guard → List Bool → Evaluation
  | .jump span negate, taken => ⟨[span], taken.headD false != negate⟩
  | .and parts, taken => evaluateAll true parts taken
  | .or parts, taken => evaluateAll false parts taken
  | .not inner, taken => ⟨(evaluate inner taken).spans, !(evaluate inner taken).holds⟩

/-- Evaluates guards in order as long as they give `neutral`. -/
def evaluateAll (neutral : Bool) : List Guard → List Bool → Evaluation
  | [], _ => ⟨[], neutral⟩
  | part :: rest, taken =>
    let first := evaluate part (taken.take part.spans.length)
    if first.holds = neutral then
      let later := evaluateAll neutral rest (taken.drop part.spans.length)
      ⟨first.spans ++ later.spans, later.holds⟩
    else first

end

/-- One jump among others: it decides them unless it gives `neutral`. -/
theorem evaluateAll_jump (neutral : Bool) (span : Span) (negate : Bool) (rest : List Guard) (first : Bool) (taken : List Bool) :
    evaluateAll neutral (.jump span negate :: rest) (first :: taken) =
      if (first != negate) = neutral then
        ⟨span :: (evaluateAll neutral rest taken).spans, (evaluateAll neutral rest taken).holds⟩
      else ⟨[span], first != negate⟩ := by
  simp [evaluateAll, evaluate, spans]

/-- A jump that is taken decides the others, if it holds unless they do. -/
theorem evaluateAll_taken (neutral : Bool) (span : Span) (rest : List Guard) (taken : List Bool) :
    evaluateAll neutral (.jump span neutral :: rest) (true :: taken) = ⟨[span], !neutral⟩ := by
  rw [evaluateAll_jump, Bool.true_bne]
  cases neutral <;> rfl

/-- A jump that is not taken leaves it to the others. -/
theorem evaluateAll_passed (neutral : Bool) (span : Span) (rest : List Guard) (taken : List Bool) :
    evaluateAll neutral (.jump span neutral :: rest) (false :: taken) =
      ⟨span :: (evaluateAll neutral rest taken).spans, (evaluateAll neutral rest taken).holds⟩ := by
  rw [evaluateAll_jump, Bool.false_bne, if_pos rfl]

theorem evaluateAll_single (neutral : Bool) (span : Span) (negate taken : Bool) :
    evaluateAll neutral [.jump span negate] [taken] = ⟨[span], taken != negate⟩ := by
  rw [evaluateAll_jump]
  by_cases hholds : (taken != negate) = neutral
  · rw [if_pos hholds, hholds, evaluateAll]
  · rw [if_neg hholds]

/-- One part alone is evaluated like a conjunction or disjunction of it. -/
theorem evaluate_combine {connective : List Guard → Guard} (neutral : Bool)
    (h : ∀ parts taken, (connective parts).evaluate taken = evaluateAll neutral parts taken) (parts : List Guard) (taken : List Bool)
    (hlength : taken.length ≤ (spansAll parts).length) :
    (combine connective parts).evaluate taken = evaluateAll neutral parts taken := by
  unfold combine
  split
  · rename_i part
    have htake : taken.take part.spans.length = taken := List.take_of_length_le (by simpa [spansAll] using hlength)
    simp only [evaluateAll, htake, List.append_nil]
    split
    · rename_i hholds
      rw [← hholds]
    · rfl
  · exact h _ _

/-- A negated guard evaluates the same jumps and holds when the guard does not. -/
theorem evaluate_negated (guard : Guard) (taken : List Bool) :
    guard.negated.evaluate taken = ⟨(guard.evaluate taken).spans, !(guard.evaluate taken).holds⟩ := by
  cases guard with
  | jump span negate => cases negate <;> simp [negated, evaluate]
  | and parts => simp [negated, evaluate]
  | or parts => simp [negated, evaluate]
  | not inner => simp [negated, evaluate]

end Guard

end CodeLift
