import CodeLift.Method
import CodeLift.Proofs.Lists

/-!
# Resolving labels

When the labels of a method resolve, no label is defined twice, and the index of a label is where the code has it.
-/

namespace CodeLift

namespace Method

theorem mem_definedLabels {code : List Insn} {label : Label} {index : Nat} :
    (label, index) ∈ definedLabels code ↔ code[index]? = some (.label label) := by
  simp only [definedLabels, List.mem_filterMap, Prod.exists, List.mem_zipIdx_iff_getElem?]
  constructor
  · rintro ⟨insn, i, hinsn, h⟩
    cases insn <;> simp at h
    obtain ⟨rfl, rfl⟩ := h
    exact hinsn
  · intro h
    exact ⟨_, index, h, rfl⟩

/-- Where no label repeats an earlier one, none is there twice. -/
theorem firstRepeated_eq_none {seen rest : List Label} (h : firstRepeated seen rest = none) :
    rest.Nodup ∧ ∀ label ∈ rest, label ∉ seen := by
  induction rest generalizing seen with
  | nil => exact ⟨.nil, fun _ h => by cases h⟩
  | cons label rest ih =>
    unfold firstRepeated at h
    split at h
    · cases h
    · rename_i hseen
      obtain ⟨hnodup, hnot⟩ := ih h
      have hlabel : label ∉ seen := by simpa using hseen
      refine ⟨List.nodup_cons.2 ⟨?_, hnodup⟩, ?_⟩
      · intro hmem
        exact hnot label hmem List.mem_cons_self
      · intro other hother
        rcases List.mem_cons.1 hother with rfl | hother
        · exact hlabel
        · exact fun hmem => hnot other hother (List.mem_cons_of_mem label hmem)

theorem labels_eq_ok {m : Method} {labels : Labels} (h : m.labels = .ok labels) :
    labels = definedLabels m.code ∧ (labels.map (·.1)).Nodup := by
  simp only [Method.labels] at h
  split at h
  · cases h
  · rename_i hnone
    cases h
    exact ⟨rfl, (firstRepeated_eq_none hnone).1⟩

/-- The index of a label is the place at which the code has it. -/
theorem index_eq_ok {m : Method} {labels : Labels} (h : m.labels = .ok labels) {label : Label} {index : Nat} :
    labels.index label = .ok index ↔ m.code[index]? = some (.label label) := by
  obtain ⟨hlabels, hnodup⟩ := labels_eq_ok h
  have hlookup : labels.lookup label = some index ↔ m.code[index]? = some (.label label) := by
    rw [lookup_eq_some_iff hnodup, hlabels, mem_definedLabels]
  rw [← hlookup]
  unfold Labels.index
  cases labels.lookup label with
  | none => simp
  | some i => simp

end Method

end CodeLift
