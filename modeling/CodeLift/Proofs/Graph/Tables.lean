import CodeLift.Graph.Basic

/-!
# The tables of a graph

Two tables of a graph are filled by loops: where each block stands in the order, and which blocks are jumped to. A table that is
written at distinct places holds what was written there, so the first one inverts an order without repeated blocks
(`Graph.position_of_getElem?`), and a table in which places are only ever marked holds the marks (`Graph.isJumpTarget_iff`).
-/

namespace CodeLift

namespace Table

variable {α : Type}

/-- Writing at other places leaves what a table holds. -/
theorem getElem?_writes_of_not_mem {writes : List (Nat × α)} {place : Nat} (h : place ∉ writes.map (·.1)) (table : Array α) :
    (writes.foldl (fun table write => table.setIfInBounds write.1 write.2) table)[place]? = table[place]? := by
  induction writes generalizing table with
  | nil => rfl
  | cons write writes ih =>
    rw [List.map_cons, List.mem_cons, not_or] at h
    rw [List.foldl_cons, ih h.2, Array.getElem?_setIfInBounds_ne (Ne.symm h.1)]

/-- What is written at distinct places of a table stands there afterwards. -/
theorem getElem?_writes_of_mem {writes : List (Nat × α)} (hnodup : (writes.map (·.1)).Nodup) {place : Nat} {value : α}
    (hmem : (place, value) ∈ writes) {table : Array α} (hplace : place < table.size) :
    (writes.foldl (fun table write => table.setIfInBounds write.1 write.2) table)[place]? = some value := by
  induction writes generalizing table with
  | nil => cases hmem
  | cons write writes ih =>
    obtain ⟨hhead, htail⟩ := List.nodup_cons.1 hnodup
    rw [List.foldl_cons]
    rcases List.mem_cons.1 hmem with rfl | hrest
    · rw [getElem?_writes_of_not_mem hhead, Array.getElem?_setIfInBounds_self_of_lt hplace]
    · exact ih htail hrest (by rwa [Array.size_setIfInBounds])

/-- A place is marked in the end if it was before or is among those that get marked. -/
theorem getElem?_marks {marks : List Nat} {table : Array Bool} {place : Nat} :
    (marks.foldl (·.setIfInBounds · true) table)[place]? = some true ↔
      place < table.size ∧ (place ∈ marks ∨ table[place]? = some true) := by
  induction marks generalizing table with
  | nil =>
    rw [List.foldl_nil, Array.getElem?_eq_some_iff]
    simp
  | cons mark marks ih =>
    rw [List.foldl_cons, ih, Array.size_setIfInBounds, List.mem_cons, Array.getElem?_setIfInBounds]
    by_cases hmark : mark = place
    · simp +contextual [hmark]
    · simp [hmark, Ne.symm hmark]

end Table

namespace Graph

variable {g : Graph}

/-- In an order without repeated blocks a block stands where the table says. -/
theorem position_of_getElem? (hnodup : g.order.Nodup) {i : Nat} {id : BlockId} (hid : id < g.blocks.size)
    (h : g.order[i]? = some id) : g.position id = i := by
  have hkeys : (g.order.zipIdx.map (·.1)).Nodup := by rwa [List.zipIdx_map_fst]
  have hmem : (id, i) ∈ g.order.zipIdx := List.mk_mem_zipIdx_iff_getElem?.2 h
  have hsize : id < (Array.replicate g.blocks.size 0).size := by rwa [Array.size_replicate]
  rw [position, Array.getD_eq_getD_getElem?, positions, Table.getElem?_writes_of_mem hkeys hmem hsize]
  rfl

/-- The table of the blocks that are jumped to marks the targets of all blocks. -/
theorem jumpTargets_eq (g : Graph) : g.jumpTargets =
    (g.blocks.toList.flatMap (·.kind.targets)).foldl (·.setIfInBounds · true) (Array.replicate g.blocks.size false) := by
  rw [jumpTargets, List.foldl_flatMap]

/-- A block is jumped to if it is a target of some block. -/
theorem isJumpTarget_iff {id : BlockId} :
    g.isJumpTarget id = true ↔ id < g.blocks.size ∧ ∃ (k : Nat) (b : Block), g.block? k = some b ∧ id ∈ b.kind.targets := by
  have htable : g.isJumpTarget id = true ↔ g.jumpTargets[id]? = some true := by
    rw [isJumpTarget, Array.getD_eq_getD_getElem?]
    cases g.jumpTargets[id]? with
    | none => simp
    | some marked => simp
  have hfalse : (Array.replicate g.blocks.size false)[id]? ≠ some true := by simp [Array.getElem?_replicate]
  rw [htable, jumpTargets_eq, Table.getElem?_marks, Array.size_replicate, or_iff_left hfalse, List.mem_flatMap]
  refine and_congr_right fun _ => ?_
  constructor
  · rintro ⟨b, hb, hid⟩
    obtain ⟨k, hk⟩ := List.mem_iff_getElem?.1 hb
    exact ⟨k, b, by rwa [block?, ← Array.getElem?_toList], hid⟩
  · rintro ⟨k, b, hb, hid⟩
    exact ⟨b, Array.mem_toList_iff.2 (Array.mem_of_getElem? hb), hid⟩

end Graph

end CodeLift
