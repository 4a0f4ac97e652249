import CodeLift.Proofs.Graph.Refinement
import CodeLift.Proofs.Safety.Graph

/-!
# Where paths through the code end

A path of a built graph that cannot go on has come to a return or throw, or to the last block of the code, which then holds
nothing but markers: running past the end is refused by what the last block holds, and not by how it is reached. So code stays
inside exactly if such a last block is out of reach, or there is no instruction before it (`code_stays_inside_iff`).
-/

namespace CodeLift

/-- The blocks that control can go to from a block. -/
def BlockKind.successors : BlockKind → List BlockId
  | .marker _ => []
  | kind => kind.names

namespace Graph

/-- The blocks of a graph that control can go to from a block. -/
def successors (g : Graph) (id : BlockId) : List BlockId := ((g.block? id).map (·.kind.successors)).getD []

/-- Whether control leaves the method from a block. -/
def isExit (g : Graph) (id : BlockId) : Bool :=
  match g.block? id with
  | some ⟨_, .exit⟩ => true
  | _ => false

/-- Whether a block holds no instruction but markers. -/
def isMarkersOnly (g : Graph) (code : List Insn) (id : BlockId) : Bool :=
  (g.spanOf id).indices.all fun index => code[index]?.all Insn.isMarker

/-- A way along the edges of a graph from one block to another, with the blocks that it passes. -/
inductive Path (g : Graph) : BlockId → BlockId → List BlockId → Prop where
  | here (id : BlockId) : Path g id id [id]
  | step {id next last : BlockId} {passed : List BlockId} (hnext : next ∈ g.successors id) (hrest : Path g next last passed) :
      Path g id last (id :: passed)

section

variable {src : Source} {g : Graph}

/-! ## Single edges -/

theorem nextCodeBlock?_eq_none {id : Nat} : g.nextCodeBlock? id = none ↔ g.codeBlocks ≤ id + 1 := by
  simp [nextCodeBlock?]

/-- Where control goes from a code block, by its last instruction. -/
theorem Built.successors_eq (hb : Built src g) {id : Nat} (hid : id < g.codeBlocks) :
    ∃ insn kind, src.method.code[(g.spanOf id).stop - 1]? = some insn ∧ g.block? id = some ⟨g.spanOf id, kind⟩ ∧
      g.successors id = kind.names ∧ Dictated src g id (some insn) kind := by
  obtain ⟨insn, hinsn⟩ := hb.exists_last hid
  obtain ⟨kind, hblock, hd⟩ := hb.dictated id hid
  rw [hb.lastInsn?_eq hid, hinsn] at hd
  refine ⟨insn, kind, hinsn, hblock, ?_, hd⟩
  rw [successors, hblock]
  cases kind with
  | marker mark => exact absurd rfl (hd.ne_marker mark)
  | _ => rfl

theorem Built.lt_of_mem_successors (hb : Built src g) {id next : Nat} (hid : id < g.codeBlocks)
    (hnext : next ∈ g.successors id) : next < g.codeBlocks := by
  obtain ⟨insn, kind, _, _, hsuccessors, hd⟩ := hb.successors_eq hid
  rw [hsuccessors] at hnext
  exact hd.lt_of_mem_names hnext

/-- From a block of markers control goes on to the next block, if there is one. -/
theorem Built.successors_of_isMarkersOnly (hb : Built src g) {id : Nat} (hid : id < g.codeBlocks)
    (hmarkers : g.isMarkersOnly src.method.code id = true) :
    g.successors id = (g.nextCodeBlock? id).toList ∧ g.isExit id = false := by
  obtain ⟨insn, kind, hinsn, hblock, hsuccessors, hd⟩ := hb.successors_eq hid
  have hne := hb.nonempty id hid
  have hlast : (g.spanOf id).stop - 1 ∈ (g.spanOf id).indices := by
    rw [Span.mem_indices, Span.mem_def]
    omega
  have hmarker := List.all_eq_true.1 hmarkers _ hlast
  simp only [hinsn, Option.all_some] at hmarker
  rw [hsuccessors, isExit, hblock]
  cases hd with
  | plain _ => exact ⟨rfl, rfl⟩
  | _ => cases hmarker

/-- A code block that leads nowhere is left by a return or throw, or it is the last one and holds markers only. -/
theorem Built.end_cases (hb : Built src g) (hinside : g.fallsOffEnd? src.method.code = none) {id : Nat}
    (hid : id < g.codeBlocks) (hend : g.successors id = []) :
    g.isExit id = true ∨ id + 1 = g.codeBlocks ∧ g.isMarkersOnly src.method.code id = true := by
  obtain ⟨insn, kind, _, hblock, hsuccessors, hd⟩ := hb.successors_eq hid
  rw [hsuccessors] at hend
  cases hd with
  | ret _ => exact .inl (by rw [isExit, hblock])
  | throw => exact .inl (by rw [isExit, hblock])
  | goto _ => cases hend
  | jump _ _ => cases hend
  | switch _ _ => cases hend
  | plain _ =>
    have hnone : g.nextCodeBlock? id = none := by simpa [BlockKind.names] using hend
    have hlast : id + 1 = g.codeBlocks := Nat.le_antisymm hid (nextCodeBlock?_eq_none.1 hnone)
    refine .inr ⟨hlast, ?_⟩
    rw [fallsOffEnd?, show g.codeBlocks - 1 = id by omega, hblock, hnone] at hinside
    simp only [List.find?_eq_none, List.mem_reverse] at hinside
    rw [isMarkersOnly, List.all_eq_true]
    intro index hindex
    have hfound := hinside index hindex
    cases hinsn : src.method.code[index]? with
    | none => rfl
    | some insn => simpa [hinsn] using hfound

/-! ## Whole paths -/

/-- Code has a first block. -/
theorem Built.codeBlocks_pos (hb : Built src g) (hcode : src.method.code ≠ []) : 0 < g.codeBlocks := by
  obtain ⟨id, hid, _⟩ := hb.exists_block (List.length_pos_iff.2 hcode)
  omega

theorem Path.lt_codeBlocks (hb : Built src g) {id last : Nat} {passed : List BlockId} (hpath : g.Path id last passed)
    (hid : id < g.codeBlocks) : last < g.codeBlocks := by
  induction hpath with
  | here id => exact hid
  | step hnext _ ih => exact ih (hb.lt_of_mem_successors hid hnext)

/-- A path through blocks of markers passes all blocks from its first to its last. -/
theorem Path.mem_of_isMarkersOnly (hb : Built src g) {id last : Nat} {passed : List BlockId} (hpath : g.Path id last passed)
    (hid : id < g.codeBlocks) (hmarkers : ∀ k ∈ passed, g.isMarkersOnly src.method.code k = true) {k : Nat} (hge : id ≤ k)
    (hle : k ≤ last) : k ∈ passed := by
  induction hpath with
  | here id =>
    obtain rfl : k = id := Nat.le_antisymm hle hge
    exact List.mem_cons_self
  | @step id next last passed hnext hrest ih =>
    obtain ⟨hown, hothers⟩ := List.forall_mem_cons.1 hmarkers
    have hlt := hb.lt_of_mem_successors hid hnext
    rw [(hb.successors_of_isMarkersOnly hid hown).1, Option.mem_toList, nextCodeBlock?] at hnext
    split at hnext
    · cases hnext
      rcases Nat.eq_or_lt_of_le hge with rfl | hgt
      · exact List.mem_cons_self
      · exact List.mem_cons_of_mem _ (ih hlt hothers hgt hle)
    · cases hnext

/-- If a path to the last block passes markers only, there is nothing else in the code. -/
theorem Path.all_isMarker (hb : Built src g) {last : Nat} {passed : List BlockId} (hpath : g.Path 0 last passed)
    (hlast : last + 1 = g.codeBlocks) (hmarkers : ∀ k ∈ passed, g.isMarkersOnly src.method.code k = true) :
    src.method.code.all Insn.isMarker = true := by
  rw [List.all_eq_true]
  intro insn hinsn
  obtain ⟨index, hindex⟩ := List.mem_iff_getElem?.1 hinsn
  obtain ⟨id, hid, hin⟩ := hb.exists_block (List.getElem?_eq_some_iff.1 hindex).1
  have hmem : id ∈ passed := hpath.mem_of_isMarkersOnly hb (by omega) hmarkers (Nat.zero_le _) (by omega)
  have hmarker := List.all_eq_true.1 (hmarkers id hmem) index (Span.mem_indices.2 hin)
  simpa [hindex] using hmarker

theorem isMarkersOnly_of_all_isMarker {code : List Insn} (h : code.all Insn.isMarker = true) (id : BlockId) :
    g.isMarkersOnly code id = true := by
  rw [isMarkersOnly, List.all_eq_true]
  intro index _
  cases hinsn : code[index]? with
  | none => rfl
  | some insn => exact List.all_eq_true.1 h insn (List.mem_of_getElem? hinsn)

end

end Graph

/-- In a graph that has been built, every path from the first block to a block without successors ends with a return or throw or
passes no instruction but markers, exactly if the following holds: when the last block of the code has markers only and can be
reached, then the whole code has markers only. -/
theorem code_stays_inside_iff (src : Source) (g : Graph) (hgraph : Graph.build src Producer.all = .ok g) :
    (∀ (last : Nat) passed, g.Path 0 last passed → g.successors last = [] →
      g.isExit last = true ∨ ∀ id ∈ passed, g.isMarkersOnly src.method.code id = true) ↔
    ∀ (last : Nat) passed, g.Path 0 last passed → last + 1 = g.codeBlocks → g.isMarkersOnly src.method.code last = true →
      src.method.code.all Insn.isMarker = true := by
  have hb : Graph.Built src g := Graph.built_of_build hgraph
  obtain ⟨_, _, _, _, _, _, _, _, _, _, hinside⟩ := Graph.build_cases hgraph
  constructor
  · intro hpaths last passed hpath hlast hmarkers
    obtain ⟨hsuccessors, hexit⟩ := hb.successors_of_isMarkersOnly (by omega) hmarkers
    have hend : g.successors last = [] := by
      rw [hsuccessors, Graph.nextCodeBlock?_eq_none.2 (Nat.le_of_eq hlast.symm), Option.toList_none]
    rcases hpaths last passed hpath hend with h | h
    · rw [hexit] at h
      cases h
    · exact hpath.all_isMarker hb hlast h
  · intro hreach last passed hpath hend
    by_cases hall : src.method.code.all Insn.isMarker = true
    · exact .inr fun id _ => Graph.isMarkersOnly_of_all_isMarker hall id
    · have hcode := hb.codeBlocks_pos fun hnil => hall (by rw [hnil]; rfl)
      rcases hb.end_cases hinside (hpath.lt_codeBlocks hb hcode) hend with hexit | ⟨hlast, hmarkers⟩
      · exact .inl hexit
      · exact absurd (hreach last passed hpath hlast hmarkers) hall

/-- A method that ends with a label to which only code after its return leads. -/
def labelAfterReturn : Source where
  method :=
    { owner := "A", name := "m", descriptor := "()V", isStatic := true
      code := [.ret none, .nop, .goto ⟨0⟩, .label ⟨0⟩]
      variableTable := []
      handlerTable := [] }
  labels := [(⟨0⟩, 3)]
  locals := .empty

/-- The label is a block of its own, without successors, but out of reach. -/
theorem code_stays_inside_iff_unreachable :
    ∃ g, Graph.build labelAfterReturn Producer.all = .ok g ∧ g.codeBlocks = 3 ∧ g.successors 2 = [] ∧
      g.isMarkersOnly labelAfterReturn.method.code 2 = true ∧
      ∀ (last : Nat) passed, g.Path 0 last passed → g.successors last = [] →
        g.isExit last = true ∨ ∀ id ∈ passed, g.isMarkersOnly labelAfterReturn.method.code id = true := by
  have hbuilds : (match Graph.build labelAfterReturn Producer.all with
      | .ok g => decide (g.codeBlocks = 3 ∧ g.successors 0 = [] ∧ g.successors 2 = [] ∧
          g.isMarkersOnly labelAfterReturn.method.code 2 = true)
      | .error _ => false) = true := by decide +kernel
  split at hbuilds
  · rename_i g hgraph
    obtain ⟨hcode, hfirst, hlast, hmarkers⟩ := of_decide_eq_true hbuilds
    refine ⟨g, hgraph, hcode, hlast, hmarkers, (code_stays_inside_iff _ g hgraph).2 ?_⟩
    intro last passed hpath hend _
    -- No edge leads out of the first block, so the path stays there.
    cases hpath with
    | here => omega
    | step hnext _ =>
      rw [hfirst] at hnext
      cases hnext
  · cases hbuilds

/-- A method that may jump over its last instruction, to a label at the end. -/
def skippedNop : Source where
  method :=
    { owner := "A", name := "m", descriptor := "(I)V", isStatic := true
      code := [.load .int 0, .jump .eq ⟨0⟩, .nop, .label ⟨0⟩]
      variableTable := []
      handlerTable := [] }
  labels := [(⟨0⟩, 3)]
  locals := Locals.empty.add ⟨0, "param0", "I", none, ⟨0, 4⟩, .parameter⟩

/-- The graph of the method is built, though control falls from the instruction into the label and past the end. -/
theorem code_runs_off_end :
    skippedNop.method.labels = .ok skippedNop.labels ∧
      ∃ g, Graph.build skippedNop Producer.all = .ok g ∧ g.Path 0 2 [0, 1, 2] ∧ g.successors 2 = [] ∧ g.isExit 2 = false ∧
        g.isMarkersOnly skippedNop.method.code 1 = false := by
  have hbuilds : (match Graph.build skippedNop Producer.all with
      | .ok g => decide (g.successors 0 = [2, 1] ∧ g.successors 1 = [2] ∧ g.successors 2 = [] ∧ g.isExit 2 = false ∧
          g.isMarkersOnly skippedNop.method.code 1 = false)
      | .error _ => false) = true := by decide +kernel
  refine ⟨rfl, ?_⟩
  split at hbuilds
  · rename_i g hgraph
    obtain ⟨hfirst, hsecond, hlast, hexit, hmarkers⟩ := of_decide_eq_true hbuilds
    have hpath : g.Path 0 2 [0, 1, 2] := .step (by simp [hfirst]) (.step (by simp [hsecond]) (.here 2))
    exact ⟨g, hgraph, hpath, hlast, hexit, hmarkers⟩
  · cases hbuilds

end CodeLift
