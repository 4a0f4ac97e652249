import CodeLift.Proofs.Graph.Breaks
import CodeLift.Proofs.Graph.EndOfCode

/-!
# When building a graph fails

The code is cut before every label that is looked up later, so that no look-up finds a label inside a block. What is left are labels
that are not defined, which the cut finds first, and code that control would run out of: a conditional jump at the end, or
instructions other than markers in a last block that leads on. `graph_fails_only_if` says that a graph is built in all other cases.
-/

namespace CodeLift

namespace Source

/-- An instruction is in the last block of the code: no block ends from there on before the end. -/
def InLastBlock (src : Source) (i : Nat) : Prop :=
  i < src.method.code.length ∧ ∀ j, i ≤ j → j + 1 < src.method.code.length → ¬ src.EndsBlock j

/-- Control would run past the end of the code after an instruction. -/
inductive RunsOutAt (src : Source) (i : Nat) : Prop where
  /-- The code ends with a conditional jump. -/
  | jump {test : JumpTest} {target : Label} (hlast : src.method.code.getLast? = some (.jump test target))
      (hi : i + 1 = src.method.code.length)
  /-- Control goes on from the last instruction, and of those in the last block that are no markers this is the last. -/
  | plain {last insn : Insn} (hlast : src.method.code.getLast? = some last) (hplain : last.isPlain = true)
      (hblock : src.InLastBlock i) (hi : src.method.code[i]? = some insn) (hmarker : insn.isMarker = false)
      (hrest : ∀ j other, i < j → src.method.code[j]? = some other → other.isMarker = true)

theorem RunsOutAt.lt {src : Source} {i : Nat} (h : src.RunsOutAt i) : i < src.method.code.length := by
  cases h with
  | jump _ hi => omega
  | plain _ _ hblock => exact hblock.1

/-- Control does not run out of code that ends with an instruction from which it always goes elsewhere. -/
theorem not_runsOutAt {src : Source} {i : Nat} {last : Insn} (hlast : src.method.code.getLast? = some last)
    (hplain : last.isPlain = false) (hjump : ∀ test target, last ≠ .jump test target) : ¬ src.RunsOutAt i := by
  intro h
  cases h with
  | jump hlast' =>
    cases hlast.symm.trans hlast'
    exact hjump _ _ rfl
  | plain hlast' hplain' =>
    cases hlast.symm.trans hlast'
    rw [hplain] at hplain'
    cases hplain'

theorem RunsOutAt.unique {src : Source} {i j : Nat} (hi : src.RunsOutAt i) (hj : src.RunsOutAt j) : i = j := by
  cases hi with
  | jump hlast hi =>
    cases hj with
    | jump _ hj => omega
    | plain hlast' hplain =>
      cases hlast.symm.trans hlast'
      cases hplain
  | plain hlast hplain _ hi hmarker hrest =>
    cases hj with
    | jump hlast' =>
      cases hlast.symm.trans hlast'
      cases hplain
    | plain _ _ _ hj hmarker' hrest' =>
      rcases Nat.lt_trichotomy i j with hlt | heq | hlt
      · rw [hrest j _ hlt hj] at hmarker'
        cases hmarker'
      · exact heq
      · rw [hrest' i _ hlt hi] at hmarker
        cases hmarker

/-- The labels of a source are those of its method, and each label that the method refers to is among them. -/
structure Resolved (src : Source) : Prop where
  labels : src.method.labels = .ok src.labels
  defined : ∀ label ∈ src.method.references, .label label ∈ src.method.code

end Source

namespace Graph

variable {src : Source} {g : Graph}

/-! ## Linking -/

theorem IsCut.stop_le (hg : IsCut src g) {id : Nat} (hid : id < g.codeBlocks) : (g.spanOf id).stop ≤ src.method.code.length :=
  (hg.tiles.bounds (List.mem_map.2 ⟨id, List.mem_range.2 hid, rfl⟩)).2

/-- A code block has a last instruction. -/
theorem IsCut.exists_last (hg : IsCut src g) {id : Nat} (hid : id < g.codeBlocks) :
    ∃ insn, g.lastInsn? src.method.code id = some insn := by
  have hne := hg.nonempty id hid
  have hle := hg.stop_le hid
  refine ⟨src.method.code[(g.spanOf id).stop - 1], ?_⟩
  rw [lastInsn?, if_neg (by simpa [Span.isEmpty] using hne)]
  exact List.getElem?_eq_getElem (by omega)

theorem eq_of_lastInsn? {code : List Insn} {id : BlockId} {insn : Insn} (h : g.lastInsn? code id = some insn) :
    code[(g.spanOf id).stop - 1]? = some insn := by
  unfold lastInsn? at h
  split at h
  · cases h
  · exact h

/-- The last code block ends where the code does. -/
theorem IsCut.stop_last (hg : IsCut src g) {id : Nat} (hid : id + 1 = g.codeBlocks) :
    (g.spanOf id).stop = src.method.code.length := by
  have htiles := hg.tiles
  rw [← hid, List.range_succ, List.map_append, Span.abut_append] at htiles
  obtain ⟨_, _, _, _, hstop⟩ := htiles
  exact hstop

/-- A label that the method refers to is found. -/
theorem IsCut.labelBlock_ne_error (hg : IsCut src g) (hsrc : src.Resolved) {label : Label} (href : label ∈ src.method.references)
    (e : GraphError) : src.labelBlock g label ≠ .error e := by
  obtain ⟨id, hid⟩ := hg.labelBlock_isOk hsrc.labels href (hsrc.defined label href)
  rw [hid]
  simp

end Graph

namespace Producer

variable {src : Source} {g : Graph} {e : GraphError}

section

variable {f : Graph → Nat → Except GraphError Graph} (hf : ∀ g id h, f g id = .ok h → g.Relinked h (· = id))

include hf

theorem relinked_of_linkBlocks {h : Graph} (hlink : (List.range g.codeBlocks).foldlM f g = .ok h) :
    g.Relinked h (· < g.codeBlocks) :=
  (Graph.foldlM_relinked (R := fun _ _ _ _ => True) (fun g id h _ hok => ⟨hf g id h hok, trivial⟩)
    (fun _ _ _ _ _ _ _ _ => trivial) (Nat.le_refl _) hlink).1

/-- Linking block by block fails at a block of the same cut, and not for a label that the last instruction of the block names. -/
theorem exists_of_linkBlocks_error (hsrc : src.Resolved) (hg : Graph.IsCut src g)
    (h : (List.range g.codeBlocks).foldlM f g = .error e) :
    ∃ g' id insn, Graph.IsCut src g' ∧ id < g'.codeBlocks ∧ g'.lastInsn? src.method.code id = some insn ∧
      (∀ label ∈ insn.targets, src.labelBlock g' label ≠ .error e) ∧ f g' id = .error e := by
  obtain ⟨g', id, hid, hsame, herror⟩ := exists_of_foldlM_error (I := fun g' => g.SameCode g')
    (fun g id _ h hsame hok => hsame.trans (hf g id h hok).sameCode) (Graph.SameCode.refl g) h
  have hg' : Graph.IsCut src g' := hg.congr hsame
  have hid : id < g'.codeBlocks := by
    rw [hsame.codeBlocks]
    exact List.mem_range.1 hid
  obtain ⟨insn, hlast⟩ := hg'.exists_last hid
  have hinsn := List.mem_of_getElem? (Graph.eq_of_lastInsn? hlast)
  exact ⟨g', id, insn, hg', hid, hlast,
    fun label hlabel => hg'.labelBlock_ne_error hsrc (Method.mem_references.2 (.inl ⟨insn, hinsn, hlabel⟩)) e, herror⟩

end

/-- Jumps are linked unless the code ends with one that control may fall out of. -/
theorem jumps_link_error (hsrc : src.Resolved) (hg : Graph.IsCut src g) (h : jumps.link src g = .error e) :
    ∃ i, src.RunsOutAt i ∧ e = .fallsOffEnd i := by
  obtain ⟨g', id, insn, hg', hid, hlast, hfound, herror⟩ :=
    exists_of_linkBlocks_error (fun _ _ _ hok => (jumps_linkBlock hok).1) hsrc hg h
  have hinsn := Graph.eq_of_lastInsn? hlast
  unfold jumps.linkBlock at herror
  rw [hlast] at herror
  cases insn with
  | goto target =>
    rcases bind_eq_error herror with htarget | ⟨_, _, herror⟩
    · exact absurd htarget (hfound target (by simp [Insn.targets]))
    · cases herror
  | jump test target =>
    rcases bind_eq_error herror with htarget | ⟨_, _, herror⟩
    · exact absurd htarget (hfound target (by simp [Insn.targets]))
    · cases hnext : g'.nextCodeBlock? id with
      | some next =>
        rw [hnext] at herror
        cases herror
      | none =>
        rw [hnext] at herror
        cases herror
        have hend : id + 1 = g'.codeBlocks := Nat.le_antisymm hid (Graph.nextCodeBlock?_eq_none.1 hnext)
        have hne := hg'.nonempty id hid
        rw [hg'.stop_last hend] at hinsn hne ⊢
        rw [← List.getLast?_eq_getElem?] at hinsn
        exact ⟨_, .jump hinsn (by omega), rfl⟩
  | _ => cases herror

/-- Switches are always linked. -/
theorem switches_link_ne_error (hsrc : src.Resolved) (hg : Graph.IsCut src g) : switches.link src g ≠ .error e := by
  intro h
  obtain ⟨g', id, insn, _, _, hlast, hfound, herror⟩ :=
    exists_of_linkBlocks_error (fun _ _ _ hok => (switches_linkBlock hok).1) hsrc hg h
  unfold switches.linkBlock at herror
  rw [hlast] at herror
  cases insn with
  | switch otherwise arms =>
    rcases bind_eq_error herror with harms | ⟨_, _, herror⟩
    · obtain ⟨arm, harm, htarget⟩ := exists_of_mapM_error harms
      rcases bind_eq_error htarget with htarget | ⟨_, _, htarget⟩
      · exact hfound _ (List.mem_cons_of_mem _ (List.mem_map_of_mem harm)) htarget
      · cases htarget
    · rcases bind_eq_error herror with hdefault | ⟨_, _, herror⟩
      · exact hfound _ List.mem_cons_self hdefault
      · cases herror
  | _ => cases herror

theorem isFault_of_addMarker {mark : Marker} {target : BlockId} (h : g.addMarker mark target = .error e) : e.isFault = true := by
  unfold Graph.addMarker at h
  split at h
  · cases h
  · cases h
    rfl

/-- Handlers are always marked. -/
theorem tries_link_ne_error (hsrc : src.Resolved) (hg : Graph.IsCut src g) (hlinkable : g.Linkable src.method.code) :
    tries.link src g ≠ .error e := by
  intro h
  have hsafe : e.isFault = false := (tries_link_safely hlinkable).isFault h
  rcases bind_eq_error h with htargets | ⟨targets, _, hfold⟩
  · obtain ⟨entry, hentry, htarget⟩ := exists_of_mapM_error htargets
    have hfound : ∀ label ∈ [entry.start, entry.stop, entry.handler], src.labelBlock g label ≠ .error e :=
      fun label hlabel => hg.labelBlock_ne_error hsrc (Method.mem_references.2 (.inr ⟨entry, hentry, hlabel⟩)) e
    rcases bind_eq_error htarget with hstart | ⟨_, _, htarget⟩
    · exact hfound _ (by simp) hstart
    rcases bind_eq_error htarget with hstop | ⟨_, _, htarget⟩
    · exact hfound _ (by simp) hstop
    rcases bind_eq_error htarget with hhandler | ⟨_, _, htarget⟩
    · exact hfound _ (by simp) hhandler
    cases htarget
  · obtain ⟨g', ⟨⟨start, stop, handler⟩, entry⟩, _, _, hadd⟩ := exists_of_foldlM_error (I := fun _ => True)
      (fun _ _ _ _ _ _ => trivial) trivial hfold
    have hfault : e.isFault = true := by
      rcases bind_eq_error hadd with hmark | ⟨_, _, hadd⟩
      · exact isFault_of_addMarker hmark
      rcases bind_eq_error hadd with hmark | ⟨_, _, hadd⟩
      · exact isFault_of_addMarker hmark
      exact isFault_of_addMarker hadd
    rw [hsafe] at hfault
    cases hfault

end Producer

/-! ## The end of the code -/

namespace Graph

variable {src : Source} {g : Graph}

theorem IsCut.inLastBlock_iff (hg : IsCut src g) {last : Nat} (hlast : last + 1 = g.codeBlocks) {i : Nat} :
    src.InLastBlock i ↔ i ∈ g.spanOf last := by
  have hstop := hg.stop_last hlast
  constructor
  · rintro ⟨hi, hends⟩
    obtain ⟨id, hid, hin⟩ := exists_block_of_abut hg.tiles hi
    by_cases heq : id = last
    · exact heq ▸ hin
    · -- The block ends before the last one starts.
      have hordered := List.pairwise_iff_getElem.1 (List.pairwise_map.1 hg.tiles.ordered)
      simp only [List.length_range, List.getElem_range] at hordered
      have hbefore := hordered id last hid (by omega) (by omega)
      have hne := hg.nonempty last (by omega)
      obtain ⟨hfrom, hto⟩ := hin
      refine absurd ((hg.ends id ((g.spanOf id).stop - 1) hid ⟨by omega, by omega⟩).2 (by omega)) ?_
      exact hends _ (by omega) (by omega)
  · rintro ⟨hfrom, hto⟩
    refine ⟨by omega, fun j hj hj' hends => ?_⟩
    have := (hg.ends last j (by omega) ⟨by omega, by omega⟩).1 hends
    omega

/-- If control goes on from the last instruction, it runs out after the last instruction of the last block that is no marker. -/
theorem IsCut.find?_eq_some_iff (hg : IsCut src g) {last : Nat} (hlast : last + 1 = g.codeBlocks) {insn : Insn}
    (hinsn : src.method.code.getLast? = some insn) (hplain : insn.isPlain = true) {i : Nat} :
    ((g.spanOf last).indices.reverse.find? fun j => (src.method.code[j]?.map fun i => !i.isMarker).getD false) = some i ↔
      src.RunsOutAt i := by
  have hne := hg.nonempty last (by omega)
  have hstop := hg.stop_last hlast
  have hend : (g.spanOf last).start + (g.spanOf last).length = src.method.code.length := by
    rw [Span.length]
    omega
  rw [Span.indices, find?_reverse_range', hend]
  constructor
  · rintro ⟨⟨hfrom, hto⟩, hi, hrest⟩
    have hi' : src.method.code[i]? = some src.method.code[i] := List.getElem?_eq_getElem hto
    refine .plain hinsn hplain ((hg.inLastBlock_iff hlast).2 ⟨hfrom, by omega⟩) hi' ?_ ?_
    · simpa [hi'] using hi
    · intro j other hj hother
      have hmarker := hrest j hj (List.getElem?_eq_some_iff.1 hother).1
      simpa [hother] using hmarker
  · intro h
    cases h with
    | jump hlast' =>
      cases hinsn.symm.trans hlast'
      cases hplain
    | plain _ _ hin hi hmarker hrest =>
      obtain ⟨hfrom, hto⟩ := (hg.inLastBlock_iff hlast).1 hin
      refine ⟨⟨hfrom, by omega⟩, by simp [hi, hmarker], fun j hj hj' => ?_⟩
      have hother : src.method.code[j]? = some src.method.code[j] := List.getElem?_eq_getElem hj'
      simp [hother, hrest j _ hj hother]

/-- Without code blocks there is no block at all, since a marker needs one to stand at. -/
theorem Built.block?_eq_none (hb : Built src g) (hzero : g.codeBlocks = 0) (id : BlockId) : g.block? id = none := by
  cases hblock : g.block? id with
  | none => rfl
  | some b =>
    obtain ⟨_, _, _, _, _, _, _, hstart, _⟩ := hb.exists_triple (by omega) (lt_size_of_block? hblock)
    have := hstart.1
    omega

/-- The check for the end of the code finds the instruction after which control would run out. -/
theorem Built.fallsOffEnd?_eq_some_iff (hb : Built src g) (hg : IsCut src g) {i : Nat} :
    g.fallsOffEnd? src.method.code = some i ↔ src.RunsOutAt i := by
  rcases Nat.eq_zero_or_pos g.codeBlocks with hzero | hpos
  · have htiles := hg.tiles
    rw [hzero] at htiles
    have hcode : 0 = src.method.code.length := htiles
    rw [fallsOffEnd?, hb.block?_eq_none hzero]
    constructor
    · intro h
      cases h
    · intro h
      have := h.lt
      omega
  · obtain ⟨insn, kind, hinsn, hblock, _, hd⟩ := hb.successors_eq (Nat.sub_lt hpos Nat.one_pos)
    have hlast : g.codeBlocks - 1 + 1 = g.codeBlocks := by omega
    rw [hg.stop_last hlast, ← List.getLast?_eq_getElem?] at hinsn
    have hnext : g.nextCodeBlock? (g.codeBlocks - 1) = none := nextCodeBlock?_eq_none.2 (by omega)
    rw [fallsOffEnd?, hblock]
    cases hd with
    | ret => simp [Source.not_runsOutAt hinsn rfl]
    | throw => simp [Source.not_runsOutAt hinsn rfl]
    | goto => simp [Source.not_runsOutAt hinsn rfl]
    | switch => simp [Source.not_runsOutAt hinsn rfl]
    | jump _ hsome =>
      rw [hnext] at hsome
      cases hsome
    | plain hplain =>
      rw [hnext]
      exact hg.find?_eq_some_iff hlast hinsn (hplain insn rfl)

/-- The producers link the blocks of a source whose labels are all defined, unless its code ends with a conditional jump. -/
theorem exists_links (hsrc : src.Resolved) (hg : IsCut src g) (hlinkable : g.Linkable src.method.code) :
    (∃ i, src.RunsOutAt i ∧ Producer.jumps.link src g = .error (.fallsOffEnd i)) ∨
      ∃ g₁ g₂ g₃, Producer.jumps.link src g = .ok g₁ ∧ Producer.switches.link src g₁ = .ok g₂ ∧
        Producer.tries.link src g₂ = .ok g₃ := by
  cases h₁ : Producer.jumps.link src g with
  | error e =>
    obtain ⟨i, hi, rfl⟩ := Producer.jumps_link_error hsrc hg h₁
    exact .inl ⟨i, hi, rfl⟩
  | ok g₁ =>
    have hrel₁ := Producer.relinked_of_linkBlocks (fun _ _ _ hok => (Producer.jumps_linkBlock hok).1) h₁
    have hg₁ := hg.congr hrel₁.sameCode
    cases h₂ : Producer.switches.link src g₁ with
    | error e => exact absurd h₂ (Producer.switches_link_ne_error hsrc hg₁)
    | ok g₂ =>
      have hrel₂ := Producer.relinked_of_linkBlocks (fun _ _ _ hok => (Producer.switches_linkBlock hok).1) h₂
      have hlinkable₂ := hrel₂.linkable (fun _ => id) (hrel₁.linkable (fun _ => id) hlinkable)
      cases h₃ : Producer.tries.link src g₂ with
      | error e => exact absurd h₃ (Producer.tries_link_ne_error hsrc (hg₁.congr hrel₂.sameCode) hlinkable₂)
      | ok g₃ => exact .inr ⟨g₁, g₂, g₃, rfl, h₂, h₃⟩

/-- A source whose labels are all defined has a graph, unless control runs out of its code. -/
theorem build_of_resolved (hsrc : src.Resolved) :
    (∃ i, src.RunsOutAt i ∧ build src Producer.all = .error (.fallsOffEnd i)) ∨
      (∀ i, ¬ src.RunsOutAt i) ∧ ∃ g, build src Producer.all = .ok g ∧ IsCut src g := by
  cases hbreaks : Producer.all.mapM (·.breaks src) with
  | error e =>
    have hresolves := Producer.breaks_resolves hsrc.labels
    rw [hbreaks] at hresolves
    obtain ⟨label, hlabel, hundefined, _⟩ := hresolves
    exact absurd (hsrc.defined label hlabel) hundefined
  | ok breaks =>
    have hg := isCut_ofSpans hsrc.labels hbreaks
    obtain ⟨jumpBreaks, switchBreaks, tryBreaks, hjumps, hswitches, _, rfl⟩ := Producer.breaks_eq_ok hbreaks
    simp only [List.flatten_cons, List.flatten_nil, List.append_nil] at hg
    rcases exists_links hsrc hg (linkable_ofSpans _) with ⟨i, hi, h₁⟩ | ⟨g₁, g₂, g, h₁, h₂, h₃⟩
    · refine .inl ⟨i, hi, ?_⟩
      rw [build_eq hbreaks, h₁]
      rfl
    · obtain ⟨hb, hsame⟩ := built_of_links hjumps hswitches h₁ h₂ h₃
      have hcut := hg.congr hsame
      have hcheck := fun i => hb.fallsOffEnd?_eq_some_iff (i := i) hcut
      cases hend : g.fallsOffEnd? src.method.code with
      | some i =>
        refine .inl ⟨i, (hcheck i).1 hend, ?_⟩
        simp only [build_eq hbreaks, h₁, h₂, h₃, hend, bind, Except.bind]
      | none =>
        refine .inr ⟨fun i hi => ?_, g, ?_, hcut⟩
        · rw [(hcheck i).2 hi] at hend
          cases hend
        · simp only [build_eq hbreaks, h₁, h₂, h₃, hend, bind, Except.bind]
          rfl

/-- A label that the method refers to and that is not defined is reported. -/
theorem build_of_undefined (hlabels : src.method.labels = .ok src.labels) {label : Label}
    (href : label ∈ src.method.references) (hundefined : .label label ∉ src.method.code) :
    ∃ label' ∈ src.method.references, .label label' ∉ src.method.code ∧
      build src Producer.all = .error (.labels (.unknown label')) := by
  have hresolves := Producer.breaks_resolves hlabels
  cases hbreaks : Producer.all.mapM (·.breaks src) with
  | ok breaks =>
    rw [hbreaks] at hresolves
    exact absurd (hresolves label href) hundefined
  | error e =>
    rw [hbreaks] at hresolves
    obtain ⟨label', href', hundefined', rfl⟩ := hresolves
    refine ⟨label', href', hundefined', ?_⟩
    unfold build
    dsimp only
    rw [hbreaks]
    rfl

end Graph

/-- Of a method whose labels resolve, whatever its variables, a graph is built unless a label that it refers to is not defined or
control would run out of its code. A label that is defined is never found inside a block, since blocks end where `EndsBlock` says. -/
theorem graph_fails_only_if (src : Source) (hlabels : src.method.labels = .ok src.labels) :
    (∀ label, Graph.build src Producer.all ≠ .error (.misaligned label)) ∧
      (∀ label, Graph.build src Producer.all = .error (.labels (.unknown label)) →
        label ∈ src.method.references ∧ .label label ∉ src.method.code) ∧
      ((∃ label, Graph.build src Producer.all = .error (.labels (.unknown label))) ↔
        ∃ label ∈ src.method.references, .label label ∉ src.method.code) ∧
      ((∀ label ∈ src.method.references, .label label ∈ src.method.code) →
        (∀ i, Graph.build src Producer.all = .error (.fallsOffEnd i) ↔ src.RunsOutAt i) ∧
          ((∃ g, Graph.build src Producer.all = .ok g) ↔ ∀ i, ¬ src.RunsOutAt i)) ∧
      ∀ g, Graph.build src Producer.all = .ok g → ∀ id i : Nat, id < g.codeBlocks → i ∈ g.spanOf id →
        (src.EndsBlock i ↔ i + 1 = (g.spanOf id).stop) := by
  by_cases hdefined : ∀ label ∈ src.method.references, .label label ∈ src.method.code
  · have hall : ¬ ∃ label ∈ src.method.references, .label label ∉ src.method.code := by simpa using hdefined
    rcases Graph.build_of_resolved ⟨hlabels, hdefined⟩ with ⟨i, hi, hbuild⟩ | ⟨hinside, g, hbuild, hcut⟩
    · simp only [hbuild]
      have hreported : ∀ j, (.error (.fallsOffEnd i) : Except GraphError Graph) = .error (.fallsOffEnd j) ↔ src.RunsOutAt j := by
        intro j
        constructor
        · rintro ⟨⟩
          exact hi
        · intro hj
          rw [hi.unique hj]
      exact ⟨nofun, nofun, ⟨nofun, fun h => absurd h hall⟩, fun _ => ⟨hreported, nofun, fun h => absurd hi (h i)⟩, nofun⟩
    · simp only [hbuild]
      have hsucceeds : ∀ j, (.ok g : Except GraphError Graph) = .error (.fallsOffEnd j) ↔ src.RunsOutAt j :=
        fun j => ⟨nofun, fun hj => absurd hj (hinside j)⟩
      refine ⟨nofun, nofun, ⟨nofun, fun h => absurd h hall⟩, fun _ => ⟨hsucceeds, fun _ => hinside, fun _ => ⟨g, rfl⟩⟩, ?_⟩
      rintro _ ⟨⟩
      exact hcut.ends
  · have hsome : ∃ label ∈ src.method.references, .label label ∉ src.method.code := by simpa using hdefined
    obtain ⟨label, href, hundefined⟩ := hsome
    obtain ⟨label', href', hundefined', hbuild⟩ := Graph.build_of_undefined hlabels href hundefined
    simp only [hbuild]
    refine ⟨nofun, ?_, ⟨fun _ => ⟨label', href', hundefined'⟩, fun _ => ⟨label', rfl⟩⟩, fun h => absurd h hdefined, nofun⟩
    rintro _ ⟨⟩
    exact ⟨href', hundefined'⟩

/-- A loop from which control falls into a last block that ends with a line number. -/
def loopThenNop : Source where
  method :=
    { owner := "A", name := "m", descriptor := "(I)V", isStatic := true
      code := [.label ⟨0⟩, .load .int 0, .jump .eq ⟨0⟩, .nop, .line 7]
      variableTable := []
      handlerTable := [] }
  labels := [(⟨0⟩, 0)]
  locals := Locals.empty.add ⟨0, "param0", "I", none, ⟨0, 5⟩, .parameter⟩

/-- The label needs no block to end before it, and control runs out after the instruction before the line number. -/
theorem graph_fails_only_if_loop : loopThenNop.method.labels = .ok loopThenNop.labels ∧
    Graph.build loopThenNop Producer.all = .error (.fallsOffEnd 3) := by
  have hdefined : ∀ label ∈ loopThenNop.method.references, .label label ∈ loopThenNop.method.code := by decide
  have hplain : ¬ loopThenNop.EndsBlock 3 := by
    intro h
    cases h with
    | last h => cases h
    | leaves hi h =>
      cases hi
      cases h
    | beforeLabel _ h => cases h
    | binding hentry => cases hentry
    | scope hentry => cases hentry
  refine ⟨rfl, ((graph_fails_only_if loopThenNop rfl).2.2.2.1 hdefined).1 3 |>.2 (.plain rfl rfl ⟨by decide, ?_⟩ rfl rfl ?_)⟩
  · intro j hj hj'
    have hj' : j + 1 < 5 := hj'
    obtain rfl : j = 3 := by omega
    exact hplain
  · intro j other hj hother
    have hlt : j < 5 := (List.getElem?_eq_some_iff.1 hother).1
    obtain rfl : j = 4 := by omega
    cases hother
    rfl

end CodeLift
