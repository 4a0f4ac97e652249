import CodeLift.Locals.Runs
import CodeLift.Proofs.Keyed
import CodeLift.Proofs.Lists
import Mathlib.Data.List.Sort
import Mathlib.Data.List.SplitBy

/-!
# One pass finds the groups of accesses

The accesses of a slot that no instance covers fall into groups, split between neighbours of different variables (`Method.runs`). The
pass over the code meets the accesses of all slots mixed with each other and lists the runs as they end. For each slot it keeps to the
groups all the same: what is finished and what is open of a slot are the spans of its groups so far (`RunScan.step_spans`). Sorting
brings the runs of a slot together and leaves them in order, so that the numbers they get are those of the groups.
-/

namespace CodeLift

section

variable {α β : Type}

/-- A member at the end of a list goes into the last of the parts, if the list is not split before it. -/
theorem splitBy_concat_same {r : α → α → Bool} {xs group : List α} {groups : List (List α)} {a b : α}
    (h : xs.splitBy r = groups ++ [group]) (hb : group.getLast? = some b) (hsame : r b a = true) :
    (xs ++ [a]).splitBy r = groups ++ [group ++ [a]] := by
  obtain ⟨hflatten, hnil, hchains, hapart⟩ := List.splitBy_eq_iff.1 h
  refine List.splitBy_eq_iff.2 ⟨?_, ?_, ?_, ?_⟩
  · simp [hflatten]
  · intro hmem
    rcases List.mem_append.1 hmem with hmem | hmem
    · exact hnil (List.mem_append_left _ hmem)
    · simp at hmem
  · intro part hpart
    rcases List.mem_append.1 hpart with hpart | hpart
    · exact hchains part (List.mem_append_left _ hpart)
    · rw [List.mem_singleton.1 hpart]
      refine List.isChain_append.2 ⟨hchains group (by simp), List.isChain_singleton a, ?_⟩
      intro x hx y hy
      rw [hb, Option.mem_some_iff] at hx
      rw [List.head?_cons, Option.mem_some_iff] at hy
      subst hx hy
      exact hsame
  · obtain ⟨hgroups, _, hlast⟩ := List.isChain_append.1 hapart
    refine List.isChain_append.2 ⟨hgroups, List.isChain_singleton _, ?_⟩
    intro part hpart next hnext
    rw [List.head?_cons, Option.mem_some_iff] at hnext
    subst hnext
    obtain ⟨hne, hgroup, hsplit⟩ := hlast part hpart group rfl
    exact ⟨hne, by simp, by rw [List.head_append_of_ne_nil hgroup]; exact hsplit⟩

/-- A member at the end of a list is a part of its own, if the list is split before it. -/
theorem splitBy_concat_differ {r : α → α → Bool} {xs group : List α} {groups : List (List α)} {a b : α}
    (h : xs.splitBy r = groups ++ [group]) (hb : group.getLast? = some b) (hdiffer : r b a = false) :
    (xs ++ [a]).splitBy r = groups ++ [group] ++ [[a]] := by
  have hflatten := (List.splitBy_eq_iff.1 h).1
  rw [List.splitBy_append_cons, h]
  · rfl
  · intro x hx
    rw [hflatten, List.flatten_append, List.flatten_singleton, List.getLast?_append, hb, Option.some_or, Option.mem_some_iff] at hx
    exact hx ▸ hdiffer

/-- Lists that are related member by member are ordered alike. -/
theorem pairwise_of_forall₂ {R : α → β → Prop} {S : α → α → Prop} {T : β → β → Prop} {xs : List α} {ys : List β}
    (h : List.Forall₂ R xs ys) (hxs : xs.Pairwise S) (himp : ∀ {x y x' y'}, R x y → R x' y' → S x x' → T y y') : ys.Pairwise T := by
  induction h with
  | nil => exact .nil
  | @cons x y xs ys hxy hrest ih =>
    obtain ⟨hfirst, hxs⟩ := List.pairwise_cons.1 hxs
    refine List.pairwise_cons.2 ⟨?_, ih hxs⟩
    intro y' hy'
    obtain ⟨x', hx', hxy'⟩ := exists_mem_of_forall₂_right hrest hy'
    exact himp hxy hxy' (hfirst x' hx')

/-- The last members of lists that are related member by member are related. -/
theorem exists_of_forall₂_concat {R : α → β → Prop} {xs : List α} {ys : List β} {y : β} (h : List.Forall₂ R xs (ys ++ [y])) :
    ∃ xs' x, xs = xs' ++ [x] ∧ List.Forall₂ R xs' ys ∧ R x y := by
  have htake := List.forall₂_take_append xs ys [y] h
  have hdrop := List.forall₂_drop_append xs ys [y] h
  obtain ⟨x, rest, hx, hrest, hsplit⟩ := List.forall₂_cons_right_iff.1 hdrop
  rw [List.forall₂_nil_right_iff.1 hrest] at hsplit
  exact ⟨xs.take ys.length, x, by rw [← hsplit, List.take_append_drop], htake, hx⟩

end

namespace Method

/-! ## Groups of accesses -/

/-- The accesses that no instance covers, in order. -/
def uncovered (ls : Locals) (code : List Insn) : List Access :=
  (accesses code).filter fun a => (ls.find? a.slot a.index).isNone

/-- Whether two neighbouring accesses of a slot are of one variable: they agree on the kind of value and no instance of the slot
starts between them. -/
def sameRun (ls : Locals) (a b : Access) : Bool :=
  a.kind == b.kind && !(ls.startsOf a.slot).any fun start => decide (a.index < start) && decide (start < b.index)

/-- The groups of accesses of a slot, out of accesses in order. -/
def runs (ls : Locals) (missing : List Access) (slot : Nat) : List (List Access) :=
  (missing.filter (·.slot == slot)).splitBy (sameRun ls)

/-- A run reaches from the first access of a group to the last, and is of their kind. -/
structure Run.Spans (group : List Access) (run : Run) : Prop where
  first : ∃ a, group.head? = some a ∧ a.index = run.first ∧ a.kind = run.kind
  last : ∃ a, group.getLast? = some a ∧ a.index = run.last ∧ a.kind = run.kind

theorem mem_accesses {code : List Insn} {a : Access} :
    a ∈ accesses code ↔ ∃ insn, code[a.index]? = some insn ∧ insn.access = some (a.slot, a.kind) := by
  simp only [accesses, List.mem_filterMap, List.mem_zipIdx_iff_getElem?, Option.map_eq_some_iff, Prod.exists]
  constructor
  · rintro ⟨insn, index, hinsn, slot, kind, haccess, rfl⟩
    exact ⟨insn, hinsn, haccess⟩
  · rintro ⟨insn, hinsn, haccess⟩
    exact ⟨insn, a.index, hinsn, a.slot, a.kind, haccess, rfl⟩

/-- The accesses are listed in the order of the code. -/
theorem accesses_ascending (code : List Insn) : (accesses code).Pairwise (·.index < ·.index) := by
  have hzip : code.zipIdx.Pairwise (·.2 < ·.2) := by
    refine List.pairwise_map.1 ?_
    rw [List.zipIdx_map_snd]
    exact List.pairwise_lt_range'
  refine List.Pairwise.filterMap _ ?_ hzip
  rintro ⟨insn, i⟩ ⟨insn', j⟩ hij a ha b hb
  obtain ⟨_, _, rfl⟩ := Option.map_eq_some_iff.1 ha
  obtain ⟨_, _, rfl⟩ := Option.map_eq_some_iff.1 hb
  exact hij

theorem uncovered_ascending (ls : Locals) (code : List Insn) : (uncovered ls code).Pairwise (·.index < ·.index) :=
  (accesses_ascending code).filter _

/-- What makes up the groups of a slot. -/
theorem mem_runs {ls : Locals} {missing : List Access} {slot : Nat} {run : List Access} (h : run ∈ runs ls missing slot) :
    run ≠ [] ∧ (run.IsChain fun a b => sameRun ls a b = true) ∧ ∀ a ∈ run, a ∈ missing ∧ a.slot = slot := by
  refine ⟨List.ne_nil_of_mem_splitBy h, List.isChain_of_mem_splitBy h, ?_⟩
  intro a ha
  have hflat : a ∈ (runs ls missing slot).flatten := List.mem_flatten.2 ⟨run, h, ha⟩
  rw [runs, List.flatten_splitBy, List.mem_filter] at hflat
  exact ⟨hflat.1, by simpa using hflat.2⟩

/-- The groups of a slot follow each other, and the accesses of a group are in order. -/
theorem runs_ascending {missing : List Access} (h : missing.Pairwise (·.index < ·.index)) (ls : Locals) (slot : Nat) :
    (∀ run ∈ runs ls missing slot, run.Pairwise (·.index < ·.index)) ∧
      (runs ls missing slot).Pairwise fun run run' => ∀ a ∈ run, ∀ b ∈ run', a.index < b.index := by
  rw [← List.pairwise_flatten, runs, List.flatten_splitBy]
  exact h.filter _

/-! ## The pass over the code -/

section

variable {ls : Locals} {missing : List Access} {scan : RunScan}

/-- The runs of a slot: those that are finished, and the one that is open. -/
def RunScan.runsOf (scan : RunScan) (slot : Nat) : List Run :=
  (scan.finished.filter (·.1 == slot)).map (·.2) ++ (scan.opened.find? slot).toList

/-- An access opens a run of its slot, or is taken by the one that is open, and changes nothing for another slot. -/
theorem RunScan.find?_take (a : Access) (slot : Nat) :
    (slot = a.slot → ∃ run, (scan.take ls a).opened.find? slot = some run) ∧
      (slot ≠ a.slot → (scan.take ls a).opened.find? slot = scan.opened.find? slot) := by
  have hput : ∀ run, (slot = a.slot → ∃ run', (scan.opened.put a.slot run).find? slot = some run') ∧
      (slot ≠ a.slot → (scan.opened.put a.slot run).find? slot = scan.opened.find? slot) := by
    intro run
    rw [Keyed.find?_put]
    exact ⟨fun h => ⟨run, if_pos h⟩, fun h => if_neg h⟩
  unfold RunScan.take
  split
  · split
    · exact hput _
    · exact hput _
  · exact hput _

theorem RunScan.runsOf_take {slot : Nat} {a : Access} (h : slot ≠ a.slot) : (scan.take ls a).runsOf slot = scan.runsOf slot := by
  have hfinished : (scan.take ls a).finished.filter (·.1 == slot) = scan.finished.filter (·.1 == slot) := by
    unfold RunScan.take
    split
    · split
      · rfl
      · simp [h.symm]
    · rfl
  rw [runsOf, runsOf, hfinished, (find?_take a slot).2 h]

theorem runs_concat_of_ne {slot : Nat} {a : Access} (h : slot ≠ a.slot) : runs ls (missing ++ [a]) slot = runs ls missing slot := by
  simp [runs, h.symm]

/-- The run of a single access spans it. -/
theorem Run.spans_single (a : Access) : (Run.single a).Spans [a] :=
  ⟨⟨a, rfl, rfl, rfl⟩, ⟨a, rfl, rfl, rfl⟩⟩

/-- A run that goes on with an access spans the group with the access. -/
theorem Run.Spans.goOn {group : List Access} {run : Run} (h : run.Spans group) {a : Access} (hkind : run.kind = a.kind) :
    Run.Spans (group ++ [a]) { run with last := a.index } := by
  obtain ⟨first, hfirst, hindex, hfirstKind⟩ := h.first
  refine ⟨⟨first, ?_, hindex, hfirstKind⟩, ⟨a, List.getLast?_concat, rfl, hkind.symm⟩⟩
  rw [List.head?_append, hfirst, Option.some_or]

/-- A run goes on with an access if the last access of its group and this one are of one variable. -/
theorem Run.goesOn_eq {run : Run} {a b : Access} (hindex : b.index = run.last) (hkind : b.kind = run.kind) (hslot : b.slot = a.slot) :
    run.goesOn ls a = sameRun ls b a := by
  rw [goesOn, sameRun, ← hindex, ← hkind, hslot]

/-- The pass keeps to the groups of the accesses it has taken. -/
structure RunScan.Follows (ls : Locals) (missing : List Access) (scan : RunScan) : Prop where
  spans : ∀ slot, List.Forall₂ Run.Spans (runs ls missing slot) (scan.runsOf slot)
  /-- A slot of which runs are finished has an open one. -/
  opened : ∀ slot, scan.opened.find? slot = none → scan.runsOf slot = []

theorem RunScan.follows_empty (ls : Locals) : RunScan.Follows ls [] ⟨.empty, []⟩ := ⟨fun _ => .nil, fun _ _ => rfl⟩

/-- Taking an access, the pass keeps to the groups: the open run of its slot is that of the last group, so the access goes into that
group exactly if the run goes on with it. -/
theorem RunScan.Follows.take (h : scan.Follows ls missing) (a : Access) : (scan.take ls a).Follows ls (missing ++ [a]) := by
  have hslot : List.Forall₂ Run.Spans (runs ls (missing ++ [a]) a.slot) ((scan.take ls a).runsOf a.slot) := by
    have hfilter : (missing ++ [a]).filter (·.slot == a.slot) = missing.filter (·.slot == a.slot) ++ [a] := by simp
    have hspans := h.spans a.slot
    rw [runs, hfilter]
    unfold RunScan.take
    split
    · rename_i run hopen
      rw [RunScan.runsOf, hopen, Option.toList_some] at hspans
      obtain ⟨groups, group, hruns, hgroups, hgroup⟩ := exists_of_forall₂_concat hspans
      obtain ⟨b, hb, hindex, hkind⟩ := hgroup.last
      have hgroup' : group ∈ runs ls missing a.slot := by
        rw [hruns]
        simp
      have hmem := mem_runs hgroup'
      have hbslot : b.slot = a.slot := (hmem.2.2 b (List.mem_of_getLast? hb)).2
      rw [Run.goesOn_eq hindex hkind hbslot]
      split
      · rename_i hsame
        rw [splitBy_concat_same hruns hb hsame]
        simp only [RunScan.runsOf, Keyed.find?_put_self, Option.toList_some]
        simp only [sameRun, Bool.and_eq_true, beq_iff_eq] at hsame
        exact List.rel_append hgroups (.cons (hgroup.goOn (hkind ▸ hsame.1)) .nil)
      · rename_i hsame
        rw [splitBy_concat_differ hruns hb (Bool.not_eq_true _ ▸ hsame)]
        simp only [RunScan.runsOf, Keyed.find?_put_self, Option.toList_some, List.filter_append, List.map_append]
        refine List.rel_append (List.rel_append hgroups ?_) (.cons (Run.spans_single a) .nil)
        simpa using hgroup
    · rename_i hopen
      have hnone := h.opened a.slot hopen
      rw [hnone, List.forall₂_nil_right_iff, runs, List.splitBy_eq_nil] at hspans
      simp only [RunScan.runsOf, hopen, Option.toList_none, List.append_nil] at hnone
      rw [hspans]
      simp only [RunScan.runsOf, Keyed.find?_put_self, Option.toList_some, hnone]
      exact .cons (Run.spans_single a) .nil
  refine ⟨?_, ?_⟩
  · intro slot
    by_cases heq : slot = a.slot
    · exact heq ▸ hslot
    · rw [runs_concat_of_ne heq, RunScan.runsOf_take heq]
      exact h.spans slot
  · intro slot hopen
    by_cases heq : slot = a.slot
    · obtain ⟨run, hrun⟩ := (RunScan.find?_take a slot).1 heq
      rw [hrun] at hopen
      cases hopen
    · rw [(RunScan.find?_take a slot).2 heq] at hopen
      rw [RunScan.runsOf_take heq]
      exact h.opened slot hopen

/-- The whole pass keeps to the groups of the accesses that no instance covers. -/
theorem RunScan.Follows.foldl (h : scan.Follows ls missing) (as : List Access) :
    (as.foldl (RunScan.step ls) scan).Follows ls (missing ++ as.filter fun a => (ls.find? a.slot a.index).isNone) := by
  induction as generalizing scan missing with
  | nil => simpa using h
  | cons a as ih =>
    rw [List.foldl_cons, RunScan.step]
    cases hfind : ls.find? a.slot a.index with
    | some id =>
      rw [if_pos Option.isSome_some, List.filter_cons_of_neg (by simp [hfind])]
      exact ih h
    | none =>
      rw [if_neg (by simp), List.filter_cons_of_pos (by simp [hfind])]
      simpa using ih (h.take a)

/-- The runs that are collected for a slot are the spans of its groups, in order. -/
theorem collectRuns_spans (ls : Locals) (code : List Insn) (slot : Nat) :
    List.Forall₂ Run.Spans (runs ls (uncovered ls code) slot) (((collectRuns ls code).filter (·.1 == slot)).map (·.2)) := by
  have hfollows := (RunScan.follows_empty ls).foldl (accesses code)
  have hspans := hfollows.spans slot
  rw [List.nil_append, ← uncovered] at hspans
  have hopened : ∀ m : Keyed Nat Run, (m.entries.filter (·.1 == slot)).map (·.2) = (m.find? slot).toList := by
    intro m
    rw [Keyed.filter_entries]
    cases m.find? slot with
    | none => rfl
    | some run => rfl
  rw [collectRuns, List.filter_append, List.map_append, hopened]
  exact hspans

end

/-! ## Sorting the runs -/

theorem runBefore_iff {a b : Nat × Run} :
    runBefore a b = true ↔ a.1 < b.1 ∨ a.1 = b.1 ∧ a.2.first ≤ b.2.first := by
  simp [runBefore]

/-- The runs of a slot are collected in the order of the code. -/
theorem collectRuns_ascending (ls : Locals) (code : List Insn) (slot : Nat) :
    ((collectRuns ls code).filter (·.1 == slot)).Pairwise fun a b => a.2.first < b.2.first := by
  have hruns : (((collectRuns ls code).filter (·.1 == slot)).map (·.2)).Pairwise fun run run' => run.first < run'.first := by
    refine pairwise_of_forall₂ (collectRuns_spans ls code slot) (runs_ascending (uncovered_ascending ls code) ls slot).2 ?_
    intro group run group' run' hspans hspans' hbefore
    obtain ⟨a, ha, haindex, _⟩ := hspans.first
    obtain ⟨b, hb, hbindex, _⟩ := hspans'.first
    have hlt := hbefore a (List.mem_of_head? ha) b (List.mem_of_head? hb)
    omega
  rwa [List.pairwise_map] at hruns

/-- The slot and the first access tell which run it is. -/
theorem eq_of_mem_collectRuns {ls : Locals} {code : List Insn} {a b : Nat × Run} (ha : a ∈ collectRuns ls code)
    (hb : b ∈ collectRuns ls code) (hslot : a.1 = b.1) (hfirst : a.2.first = b.2.first) : a = b := by
  by_contra hne
  have hdiffer := (collectRuns_ascending ls code a.1).imp fun h => Nat.ne_of_lt h
  have hsymm : Std.Symm fun a b : Nat × Run => a.2.first ≠ b.2.first := ⟨fun _ _ => Ne.symm⟩
  exact hdiffer.forall (List.mem_filter.2 ⟨ha, by simp⟩) (List.mem_filter.2 ⟨hb, by simp [hslot]⟩) hne hfirst

/-- Two lists of the same collected runs that are both sorted are equal, whatever the sorting. -/
theorem eq_of_perm_of_sorted {ls : Locals} {code : List Insn} {listed listed' : List (Nat × Run)} (hperm : listed.Perm listed')
    (hmem : ∀ run ∈ listed', run ∈ collectRuns ls code) (hsorted : listed.Pairwise fun a b => runBefore a b = true)
    (hsorted' : listed'.Pairwise fun a b => runBefore a b = true) : listed = listed' := by
  refine List.Perm.eq_of_pairwise ?_ hsorted hsorted' hperm
  intro a b ha hb hab hba
  rw [runBefore_iff] at hab hba
  exact eq_of_mem_collectRuns (hmem a (hperm.mem_iff.1 ha)) (hmem b hb) (by omega) (by omega)

theorem insertRun_eq_orderedInsert (run : Nat × Run) (listed : List (Nat × Run)) :
    insertRun run listed = listed.orderedInsert (fun a b => runBefore a b = true) run := by
  induction listed with
  | nil => rfl
  | cons other rest ih => rw [insertRun, List.orderedInsert_cons, ih]

theorem sortRuns_eq_insertionSort (listed : List (Nat × Run)) :
    sortRuns listed = listed.insertionSort fun a b => runBefore a b = true := by
  induction listed with
  | nil => rfl
  | cons run rest ih => rw [sortRuns, List.foldr_cons, ← sortRuns, ih, insertRun_eq_orderedInsert, List.insertionSort_cons]

/-- Sorting lists the same runs. -/
theorem sortRuns_perm (listed : List (Nat × Run)) : (sortRuns listed).Perm listed := by
  rw [sortRuns_eq_insertionSort]
  exact List.perm_insertionSort _ _

/-- Sorting puts the runs in order. -/
theorem sortRuns_sorted (listed : List (Nat × Run)) : (sortRuns listed).Pairwise fun a b => runBefore a b = true := by
  have htotal : Std.Total fun a b : Nat × Run => runBefore a b = true := by
    refine ⟨fun a b => ?_⟩
    simp only [runBefore_iff]
    omega
  have htrans : IsTrans (Nat × Run) fun a b => runBefore a b = true := by
    refine ⟨fun a b c => ?_⟩
    simp only [runBefore_iff]
    omega
  rw [sortRuns_eq_insertionSort]
  exact List.pairwise_insertionSort _ _

/-- Sorting leaves the runs of a slot in the order in which they were collected. -/
theorem filter_sortRuns (ls : Locals) (code : List Insn) (slot : Nat) :
    (sortRuns (collectRuns ls code)).filter (·.1 == slot) = (collectRuns ls code).filter (·.1 == slot) := by
  refine eq_of_perm_of_sorted ((sortRuns_perm _).filter _) (fun run hrun => (List.mem_filter.1 hrun).1)
    ((sortRuns_sorted _).sublist List.filter_sublist) ?_
  refine (collectRuns_ascending ls code slot).imp_of_mem ?_
  intro a b ha hb hlt
  have haslot := eq_of_beq (List.mem_filter.1 ha).2
  have hbslot := eq_of_beq (List.mem_filter.1 hb).2
  rw [runBefore_iff]
  omega

/-- However the collected runs are listed and by whatever means they are sorted, the same instances explain them. -/
theorem explainRuns_of_perm {types : Keyed Nat String} {ls : Locals} {code : List Insn} {listed : List (Nat × Run)}
    (hperm : listed.Perm (collectRuns ls code)) (hsorted : listed.Pairwise fun a b => runBefore a b = true) :
    explainRuns types none 0 listed = synthesized types ls code := by
  have hsame : listed = sortRuns (collectRuns ls code) :=
    eq_of_perm_of_sorted (hperm.trans (sortRuns_perm _).symm) (fun run hrun => (sortRuns_perm _).mem_iff.1 hrun) hsorted
      (sortRuns_sorted _)
  rw [hsame, synthesized]

/-! ## Numbering the runs -/

/-- In a list sorted by slot, the runs of a slot are numbered one after the other. -/
theorem filter_explainRuns {types : Keyed Nat String} {previous : Option Nat} {n : Nat} {listed : List (Nat × Run)}
    (hsorted : listed.Pairwise fun a b => a.1 ≤ b.1) (hprevious : ∀ slot ∈ previous, ∀ run ∈ listed, slot ≤ run.1) (slot : Nat) :
    (explainRuns types previous n listed).filter (·.slot == slot) =
      ((listed.filter (·.1 == slot)).zipIdx (if previous = some slot then n + 1 else 0)).map fun run =>
        runLocal types slot run.2 run.1.2 := by
  induction listed generalizing previous n with
  | nil => rfl
  | cons first rest ih =>
    obtain ⟨slot', run⟩ := first
    obtain ⟨hfirst, hrest⟩ := List.pairwise_cons.1 hsorted
    have hlast : ∀ slot ∈ some slot', ∀ run ∈ rest, slot ≤ run.1 := by
      intro s hs run hrun
      rw [Option.mem_some_iff] at hs
      exact hs ▸ hfirst run hrun
    have hih := fun n => @ih (some slot') n hrest hlast
    rw [explainRuns, List.filter_cons, List.filter_cons]
    by_cases hslot : slot' = slot
    · subst hslot
      simp [runLocal, hih]
    · have hne : ¬(some slot' : Option Nat) = some slot := by simpa using hslot
      simp only [runLocal, beq_eq_false_iff_ne.2 hslot, Bool.false_eq_true, if_false, hih, if_neg hne]
      split
      · -- The runs of the slot before were all listed before this one.
        rename_i hprev
        have hnone : rest.filter (·.1 == slot) = [] := by
          rw [List.filter_eq_nil_iff]
          intro other hother hsame
          have hle := hprevious slot hprev (slot', run) List.mem_cons_self
          have hle' := hfirst other hother
          have heq := eq_of_beq hsame
          dsimp only at hle hle'
          omega
        rw [hnone]
        rfl
      · rfl

/-- The synthesized instances of a slot explain the groups of its accesses one by one, whatever happens in the other slots. -/
theorem synthesized_explains_runs (types : Keyed Nat String) (ls : Locals) (code : List Insn) (slot : Nat) :
    List.Forall₂ (fun group l => ∃ run : Run, run.Spans group.1 ∧ l = runLocal types slot group.2 run)
      (runs ls (uncovered ls code) slot).zipIdx ((synthesized types ls code).filter (·.slot == slot)) := by
  have hsorted : (sortRuns (collectRuns ls code)).Pairwise fun a b => a.1 ≤ b.1 := by
    refine (sortRuns_sorted _).imp ?_
    intro a b hab
    rw [runBefore_iff] at hab
    omega
  rw [synthesized, filter_explainRuns hsorted (by simp), filter_sortRuns]
  have hspans := List.forall₂_map_right_iff.1 (collectRuns_spans ls code slot)
  refine List.forall₂_map_right_iff.2 ((forall₂_zipIdx hspans 0).imp ?_)
  rintro ⟨group, n⟩ ⟨run, n'⟩ ⟨hn, hrun⟩
  exact ⟨run.2, hrun, by rw [hn]⟩

end Method

end CodeLift
