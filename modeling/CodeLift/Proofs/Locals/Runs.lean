import CodeLift.Proofs.Locals.CaughtTypes
import CodeLift.Proofs.Locals.Phases

/-!
# Synthesized instances are the maximal runs of accesses

The accesses of a slot that no parameter, declared variable or copy covers fall into groups: two neighbours are of one group unless
they differ in the kind of value or a known instance starts between them. These conditions leave one way to group the accesses
(`Locals.Groups`), and the synthesized instances of the slot are its groups, in order, each named after the slot and its number.
-/

namespace CodeLift

open Method (Access Run accesses runs uncovered sameRun runLocal synthesized collectRuns runBefore explainRuns)

/-- The kind of value that a variable of a type holds. -/
def ValueKind.ofType (descriptor : String) : ValueKind :=
  match descriptor.toList with
  | 'L' :: _ | '[' :: _ => .reference
  | ['J'] => .long
  | ['F'] => .float
  | ['D'] => .double
  | _ => .int

/-- Whether an instance comes from a parameter, from the table of declared variables or from a copy. -/
def Local.isKnown (l : Local) : Bool := l.origin != .synthesized

/-- The name of the `n`th variable that is made up for a slot. -/
def runName (slot : Nat) : Nat → String
  | 0 => "var" ++ toString slot
  | n + 1 => "var" ++ toString slot ++ "_" ++ toString (n + 1)

namespace Locals

/-- The accesses of a slot that no known instance covers, ascending. -/
def unexplained (ls : Locals) (code : List Insn) (slot : Nat) : List Access :=
  (accesses code).filter fun a =>
    a.slot == slot && !ls.all.any fun l => l.isKnown && l.slot == slot && decide (a.index ∈ l.span)

/-- Two accesses of a slot, the first before the second, are of different variables: they differ in the kind of value, or a known
instance of the slot starts between them. -/
def Separates (ls : Locals) (a b : Access) : Prop :=
  a.kind ≠ b.kind ∨
    ∃ l ∈ ls.all, l.isKnown = true ∧ l.slot = a.slot ∧ a.index < l.span.start ∧ l.span.start < b.index

/-- The accesses of a slot that no known instance covers, split exactly between neighbours that are of different variables. -/
structure Groups (ls : Locals) (code : List Insn) (slot : Nat) (groups : List (List Access)) : Prop where
  flatten_eq : groups.flatten = ls.unexplained code slot
  nonempty : ∀ group ∈ groups, group ≠ []
  together : ∀ group ∈ groups, group.IsChain fun a b => ¬ls.Separates a b
  apart : groups.IsChain fun group next => ∃ a b, group.getLast? = some a ∧ next.head? = some b ∧ ls.Separates a b

/-- The synthesized instances of a slot, in the order of the table. -/
def synthesizedOf (ls : Locals) (slot : Nat) : List Local := ls.all.filter fun l => !l.isKnown && l.slot == slot

end Locals

/-- An instance reaches from the first access of a group to one past the last, and is named as the `n`th of its slot. -/
structure Local.NamesGroup (l : Local) (group : List Access) (n : Nat) : Prop where
  span_eq : ∃ first last, group.head? = some first ∧ group.getLast? = some last ∧ l.span = ⟨first.index, last.index + 1⟩
  name_eq : l.name = runName l.slot n

/-! ## Names -/

/-- The digits at the start of a number's name are the number. -/
theorem takeWhile_isDigit_repr (n : Nat) {rest : List Char} (h : ∀ c ∈ rest.head?, c.isDigit = false) :
    (n.repr.toList ++ rest).takeWhile Char.isDigit = n.repr.toList := by
  have hdigits : ∀ c ∈ n.repr.toList, c.isDigit = true := by
    intro c hc
    rw [Nat.toList_repr] at hc
    exact Nat.isDigit_of_mem_toDigits (by decide) (by decide) hc
  rw [List.takeWhile_append_of_pos hdigits]
  cases rest with
  | nil => simp
  | cons c rest => simp [h c rfl]

/-- The digits of a number tell the number. -/
theorem eq_of_toList_repr {m n : Nat} (h : m.repr.toList = n.repr.toList) : m = n := by
  have hvalue := congrArg (fun digits => Nat.ofDigitChars 10 digits 0) h
  simpa only [Nat.toList_repr, Nat.ofDigitChars_toDigits (by decide : 1 < 10) (Nat.le_refl 10)] using hvalue

/-- What follows the slot in the name of a variable that is made up. -/
def runSuffix : Nat → List Char
  | 0 => []
  | n + 1 => '_' :: (n + 1).repr.toList

/-- The name of a run is its slot and a suffix. -/
theorem toList_runName (slot n : Nat) : (runName slot n).toList = "var".toList ++ (slot.repr.toList ++ runSuffix n) := by
  cases n with
  | zero => simp [runName, runSuffix]
  | succ n => simp [runName, runSuffix]

/-- The slot in a name ends where the digits end, so the name tells the slot and the number. -/
theorem runName_inj {slot slot' n n' : Nat} (h : runName slot n = runName slot' n') : slot = slot' ∧ n = n' := by
  have hsuffix : ∀ k, ∀ c ∈ (runSuffix k).head?, c.isDigit = false := by
    intro k c hc
    cases k with
    | zero => cases hc
    | succ k =>
      cases hc
      decide
  have hlists : slot.repr.toList ++ runSuffix n = slot'.repr.toList ++ runSuffix n' := by
    have hchars := congrArg String.toList h
    rw [toList_runName, toList_runName] at hchars
    exact List.append_cancel_left hchars
  have hdigits := congrArg (List.takeWhile Char.isDigit) hlists
  rw [takeWhile_isDigit_repr slot (hsuffix n), takeWhile_isDigit_repr slot' (hsuffix n')] at hdigits
  have hslot : slot = slot' := eq_of_toList_repr hdigits
  subst hslot
  refine ⟨rfl, ?_⟩
  have hrest := List.append_cancel_left hlists
  cases n with
  | zero =>
    cases n' with
    | zero => rfl
    | succ n' => cases hrest
  | succ n =>
    cases n' with
    | zero => cases hrest
    | succ n' =>
      simp only [runSuffix, List.cons.injEq, true_and] at hrest
      exact eq_of_toList_repr hrest

theorem name_runLocal (types : Keyed Nat String) (slot n : Nat) (run : Run) :
    (runLocal types slot n run).name = runName slot n := by
  cases n with
  | zero => simp [runLocal, runName]
  | succ n => simp [runLocal, runName, String.append_assoc]

/-! ## Kinds -/

/-- What a handler catches is held as a reference. -/
theorem ofType_descriptor_catchType (c : CatchType) : ValueKind.ofType c.descriptor = .reference := by
  cases c with
  | any => decide
  | ofClass name => simp [ValueKind.ofType, CatchType.descriptor]

theorem ofType_descriptor (kind : ValueKind) : ValueKind.ofType kind.descriptor = kind := by
  cases kind <;> decide

/-- Types that handlers give are held as references. -/
def Method.TypesReferences (types : Keyed Nat String) : Prop :=
  ∀ index descriptor, types.find? index = some descriptor → ValueKind.ofType descriptor = .reference

/-- A variable that is made up holds values of the kind of its run. -/
theorem ofType_runLocal {types : Keyed Nat String} (htypes : Method.TypesReferences types) (slot n : Nat) (run : Run) :
    ValueKind.ofType (runLocal types slot n run).descriptor = run.kind := by
  simp only [runLocal]
  by_cases hkind : run.kind = .reference
  · rw [if_pos hkind]
    cases hcaught : types.find? run.first with
    | none => exact ofType_descriptor run.kind
    | some descriptor =>
      rw [Option.getD_some, hkind]
      exact htypes run.first descriptor hcaught
  · rw [if_neg hkind]
    exact ofType_descriptor run.kind

/-- What is noted of the stores of caught exceptions are types of references. -/
theorem Method.typesReferences_caughtTypes {m : Method} {labels : Labels} {types : Keyed Nat String}
    (h : m.caughtTypes labels = .ok types) : Method.TypesReferences types := by
  intro index descriptor hfind
  rw [(caughtTypes_eq_ok h).2] at hfind
  obtain ⟨c, rfl⟩ := exists_catchType_of_caughtDescriptor? hfind
  exact ofType_descriptor_catchType c

/-! ## Groups -/

section

variable {types : Keyed Nat String} {known : Locals} {code : List Insn} {slot : Nat}

/-- The instances of a table are disjoint and known, and those that are added to it are synthesized. -/
structure Locals.CompletedBy (known : Locals) (new : List Local) : Prop where
  disjoint : known.Disjoint
  isKnown : ∀ l ∈ known.all, l.isKnown = true
  synthesized : ∀ l ∈ new, l.isKnown = false

/-- What is known of the completed table is what was known before. -/
theorem Locals.CompletedBy.mem_isKnown {new : List Local} (h : known.CompletedBy new) {l : Local} :
    l ∈ (known.addAll new).all ∧ l.isKnown = true ↔ l ∈ known.all := by
  rw [Locals.addAll_all, List.mem_append]
  constructor
  · rintro ⟨hl | hl, hknown⟩
    · exact hl
    · rw [h.synthesized l hl] at hknown
      cases hknown
  · intro hl
    exact ⟨.inl hl, h.isKnown l hl⟩

/-- Accesses are separated in the completed table as they were before. -/
theorem Locals.CompletedBy.separates_iff {new : List Local} (h : known.CompletedBy new) {a b : Access} :
    (known.addAll new).Separates a b ↔ sameRun known a b = false := by
  have hknown : (∃ l ∈ (known.addAll new).all, l.isKnown = true ∧ l.slot = a.slot ∧ a.index < l.span.start ∧
      l.span.start < b.index) ↔ ∃ l ∈ known.all, l.slot = a.slot ∧ a.index < l.span.start ∧ l.span.start < b.index := by
    simp only [← and_assoc, h.mem_isKnown]
  rw [Separates, hknown]
  simp only [sameRun, Bool.and_eq_false_iff, beq_eq_false_iff_ne, Bool.not_eq_false', List.any_eq_true, Bool.and_eq_true,
    decide_eq_true_eq, h.disjoint.mem_startsOf]
  constructor
  · rintro (hkind | ⟨l, hl, hslot, hafter, hbefore⟩)
    · exact .inl hkind
    · exact .inr ⟨l.span.start, ⟨l, hl, hslot, rfl⟩, hafter, hbefore⟩
  · rintro (hkind | ⟨_, ⟨l, hl, hslot, rfl⟩, hafter, hbefore⟩)
    · exact .inl hkind
    · exact .inr ⟨l, hl, hslot, hafter, hbefore⟩

/-- The completed table leaves unexplained what the known variables do not cover. -/
theorem Locals.CompletedBy.unexplained_eq {new : List Local} (h : known.CompletedBy new) :
    (known.addAll new).unexplained code slot = (uncovered known code).filter (·.slot == slot) := by
  rw [unexplained, uncovered, List.filter_filter]
  refine List.filter_congr ?_
  intro a _
  rw [Bool.eq_iff_iff]
  simp only [Bool.and_eq_true, beq_iff_eq, Bool.not_eq_true', List.any_eq_false, decide_eq_true_eq, Option.isNone_iff_eq_none,
    h.disjoint.find?_eq_none]
  constructor
  · rintro ⟨rfl, hout⟩
    refine ⟨rfl, ?_⟩
    intro l hl hslot hin
    obtain ⟨hmem, hknown⟩ := h.mem_isKnown.2 hl
    exact hout l hmem ⟨⟨hknown, hslot⟩, hin⟩
  · rintro ⟨rfl, hout⟩
    refine ⟨rfl, ?_⟩
    rintro l hl ⟨⟨hknown, hslot⟩, hin⟩
    exact hout l (h.mem_isKnown.1 ⟨hl, hknown⟩) hslot hin

/-- The runs are the one way to group the accesses. -/
theorem Locals.CompletedBy.groups_iff {new : List Local} (h : known.CompletedBy new) {groups : List (List Access)} :
    (known.addAll new).Groups code slot groups ↔ groups = runs known (uncovered known code) slot := by
  rw [eq_comm, runs, List.splitBy_eq_iff, ← h.unexplained_eq]
  have htogether : ∀ {a b : Access}, ¬(known.addAll new).Separates a b ↔ sameRun known a b = true := by
    intro a b
    rw [h.separates_iff, Bool.not_eq_false]
  have hapart : ∀ group next : List Access,
      (∃ a b, group.getLast? = some a ∧ next.head? = some b ∧ (known.addAll new).Separates a b) ↔
        ∃ (hg : group ≠ []) (hn : next ≠ []), sameRun known (group.getLast hg) (next.head hn) = false := by
    intro group next
    constructor
    · rintro ⟨a, b, ha, hb, hseparates⟩
      have hg : group ≠ [] := by
        rintro rfl
        cases ha
      have hn : next ≠ [] := by
        rintro rfl
        cases hb
      rw [List.getLast?_eq_some_getLast hg, Option.some.injEq] at ha
      rw [List.head?_eq_some_head hn, Option.some.injEq] at hb
      subst ha hb
      exact ⟨hg, hn, h.separates_iff.1 hseparates⟩
    · rintro ⟨hg, hn, hsame⟩
      exact ⟨_, _, List.getLast?_eq_some_getLast hg, List.head?_eq_some_head hn, h.separates_iff.2 hsame⟩
  constructor
  · rintro ⟨hflatten, hnonempty, hchains, hbetween⟩
    refine ⟨hflatten.symm, fun hnil => hnonempty [] hnil rfl, ?_, ?_⟩
    · intro group hgroup
      exact (hchains group hgroup).imp fun _ _ => htogether.1
    · exact hbetween.imp fun group next => (hapart group next).1
  · rintro ⟨hflatten, hnonempty, hchains, hbetween⟩
    refine ⟨hflatten.symm, ?_, ?_, ?_⟩
    · rintro group hgroup rfl
      exact hnonempty hgroup
    · intro group hgroup
      exact (hchains group hgroup).imp fun _ _ => htogether.2
    · exact hbetween.imp fun group next => (hapart group next).2

/-! ## Instances -/

/-- The synthesized instances of a slot are named after its groups. -/
theorem forall₂_namesGroup (types : Keyed Nat String) (known : Locals) (code : List Insn) (slot : Nat) :
    List.Forall₂ (fun group l => l.NamesGroup group.1 group.2) (runs known (uncovered known code) slot).zipIdx
      ((synthesized types known code).filter (·.slot == slot)) := by
  refine (Method.synthesized_explains_runs types known code slot).imp ?_
  rintro group _ ⟨run, hrun, rfl⟩
  obtain ⟨first, hfirst, hfirstIndex, _⟩ := hrun.first
  obtain ⟨last, hlast, hlastIndex, _⟩ := hrun.last
  exact ⟨⟨first, last, hfirst, hlast, by rw [hfirstIndex, hlastIndex, runLocal]⟩, name_runLocal _ _ _ _⟩

/-- No two synthesized instances have the same name. -/
theorem synthesized_names_differ : (synthesized types known code).Pairwise fun l l' => l.name ≠ l'.name := by
  have hnames : ∀ l ∈ synthesized types known code, ∃ n, l.name = runName l.slot n := by
    intro l hl
    obtain ⟨n, _, run, _, _, hrun⟩ := Method.exists_group_of_mem_synthesized hl
    exact ⟨n, (congrArg Local.name hrun).trans (name_runLocal types l.slot n run)⟩
  refine Method.pairwise_of_slots ?_ ?_
  · intro l hl l' hl' hne hname
    obtain ⟨n, hn⟩ := hnames l hl
    obtain ⟨n', hn'⟩ := hnames l' hl'
    rw [hn, hn'] at hname
    exact hne (runName_inj hname).1
  · intro slot
    have hnumbers : (runs known (uncovered known code) slot).zipIdx.Pairwise fun x y => x.2 < y.2 := by
      refine List.pairwise_map.1 ?_
      rw [List.zipIdx_map_snd]
      exact List.pairwise_lt_range'
    refine pairwise_of_forall₂ (Method.synthesized_explains_runs types known code slot) hnumbers ?_
    rintro group _ group' _ ⟨run, _, rfl⟩ ⟨run', _, rfl⟩ hlt hname
    rw [name_runLocal, name_runLocal] at hname
    exact absurd (runName_inj hname).2 (Nat.ne_of_lt hlt)

/-- All accesses of a run are of one kind. -/
theorem kind_of_mem_run {run : List Access} (h : run.IsChain fun a b => sameRun known a b = true) {first a : Access}
    (hfirst : run.head? = some first) (ha : a ∈ run) : a.kind = first.kind := by
  obtain ⟨rest, rfl⟩ := List.head?_eq_some_iff.1 hfirst
  have hkinds : (first :: rest).IsChain fun a b => b.kind = a.kind := by
    refine h.imp ?_
    intro a b hab
    simp only [sameRun, Bool.and_eq_true, beq_iff_eq] at hab
    exact hab.1.symm
  have hpairwise : (first :: rest).Pairwise fun a b => b.kind = a.kind :=
    have : IsTrans Access fun a b => b.kind = a.kind := ⟨fun _ _ _ hab hbc => hbc.trans hab⟩
    List.isChain_iff_pairwise.1 hkinds
  rcases List.mem_cons.1 ha with rfl | ha
  · rfl
  · exact (List.pairwise_cons.1 hpairwise).1 a ha

/-- An access that no known instance covers is of the kind of the synthesized instance that covers it. -/
theorem exists_synthesized_kind (htypes : Method.TypesReferences types) {a : Access} (ha : a ∈ uncovered known code) :
    ∃ l ∈ synthesized types known code, l.slot = a.slot ∧ a.index ∈ l.span ∧ ValueKind.ofType l.descriptor = a.kind := by
  obtain ⟨group, n, run, hagroup, hgroup, hrun, hmem⟩ := Method.exists_runLocal types ha
  refine ⟨_, hmem, rfl, (hrun.spansRun hgroup).mem_span hagroup, ?_⟩
  obtain ⟨first, hfirst, _, hkind⟩ := hrun.first
  rw [ofType_runLocal htypes, kind_of_mem_run (Method.mem_runs hgroup).2.1 hfirst hagroup, hkind]

/-- What is not known of the completed table is what was added. -/
theorem Locals.CompletedBy.filter_append {new : List Local} (h : known.CompletedBy new) :
    (known.all ++ new).filter (fun l => !l.isKnown) = new := by
  rw [List.filter_append, List.filter_eq_nil_iff.2, List.filter_eq_self.2, List.nil_append]
  · intro l hl
    rw [h.synthesized l hl]
    rfl
  · intro l hl
    rw [h.isKnown l hl]
    simp

/-- The synthesized variables of a slot are those added for it. -/
theorem Locals.CompletedBy.synthesizedOf_eq {new : List Local} (h : known.CompletedBy new) :
    (known.addAll new).synthesizedOf slot = new.filter (·.slot == slot) := by
  have hfilter : (known.addAll new).synthesizedOf slot =
      ((known.all ++ new).filter fun l => !l.isKnown).filter (·.slot == slot) := by
    rw [List.filter_filter, synthesizedOf, addAll_all]
    simp only [Bool.and_comm]
  rw [hfilter, h.filter_append]

/-- The groups of a slot are the spans of its synthesized instances. -/
theorem groups_name_instances (h : known.CompletedBy (synthesized types known code)) {groups : List (List Access)}
    (hgroups : (known.addAll (synthesized types known code)).Groups code slot groups) :
    List.Forall₂ (fun group l => l.NamesGroup group.1 group.2) groups.zipIdx
      ((known.addAll (synthesized types known code)).synthesizedOf slot) := by
  rw [h.synthesizedOf_eq, h.groups_iff.1 hgroups]
  exact forall₂_namesGroup types known code slot

/-- An access that is found in a synthesized instance is of its kind. -/
theorem kind_of_synthesized (htypes : Method.TypesReferences types) (h : known.CompletedBy (synthesized types known code)) {a : Access}
    (ha : a ∈ accesses code) {id : LocalId} {l : Local}
    (hfind : (known.addAll (synthesized types known code)).find? a.slot a.index = some id)
    (hget : (known.addAll (synthesized types known code)).get? id = some l) (hl : l.isKnown = false) :
    ValueKind.ofType l.descriptor = a.kind := by
  have hdisjoint := Method.disjoint_addAll_synthesized h.disjoint types code
  obtain ⟨l', hl', hslot, hin⟩ := hdisjoint.find?_eq_some.1 hfind
  obtain rfl : l' = l := Option.some.inj (hl'.symm.trans hget)
  -- The table is disjoint: an instance that covers the access is the one that is found.
  have hfound : ∀ x ∈ known.all ++ synthesized types known code, x.slot = a.slot → a.index ∈ x.span → x = l' := by
    intro x hx hxslot hxin
    rw [← Locals.addAll_all] at hx
    obtain ⟨id', hid'⟩ := List.mem_iff_getElem?.1 hx
    obtain rfl := hdisjoint.unique hget hid' (hslot.trans hxslot.symm) hin hxin
    exact Option.some.inj (hid'.symm.trans hget)
  by_cases hmissing : a ∈ uncovered known code
  · obtain ⟨made, hmade, hmadeSlot, hmadeIn, hkind⟩ := exists_synthesized_kind htypes hmissing
    rw [← hfound made (List.mem_append_right _ hmade) hmadeSlot hmadeIn]
    exact hkind
  · have hcovered : known.find? a.slot a.index ≠ none := by
      intro hnone
      exact hmissing (List.mem_filter.2 ⟨ha, by rw [hnone]; rfl⟩)
    obtain ⟨id', hid'⟩ := Option.ne_none_iff_exists'.1 hcovered
    obtain ⟨x, hx, hxslot, hxin⟩ := h.disjoint.find?_eq_some.1 hid'
    have hmem := List.mem_of_getElem? hx
    have hxknown := h.isKnown x hmem
    rw [hfound x (List.mem_append_left _ hmem) hxslot hxin, hl] at hxknown
    cases hxknown

end

/-- The known and the synthesized instances of a method. -/
theorem Method.completedBy_synthesized (m : Method) (type : MethodType) {labels : Labels} {declared : List Local}
    (h : m.variableTable.mapM (declaredLocal labels) = .ok declared) (types : Keyed Nat String) :
    (m.bindKnown type declared).locals.CompletedBy (synthesized types (m.bindKnown type declared).locals m.code) := by
  refine ⟨m.bindKnown_disjoint type declared, ?_, ?_⟩
  · intro l hl
    simpa [Local.isKnown] using origin_of_known h hl
  · intro l hl
    simpa [Local.isKnown] using origin_of_mem_synthesized hl

/-- For each slot there is one way to group the accesses that no parameter, declared variable or copy covers, split between
neighbours that differ in the kind of value or have a known instance start between them. The synthesized instances of the slot are
these groups in order, named after the slot and their number. All their names differ, and an access that is found in one of them is
of its kind. The order in which the runs left open are listed and the way in which runs are sorted do not matter: any list of the
runs that is sorted by slot and first access gives the same table. -/
theorem synthesized_instances_are_groups (m : Method) (labels : Labels) (events events' : List Event) (ls : Locals)
    (h : m.bindLocals labels events = .ok ls events') :
    (∀ slot, (∃! groups, ls.Groups m.code slot groups) ∧ ∀ groups, ls.Groups m.code slot groups →
      List.Forall₂ (fun group l => l.NamesGroup group.1 group.2) groups.zipIdx (ls.synthesizedOf slot)) ∧
    ((ls.all.filter fun l => !l.isKnown).map (·.name)).Nodup ∧
    (∀ a ∈ accesses m.code, ∀ id l, ls.find? a.slot a.index = some id → ls.get? id = some l → l.isKnown = false →
      ValueKind.ofType l.descriptor = a.kind) ∧
    ∃ type declared types, MethodType.parse m.descriptor = .ok type ∧
      m.variableTable.mapM (Method.declaredLocal labels) = .ok declared ∧ m.caughtTypes labels = .ok types ∧
      ∀ listed, listed.Perm (collectRuns (m.bindKnown type declared).locals m.code) →
        (listed.Pairwise fun run run' => runBefore run run' = true) →
          (explainRuns types none 0 listed).foldlM Locals.insert? (m.bindKnown type declared).locals = some ls := by
  obtain ⟨type, declared, types, htype, hdeclared, htypes, rfl⟩ := Method.bindLocals_eq_addAll h
  have hcompleted := m.completedBy_synthesized type hdeclared types
  refine ⟨?_, ?_, ?_, type, declared, types, htype, hdeclared, htypes, ?_⟩
  · intro slot
    refine ⟨⟨_, hcompleted.groups_iff.2 rfl, fun groups => hcompleted.groups_iff.1⟩, ?_⟩
    intro groups hgroups
    exact groups_name_instances hcompleted hgroups
  · rw [Locals.addAll_all, hcompleted.filter_append]
    exact List.pairwise_map.2 synthesized_names_differ
  · intro a ha id l hfind hget hl
    exact kind_of_synthesized (Method.typesReferences_caughtTypes htypes) hcompleted ha hfind hget hl
  · intro listed hperm hsorted
    rw [Method.explainRuns_of_perm hperm hsorted]
    exact Method.foldlM_insert?_synthesized hcompleted.disjoint

/-- A method in which a declared variable and a change of kind part the accesses of slot 0, while slot 1 is used throughout. -/
def partedAccesses : Method where
  owner := "A"
  name := "m"
  descriptor := "()V"
  isStatic := true
  code := [.label ⟨0⟩, .constInt 1, .store .int 0, .constInt 2, .store .int 1, .label ⟨1⟩, .load .int 0, .pop, .label ⟨2⟩,
    .increment 0 1, .constNull, .store .reference 0, .load .int 1, .pop, .ret none]
  variableTable := [⟨0, "x", "I", none, ⟨1⟩, ⟨2⟩⟩]
  handlerTable := []

/-- The three groups of slot 0 become three variables, the one group of slot 1 becomes one. -/
theorem synthesized_instances_are_groups_parted :
    ∃ ls events, partedAccesses.bindLocals [(⟨0⟩, 0), (⟨1⟩, 5), (⟨2⟩, 8)] [] = .ok ls events ∧
      ls.all.map (fun l => (l.name, l.span)) = [("x", ⟨5, 8⟩), ("var0", ⟨2, 3⟩), ("var0_1", ⟨9, 10⟩), ("var0_2", ⟨11, 12⟩),
        ("var1", ⟨4, 13⟩)] ∧
      (∀ groups, ls.Groups partedAccesses.code 0 groups → groups.length = 3) ∧
      (∀ groups, ls.Groups partedAccesses.code 1 groups → groups.length = 1) := by
  have hbinds : succeedsWith (fun ls => decide (ls.all.map (fun l => (l.name, l.span)) = [("x", ⟨5, 8⟩), ("var0", ⟨2, 3⟩),
        ("var0_1", ⟨9, 10⟩), ("var0_2", ⟨11, 12⟩), ("var1", ⟨4, 13⟩)]) && (ls.synthesizedOf 0).length == 3 &&
        (ls.synthesizedOf 1).length == 1) (partedAccesses.bindLocals [(⟨0⟩, 0), (⟨1⟩, 5), (⟨2⟩, 8)] []) = true := by
    decide +kernel
  obtain ⟨ls, events, h, hls⟩ := exists_of_succeedsWith hbinds
  simp only [Bool.and_eq_true, decide_eq_true_eq, beq_iff_eq] at hls
  obtain ⟨⟨hall, hzero⟩, hone⟩ := hls
  obtain ⟨hgroups, _⟩ := synthesized_instances_are_groups _ _ _ _ _ h
  have hlength : ∀ slot groups, ls.Groups partedAccesses.code slot groups → groups.length = (ls.synthesizedOf slot).length := by
    intro slot groups hg
    have hforall := ((hgroups slot).2 groups hg).length_eq
    rwa [List.length_zipIdx] at hforall
  refine ⟨ls, events, h, hall, ?_, ?_⟩
  · intro groups hg
    rw [hlength 0 groups hg, hzero]
  · intro groups hg
    rw [hlength 1 groups hg, hone]

end CodeLift
