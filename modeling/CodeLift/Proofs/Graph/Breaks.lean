import CodeLift.Proofs.Actions
import CodeLift.Proofs.Graph.Built
import CodeLift.Proofs.Labels

/-!
# Where blocks end

`Source.EndsBlock` says at which instructions blocks end, by the code and the table of handlers alone. The producers cut the code
there and nowhere else (`Graph.isCut_ofSpans`), unless a label that the method refers to is not defined. Every label that it refers
to then starts a block.
-/

namespace CodeLift

/-- The labels that a method refers to, in its jumps and switches and in its table of handlers. -/
def Method.references (m : Method) : List Label :=
  m.code.flatMap Insn.targets ++ m.handlerTable.flatMap fun entry => [entry.start, entry.stop, entry.handler]

/-- A method refers to the targets of its jumps and to the labels of its handler table. -/
theorem Method.mem_references {m : Method} {label : Label} : label ∈ m.references ↔ (∃ insn ∈ m.code, label ∈ insn.targets) ∨
    ∃ entry ∈ m.handlerTable, label ∈ [entry.start, entry.stop, entry.handler] := by
  rw [references, List.mem_append, List.mem_flatMap, List.mem_flatMap]

/-- A plain instruction has no targets. -/
theorem Insn.isPlain_of_mem_targets {insn : Insn} {label : Label} (h : label ∈ insn.targets) : insn.isPlain = false := by
  cases insn with
  | jump test target => rfl
  | goto target => rfl
  | switch otherwise arms => rfl
  | _ => cases h

namespace Source

/-- A block ends at an instruction. -/
inductive EndsBlock (src : Source) (i : Nat) : Prop where
  | last (h : i + 1 = src.method.code.length)
  | leaves {insn : Insn} (hi : src.method.code[i]? = some insn) (h : insn.isPlain = false)
  | beforeLabel {label : Label} (hlabel : label ∈ src.method.references) (h : src.method.code[i + 1]? = some (.label label))
  | binding {entry : HandlerEntry} {handler : Nat} (hentry : entry ∈ src.method.handlerTable)
      (hhandler : src.method.code[handler]? = some (.label entry.handler)) (h : handlerBinding? src.method.code handler = some i)
  | scope {entry : HandlerEntry} {handler binding : Nat} (hentry : entry ∈ src.method.handlerTable)
      (hhandler : src.method.code[handler]? = some (.label entry.handler))
      (hbinding : handlerBinding? src.method.code handler = some binding)
      (h : handlerScopeEnd? src.method.code src.locals binding = some (i + 1))

/-! ## Labels -/

variable {src : Source}

/-- A label is found exactly where it stands. -/
theorem labelIndex_eq_ok (hlabels : src.method.labels = .ok src.labels) {label : Label} {index : Nat} :
    src.labelIndex label = .ok index ↔ src.method.code[index]? = some (.label label) := by
  rw [labelIndex, mapError_eq_ok, Method.index_eq_ok hlabels]

/-- A label that is looked up and not found is not defined. -/
theorem labelIndex_eq_error (hlabels : src.method.labels = .ok src.labels) {label : Label} {e : GraphError}
    (h : src.labelIndex label = .error e) : .label label ∉ src.method.code ∧ e = .labels (.unknown label) := by
  constructor
  · intro hmem
    obtain ⟨index, hindex⟩ := List.mem_iff_getElem?.1 hmem
    rw [(labelIndex_eq_ok hlabels).2 hindex] at h
    cases h
  · unfold labelIndex Labels.index at h
    cases hlookup : src.labels.lookup label with
    | some index =>
      rw [hlookup] at h
      cases h
    | none =>
      rw [hlookup] at h
      cases h
      rfl

/-! ## Labels that have to be defined -/

/-- The result is there only if the labels it depends on are defined, and is missing only because one of them is not. -/
def Resolves {α : Type} (src : Source) (x : Except GraphError α) (named : Label → Prop) : Prop :=
  match x with
  | .ok _ => ∀ label, named label → .label label ∈ src.method.code
  | .error e => ∃ label, named label ∧ .label label ∉ src.method.code ∧ e = .labels (.unknown label)

namespace Resolves

variable {α β : Type} {P Q : Label → Prop}

theorem ok (a : α) : Resolves src (.ok a) fun _ => False := fun _ h => h.elim

/-- Resolving the same labels is all that matters. -/
theorem congr {x : Except GraphError α} (h : Resolves src x P) (hPQ : ∀ label, P label ↔ Q label) : Resolves src x Q := by
  cases x with
  | ok a => exact fun label hlabel => h label ((hPQ label).2 hlabel)
  | error e =>
    obtain ⟨label, hlabel, hrest⟩ := h
    exact ⟨label, (hPQ label).1 hlabel, hrest⟩

/-- Actions in a row resolve the labels of each. -/
theorem bind {x : Except GraphError α} {f : α → Except GraphError β} (hx : Resolves src x P)
    (hf : ∀ a, Resolves src (f a) Q) : Resolves src (x >>= f) fun label => P label ∨ Q label := by
  cases x with
  | error e =>
    obtain ⟨label, hlabel, hrest⟩ := hx
    exact ⟨label, .inl hlabel, hrest⟩
  | ok a =>
    change Resolves src (f a) _
    have hfa := hf a
    cases hr : f a with
    | ok b =>
      rw [hr] at hfa
      rintro label (hlabel | hlabel)
      · exact hx label hlabel
      · exact hfa label hlabel
    | error e =>
      rw [hr] at hfa
      obtain ⟨label, hlabel, hrest⟩ := hfa
      exact ⟨label, .inr hlabel, hrest⟩

/-- A last step that cannot fail depends on no label. -/
theorem map {x : Except GraphError α} {f : α → β} (hx : Resolves src x P) : Resolves src (x >>= fun a => .ok (f a)) P :=
  (hx.bind fun a => ok (f a)).congr (by simp)

/-- Mapping resolves the labels of all. -/
theorem mapM {f : α → Except GraphError β} {P : α → Label → Prop} {xs : List α} (h : ∀ x ∈ xs, Resolves src (f x) (P x)) :
    Resolves src (xs.mapM f) fun label => ∃ x ∈ xs, P x label := by
  induction xs with
  | nil => exact (ok []).congr (by simp)
  | cons x xs ih =>
    rw [List.mapM_cons]
    have hrest := ih fun x' hx' => h x' (List.mem_cons_of_mem x hx')
    refine ((h x List.mem_cons_self).bind fun y => hrest.map).congr fun label => ?_
    simp

end Resolves

/-- Looking up a label resolves it. -/
theorem labelIndex_resolves (hlabels : src.method.labels = .ok src.labels) (label : Label) :
    Resolves src (src.labelIndex label) (· = label) := by
  cases h : src.labelIndex label with
  | ok index =>
    rintro _ rfl
    exact List.mem_of_getElem? ((labelIndex_eq_ok hlabels).1 h)
  | error e => exact ⟨label, rfl, labelIndex_eq_error hlabels h⟩

/-- Breaking before labels resolves them. -/
theorem labelBreaks_resolves (hlabels : src.method.labels = .ok src.labels) (labels : List Label) :
    Resolves src (src.labelBreaks labels) (· ∈ labels) := by
  refine (Resolves.map (Resolves.mapM fun label _ => (labelIndex_resolves hlabels label).map)).congr fun label => ?_
  simp

/-- Blocks have to end right before each of the labels. -/
theorem mem_labelBreaks (hlabels : src.method.labels = .ok src.labels) {labels : List Label} {breaks : List Nat}
    (h : src.labelBreaks labels = .ok breaks) {i : Nat} :
    i ∈ breaks ↔ ∃ label ∈ labels, src.method.code[i + 1]? = some (.label label) := by
  obtain ⟨found, hfound, h⟩ := bind_eq_ok.1 h
  cases h
  have hall := forall₂_of_mapM_ok hfound
  have hbreak : ∀ {label : Label} {r : Option Nat}, src.labelBreak label = .ok r →
      (r = some i ↔ src.method.code[i + 1]? = some (.label label)) := by
    intro label r hr
    obtain ⟨index, hindex, hr⟩ := bind_eq_ok.1 hr
    cases hr
    rw [← labelIndex_eq_ok hlabels, hindex]
    cases index with
    | zero => simp
    | succ index => simp
  rw [List.mem_filterMap]
  constructor
  · rintro ⟨r, hr, hi⟩
    obtain ⟨label, hlabel, hlabelBreak⟩ := exists_mem_of_forall₂_right hall hr
    exact ⟨label, hlabel, (hbreak hlabelBreak).1 hi⟩
  · rintro ⟨label, hlabel, hi⟩
    obtain ⟨r, hr, hlabelBreak⟩ := exists_mem_of_forall₂ hall hlabel
    exact ⟨r, hr, (hbreak hlabelBreak).2 hi⟩

end Source

/-! ## The producers -/

namespace Producer

variable {src : Source} {q : Insn → Bool}

/-- The instructions at which blocks have to end for those that pass a test, and for the labels they name. -/
def codeBreaks (src : Source) (q : Insn → Bool) : Except GraphError (List Nat) := do
  let breaks ← src.method.code.zipIdx.mapM fun (insn, index) =>
    if q insn then do return index :: (← src.labelBreaks insn.targets) else pure []
  return breaks.flatten

/-- Jumps break the code at instructions that are neither plain nor switches. -/
theorem jumps_breaks_eq (src : Source) : jumps.breaks src = codeBreaks src fun insn => !(insn.isPlain || insn.isSwitch) := by
  unfold jumps codeBreaks
  dsimp only
  congr 2
  funext ⟨insn, index⟩
  dsimp only
  by_cases h : (insn.isPlain || insn.isSwitch) = true
  · rw [if_pos h, if_neg (by simp [h])]
  · rw [if_neg h, if_pos (by simp [h])]

/-- Breaking at instructions resolves their targets. -/
theorem codeBreaks_resolves (hlabels : src.method.labels = .ok src.labels) (q : Insn → Bool) :
    src.Resolves (codeBreaks src q) fun label => ∃ insn ∈ src.method.code, q insn = true ∧ label ∈ insn.targets := by
  refine (Source.Resolves.map (Source.Resolves.mapM (P := fun item label => q item.1 = true ∧ label ∈ item.1.targets) ?_)).congr ?_
  · rintro ⟨insn, index⟩ _
    dsimp only
    split
    · rename_i hq
      refine (Source.labelBreaks_resolves hlabels _).map.congr fun label => ?_
      simp [hq]
    · rename_i hq
      refine (Source.Resolves.ok []).congr fun label => ?_
      simp [hq]
  · intro label
    constructor
    · rintro ⟨⟨insn, index⟩, hitem, h⟩
      exact ⟨insn, List.fst_mem_of_mem_zipIdx hitem, h⟩
    · rintro ⟨insn, hinsn, h⟩
      obtain ⟨index, hindex⟩ := List.mem_iff_getElem?.1 hinsn
      exact ⟨(insn, index), List.mem_zipIdx_iff_getElem?.2 hindex, h⟩

/-- The code is broken after the instructions and before their targets. -/
theorem mem_codeBreaks (hlabels : src.method.labels = .ok src.labels) {breaks : List Nat} (h : codeBreaks src q = .ok breaks)
    {i : Nat} : i ∈ breaks ↔ ∃ index insn, src.method.code[index]? = some insn ∧ q insn = true ∧
      (i = index ∨ ∃ label ∈ insn.targets, src.method.code[i + 1]? = some (.label label)) := by
  obtain ⟨parts, hparts, h⟩ := bind_eq_ok.1 h
  cases h
  rw [mem_flatten_of_mapM_ok hparts (R := fun item => q item.1 = true ∧
    (i = item.2 ∨ ∃ label ∈ item.1.targets, src.method.code[i + 1]? = some (.label label)))]
  · constructor
    · rintro ⟨⟨insn, index⟩, hitem, hi⟩
      exact ⟨index, insn, List.mem_zipIdx_iff_getElem?.1 hitem, hi⟩
    · rintro ⟨index, insn, hindex, hi⟩
      exact ⟨(insn, index), List.mem_zipIdx_iff_getElem?.2 hindex, hi⟩
  · rintro ⟨insn, index⟩ part hpart
    dsimp only at hpart ⊢
    split at hpart
    · rename_i hq
      obtain ⟨rest, hrest, hpart⟩ := bind_eq_ok.1 hpart
      cases hpart
      rw [List.mem_cons, Source.mem_labelBreaks hlabels hrest]
      simp [hq]
    · rename_i hq
      cases hpart
      simp [hq]

/-- Tries resolve the labels of the handler table. -/
theorem tries_resolves (hlabels : src.method.labels = .ok src.labels) : src.Resolves (tries.breaks src) fun label =>
    ∃ entry ∈ src.method.handlerTable, label ∈ [entry.start, entry.stop, entry.handler] := by
  refine Source.Resolves.map (Source.Resolves.mapM fun entry _ => ?_)
  refine ((Source.labelBreaks_resolves hlabels _).bind fun _ => (Source.labelIndex_resolves hlabels entry.handler).map).congr ?_
  simp

/-- The end of a drain is after some instruction. -/
theorem pos_of_drain? {lastUse depth index stop : Nat} {code : List Insn} (h : drain? lastUse depth index code = some stop) :
    0 < stop := by
  fun_induction drain? lastUse depth index code with
  | case5 =>
    cases h
    exact Nat.succ_pos _
  | case6 _ _ _ _ _ _ _ _ _ _ ih => exact ih h
  | _ => cases h

/-- The end of a handler's scope is after some instruction. -/
theorem pos_of_handlerScopeEnd? {code : List Insn} {ls : Locals} {binding stop : Nat}
    (h : handlerScopeEnd? code ls binding = some stop) : 0 < stop := by
  unfold handlerScopeEnd? at h
  split at h
  · obtain ⟨id, _, h⟩ := Option.bind_eq_some_iff.1 h
    obtain ⟨bound, _, h⟩ := Option.bind_eq_some_iff.1 h
    dsimp only at h
    split at h
    · exact pos_of_drain? h
    · cases h
  · cases h

/-- Inside a handler, blocks end at its binding and where its scope does. -/
theorem mem_bindingBreaks {handler i : Nat} : i ∈ tries.bindingBreaks src handler ↔
    ∃ binding, handlerBinding? src.method.code handler = some binding ∧
      (binding = i ∨ handlerScopeEnd? src.method.code src.locals binding = some (i + 1)) := by
  unfold tries.bindingBreaks
  cases handlerBinding? src.method.code handler with
  | none => simp
  | some binding =>
    dsimp only
    cases hscope : handlerScopeEnd? src.method.code src.locals binding with
    | none => simp [hscope, eq_comm]
    | some stop =>
      have hpos := pos_of_handlerScopeEnd? hscope
      have hstop : i = stop - 1 ↔ stop = i + 1 := by omega
      simp [hscope, hstop, eq_comm]

/-- Tries break the code before the labels of the table, and where bindings and scopes of handlers end. -/
theorem mem_tries_breaks (hlabels : src.method.labels = .ok src.labels) {breaks : List Nat} (h : tries.breaks src = .ok breaks)
    {i : Nat} : i ∈ breaks ↔ ∃ entry ∈ src.method.handlerTable,
      (∃ label ∈ [entry.start, entry.stop, entry.handler], src.method.code[i + 1]? = some (.label label)) ∨
      ∃ handler, src.method.code[handler]? = some (.label entry.handler) ∧ i ∈ tries.bindingBreaks src handler := by
  obtain ⟨parts, hparts, h⟩ := bind_eq_ok.1 h
  cases h
  refine mem_flatten_of_mapM_ok hparts fun entry part hpart => ?_
  obtain ⟨labels, hlabelBreaks, hpart⟩ := bind_eq_ok.1 hpart
  obtain ⟨handler, hhandler, hpart⟩ := bind_eq_ok.1 hpart
  cases hpart
  rw [List.mem_append, Source.mem_labelBreaks hlabels hlabelBreaks]
  refine or_congr_right ⟨fun hi => ⟨handler, (Source.labelIndex_eq_ok hlabels).1 hhandler, hi⟩, ?_⟩
  rintro ⟨handler', hhandler', hi⟩
  rw [(Source.labelIndex_eq_ok hlabels).2 hhandler'] at hhandler
  cases hhandler
  exact hi

/-- The producers know where blocks have to end exactly if every label that the method refers to is defined. -/
theorem breaks_resolves (hlabels : src.method.labels = .ok src.labels) :
    src.Resolves (all.mapM (·.breaks src)) (· ∈ src.method.references) := by
  simp only [all, List.mapM_cons, List.mapM_nil]
  have hjumps := jumps_breaks_eq src ▸ codeBreaks_resolves hlabels fun insn => !(insn.isPlain || insn.isSwitch)
  have hswitches : src.Resolves (switches.breaks src) _ := codeBreaks_resolves hlabels Insn.isSwitch
  refine (hjumps.bind fun _ => (hswitches.bind fun _ => (tries_resolves hlabels).map.map).map).congr fun label => ?_
  rw [Method.mem_references, ← or_assoc]
  refine or_congr_left ⟨?_, ?_⟩
  · rintro (⟨insn, hinsn, _, hlabel⟩ | ⟨insn, hinsn, _, hlabel⟩)
    · exact ⟨insn, hinsn, hlabel⟩
    · exact ⟨insn, hinsn, hlabel⟩
  · rintro ⟨insn, hinsn, hlabel⟩
    have hplain := Insn.isPlain_of_mem_targets hlabel
    by_cases hswitch : insn.isSwitch = true
    · exact .inr ⟨insn, hinsn, hswitch, hlabel⟩
    · exact .inl ⟨insn, hinsn, by simp [hplain, hswitch], hlabel⟩

/-- Blocks have to end where `EndsBlock` says, apart from the end of the code. -/
theorem mem_breaks (hlabels : src.method.labels = .ok src.labels) {breaks : List (List Nat)}
    (h : all.mapM (·.breaks src) = .ok breaks) {i : Nat} :
    i + 1 = src.method.code.length ∨ i ∈ breaks.flatten ↔ src.EndsBlock i := by
  obtain ⟨jumpBreaks, switchBreaks, tryBreaks, hjumps, hswitches, htries, rfl⟩ := breaks_eq_ok h
  rw [jumps_breaks_eq] at hjumps
  have hswitches : codeBreaks src Insn.isSwitch = .ok switchBreaks := hswitches
  simp only [List.flatten_cons, List.flatten_nil, List.append_nil, List.mem_append, mem_codeBreaks hlabels hjumps,
    mem_codeBreaks hlabels hswitches, mem_tries_breaks hlabels htries, mem_bindingBreaks]
  constructor
  · rintro (hlast | ⟨index, insn, hindex, hjump, hi⟩ | ⟨index, insn, hindex, hswitch, hi⟩ | ⟨entry, hentry, hi⟩)
    · exact .last hlast
    · rcases hi with rfl | ⟨label, hlabel, hi⟩
      · exact .leaves hindex (by simp_all)
      · exact .beforeLabel (Method.mem_references.2 (.inl ⟨insn, List.mem_of_getElem? hindex, hlabel⟩)) hi
    · rcases hi with rfl | ⟨label, hlabel, hi⟩
      · exact .leaves hindex (by cases insn <;> simp_all [Insn.isSwitch, Insn.isPlain])
      · exact .beforeLabel (Method.mem_references.2 (.inl ⟨insn, List.mem_of_getElem? hindex, hlabel⟩)) hi
    · rcases hi with ⟨label, hlabel, hi⟩ | ⟨handler, hhandler, binding, hbinding, rfl | hi⟩
      · exact .beforeLabel (Method.mem_references.2 (.inr ⟨entry, hentry, hlabel⟩)) hi
      · exact .binding hentry hhandler hbinding
      · exact .scope hentry hhandler hbinding hi
  · intro hends
    cases hends with
    | last hlast => exact .inl hlast
    | @leaves insn hi hplain =>
      by_cases hswitch : insn.isSwitch = true
      · exact .inr (.inr (.inl ⟨i, insn, hi, hswitch, .inl rfl⟩))
      · exact .inr (.inl ⟨i, insn, hi, by simp [hplain, hswitch], .inl rfl⟩)
    | beforeLabel hlabel hi =>
      rcases Method.mem_references.1 hlabel with ⟨insn, hinsn, hlabel⟩ | ⟨entry, hentry, hlabel⟩
      · obtain ⟨index, hindex⟩ := List.mem_iff_getElem?.1 hinsn
        have hplain := Insn.isPlain_of_mem_targets hlabel
        by_cases hswitch : insn.isSwitch = true
        · exact .inr (.inr (.inl ⟨index, insn, hindex, hswitch, .inr ⟨_, hlabel, hi⟩⟩))
        · exact .inr (.inl ⟨index, insn, hindex, by simp [hplain, hswitch], .inr ⟨_, hlabel, hi⟩⟩)
      · exact .inr (.inr (.inr ⟨entry, hentry, .inl ⟨_, hlabel, hi⟩⟩))
    | binding hentry hhandler hbinding => exact .inr (.inr (.inr ⟨_, hentry, .inr ⟨_, hhandler, i, hbinding, .inl rfl⟩⟩))
    | scope hentry hhandler hbinding hi => exact .inr (.inr (.inr ⟨_, hentry, .inr ⟨_, hhandler, _, hbinding, .inr hi⟩⟩))

end Producer

namespace Graph

/-- The code blocks of a graph are those into which the code is to be cut. -/
structure IsCut (src : Source) (g : Graph) : Prop where
  tiles : Span.Abut 0 ((List.range g.codeBlocks).map g.spanOf) src.method.code.length
  nonempty : ∀ id : Nat, id < g.codeBlocks → (g.spanOf id).start < (g.spanOf id).stop
  ends : ∀ id i : Nat, id < g.codeBlocks → i ∈ g.spanOf id → (src.EndsBlock i ↔ i + 1 = (g.spanOf id).stop)

variable {src : Source} {g h : Graph}

/-- The spans between all breaks are a cut of the code. -/
theorem isCut_ofSpans (hlabels : src.method.labels = .ok src.labels) {breaks : List (List Nat)}
    (hbreaks : Producer.all.mapM (·.breaks src) = .ok breaks) :
    IsCut src (ofSpans (Span.cutAt src.method.code.length breaks.flatten)) := by
  generalize hspans : Span.cutAt src.method.code.length breaks.flatten = spans
  have hspanOf : ∀ id : Nat, id < (ofSpans spans).codeBlocks →
      (ofSpans spans).spanOf id ∈ Span.cutAt src.method.code.length breaks.flatten := by
    intro id hid
    rw [hspans, spanOf_ofSpans (List.getElem?_eq_getElem hid)]
    exact List.getElem_mem hid
  refine ⟨?_, fun id hid => (Span.mem_cutAt (hspanOf id hid)).1, fun id i hid hi => ?_⟩
  · have htiles : (List.range (ofSpans spans).codeBlocks).map (ofSpans spans).spanOf = spans := map_spanOf_ofSpans spans
    rw [htiles, ← hspans]
    exact Span.cutAt_abut _ _
  · rw [← Producer.mem_breaks hlabels hbreaks, Span.last_iff_of_mem_cutAt (hspanOf id hid) hi]

/-- Graphs with the same code are cuts alike. -/
theorem IsCut.congr (hs : g.SameCode h) (hg : IsCut src g) : IsCut src h := by
  have hspanOf : (List.range h.codeBlocks).map h.spanOf = (List.range g.codeBlocks).map g.spanOf := by
    rw [hs.codeBlocks]
    exact List.map_congr_left fun id hid => hs.spanOf (List.mem_range.1 hid)
  refine ⟨hspanOf ▸ hg.tiles, fun id hid => ?_, fun id i hid hi => ?_⟩
  · rw [hs.codeBlocks] at hid
    rw [hs.spanOf hid]
    exact hg.nonempty id hid
  · rw [hs.codeBlocks] at hid
    rw [hs.spanOf hid] at hi ⊢
    exact hg.ends id i hid hi

/-- The code of a graph that has been built is cut where it has to be. -/
theorem isCut_of_build (hlabels : src.method.labels = .ok src.labels) (h : build src Producer.all = .ok g) : IsCut src g := by
  obtain ⟨breaks, hbreaks, _⟩ := bind_eq_ok.1 h
  have hcut := isCut_ofSpans hlabels hbreaks
  obtain ⟨jumpBreaks, switchBreaks, tryBreaks, hjumps, hswitches, _, rfl⟩ := Producer.breaks_eq_ok hbreaks
  simp only [List.flatten_cons, List.flatten_nil, List.append_nil] at hcut
  rw [build_eq hbreaks] at h
  obtain ⟨g₁, h₁, h⟩ := bind_eq_ok.1 h
  obtain ⟨g₂, h₂, h⟩ := bind_eq_ok.1 h
  obtain ⟨g', h₃, h⟩ := bind_eq_ok.1 h
  split at h
  · cases h
  · cases h
    exact hcut.congr (built_of_links hjumps hswitches h₁ h₂ h₃).2

/-- An instruction before which a block has to end starts a code block. -/
theorem IsCut.exists_start (hg : IsCut src g) {index : Nat} (hindex : index < src.method.code.length)
    (hends : 0 < index → src.EndsBlock (index - 1)) : ∃ id, id < g.codeBlocks ∧ (g.spanOf id).start = index := by
  obtain ⟨id, hid, hfrom, hto⟩ := exists_block_of_abut hg.tiles hindex
  refine ⟨id, hid, ?_⟩
  by_contra hne
  have hin : index - 1 ∈ g.spanOf id := ⟨by omega, by omega⟩
  have hstop := (hg.ends id _ hid hin).1 (hends (by omega))
  omega

/-- A code block is found by the instruction that it starts with. -/
theorem blockStartingAt?_isSome {id : Nat} {b : Block} (hid : id < g.codeBlocks) (hblock : g.block? id = some b) :
    (g.blockStartingAt? b.span.start).isSome = true := by
  rw [blockStartingAt?, List.findIdx?_isSome, List.any_eq_true]
  refine ⟨b, List.mem_of_getElem? (i := id) ?_, beq_self_eq_true _⟩
  rw [List.getElem?_take_of_lt hid, Array.getElem?_toList]
  exact hblock

/-- A label that the method refers to starts a code block where it is defined. -/
theorem IsCut.labelBlock_isOk (hlabels : src.method.labels = .ok src.labels) (hg : IsCut src g) {label : Label}
    (href : label ∈ src.method.references) (hdefined : .label label ∈ src.method.code) :
    ∃ id, src.labelBlock g label = .ok id := by
  obtain ⟨index, hindex⟩ := List.mem_iff_getElem?.1 hdefined
  have hlt := (List.getElem?_eq_some_iff.1 hindex).1
  -- A block ends right before the label, so the block that holds it starts with it.
  obtain ⟨id, hid, hstart⟩ := hg.exists_start hlt fun hpos => .beforeLabel href (by rw [Nat.sub_add_cancel hpos]; exact hindex)
  have hsome : (g.blockStartingAt? index).isSome = true := by
    cases hblock : g.block? id with
    | none =>
      have hnonempty := hg.nonempty id hid
      rw [spanOf, hblock] at hnonempty
      cases hnonempty
    | some b =>
      rw [spanOf, hblock] at hstart
      exact hstart ▸ blockStartingAt?_isSome hid hblock
  obtain ⟨target, htarget⟩ := Option.isSome_iff_exists.1 hsome
  refine ⟨target, bind_eq_ok.2 ⟨index, (Source.labelIndex_eq_ok hlabels).2 hindex, ?_⟩⟩
  rw [htarget]

end Graph

end CodeLift
