import CodeLift.Proofs.Coverage
import CodeLift.Proofs.Structuring.TryLayout
import Mathlib.Data.List.Forall2

/-!
# Every entry of the table of handlers is caught once

The handler markers of a region are used up by the clauses of the tries that it becomes: each clause is built from entries whose
handlers start where the clause does, and each of these entries protects the code of its try. A method has three markers for each
entry, so there is a one-to-one correspondence between entries and what clauses catch: `catches_correspond_to_entries`.
-/

namespace CodeLift

/-! ## Clauses and entries -/

/-- Sections stand for the code between two indices and, it may be, for the one code block that starts at the second. -/
def Protected (g : Graph) (tried : List Section) (lo hi : Nat) : Prop :=
  (∀ i, i ∈ Section.covered tried ↔ lo ≤ i ∧ i < hi) ∨
    ∃ id : Nat, id < g.codeBlocks ∧ (g.spanOf id).start = hi ∧ ∀ i, i ∈ Section.covered tried ↔ (lo ≤ i ∧ i < hi) ∨ i ∈ g.spanOf id

/-- A clause handles what an entry of the table says: it starts at the handler of the entry, and its try protects the code that the
entry protects. -/
structure Serves (src : Source) (g : Graph) (h : Handling) (entry : HandlerEntry) : Prop where
  handler : src.labelIndex entry.handler = .ok h.clause.header.start
  range : ∃ lo hi, src.labelIndex entry.start = .ok lo ∧ src.labelIndex entry.stop = .ok hi ∧ Protected g h.tried lo hi

/-- A clause is built from entries, given by their places in the table: it catches what they catch, in the order of the table. -/
structure BuiltFrom (src : Source) (g : Graph) (h : Handling) (entries : List Nat) : Prop where
  catches : List.Forall₂ (fun e caught => ∃ entry, src.method.handlerTable[e]? = some entry ∧ entry.catches = caught)
    entries h.clause.catches
  ascending : entries.Pairwise (· ≤ ·)
  serves : ∀ e ∈ entries, ∃ entry, src.method.handlerTable[e]? = some entry ∧ Serves src g h entry

/-! ## The handler markers of blocks -/

namespace Graph

variable {g : Graph}

/-- The entries whose handlers are marked by blocks. -/
def handled (g : Graph) (blocks : List BlockId) : List Nat := (blocks.filterMap (g.markerOf? .handler)).map (·.entry)

/-- The handlers of blocks in a row. -/
theorem handled_append (xs ys : List BlockId) : g.handled (xs ++ ys) = g.handled xs ++ g.handled ys := by
  rw [handled, List.filterMap_append, List.map_append]
  rfl

/-- The handlers of the same blocks in another order are the same in another order. -/
theorem handled_perm {xs ys : List BlockId} (h : xs.Perm ys) : (g.handled xs).Perm (g.handled ys) :=
  (h.filterMap _).map _

/-- Blocks without marks of handlers handle nothing. -/
theorem handled_eq_nil {blocks : List BlockId} (h : ∀ id ∈ blocks, g.markerOf? .handler id = none) : g.handled blocks = [] := by
  rw [handled, List.filterMap_eq_nil_iff.2 h, List.map_nil]

/-- A mark has one kind only. -/
theorem markerOf?_eq_none {kind kind' : MarkerKind} {id : BlockId} {mark : Marker} (h : g.markerOf? kind id = some mark)
    (hne : kind ≠ kind') : g.markerOf? kind' id = none := by
  obtain ⟨hmark, hkind⟩ := markerOf?_eq_some.1 h
  simp [markerOf?, hmark, hkind, hne]

/-- A block without a mark has none of any kind. -/
theorem markerOf?_of_unmarked {kind : MarkerKind} {id : BlockId} (h : g.marker? id = none) : g.markerOf? kind id = none := by
  rw [markerOf?, h]
  rfl

/-- The markers of a handler. -/
theorem handled_of_forall₂ {ids : List BlockId} {entries : List Nat}
    (h : List.Forall₂ (fun id entry => ∃ mark, g.markerOf? .handler id = some mark ∧ mark.entry = entry) ids entries) :
    g.handled ids = entries := by
  induction h with
  | nil => rfl
  | cons hid _ ih =>
    obtain ⟨mark, hmark, rfl⟩ := hid
    rw [← ih, handled, List.filterMap_cons_some hmark, List.map_cons]
    rfl

end Graph

/-- A binding is not before its handler. -/
theorem le_of_handlerBinding? {code : List Insn} {handler binding : Nat} (h : handlerBinding? code handler = some binding) :
    handler ≤ binding := by
  obtain ⟨index, hindex, h⟩ := Option.bind_eq_some_iff.1 h
  obtain ⟨offset, _, rfl⟩ := Option.map_eq_some_iff.1 hindex
  split at h
  · cases h
    exact Nat.le_add_right _ _
  · cases h
    exact Nat.le_add_right _ _
  · cases h

/-! ## What regions become -/

/-- Clauses that are built from the given entries, each of which is used once. -/
def Accounts (src : Source) (g : Graph) (handlers : List Handling) (ids : List Nat) : Prop :=
  ∃ entries, List.Forall₂ (BuiltFrom src g) handlers entries ∧ entries.flatten.Perm ids

theorem Accounts.nil {src : Source} {g : Graph} : Accounts src g [] [] := ⟨[], .nil, .refl _⟩

/-- Handlers in a row account for entries in a row. -/
theorem Accounts.append {src : Source} {g : Graph} {xs ys : List Handling} {ids ids' : List Nat} (h : Accounts src g xs ids)
    (h' : Accounts src g ys ids') : Accounts src g (xs ++ ys) (ids ++ ids') := by
  obtain ⟨entries, hbuilt, hperm⟩ := h
  obtain ⟨entries', hbuilt', hperm'⟩ := h'
  exact ⟨entries ++ entries', List.rel_append hbuilt hbuilt', List.flatten_append ▸ hperm.append hperm'⟩

/-- The order of the entries does not matter. -/
theorem Accounts.perm {src : Source} {g : Graph} {handlers : List Handling} {ids ids' : List Nat} (h : Accounts src g handlers ids)
    (hperm : ids.Perm ids') : Accounts src g handlers ids' := by
  obtain ⟨entries, hbuilt, hentries⟩ := h
  exact ⟨entries, hbuilt, hentries.trans hperm⟩

/-- Sections that stand for the code of their region, with clauses built from the entries whose handlers the region has. -/
def Attributed (subject : Subject) : RegionProperty := fun around r sections =>
  Covers subject.graph around r sections ∧ ∀ lo hi, subject.graph.Consecutive lo r.blocks hi →
    Accounts subject.toSource subject.graph (Section.handlersAll sections) (subject.graph.handled r.blocks)

section

variable {subject : Subject} {around : List Breakable} {r : Region} {lo hi : Nat}

/-- What is made of own blocks and of parts has the clauses of its parts. -/
theorem MadeOf.accounts (hset : subject.settings.commentOnError = false) (hr : subject.graph.Consecutive lo r.blocks hi)
    {start stop : Nat} {sections : List Section} {own : List BlockId} {parts : List Part}
    (h : MadeOf subject (Attributed subject) r start stop sections own parts) :
    Accounts subject.toSource subject.graph (Section.handlersAll sections)
      (subject.graph.handled (r.sub start stop none).blocks) := by
  have hparts : Accounts subject.toSource subject.graph (parts.flatMap (Section.handlersAll ·.sections))
      (subject.graph.handled (parts.flatMap (·.region.blocks))) := by
    have hinner := h.inner
    have hwithin := h.within
    clear h
    induction parts with
    | nil => exact .nil
    | cons p parts ih =>
      obtain ⟨⟨around, hp⟩, hinner⟩ := List.forall_mem_cons.1 hinner
      obtain ⟨⟨a, b, hle, _, hblocks⟩, hwithin⟩ := List.forall_mem_cons.1 hwithin
      obtain ⟨lo', hi', _, hsub, _⟩ := hr.sub hle
      rw [List.flatMap_cons, List.flatMap_cons, Graph.handled_append]
      exact ((hp.of_strict hset).2 lo' hi' (hblocks ▸ hsub)).append (ih hinner hwithin)
  have hown : subject.graph.handled own = [] :=
    Graph.handled_eq_nil fun id hid => Graph.markerOf?_of_unmarked (h.unmarked id hid)
  rw [h.handlers]
  refine hparts.perm (.trans ?_ (Graph.handled_perm h.blocks).symm)
  rw [Graph.handled_append, hown]
  exact .refl _

/-- The header block of a handler is no marker. -/
theorem HandlerAt.header_unmarked (hb : Graph.Built subject.toSource subject.graph) {pending : List Marker} {cursor : Nat}
    {shape : Recognizer.HandlerShape} {entries : List Nat} {used : List Marker} {handler : BlockId}
    (hat : Recognizer.HandlerAt subject r pending cursor shape entries used handler) :
    subject.graph.handled (if shape.start.binding.isSome then [handler] else []) = [] := by
  rw [hat.start]
  obtain ⟨hnone, _⟩ | ⟨binding, hsome, _, hstop, hbinding⟩ := Recognizer.handlerStart_cases subject handler
  · rw [hnone]
    rfl
  · rw [hsome, Option.isSome_some, if_pos rfl]
    refine Graph.handled_eq_nil fun id hid => ?_
    cases List.mem_singleton.1 hid
    cases hmark : subject.graph.markerOf? .handler handler with
    | none => rfl
    | some mark =>
      -- A marker holds no code, but the binding is the last instruction of the block.
      obtain ⟨i, hi⟩ := hb.spanOf_marker (Graph.markerOf?_eq_some.1 hmark).1
      have hle := le_of_handlerBinding? hbinding
      rw [hi] at hle hstop
      simp only [Span.before] at hle hstop
      omega

/-- The markers of a handler are those of its entries; the others of its region are in its body. -/
theorem HandlerAt.handled (hb : Graph.Built subject.toSource subject.graph) {pending : List Marker} {cursor : Nat}
    {shape : Recognizer.HandlerShape} {entries : List Nat} {used : List Marker} {handler : BlockId}
    (hat : Recognizer.HandlerAt subject r pending cursor shape entries used handler) :
    subject.graph.handled (r.sub cursor shape.bodyStop none).blocks =
      entries ++ subject.graph.handled (r.sub shape.bodyStart shape.bodyStop none).blocks := by
  rw [hat.blocks, Graph.handled_append, Graph.handled_append, HandlerAt.header_unmarked hb hat, List.nil_append, Region.sub,
    Nat.add_sub_cancel_left, Graph.handled_of_forall₂ hat.taken.entriesOf]

/-- A clause is built from the entries that its handler serves. -/
theorem HandlerAt.builtFrom (hb : Graph.Built subject.toSource subject.graph) {tried body : List Section} {first after : Nat}
    (htried : Protected subject.graph tried first after) {pending : List Marker} {cursor : Nat} {shape : Recognizer.HandlerShape}
    {entries : List Nat} {used : List Marker} {handler : BlockId}
    (hat : Recognizer.HandlerAt subject r pending cursor shape entries used handler)
    (hr : subject.graph.Consecutive lo (r.blocks.drop cursor) hi)
    (hmarkers : ∀ mark ∈ pending, ∃ id, subject.graph.marker? id = some mark)
    (hranges : ∀ mark ∈ pending, ∃ entry, subject.method.handlerTable[mark.entry]? = some entry ∧
      subject.labelIndex entry.start = .ok first ∧ subject.labelIndex entry.stop = .ok after) :
    BuiltFrom subject.toSource subject.graph ⟨tried, ⟨shape.catches, shape.start.boundTo, shape.start.header, body⟩⟩
      (Recognizer.inTableOrder entries) := by
  obtain ⟨hheader, hhandlers, _⟩ := hat.places hb hr
  refine ⟨Recognizer.catchTypes_cases hat.catches, Recognizer.inTableOrder_pairwise entries, fun e he => ?_⟩
  have he : e ∈ entries := (Recognizer.inTableOrder_perm entries).mem_iff.1 he
  obtain ⟨entry, hentry, hlabel⟩ := hhandlers e he
  rw [← hat.taken.entries_eq hb hmarkers] at he
  obtain ⟨mark, hmark, rfl⟩ := List.mem_map.1 he
  obtain ⟨entry', hentry', hstart, hstop⟩ := hranges mark (hat.taken.perm.mem_iff.2 (List.mem_append_left _ hmark))
  cases hentry.symm.trans hentry'
  exact ⟨entry, hentry, by rw [hlabel, ← hheader], first, after, hstart, hstop, htried⟩

/-- The clauses of a try are built from its entries, and the handlers inside them from the other entries of their region. -/
theorem ClausesTaken.accounts (hb : Graph.Built subject.toSource subject.graph) (hset : subject.settings.commentOnError = false)
    {tried : List Section} {first after : Nat} (htried : Protected subject.graph tried first after) {exit : Option BlockId}
    {pending : List Marker} {cursor stop : Nat} {clauses : List (CatchSection (List Section))}
    (h : ClausesTaken subject (Attributed subject) around r exit pending cursor clauses stop) (hcursor : cursor ≤ r.length)
    (hr : subject.graph.Consecutive lo (r.blocks.drop cursor) hi)
    (hmarkers : ∀ mark ∈ pending, ∃ id, subject.graph.marker? id = some mark)
    (hranges : ∀ mark ∈ pending, ∃ entry, subject.method.handlerTable[mark.entry]? = some entry ∧
      subject.labelIndex entry.start = .ok first ∧ subject.labelIndex entry.stop = .ok after) :
    ∃ inner, Accounts subject.toSource subject.graph (clauses.map (Handling.mk tried)) (pending.map (·.entry)) ∧
      Accounts subject.toSource subject.graph (Section.handlersClauses clauses) inner ∧
      (pending.map (·.entry) ++ inner).Perm (subject.graph.handled (r.sub cursor stop none).blocks) := by
  induction h generalizing lo with
  | nil cursor => exact ⟨[], .nil, .nil, by rw [Region.sub_self]; exact .refl _⟩
  | @cons mark rest cursor stop shape body others hshape hbody hothers ih =>
    obtain ⟨entries, used, handler, hat⟩ := Recognizer.handlerShape_cases hshape
    obtain ⟨_, _, mid, after', _, hbodyAt, hrest⟩ := hat.places hb hr
    obtain ⟨hstop, _⟩ := hothers.bounds hat.bodyStop_le
    have hleft : ∀ mark' ∈ shape.pending, mark' ∈ mark :: rest := fun mark' hmark =>
      hat.taken.perm.mem_iff.2 (List.mem_append_right _ hmark)
    obtain ⟨inner, hown, hinner, hperm⟩ := ih hat.bodyStop_le hrest (fun mark' hmark => hmarkers mark' (hleft mark' hmark))
      fun mark' hmark => hranges mark' (hleft mark' hmark)
    have hserved : ((mark :: rest).map (·.entry)).Perm (entries ++ shape.pending.map (·.entry)) := by
      have hmap := hat.taken.perm.map (·.entry)
      rwa [List.map_append, hat.taken.entries_eq hb hmarkers] at hmap
    have hclause : Accounts subject.toSource subject.graph
        [⟨tried, ⟨shape.catches, shape.start.boundTo, shape.start.header, body⟩⟩] entries := by
      refine ⟨[_], .cons (HandlerAt.builtFrom hb htried hat hr hmarkers hranges) .nil, ?_⟩
      rw [List.flatten_singleton]
      exact Recognizer.inTableOrder_perm entries
    have hbody := (hbody.of_strict hset).2 mid after' hbodyAt
    refine ⟨_, (hclause.append hown).perm hserved.symm, hbody.append hinner, ?_⟩
    rw [← Region.sub_append_sub none none none (by have := hat.markers_le; have := hat.bodyStart_le; omega) hstop,
      Graph.handled_append, HandlerAt.handled hb hat]
    refine ((hserved.append_right _).trans (perm_append_append_append_comm _ _ _ _)).trans ?_
    exact hperm.append_left _

/-- Blocks in a row cover the code between their bounds. -/
theorem Graph.Consecutive.mem_codeOf {g : Graph} {blocks : List BlockId} (h : g.Consecutive lo blocks hi) {i : Nat} :
    i ∈ g.codeOf blocks ↔ lo ≤ i ∧ i < hi := by
  have hle := h.le
  rw [← flatMap_indices_spanOf, Span.Abut.flatMap_indices h, List.mem_range'_1]
  omega

/-- The code of a try is what its entries protect, and at most one block more. -/
theorem ProtectedAt.protected (hb : Graph.Built subject.toSource subject.graph) {index : Nat} {shape : Recognizer.ProtectedShape}
    {last stop mid after : Nat} {tail : List BlockId} (hat : Recognizer.ProtectedAt subject.graph r index shape last stop tail)
    {body : List Section} (hcovers : (Section.covered body).Perm (subject.graph.codeOf shape.body.blocks))
    (hbody : subject.graph.Consecutive lo (r.sub (last + 1) stop none).blocks mid)
    (htail : subject.graph.Consecutive mid tail after) : Protected subject.graph body lo mid := by
  have hmem : ∀ i, i ∈ Section.covered body ↔ (lo ≤ i ∧ i < mid) ∨ i ∈ subject.graph.codeOf tail := fun i => by
    rw [hcovers.mem_iff, hat.body_blocks, Graph.codeOf_append, List.mem_append, hbody.mem_codeOf]
  obtain ⟨rfl, _⟩ | ⟨id, _, hunmarked, rfl, _⟩ := Recognizer.blockAfterEnd_cases hat.afterEnd
  · exact .inl fun i => by simp [hmem i, Graph.codeOf]
  · have hcode : ∀ i, i ∈ subject.graph.codeOf [id] ↔ i ∈ subject.graph.spanOf id := fun i => by
      simp [Graph.codeOf, Span.mem_indices]
    cases hempty : (subject.graph.spanOf id).isEmpty with
    | true =>
      refine .inl fun i => ?_
      rw [hmem i, Graph.codeOf, List.flatMap_singleton, Span.indices_eq_nil hempty]
      simp
    | false =>
      exact .inr ⟨id, hb.lt_codeBlocks_of_unmarked hunmarked hempty, htail.1, fun i => by rw [hmem i, hcode i]⟩

/-- The starts and the ends of a try mark no handlers. -/
theorem ProtectedAt.handled {index : Nat} {shape : Recognizer.ProtectedShape} {last stop : Nat} {tail : List BlockId}
    (hat : Recognizer.ProtectedAt subject.graph r index shape last stop tail) :
    subject.graph.handled (r.sub index shape.cursor none).blocks = subject.graph.handled shape.body.blocks := by
  have hstarts : subject.graph.handled (r.sub index (last + 1) none).blocks = [] := Graph.handled_eq_nil fun id hid => by
    obtain ⟨mark, hmark⟩ := hat.start_of_mem hid
    exact Graph.markerOf?_eq_none hmark (by decide)
  have hends : subject.graph.handled (r.sub stop (stop + shape.pending.length) none).blocks = [] :=
    Graph.handled_eq_nil fun id hid => by
      obtain ⟨mark, _, hmark⟩ := exists_mem_of_forall₂ hat.ends hid
      exact Graph.markerOf?_eq_none hmark (by decide)
  rw [hat.blocks, hat.body_blocks, Graph.handled_append, Graph.handled_append, Graph.handled_append, Graph.handled_append, hstarts,
    hends]
  rfl

/-- A try has the clauses of its code, those of its entries, and those in its handlers. -/
theorem TryTaken.accounts (hb : Graph.Built subject.toSource subject.graph) (hset : subject.settings.commentOnError = false)
    {index : Nat} (hr : subject.graph.Consecutive lo (r.blocks.drop index) hi) {found : Match}
    (h : TryTaken subject (Attributed subject) around r index found) :
    Accounts subject.toSource subject.graph (Section.handlersAll found.sections)
      (subject.graph.handled (r.sub index found.resume none).blocks) := by
  obtain ⟨shape, last, stop, tail, body, clauses, hat, hbody, hclauses, hsections⟩ := h
  obtain ⟨mid, after, hbodyAt, htailAt, hrest, hranges⟩ := hat.places hb hr
  obtain ⟨hcovers, haccounts⟩ := hbody.of_strict hset
  have hprotected := ProtectedAt.protected hb hat hcovers hbodyAt htailAt
  have hmarkers : ∀ mark ∈ shape.pending, ∃ id, subject.graph.marker? id = some mark := fun mark hmark => by
    obtain ⟨id, _, hid⟩ := exists_mem_of_forall₂_right hat.ends hmark
    exact ⟨id, (Graph.markerOf?_eq_some.1 hid).1⟩
  obtain ⟨inner, hown, hinner, hperm⟩ := hclauses.accounts hb hset hprotected hat.cursor_le hrest hmarkers hranges
  have hinside := haccounts lo after (by rw [hat.body_blocks]; exact Graph.consecutive_append.2 ⟨mid, hbodyAt, htailAt⟩)
  have hindex := hat.index_le_last
  have hlast := hat.last_lt_stop
  have hcursor := hat.cursor
  rw [hsections, Section.handlersAll, Section.handlers, Section.handlersAll_nil, List.append_nil,
    ← Region.sub_append_sub none none none (by omega : index ≤ shape.cursor) (hclauses.bounds hat.cursor_le).1,
    Graph.handled_append, ProtectedAt.handled hat]
  refine ((hinside.append hown).append hinner).perm ?_
  rw [List.append_assoc]
  exact hperm.append_left _

/-- A scanned region has clauses for all of its handlers. -/
theorem Scanned.accounts (hb : Graph.Built subject.toSource subject.graph) (hset : subject.settings.commentOnError = false)
    (hr : subject.graph.Consecutive lo r.blocks hi) {index : Nat} {sections : List Section}
    (h : Scanned subject (Attributed subject) around r index sections) :
    Accounts subject.toSource subject.graph (Section.handlersAll sections)
      (subject.graph.handled (r.sub index r.length none).blocks) := by
  induction h with
  | @done index hle =>
    rw [Region.sub, List.drop_eq_nil_of_le hle, List.take_nil]
    exact .nil
  | @step index found rest htaken _ _ ih =>
    obtain ⟨hlt, hle⟩ := htaken.bounds
    rw [Section.handlersAll_append, ← Region.sub_append_sub none none none (Nat.le_of_lt hlt) hle, Graph.handled_append]
    refine .append ?_ ih
    obtain ⟨own, parts, hmade⟩ | htry := htaken.parts fun id span target => hb.goto_nonempty
    · exact hmade.accounts hset hr
    · rw [← List.take_append_drop index r.blocks] at hr
      obtain ⟨lo', _, hfrom⟩ := Graph.consecutive_append.1 hr
      exact htry.accounts hb hset hfrom

/-- The handlers of a scanned region are attributed to entries of the table. -/
theorem Scanned.attributed (hb : Graph.Built subject.toSource subject.graph) (hset : subject.settings.commentOnError = false)
    {sections : List Section} (h : Scanned subject (Attributed subject) around r 0 sections) :
    Attributed subject around r sections := by
  constructor
  · have hcovers := Scanned.covers hb (h.mono fun _ _ _ hinner => hinner.1)
    rw [Region.sub_zero_length] at hcovers
    exact hcovers
  · intro lo hi hr
    have haccounts := h.accounts hb hset hr
    rw [Region.sub_zero_length] at haccounts
    exact haccounts

end

/-! ## Methods -/

/-- Every entry of the table has one handler marker. -/
theorem Graph.Built.handled_order {src : Source} {g : Graph} (hb : Graph.Built src g) :
    (g.handled g.order).Perm (List.range src.method.handlerTable.length) := by
  have hnodup : g.order.Nodup := hb.laidOut.perm.nodup_iff.2 List.nodup_range
  have hhandler : ∀ {id : BlockId} {mark : Marker}, g.markerOf? .handler id = some mark →
      mark.entry < src.method.handlerTable.length ∧
        id = g.codeBlocks + 3 * (src.method.handlerTable.length - 1 - mark.entry) + 2 := by
    intro id mark h
    obtain ⟨hmark, hkind⟩ := Graph.markerOf?_eq_some.1 h
    obtain ⟨entry, start, stop, handler, hm⟩ := hb.markerOf hmark
    have hself : id = mark.handler := by rw [hm.self_eq, Marker.self, hkind]
    exact ⟨(List.getElem?_eq_some_iff.1 hm.entryAt).1, by rw [hself, hm.handler_eq, hm.start_eq]⟩
  have hhandled : g.handled g.order = g.order.filterMap fun id => (g.markerOf? .handler id).map (·.entry) := by
    rw [Graph.handled, List.map_filterMap]
  rw [hhandled]
  refine (List.perm_ext_iff_of_nodup (List.Nodup.filterMap (fun id id' e he he' => ?_) hnodup) List.nodup_range).2 fun e => ?_
  · obtain ⟨mark, hmark, rfl⟩ := Option.map_eq_some_iff.1 he
    obtain ⟨mark', hmark', heq⟩ := Option.map_eq_some_iff.1 he'
    rw [(hhandler hmark).2, (hhandler hmark').2, heq]
  · rw [List.mem_filterMap, List.mem_range]
    constructor
    · rintro ⟨id, _, he⟩
      obtain ⟨mark, hmark, rfl⟩ := Option.map_eq_some_iff.1 he
      exact (hhandler hmark).1
    · intro he
      obtain ⟨_, _, _, _, _, _, htriple⟩ := hb.triple e _ (List.getElem?_eq_getElem he)
      refine ⟨_, hb.laidOut.perm.mem_iff.2 (List.mem_range.2 (Graph.lt_size_of_block? htriple.atHandler)), ?_⟩
      simp [Graph.markerOf?, Graph.marker?, htriple.atHandler]

/-- A place in what the clauses of all tries catch: a clause, and a place in its list. -/
abbrev CatchPlace (sections : List Section) : Type :=
  (clause : Fin (Section.handlersAll sections).length) × Fin ((Section.handlersAll sections).get clause).clause.catches.length

/-- A one-to-one correspondence between what clauses catch and the entries of the table. -/
structure Correspondence (src : Source) (g : Graph) (sections : List Section)
    (entryOf : CatchPlace sections → Fin src.method.handlerTable.length) : Prop where
  bijective : Function.Bijective entryOf
  /-- What is caught is what the entry catches. -/
  catches : ∀ place, (src.method.handlerTable.get (entryOf place)).catches =
    ((Section.handlersAll sections).get place.1).clause.catches.get place.2
  /-- The clause starts at the handler of the entry, and its try protects what the entry protects. -/
  serves : ∀ place, Serves src g ((Section.handlersAll sections).get place.1) (src.method.handlerTable.get (entryOf place))
  /-- A clause lists what it catches in the order of the table. -/
  ascending : ∀ clause i j, i < j → entryOf ⟨clause, i⟩ < entryOf ⟨clause, j⟩

section

variable {src : Source} {g : Graph} {sections : List Section} {entries : List (List Nat)}
  (hbuilt : List.Forall₂ (BuiltFrom src g) (Section.handlersAll sections) entries)

include hbuilt

/-- What a clause catches at a place comes from one of the entries of the clause. -/
theorem exists_entry_of_place (place : CatchPlace sections) : ∃ (e : Fin src.method.handlerTable.length) (es : List Nat),
    entries[place.1.val]? = some es ∧ es[place.2.val]? = some e.val ∧
      BuiltFrom src g ((Section.handlersAll sections).get place.1) es := by
  obtain ⟨clause, i⟩ := place
  obtain ⟨es, hes, hfrom⟩ := exists_of_forall₂ hbuilt (List.getElem?_eq_getElem clause.isLt)
  obtain ⟨e, he, entry, hentry, _⟩ := exists_of_forall₂ hfrom.catches.flip (List.getElem?_eq_getElem i.isLt)
  exact ⟨⟨e, (List.getElem?_eq_some_iff.1 hentry).1⟩, es, hes, he, hfrom⟩

/-- What an entry catches stands at a place of the clause that is built from it. -/
theorem exists_place_of_entry {e : Nat} (he : e ∈ entries.flatten) : ∃ (place : CatchPlace sections) (es : List Nat),
    entries[place.1.val]? = some es ∧ es[place.2.val]? = some e := by
  obtain ⟨es, hmem, he⟩ := List.mem_flatten.1 he
  obtain ⟨j, hj⟩ := List.mem_iff_getElem?.1 hmem
  obtain ⟨i, hi⟩ := List.mem_iff_getElem?.1 he
  obtain ⟨h, hh, hfrom⟩ := exists_of_forall₂ hbuilt.flip hj
  obtain ⟨hlt, rfl⟩ := List.getElem?_eq_some_iff.1 hh
  obtain ⟨caught, hcaught, _⟩ := exists_of_forall₂ hfrom.catches hi
  exact ⟨⟨⟨j, hlt⟩, ⟨i, (List.getElem?_eq_some_iff.1 hcaught).1⟩⟩, es, hj, hi⟩

end

/-- Entries that are each used once correspond to what the clauses built from them catch. -/
theorem Accounts.exists_correspondence {src : Source} {g : Graph} {sections : List Section}
    (h : Accounts src g (Section.handlersAll sections) (List.range src.method.handlerTable.length)) :
    ∃ entryOf, Correspondence src g sections entryOf := by
  obtain ⟨entries, hbuilt, hperm⟩ := h
  have hnodup : entries.flatten.Nodup := hperm.nodup_iff.2 List.nodup_range
  choose entryOf es hes hat hfrom using exists_entry_of_place hbuilt
  refine ⟨entryOf, ⟨?_, ?_⟩, ?_, ?_, ?_⟩
  · rintro ⟨clause, i⟩ ⟨clause', i'⟩ heq
    have hat' := hat ⟨clause', i'⟩
    rw [← heq] at hat'
    obtain ⟨hclause, hi⟩ := place_unique hnodup (hes _) (hat ⟨clause, i⟩) (hes _) hat'
    cases Fin.ext hclause
    cases Fin.ext hi
    rfl
  · intro e
    obtain ⟨place, es', hes', he⟩ := exists_place_of_entry hbuilt (hperm.mem_iff.2 (List.mem_range.2 e.isLt))
    cases hes'.symm.trans (hes place)
    exact ⟨place, Fin.ext (Option.some.inj ((hat place).symm.trans he))⟩
  · intro place
    obtain ⟨caught, hcaught, entry, hentry, rfl⟩ := exists_of_forall₂ (hfrom place).catches (hat place)
    obtain ⟨_, hcaught⟩ := List.getElem?_eq_some_iff.1 hcaught
    obtain ⟨_, rfl⟩ := List.getElem?_eq_some_iff.1 hentry
    exact hcaught.symm
  · intro place
    obtain ⟨entry, hentry, hserves⟩ := (hfrom place).serves _ (List.mem_of_getElem? (hat place))
    obtain ⟨_, rfl⟩ := List.getElem?_eq_some_iff.1 hentry
    exact hserves
  · intro clause i j hlt
    have hsame : es ⟨clause, i⟩ = es ⟨clause, j⟩ := Option.some.inj ((hes _).symm.trans (hes ⟨clause, j⟩))
    obtain ⟨hi, hei⟩ := List.getElem?_eq_some_iff.1 (hat ⟨clause, i⟩)
    have hatj := hat ⟨clause, j⟩
    rw [← hsame] at hatj
    obtain ⟨hj, hej⟩ := List.getElem?_eq_some_iff.1 hatj
    have hdistinct : (es ⟨clause, i⟩).Nodup := (List.nodup_flatten.1 hnodup).1 _ (List.mem_of_getElem? (hes _))
    have hstrict := ((hfrom ⟨clause, i⟩).ascending.and hdistinct).imp fun h => Nat.lt_of_le_of_ne h.1 h.2
    have hlt := List.pairwise_iff_getElem.1 hstrict i j hi hj hlt
    rw [hei, hej] at hlt
    exact hlt

/-- The clauses of a method are built from the entries of its table, each of which is used once. -/
theorem sections_accounts (subject : Subject) (hb : Graph.Built subject.toSource subject.graph)
    (hset : subject.settings.commentOnError = false) {recognizers : List Recognizer}
    (hrec : ∀ recognizer ∈ recognizers, recognizer ∈ Recognizer.all) {s t : Session} {sections : List Section}
    (h : subject.sections recognizers s = .ok sections t) :
    Accounts subject.toSource subject.graph (Section.handlersAll sections) (List.range subject.method.handlerTable.length) := by
  have hinner := Subject.inner_of_sections (fun _ _ _ hscanned => hscanned.attributed hb hset) hrec h
  exact ((hinner.of_strict hset).2 0 _ hb.laidOut.abut).perm hb.handled_order

/-- Where there are no comments, what the clauses of a method catch corresponds one to one to the entries of its table of handlers:
each entry is caught once, by a clause that starts at its handler and whose try protects what the entry protects. -/
theorem catches_correspond_to_entries (src : Source) (g : Graph) (settings : Settings) (events events' : List Event)
    (sections : List Section) (hgraph : Graph.build src Producer.all = .ok g) (hset : settings.commentOnError = false)
    (h : Subject.sectionsTraced ⟨src, g, settings⟩ Recognizer.all events = .ok sections events') :
    ∃ entryOf, Correspondence src g sections entryOf := by
  obtain ⟨s, hs⟩ := Subject.exists_of_sectionsTraced h
  exact (sections_accounts ⟨src, g, settings⟩ (Graph.built_of_build hgraph) hset (fun _ => id) hs).exists_correspondence

/-- A method with a try inside the protected code of another, which has a handler for two classes and one for everything. -/
def nestedTries : Source where
  method :=
    { owner := "A", name := "m", descriptor := "()V", isStatic := true
      code := [.label ⟨0⟩, .nop, .label ⟨1⟩, .nop, .label ⟨2⟩, .goto ⟨4⟩, .label ⟨3⟩, .pop, .label ⟨4⟩, .nop, .label ⟨5⟩,
        .goto ⟨8⟩, .label ⟨6⟩, .store .reference 0, .goto ⟨8⟩, .label ⟨7⟩, .pop, .label ⟨8⟩, .ret none]
      variableTable := []
      handlerTable := [⟨⟨1⟩, ⟨2⟩, ⟨3⟩, .ofClass "B"⟩, ⟨⟨0⟩, ⟨5⟩, ⟨6⟩, .ofClass "C"⟩, ⟨⟨0⟩, ⟨5⟩, ⟨7⟩, .any⟩,
        ⟨⟨0⟩, ⟨5⟩, ⟨6⟩, .ofClass "D"⟩] }
  labels := [(⟨0⟩, 0), (⟨1⟩, 2), (⟨2⟩, 4), (⟨3⟩, 6), (⟨4⟩, 8), (⟨5⟩, 10), (⟨6⟩, 12), (⟨7⟩, 15), (⟨8⟩, 17)]
  locals := .empty

/-- The method has sections without a comment. -/
theorem nestedTries_structured : nestedTries.structuresInto ⟨false, 10, true⟩ (fun _ => true) = true := by decide +kernel

/-- The four entries of the method, of which two share a handler. -/
theorem catches_correspond_to_entries_nested :
    ∃ g sections events entryOf, Graph.build nestedTries Producer.all = .ok g ∧
      Subject.sectionsTraced ⟨nestedTries, g, ⟨false, 10, true⟩⟩ Recognizer.all [] = .ok sections events ∧
      Correspondence nestedTries g sections entryOf := by
  obtain ⟨g, sections, events, hgraph, hsections, _⟩ := Source.exists_of_structuresInto nestedTries_structured
  obtain ⟨entryOf, hcorrespondence⟩ := catches_correspond_to_entries nestedTries g _ [] events sections hgraph rfl hsections
  exact ⟨g, sections, events, entryOf, hgraph, hsections, hcorrespondence⟩

end CodeLift
