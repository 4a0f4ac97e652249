import CodeLift.Proofs.Dispatch

/-!
# Only well nested tables of handlers are structured

Nothing checks a table of handlers before its method is structured. But a try takes the starts, the ends and the handlers of its
entries together, so whatever a region becomes, the entries whose handlers the region has are in order and protect code of the
region that ends in it (`WellPlaced`). Entries of one try protect the same code, those inside it a part of this code, and entries of
different constructs share none. So the table of a method that has sections is well nested: `structured_tables_nest`.
-/

namespace CodeLift

/-! ## Well nested tables -/

/-- Spans of which one contains the other, as equal ones do, or that share no index. -/
def Span.Nests (a b : Span) : Prop := (∀ i ∈ a, i ∈ b) ∨ (∀ i ∈ b, i ∈ a) ∨ ∀ i ∈ a, i ∉ b

theorem Span.Nests.symm {a b : Span} : a.Nests b → b.Nests a
  | .inl h => .inr (.inl h)
  | .inr (.inl h) => .inl h
  | .inr (.inr h) => .inr (.inr fun i hb ha => h i ha hb)

theorem Span.Nests.refl (a : Span) : a.Nests a := .inl fun _ h => h

/-- An entry protects the code of a span, and its handler starts at an index. -/
structure Source.PlacedAt (src : Source) (entry : HandlerEntry) (code : Span) (handler : Nat) : Prop where
  start : src.labelIndex entry.start = .ok code.start
  stop : src.labelIndex entry.stop = .ok code.stop
  handler : src.labelIndex entry.handler = .ok handler

/-- A table in which no code ends before it starts, no handler comes before the end of the code it is for, and any two entries
protect the same code, code without a common instruction, or one a part of what the other does. -/
structure Source.WellNested (src : Source) : Prop where
  inOrder : ∀ entry ∈ src.method.handlerTable, ∃ code handler, src.PlacedAt entry code handler ∧ code.start ≤ code.stop ∧
    code.stop ≤ handler
  nests : ∀ entry ∈ src.method.handlerTable, ∀ entry' ∈ src.method.handlerTable, ∀ code handler code' handler',
    src.PlacedAt entry code handler → src.PlacedAt entry' code' handler' → code.Nests code'

/-- What can be wrong with a table. -/
inductive Source.Malformed (src : Source) : Prop where
  /-- The code of an entry ends before it starts. -/
  | reversed {entry : HandlerEntry} {start stop : Nat} (hentry : entry ∈ src.method.handlerTable)
      (hstart : src.labelIndex entry.start = .ok start) (hstop : src.labelIndex entry.stop = .ok stop) (hlt : stop < start)
  /-- The handler of an entry is laid out before the end of its code. -/
  | earlyHandler {entry : HandlerEntry} {stop handler : Nat} (hentry : entry ∈ src.method.handlerTable)
      (hstop : src.labelIndex entry.stop = .ok stop) (hhandler : src.labelIndex entry.handler = .ok handler)
      (hlt : handler < stop)
  /-- Of two entries, the second starts inside the code of the first and ends outside of it. -/
  | crossing {entry entry' : HandlerEntry} {start stop start' stop' : Nat} (hentry : entry ∈ src.method.handlerTable)
      (hentry' : entry' ∈ src.method.handlerTable) (hstart : src.labelIndex entry.start = .ok start)
      (hstop : src.labelIndex entry.stop = .ok stop) (hstart' : src.labelIndex entry'.start = .ok start')
      (hstop' : src.labelIndex entry'.stop = .ok stop') (hfrom : start < start') (hinside : start' < stop) (hto : stop < stop')

/-- A well nested table has none of these faults. -/
theorem Source.WellNested.not_malformed {src : Source} (h : src.WellNested) : ¬ src.Malformed := by
  rintro (⟨hentry, hstart, hstop, hlt⟩ | ⟨hentry, hstop, hhandler, hlt⟩ |
    ⟨hentry, hentry', hstart, hstop, hstart', hstop', hfrom, hinside, hto⟩)
  · obtain ⟨code, handler, hplaced, hle, _⟩ := h.inOrder _ hentry
    cases hstart.symm.trans hplaced.start
    cases hstop.symm.trans hplaced.stop
    omega
  · obtain ⟨code, handler, hplaced, _, hle⟩ := h.inOrder _ hentry
    cases hstop.symm.trans hplaced.stop
    cases hhandler.symm.trans hplaced.handler
    omega
  · obtain ⟨code, handler, hplaced, _⟩ := h.inOrder _ hentry
    obtain ⟨code', handler', hplaced', _⟩ := h.inOrder _ hentry'
    have hnests := h.nests _ hentry _ hentry' _ _ _ _ hplaced hplaced'
    cases hstart.symm.trans hplaced.start
    cases hstop.symm.trans hplaced.stop
    cases hstart'.symm.trans hplaced'.start
    cases hstop'.symm.trans hplaced'.stop
    simp only [Span.Nests, Span.mem_def] at hnests
    rcases hnests with hnests | hnests | hnests
    · have := hnests code.start
      omega
    · have := hnests code.stop
      omega
    · have := hnests code'.start
      omega

/-! ## Entries whose handlers blocks mark -/

namespace Source

variable {src : Source} {e e' : Nat} {code code' : Span} {handler handler' : Nat}

/-- The entry at a place of the table protects the code of a span, and its handler starts at an index. -/
def EntryAt (src : Source) (e : Nat) (code : Span) (handler : Nat) : Prop :=
  ∃ entry, src.method.handlerTable[e]? = some entry ∧ src.PlacedAt entry code handler

/-- An entry has one range and one handler. -/
theorem EntryAt.unique (h : src.EntryAt e code handler) (h' : src.EntryAt e code' handler') : code = code' ∧ handler = handler' := by
  obtain ⟨entry, hentry, hplaced⟩ := h
  obtain ⟨entry', hentry', hplaced'⟩ := h'
  cases hentry.symm.trans hentry'
  obtain ⟨lo, hi⟩ := code
  cases hplaced.start.symm.trans hplaced'.start
  cases hplaced.stop.symm.trans hplaced'.stop
  cases hplaced.handler.symm.trans hplaced'.handler
  exact ⟨rfl, rfl⟩

/-- The entries at two places of the table nest. -/
def Nest (src : Source) (e e' : Nat) : Prop :=
  ∀ code handler code' handler', src.EntryAt e code handler → src.EntryAt e' code' handler' → code.Nests code'

theorem Nest.symm (h : src.Nest e e') : src.Nest e' e :=
  fun code handler code' handler' hat hat' => (h code' handler' code handler hat' hat).symm

instance : Std.Symm src.Nest := ⟨fun _ _ h => h.symm⟩

theorem Nest.refl (e : Nat) : src.Nest e e := by
  intro _ _ _ _ hat hat'
  obtain ⟨rfl, _⟩ := hat.unique hat'
  exact .refl _

/-- Entries nest if the code they are known to protect does. -/
theorem EntryAt.nest (h : src.EntryAt e code handler) (h' : src.EntryAt e' code' handler') (hnests : code.Nests code') :
    src.Nest e e' := by
  intro _ _ _ _ hat hat'
  obtain ⟨rfl, _⟩ := h.unique hat
  obtain ⟨rfl, _⟩ := h'.unique hat'
  exact hnests

end Source

/-- The entry at a place of the table is in order, and some blocks hold the code that it protects and mark its end. -/
structure EntryWithin (src : Source) (g : Graph) (blocks : List BlockId) (e : Nat) (code : Span) (handler : Nat) : Prop where
  entryAt : src.EntryAt e code handler
  start_le_stop : code.start ≤ code.stop
  stop_le_handler : code.stop ≤ handler
  inside : ∀ i ∈ code, i ∈ g.codeOf blocks
  ends : ∃ id ∈ blocks, ∃ mark, g.markerOf? .tryEnd id = some mark ∧ mark.entry = e

/-- The entries whose handlers some blocks mark are in order and nest, and all of their code is in these blocks. -/
structure WellPlaced (src : Source) (g : Graph) (blocks : List BlockId) : Prop where
  within : ∀ e ∈ g.handled blocks, ∃ code handler, EntryWithin src g blocks e code handler
  nest : (g.handled blocks).Pairwise src.Nest

/-- More blocks cover more code. -/
theorem Graph.mem_codeOf_of_subset {g : Graph} {xs ys : List BlockId} (h : ∀ id ∈ xs, id ∈ ys) {i : Nat} (hi : i ∈ g.codeOf xs) :
    i ∈ g.codeOf ys := by
  obtain ⟨id, hid, hi⟩ := List.mem_flatMap.1 hi
  exact List.mem_flatMap.2 ⟨id, h id hid, hi⟩

/-- An entry within blocks is within more blocks. -/
theorem EntryWithin.mono {src : Source} {g : Graph} {xs ys : List BlockId} {e : Nat} {code : Span} {handler : Nat}
    (h : EntryWithin src g xs e code handler) (hsub : ∀ id ∈ xs, id ∈ ys) : EntryWithin src g ys e code handler := by
  obtain ⟨id, hid, hmark⟩ := h.ends
  exact ⟨h.entryAt, h.start_le_stop, h.stop_le_handler, fun i hi => Graph.mem_codeOf_of_subset hsub (h.inside i hi),
    id, hsub id hid, hmark⟩

namespace WellPlaced

variable {src : Source} {g : Graph} {xs ys : List BlockId}

/-- Blocks that mark no handlers. -/
theorem of_handled_eq_nil (h : g.handled xs = []) : WellPlaced src g xs := by
  constructor
  · rw [h]
    exact nofun
  · rw [h]
    exact .nil

/-- The order of the blocks does not matter. -/
theorem perm (h : WellPlaced src g xs) (hperm : xs.Perm ys) : WellPlaced src g ys := by
  have hhandled := Graph.handled_perm (g := g) hperm
  refine ⟨fun e he => ?_, (hhandled.pairwise_iff fun h => h.symm).1 h.nest⟩
  obtain ⟨code, handler, hwithin⟩ := h.within e (hhandled.mem_iff.2 he)
  exact ⟨code, handler, hwithin.mono fun id => hperm.mem_iff.1⟩

/-- Entries of blocks that share no code. -/
theorem nest_of_disjoint (hx : WellPlaced src g xs) (hy : WellPlaced src g ys)
    (hdisjoint : ∀ i ∈ g.codeOf xs, i ∉ g.codeOf ys) {e e' : Nat} (he : e ∈ g.handled xs) (he' : e' ∈ g.handled ys) :
    src.Nest e e' := by
  obtain ⟨code, handler, hwithin⟩ := hx.within e he
  obtain ⟨code', handler', hwithin'⟩ := hy.within e' he'
  refine hwithin.entryAt.nest hwithin'.entryAt (.inr (.inr fun i hi hi' => ?_))
  exact hdisjoint i (hwithin.inside i hi) (hwithin'.inside i hi')

/-- Blocks over disjoint code are well placed together. -/
theorem append (hx : WellPlaced src g xs) (hy : WellPlaced src g ys) (hdisjoint : ∀ i ∈ g.codeOf xs, i ∉ g.codeOf ys) :
    WellPlaced src g (xs ++ ys) := by
  constructor
  · intro e he
    rw [Graph.handled_append, List.mem_append] at he
    rcases he with he | he
    · obtain ⟨code, handler, hwithin⟩ := hx.within e he
      exact ⟨code, handler, hwithin.mono fun id => List.mem_append_left _⟩
    · obtain ⟨code, handler, hwithin⟩ := hy.within e he
      exact ⟨code, handler, hwithin.mono fun id => List.mem_append_right _⟩
  · rw [Graph.handled_append]
    exact List.pairwise_append.2 ⟨hx.nest, hy.nest, fun e he e' he' => hx.nest_of_disjoint hy hdisjoint he he'⟩

/-- Entries that all protect the same code, with those in that code and with those of blocks that come later. -/
theorem around (hinner : WellPlaced src g xs) (code : Span) (hlater : WellPlaced src g ys) {blocks : List BlockId} {own : List Nat}
    (hxs : ∀ id ∈ xs, id ∈ blocks) (hys : ∀ id ∈ ys, id ∈ blocks)
    (hown : ∀ e ∈ own, ∃ handler, EntryWithin src g blocks e code handler)
    (hhandled : (g.handled blocks).Perm (g.handled xs ++ (own ++ g.handled ys)))
    (hinside : ∀ e code' handler, EntryWithin src g xs e code' handler → ∀ i ∈ code', i ∈ code)
    (hafter : ∀ i ∈ code, i ∉ g.codeOf ys) (hdisjoint : ∀ i ∈ g.codeOf xs, i ∉ g.codeOf ys) : WellPlaced src g blocks := by
  have hwithin : ∀ e ∈ g.handled xs ++ (own ++ g.handled ys), ∃ code' handler, EntryWithin src g blocks e code' handler := by
    intro e he
    rcases List.mem_append.1 he with he | he
    · obtain ⟨code', handler, hwithin⟩ := hinner.within e he
      exact ⟨code', handler, hwithin.mono hxs⟩
    · rcases List.mem_append.1 he with he | he
      · exact ⟨code, hown e he⟩
      · obtain ⟨code', handler, hwithin⟩ := hlater.within e he
        exact ⟨code', handler, hwithin.mono hys⟩
  have hsame : own.Pairwise src.Nest := List.pairwise_of_forall_mem_list fun e he e' he' => by
    obtain ⟨_, hwithin⟩ := hown e he
    obtain ⟨_, hwithin'⟩ := hown e' he'
    exact hwithin.entryAt.nest hwithin'.entryAt (.refl _)
  have hbefore : ∀ e ∈ own, ∀ e' ∈ g.handled ys, src.Nest e e' := by
    intro e he e' he'
    obtain ⟨_, hwithin⟩ := hown e he
    obtain ⟨_, _, hwithin'⟩ := hlater.within e' he'
    exact hwithin.entryAt.nest hwithin'.entryAt (.inr (.inr fun i hi hi' => hafter i hi (hwithin'.inside i hi')))
  have hholds : ∀ e ∈ g.handled xs, ∀ e' ∈ own, src.Nest e e' := by
    intro e he e' he'
    obtain ⟨code', handler, hwithin⟩ := hinner.within e he
    obtain ⟨_, hwithin'⟩ := hown e' he'
    exact hwithin.entryAt.nest hwithin'.entryAt (.inl (hinside e code' handler hwithin))
  refine ⟨fun e he => hwithin e (hhandled.mem_iff.1 he), (hhandled.pairwise_iff fun h => h.symm).2 ?_⟩
  refine List.pairwise_append.2 ⟨hinner.nest, List.pairwise_append.2 ⟨hsame, hlater.nest, hbefore⟩, ?_⟩
  intro e he e' he'
  rcases List.mem_append.1 he' with he' | he'
  · exact hholds e he e' he'
  · exact hinner.nest_of_disjoint hlater hdisjoint he he'

end WellPlaced

/-! ## Regions -/

/-- The entries whose handlers a region has are in order and nest, and all of their code is in the region. -/
def TablePlaced (subject : Subject) : RegionProperty := fun _ r _ =>
  ∀ lo hi, subject.graph.Consecutive lo r.blocks hi → WellPlaced subject.toSource subject.graph r.blocks

section

variable {subject : Subject} {around : List Breakable} {r : Region} {lo hi : Nat}

/-- The entries of parts that share no code. -/
theorem wellPlaced_parts {src : Source} {g : Graph} {parts : List Part} (hparts : ∀ p ∈ parts, WellPlaced src g p.region.blocks)
    (hnodup : (g.codeOf (parts.flatMap (·.region.blocks))).Nodup) : WellPlaced src g (parts.flatMap (·.region.blocks)) := by
  induction parts with
  | nil => exact .of_handled_eq_nil rfl
  | cons p parts ih =>
    obtain ⟨hp, hparts⟩ := List.forall_mem_cons.1 hparts
    rw [List.flatMap_cons] at hnodup ⊢
    rw [Graph.codeOf_append] at hnodup
    exact hp.append (ih hparts hnodup.of_append_right) fun i hi => List.disjoint_of_nodup_append hnodup hi

/-- What is made of own blocks and of parts has the entries of its parts. -/
theorem MadeOf.wellPlaced (hset : subject.settings.commentOnError = false) (hr : subject.graph.Consecutive lo r.blocks hi)
    {start stop : Nat} (hle : start ≤ stop) {sections : List Section} {own : List BlockId} {parts : List Part}
    (h : MadeOf subject (TablePlaced subject) r start stop sections own parts) :
    WellPlaced subject.toSource subject.graph (r.sub start stop none).blocks := by
  obtain ⟨_, _, _, hsub, _⟩ := hr.sub hle
  have hnodup := (subject.graph.codeOf_perm h.blocks).nodup_iff.1 hsub.nodup_codeOf
  refine .perm ?_ h.blocks.symm
  rw [Graph.codeOf_append] at hnodup
  refine .append (.of_handled_eq_nil ?_) ?_ fun i hi => List.disjoint_of_nodup_append hnodup hi
  · exact Graph.handled_eq_nil fun id hid => Graph.markerOf?_of_unmarked (h.unmarked id hid)
  · refine wellPlaced_parts (fun p hp => ?_) hnodup.of_append_right
    obtain ⟨around, hinner⟩ := h.inner p hp
    obtain ⟨a, b, hab, _, hblocks⟩ := h.within p hp
    obtain ⟨lo', hi', _, hpart, _⟩ := hr.sub hab
    exact hinner.of_strict hset lo' hi' (hblocks ▸ hpart)

/-- The handlers of a try: those of its pending entries, which come after the code of the try, and those in the bodies of its
clauses. -/
theorem ClausesTaken.wellPlaced (hb : Graph.Built subject.toSource subject.graph) (hset : subject.settings.commentOnError = false)
    {exit : Option BlockId} {pending : List Marker} {cursor stop : Nat} {clauses : List (CatchSection (List Section))}
    (h : ClausesTaken subject (TablePlaced subject) around r exit pending cursor clauses stop)
    (hr : subject.graph.Consecutive lo (r.blocks.drop cursor) hi)
    (hmarkers : ∀ mark ∈ pending, ∃ id, subject.graph.marker? id = some mark) :
    ∃ bodies, WellPlaced subject.toSource subject.graph bodies ∧ (∀ id ∈ bodies, id ∈ (r.sub cursor stop none).blocks) ∧
      (subject.graph.handled (r.sub cursor stop none).blocks).Perm
        (pending.map (·.entry) ++ subject.graph.handled bodies) ∧
      (∀ i ∈ subject.graph.codeOf bodies, lo ≤ i) ∧
      ∀ mark ∈ pending, ∃ entry handler, subject.method.handlerTable[mark.entry]? = some entry ∧
        subject.labelIndex entry.handler = .ok handler ∧ lo ≤ handler := by
  induction h generalizing lo with
  | nil cursor => exact ⟨[], .of_handled_eq_nil rfl, nofun, by rw [Region.sub_self]; exact .refl _, nofun, nofun⟩
  | @cons mark rest cursor stop shape body others hshape hbody hothers ih =>
    obtain ⟨entries, used, handler, hat⟩ := Recognizer.handlerShape_cases hshape
    obtain ⟨_, hhandlers, mid, after, hmid, hbodyAt, hrest⟩ := hat.places hb hr
    obtain ⟨hstop, _⟩ := hothers.bounds hat.bodyStop_le
    have hmarkersLe := hat.markers_le
    have hbodyStart := hat.bodyStart_le
    have hafter := hbodyAt.le
    have hleft : ∀ mark' ∈ shape.pending, mark' ∈ mark :: rest := fun mark' hmark =>
      hat.taken.perm.mem_iff.2 (List.mem_append_right _ hmark)
    obtain ⟨bodies, hplaced, hsub, hperm, hcode, hpending⟩ := ih hrest fun mark' hmark => hmarkers mark' (hleft mark' hmark)
    have hbody := hbody.of_strict hset mid after hbodyAt
    refine ⟨(r.sub shape.bodyStart shape.bodyStop none).blocks ++ bodies, ?_, ?_, ?_, ?_, ?_⟩
    · refine hbody.append hplaced fun i hi hi' => ?_
      have h1 := (hbodyAt.mem_codeOf.1 hi).2
      have h2 := hcode i hi'
      omega
    · intro id hid
      rw [← Region.sub_append_sub none none none (by omega : cursor ≤ shape.bodyStop) hstop]
      rcases List.mem_append.1 hid with hid | hid
      · refine List.mem_append_left _ ?_
        rw [← Region.sub_append_sub none none none (by omega : cursor ≤ shape.bodyStart) hbodyStart]
        exact List.mem_append_right _ hid
      · exact List.mem_append_right _ (hsub id hid)
    · have hserved : ((mark :: rest).map (·.entry)).Perm (entries ++ shape.pending.map (·.entry)) := by
        have hmap := hat.taken.perm.map (·.entry)
        rwa [List.map_append, hat.taken.entries_eq hb hmarkers] at hmap
      rw [← Region.sub_append_sub none none none (by omega : cursor ≤ shape.bodyStop) hstop, Graph.handled_append,
        HandlerAt.handled hb hat, Graph.handled_append]
      refine .trans ?_ (hserved.append_right _).symm
      exact (hperm.append_left _).trans (perm_append_append_append_comm _ _ _ _)
    · intro i hi
      rw [Graph.codeOf_append, List.mem_append] at hi
      rcases hi with hi | hi
      · exact hmid.trans (hbodyAt.mem_codeOf.1 hi).1
      · have := hcode i hi
        omega
    · intro mark' hmark
      rcases List.mem_append.1 (hat.taken.perm.mem_iff.1 hmark) with hused | hlater
      · have hentry : mark'.entry ∈ entries := by
          rw [← hat.taken.entries_eq hb hmarkers]
          exact List.mem_map_of_mem hused
        obtain ⟨entry, hentry, hlabel⟩ := hhandlers _ hentry
        exact ⟨entry, lo, hentry, hlabel, Nat.le_refl _⟩
      · obtain ⟨entry, handler, hentry, hlabel, hle⟩ := hpending mark' hlater
        exact ⟨entry, handler, hentry, hlabel, by omega⟩

/-- An entry inside protected code ends where that code ends or before: the block that may be added to it is no marker. -/
theorem EntryWithin.stop_le (hb : Graph.Built subject.toSource subject.graph) {index : Nat} {shape : Recognizer.ProtectedShape}
    {last stop mid : Nat} {tail : List BlockId} (hat : Recognizer.ProtectedAt subject.graph r index shape last stop tail)
    (hbodyAt : subject.graph.Consecutive lo (r.sub (last + 1) stop none).blocks mid) {e : Nat} {code : Span} {handler : Nat}
    (h : EntryWithin subject.toSource subject.graph shape.body.blocks e code handler) : code.stop ≤ mid := by
  obtain ⟨id, hid, mark, hmark, rfl⟩ := h.ends
  obtain ⟨hmark, hkind⟩ := Graph.markerOf?_eq_some.1 hmark
  rw [hat.body_blocks, List.mem_append] at hid
  rcases hid with hid | hid
  · obtain ⟨entry, place, hentry, hlabel, hspan⟩ := hb.marker_place hmark
    rw [hkind] at hlabel
    obtain ⟨entry', hentry', hplaced⟩ := h.entryAt
    cases hentry.symm.trans hentry'
    cases hlabel.symm.trans hplaced.stop
    have hbounds := (Span.Abut.bounds hbodyAt (List.mem_map_of_mem hid)).2
    rw [hspan] at hbounds
    exact hbounds
  · obtain ⟨rfl, _⟩ | ⟨id', _, hunmarked, rfl, _⟩ := Recognizer.blockAfterEnd_cases hat.afterEnd
    · cases hid
    · rw [List.mem_singleton.1 hid, hunmarked] at hmark
      cases hmark

/-- The entries of a try protect its code, those in the code a part of it, and those in the handlers what comes later. -/
theorem TryTaken.wellPlaced (hb : Graph.Built subject.toSource subject.graph) (hset : subject.settings.commentOnError = false)
    {index : Nat} (hr : subject.graph.Consecutive lo (r.blocks.drop index) hi) {found : Match}
    (h : TryTaken subject (TablePlaced subject) around r index found) :
    WellPlaced subject.toSource subject.graph (r.sub index found.resume none).blocks := by
  obtain ⟨shape, last, stop, tail, body, clauses, hat, hbody, hclauses, _⟩ := h
  obtain ⟨mid, after, hbodyAt, htailAt, hrest, hranges⟩ := hat.places hb hr
  have hmidLe := hbodyAt.le
  have hafterLe := htailAt.le
  have hwhole : subject.graph.Consecutive lo shape.body.blocks after := by
    rw [hat.body_blocks]
    exact Graph.consecutive_append.2 ⟨mid, hbodyAt, htailAt⟩
  have hmarkers : ∀ mark ∈ shape.pending, ∃ id, subject.graph.marker? id = some mark := fun mark hmark => by
    obtain ⟨id, _, hid⟩ := exists_mem_of_forall₂_right hat.ends hmark
    exact ⟨id, (Graph.markerOf?_eq_some.1 hid).1⟩
  obtain ⟨bodies, hlater, hlaterSub, hperm, hlaterCode, hhandlers⟩ := hclauses.wellPlaced hb hset hrest hmarkers
  have hinner := hbody.of_strict hset lo after hwhole
  -- The blocks of the try: its own starts and ends, its code, and what its clauses take.
  have hindex := hat.index_le_last
  have hlast := hat.last_lt_stop
  have hcursor := hat.cursor
  have hblocks := Region.sub_append_sub (r := r) none none none (by omega : index ≤ shape.cursor)
    (hclauses.bounds hat.cursor_le).1
  have hbodySub : ∀ id ∈ shape.body.blocks, id ∈ (r.sub index found.resume none).blocks := by
    intro id hid
    rw [hat.body_blocks, List.mem_append] at hid
    rw [← hblocks, hat.blocks]
    rcases hid with hid | hid <;> simp [hid]
  have hclausesSub : ∀ id ∈ bodies, id ∈ (r.sub index found.resume none).blocks := by
    intro id hid
    rw [← hblocks]
    exact List.mem_append_right _ (hlaterSub id hid)
  -- What is known of the entries of the try itself.
  have hown : ∀ mark ∈ shape.pending, ∃ handler, EntryWithin subject.toSource subject.graph
      (r.sub index found.resume none).blocks mark.entry ⟨lo, mid⟩ handler := by
    intro mark hmark
    obtain ⟨entry, hentry, hstart, hstop⟩ := hranges mark hmark
    obtain ⟨entry', handler, hentry', hhandler, hle⟩ := hhandlers mark hmark
    cases hentry.symm.trans hentry'
    obtain ⟨id, hid, hend⟩ := exists_mem_of_forall₂_right hat.ends hmark
    refine ⟨handler, ⟨entry, hentry, hstart, hstop, hhandler⟩, hmidLe, hafterLe.trans hle, fun i hi => ?_, id, ?_, mark, hend, rfl⟩
    · refine Graph.mem_codeOf_of_subset hbodySub (hwhole.mem_codeOf.2 ?_)
      have hi := Span.mem_def.1 hi
      dsimp only at hi
      omega
    · rw [← hblocks, hat.blocks]
      simp [hid]
  have hhandled : (subject.graph.handled (r.sub index found.resume none).blocks).Perm
      (subject.graph.handled shape.body.blocks ++ (shape.pending.map (·.entry) ++ subject.graph.handled bodies)) := by
    rw [← hblocks, Graph.handled_append, ProtectedAt.handled hat]
    exact hperm.append_left _
  refine hinner.around ⟨lo, mid⟩ hlater hbodySub hclausesSub ?_ hhandled ?_ ?_ ?_
  · intro e he
    obtain ⟨mark, hmark, rfl⟩ := List.mem_map.1 he
    exact hown mark hmark
  · intro e code handler hwithin i hi
    exact Span.mem_def.2 ⟨(hwhole.mem_codeOf.1 (hwithin.inside i hi)).1,
      (Span.mem_def.1 hi).2.trans_le (hwithin.stop_le hb hat hbodyAt)⟩
  · intro i hi hi'
    have h1 := (Span.mem_def.1 hi).2
    have h2 := hlaterCode i hi'
    dsimp only at h1
    omega
  · intro i hi hi'
    have h1 := (hwhole.mem_codeOf.1 hi).2
    have h2 := hlaterCode i hi'
    omega

/-- A scanned region has its entries in order and nested. -/
theorem Scanned.wellPlaced (hb : Graph.Built subject.toSource subject.graph) (hset : subject.settings.commentOnError = false)
    (hr : subject.graph.Consecutive lo r.blocks hi) {index : Nat} {sections : List Section} (hindex : index ≤ r.length)
    (h : Scanned subject (TablePlaced subject) around r index sections) :
    WellPlaced subject.toSource subject.graph (r.sub index r.length none).blocks := by
  induction h with
  | @done index hle =>
    refine .of_handled_eq_nil ?_
    rw [Region.sub, List.drop_eq_nil_of_le hle, List.take_nil]
    rfl
  | @step index found rest htaken _ _ ih =>
    obtain ⟨hlt, hle⟩ := htaken.bounds
    obtain ⟨_, _, _, hsub, _⟩ := hr.sub hindex
    have hnodup := hsub.nodup_codeOf
    rw [← Region.sub_append_sub none none none (Nat.le_of_lt hlt) hle] at hnodup ⊢
    rw [Graph.codeOf_append] at hnodup
    refine .append ?_ (ih hle) fun i hi => List.disjoint_of_nodup_append hnodup hi
    obtain ⟨own, parts, hmade⟩ | htry := htaken.parts fun id span target => hb.goto_nonempty
    · exact hmade.wellPlaced hset hr (Nat.le_of_lt hlt)
    · rw [← List.take_append_drop index r.blocks] at hr
      obtain ⟨lo', _, hfrom⟩ := Graph.consecutive_append.1 hr
      exact htry.wellPlaced hb hset hfrom

/-- The entries of a scanned region are well placed. -/
theorem Scanned.tablePlaced (hb : Graph.Built subject.toSource subject.graph) (hset : subject.settings.commentOnError = false)
    {sections : List Section} (h : Scanned subject (TablePlaced subject) around r 0 sections) :
    TablePlaced subject around r sections := by
  intro lo hi hr
  have hplaced := h.wellPlaced hb hset hr (Nat.zero_le _)
  rw [Region.sub_zero_length] at hplaced
  exact hplaced

end

/-! ## Methods -/

/-- If all entries of the table are in order and nest, the table is well nested. -/
theorem WellPlaced.wellNested {src : Source} {g : Graph} (hb : Graph.Built src g) (h : WellPlaced src g g.order) :
    src.WellNested := by
  have hhandled := hb.handled_order
  have hall : ∀ e entry, src.method.handlerTable[e]? = some entry → e ∈ g.handled g.order := fun e entry he =>
    hhandled.mem_iff.2 (List.mem_range.2 (List.getElem?_eq_some_iff.1 he).1)
  constructor
  · intro entry hentry
    obtain ⟨e, he⟩ := List.mem_iff_getElem?.1 hentry
    obtain ⟨code, handler, hwithin⟩ := h.within e (hall e entry he)
    obtain ⟨entry', he', hplaced⟩ := hwithin.entryAt
    cases he.symm.trans he'
    exact ⟨code, handler, hplaced, hwithin.start_le_stop, hwithin.stop_le_handler⟩
  · intro entry hentry entry' hentry' code handler code' handler' hplaced hplaced'
    obtain ⟨e, he⟩ := List.mem_iff_getElem?.1 hentry
    obtain ⟨e', he'⟩ := List.mem_iff_getElem?.1 hentry'
    have hnest := h.nest.forall_of_forall (fun e _ => .refl e) (hall e entry he) (hall e' entry' he')
    exact hnest _ _ _ _ ⟨entry, he, hplaced⟩ ⟨entry', he', hplaced'⟩

/-- Where there are no comments, a method has sections only if its table of handlers is well nested: every table with reversed code,
with a handler before the end of its code, or with code that crosses that of another entry is refused. -/
theorem structured_tables_nest (src : Source) (g : Graph) (settings : Settings) (events : List Event)
    (hgraph : Graph.build src Producer.all = .ok g) (hset : settings.commentOnError = false) :
    (∀ sections events', Subject.sectionsTraced ⟨src, g, settings⟩ Recognizer.all events = .ok sections events' →
      src.WellNested) ∧
      (src.Malformed → ∃ e events', Subject.sectionsTraced ⟨src, g, settings⟩ Recognizer.all events = .error e events') := by
  have hb : Graph.Built src g := Graph.built_of_build hgraph
  have hnested : ∀ sections events',
      Subject.sectionsTraced ⟨src, g, settings⟩ Recognizer.all events = .ok sections events' → src.WellNested := by
    intro sections events' h
    obtain ⟨s, hs⟩ := Subject.exists_of_sectionsTraced h
    have hinner := Subject.inner_of_sections (fun _ _ _ hscanned => hscanned.tablePlaced hb hset) (fun _ => id) hs
    exact WellPlaced.wellNested hb (hinner.of_strict hset 0 _ hb.laidOut.abut)
  refine ⟨hnested, fun hmalformed => ?_⟩
  cases hrun : Subject.sectionsTraced ⟨src, g, settings⟩ Recognizer.all events with
  | ok sections events' => exact absurd hmalformed (hnested sections events' hrun).not_malformed
  | error e events' => exact ⟨e, events', rfl⟩

/-- A method with two entries, of which the second starts inside the code of the first and ends after it. -/
def crossedTries : Source where
  method :=
    { owner := "A", name := "m", descriptor := "()V", isStatic := true
      code := [.label ⟨0⟩, .nop, .label ⟨1⟩, .nop, .label ⟨2⟩, .nop, .label ⟨3⟩, .goto ⟨5⟩, .label ⟨4⟩, .pop, .label ⟨5⟩, .ret none]
      variableTable := []
      handlerTable := [⟨⟨0⟩, ⟨2⟩, ⟨4⟩, .any⟩, ⟨⟨1⟩, ⟨3⟩, ⟨4⟩, .any⟩] }
  labels := [(⟨0⟩, 0), (⟨1⟩, 2), (⟨2⟩, 4), (⟨3⟩, 6), (⟨4⟩, 8), (⟨5⟩, 10)]
  locals := .empty

/-- A method with a try inside another has sections and so a well nested table. Crossed code is refused. -/
theorem structured_tables_nest_crossed :
    nestedTries.WellNested ∧ crossedTries.Malformed ∧ ∃ g e events, Graph.build crossedTries Producer.all = .ok g ∧
      Subject.sectionsTraced ⟨crossedTries, g, ⟨false, 10, true⟩⟩ Recognizer.all [] = .error e events := by
  have hfirst : ⟨⟨0⟩, ⟨2⟩, ⟨4⟩, .any⟩ ∈ crossedTries.method.handlerTable := by simp [crossedTries]
  have hsecond : ⟨⟨1⟩, ⟨3⟩, ⟨4⟩, .any⟩ ∈ crossedTries.method.handlerTable := by simp [crossedTries]
  have hlabels : crossedTries.labelIndex ⟨0⟩ = .ok 0 ∧ crossedTries.labelIndex ⟨1⟩ = .ok 2 ∧
      crossedTries.labelIndex ⟨2⟩ = .ok 4 ∧ crossedTries.labelIndex ⟨3⟩ = .ok 6 := ⟨rfl, rfl, rfl, rfl⟩
  have hcrossing : crossedTries.Malformed :=
    .crossing hfirst hsecond hlabels.1 hlabels.2.2.1 hlabels.2.1 hlabels.2.2.2 (by decide) (by decide) (by decide)
  refine ⟨?_, hcrossing, ?_⟩
  · obtain ⟨g, sections, events, hgraph, hsections, _⟩ := Source.exists_of_structuresInto nestedTries_structured
    exact (structured_tables_nest nestedTries g _ [] hgraph rfl).1 sections events hsections
  · have hbuilds : (Graph.build crossedTries Producer.all).toOption.isSome = true := by decide +kernel
    cases hgraph : Graph.build crossedTries Producer.all with
    | error e =>
      rw [hgraph] at hbuilds
      cases hbuilds
    | ok g =>
      obtain ⟨e, events, hrefused⟩ := (structured_tables_nest crossedTries g ⟨false, 10, true⟩ [] hgraph rfl).2 hcrossing
      exact ⟨g, e, events, rfl, hrefused⟩

end CodeLift
