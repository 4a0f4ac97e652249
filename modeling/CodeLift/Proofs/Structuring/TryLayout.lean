import CodeLift.Proofs.Graph.Built
import CodeLift.Proofs.Structuring.Protected

/-!
# Where protected code and handlers lie

The blocks of a region follow each other in the code, and a marker stands at the index of its label. So the code between the starts
and the ends of some entries is the code that these entries protect, and a handler starts where the handler labels of its entries
are.
-/

namespace CodeLift

theorem Region.drop_eq_sub_append {r : Region} {a b : Nat} (h : a ≤ b) :
    r.blocks.drop a = (r.sub a b none).blocks ++ r.blocks.drop b := by
  have hsplit := List.take_append_drop (b - a) (r.blocks.drop a)
  rw [List.drop_drop, Nat.add_sub_cancel' h] at hsplit
  exact hsplit.symm

namespace Graph

variable {src : Source} {g : Graph}

/-- A marker holds no code and stands at the index of its label. -/
theorem Built.marker_place (hb : Built src g) {id : BlockId} {mark : Marker} (h : g.marker? id = some mark) :
    ∃ entry index, src.method.handlerTable[mark.entry]? = some entry ∧ src.labelIndex (entry.labelOf mark.kind) = .ok index ∧
      g.spanOf id = .before index := by
  obtain ⟨entry, start, stop, handler, hm⟩ := hb.markerOf h
  have hself := hm.self_eq
  unfold Marker.self at hself
  cases hkind : mark.kind with
  | tryStart =>
    rw [hkind] at hself
    exact ⟨entry, _, hm.entryAt, hm.starts.2, by rw [hself, spanOf, hm.triple.atStart]; rfl⟩
  | tryEnd =>
    rw [hkind] at hself
    exact ⟨entry, _, hm.entryAt, hm.stops.2, by rw [hself, hm.stop_eq, spanOf, hm.triple.atStop]; rfl⟩
  | handler =>
    rw [hkind] at hself
    exact ⟨entry, _, hm.entryAt, hm.handles.2, by rw [hself, hm.handler_eq, spanOf, hm.triple.atHandler]; rfl⟩

/-- The blocks that a marker names are markers of its entry. -/
theorem Built.entry_eq (hb : Built src g) {id id' : BlockId} {mark mark' : Marker} (h : g.marker? id = some mark)
    (h' : g.marker? id' = some mark') (hid : id = mark'.start ∨ id = mark'.stop ∨ id = mark'.handler) :
    mark.entry = mark'.entry := by
  obtain ⟨_, _, _, _, hm⟩ := hb.markerOf h'
  obtain ⟨span, hblock⟩ := marker?_eq_some h
  rw [hm.stop_eq, hm.handler_eq] at hid
  rcases hid with rfl | rfl | rfl
  · cases hblock.symm.trans hm.triple.atStart
    rfl
  · cases hblock.symm.trans hm.triple.atStop
    rfl
  · cases hblock.symm.trans hm.triple.atHandler
    rfl

/-- Blocks whose code follows each other, from one index up to another. -/
def Consecutive (g : Graph) (lo : Nat) (blocks : List BlockId) (hi : Nat) : Prop := Span.Abut lo (blocks.map g.spanOf) hi

theorem consecutive_append {lo hi : Nat} {xs ys : List BlockId} :
    g.Consecutive lo (xs ++ ys) hi ↔ ∃ mid, g.Consecutive lo xs mid ∧ g.Consecutive mid ys hi := by
  rw [Consecutive, List.map_append, Span.abut_append]
  rfl

theorem Consecutive.le {lo hi : Nat} {blocks : List BlockId} (h : g.Consecutive lo blocks hi) : lo ≤ hi := Span.Abut.le h

/-- The blocks of a part of a region follow each other as those of the region do. -/
theorem Consecutive.sub {r : Region} {lo hi a b : Nat} (h : g.Consecutive lo r.blocks hi) (hle : a ≤ b) :
    ∃ lo' hi', lo ≤ lo' ∧ g.Consecutive lo' (r.sub a b none).blocks hi' ∧ hi' ≤ hi := by
  rw [← List.take_append_drop a r.blocks] at h
  obtain ⟨lo', hbefore, h⟩ := consecutive_append.1 h
  rw [Region.drop_eq_sub_append hle] at h
  obtain ⟨hi', hsub, hafter⟩ := consecutive_append.1 h
  exact ⟨lo', hi', hbefore.le, hsub, hafter.le⟩

/-- Markers that follow each other stand at one index. -/
theorem Consecutive.markers (hb : Built src g) {lo hi : Nat} {blocks : List BlockId} (h : g.Consecutive lo blocks hi)
    (hmarkers : ∀ id ∈ blocks, (g.marker? id).isSome = true) : hi = lo ∧ ∀ id ∈ blocks, g.spanOf id = .before lo := by
  induction blocks with
  | nil => exact ⟨h.symm, by simp⟩
  | cons id blocks ih =>
    obtain ⟨hid, hblocks⟩ := List.forall_mem_cons.1 hmarkers
    obtain ⟨mark, hmark⟩ := Option.isSome_iff_exists.1 hid
    obtain ⟨_, index, _, _, hspan⟩ := hb.marker_place hmark
    obtain ⟨hstart, _, hrest⟩ := h
    rw [hspan] at hstart hrest
    cases hstart
    obtain ⟨rfl, hall⟩ := ih hrest hblocks
    exact ⟨rfl, List.forall_mem_cons.2 ⟨hspan, hall⟩⟩

end Graph

namespace Recognizer

variable {src : Source} {g : Graph} {r : Region} {index : Nat} {lo hi : Nat}

/-- The starts of protected code stand at one index, and so do its ends: its entries protect the code between them. What comes
after the ends follows them in the code. -/
theorem ProtectedAt.places (hb : Graph.Built src g) {shape : ProtectedShape} {last stop : Nat} {tail : List BlockId}
    (hat : ProtectedAt g r index shape last stop tail) (h : g.Consecutive lo (r.blocks.drop index) hi) :
    ∃ mid after, g.Consecutive lo (r.sub (last + 1) stop none).blocks mid ∧ g.Consecutive mid tail after ∧
      g.Consecutive after (r.blocks.drop shape.cursor) hi ∧
      ∀ mark ∈ shape.pending, ∃ entry, src.method.handlerTable[mark.entry]? = some entry ∧
        src.labelIndex entry.start = .ok lo ∧ src.labelIndex entry.stop = .ok mid := by
  have hindex := hat.index_le_last
  have hlast := hat.last_lt_stop
  have hcursor := hat.cursor
  rw [Region.drop_eq_sub_append (by omega : index ≤ shape.cursor), hat.blocks] at h
  obtain ⟨after, h, hafter⟩ := Graph.consecutive_append.1 h
  obtain ⟨lo', hstarts, h⟩ := Graph.consecutive_append.1 h
  obtain ⟨mid, hbody, h⟩ := Graph.consecutive_append.1 h
  obtain ⟨mid', hends, htail⟩ := Graph.consecutive_append.1 h
  obtain ⟨rfl, hatStart⟩ := hstarts.markers hb fun id hid => by
    obtain ⟨start, hstart⟩ := hat.start_of_mem hid
    exact Graph.isSome_marker? hstart
  obtain ⟨rfl, hatEnd⟩ := hends.markers hb fun id hid => by
    obtain ⟨mark, _, hmark⟩ := exists_mem_of_forall₂ hat.ends hid
    exact Graph.isSome_marker? hmark
  refine ⟨_, after, hbody, htail, hafter, fun mark hmark => ?_⟩
  obtain ⟨stopId, hstopId, hstop⟩ := exists_mem_of_forall₂_right hat.ends hmark
  obtain ⟨hstop, hkind⟩ := Graph.markerOf?_eq_some.1 hstop
  obtain ⟨entry, place, hentry, hlabel, hspan⟩ := hb.marker_place hstop
  rw [hkind] at hlabel
  cases hspan.symm.trans (hatEnd stopId hstopId)
  -- The start of the same entry is one of the blocks before the code.
  obtain ⟨startAt, hstartAt, hfrom, hto⟩ := hat.started mark hmark
  have hstartId : mark.start ∈ (r.sub index (last + 1) none).blocks :=
    Region.mem_sub_of_getElem? hstartAt hfrom (Nat.lt_succ_of_le hto)
  obtain ⟨start, hstart⟩ := hat.start_of_mem hstartId
  obtain ⟨hstart, hkind'⟩ := Graph.markerOf?_eq_some.1 hstart
  obtain ⟨entry', place', hentry', hlabel', hspan'⟩ := hb.marker_place hstart
  rw [hkind'] at hlabel'
  cases hspan'.symm.trans (hatStart mark.start hstartId)
  rw [hb.entry_eq hstart hstop (.inl rfl), hentry] at hentry'
  cases hentry'
  exact ⟨entry, hentry, hlabel', hlabel⟩

/-- The markers that a handler takes away from the pending entries are those of the entries it serves. -/
theorem HandlersTaken.entries_eq (hb : Graph.Built src g) {layout : List BlockId} {pending left used : List Marker}
    {entries : List Nat} (h : HandlersTaken g layout pending entries left used)
    (hpending : ∀ mark ∈ pending, ∃ id, g.marker? id = some mark) : used.map (·.entry) = entries := by
  have hmarks : ∀ mark ∈ used, ∃ id, g.marker? id = some mark := fun mark hmark =>
    hpending mark (h.perm.mem_iff.2 (List.mem_append_left _ hmark))
  have hentries := h.entriesOf
  have hused := h.usedOf
  generalize layout.take entries.length = ids at hentries hused
  clear hpending h
  induction hentries generalizing used with
  | nil =>
    cases hused
    rfl
  | cons hentry _ ih =>
    obtain ⟨mark, hmark, rfl⟩ := hentry
    cases hused with
    | cons hhandler hused =>
      obtain ⟨⟨id, hid⟩, hmarks⟩ := List.forall_mem_cons.1 hmarks
      rw [List.map_cons, ih hmarks hused, hb.entry_eq (Graph.markerOf?_eq_some.1 hmark).1 hid (.inr (.inr hhandler.symm))]

/-- A handler starts where the handler labels of its entries are, and its body and what comes after it follow in the code. -/
theorem HandlerAt.places {subject : Subject} (hb : Graph.Built subject.toSource subject.graph) {pending : List Marker}
    {cursor : Nat} {shape : HandlerShape} {entries : List Nat} {used : List Marker} {handler : BlockId}
    (hat : HandlerAt subject r pending cursor shape entries used handler)
    (h : subject.graph.Consecutive lo (r.blocks.drop cursor) hi) :
    shape.start.header.start = lo ∧
      (∀ e ∈ entries, ∃ entry, subject.method.handlerTable[e]? = some entry ∧ subject.labelIndex entry.handler = .ok lo) ∧
      ∃ mid after, lo ≤ mid ∧ subject.graph.Consecutive mid (r.sub shape.bodyStart shape.bodyStop none).blocks after ∧
        subject.graph.Consecutive after (r.blocks.drop shape.bodyStop) hi := by
  have hmarkers : (r.sub cursor (cursor + entries.length) none).blocks = (r.blocks.drop cursor).take entries.length := by
    rw [Region.sub, Nat.add_sub_cancel_left]
  rw [Region.drop_eq_sub_append (Nat.le_add_right cursor entries.length), hmarkers] at h
  obtain ⟨lo', hfirst, hrest⟩ := Graph.consecutive_append.1 h
  obtain ⟨rfl, hatStart⟩ := hfirst.markers hb fun id hid => by
    obtain ⟨_, _, mark, hmark, _⟩ := exists_mem_of_forall₂ hat.taken.entriesOf hid
    exact Graph.isSome_marker? hmark
  refine ⟨?_, fun e he => ?_, ?_⟩
  · obtain ⟨hlt, hhandler⟩ := List.getElem?_eq_some_iff.1 hat.handlerAt
    rw [List.drop_eq_getElem_cons hlt, hhandler] at hrest
    have hstart : (subject.graph.spanOf handler).start = lo' := hrest.1
    rw [hat.start, ← hstart]
    obtain ⟨_, hheader⟩ | ⟨_, _, hheader, _⟩ := handlerStart_cases subject handler
    · rw [hheader]
      rfl
    · rw [hheader]
  · obtain ⟨id, hid, mark, hmark, rfl⟩ := exists_mem_of_forall₂_right hat.taken.entriesOf he
    obtain ⟨hmark, hkind⟩ := Graph.markerOf?_eq_some.1 hmark
    obtain ⟨entry, place, hentry, hlabel, hspan⟩ := hb.marker_place hmark
    rw [hkind] at hlabel
    cases hspan.symm.trans (hatStart id hid)
    exact ⟨entry, hentry, hlabel⟩
  · rw [Region.drop_eq_sub_append hat.markers_le] at hrest
    obtain ⟨mid, hbefore, hrest⟩ := Graph.consecutive_append.1 hrest
    rw [Region.drop_eq_sub_append hat.bodyStart_le] at hrest
    obtain ⟨after, hbody, hafter⟩ := Graph.consecutive_append.1 hrest
    exact ⟨mid, after, hbefore.le, hbody, hafter⟩

end Recognizer

end CodeLift
