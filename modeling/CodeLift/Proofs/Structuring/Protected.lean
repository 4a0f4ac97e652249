import CodeLift.Proofs.Bisect
import CodeLift.Proofs.Structuring.Shapes

/-!
# The shapes of protected code and of handlers

`protectedShape_cases` says what stands around protected code: the starts of exactly the entries that end together in front of it,
their ends after it, and at most one block more. `handlerShape_cases` says what a handler consumes: markers of pending entries,
and a block that may be its header.
-/

namespace CodeLift.Recognizer

variable {g : Graph} {r : Region} {index : Nat}

/-! ## Protected code -/

/-- There are no more leading marks than blocks. -/
theorem leadingMarkers_length_le (kind : MarkerKind) (l : List BlockId) : (leadingMarkers g kind l).length ≤ l.length := by
  induction l with
  | nil => exact Nat.le_refl _
  | cons id l ih =>
    unfold leadingMarkers
    split
    · exact Nat.succ_le_succ ih
    · exact Nat.zero_le _

/-- The markers at the front of a layout stand there in order. -/
theorem leadingMarkers_forall₂ (kind : MarkerKind) (l : List BlockId) :
    List.Forall₂ (fun id mark => g.markerOf? kind id = some mark) (l.take (leadingMarkers g kind l).length)
      (leadingMarkers g kind l) := by
  induction l with
  | nil => exact .nil
  | cons id l ih =>
    unfold leadingMarkers
    split
    · rename_i mark hmark
      rw [List.length_cons, List.take_succ_cons]
      exact .cons hmark ih
    · exact .nil

/-- The last start lies in range, and all pending starts lie before it. -/
theorem lastStart?_spec {stop last : Nat} {pending : List Marker} (h : lastStart? r index stop pending = some last) :
    index ≤ last ∧ (last = index ∨ last < stop) ∧
      ∀ mark ∈ pending, ∃ place, r.indexOf? mark.start = some place ∧ index ≤ place ∧ place ≤ last ∧ place < stop := by
  suffices key : ∀ (pending : List Marker) (acc last : Nat), (pending.foldlM (fun last mark => do
      let place ← (r.indexOf? mark.start).filter fun place => index ≤ place && place < stop
      return max last place) acc) = some last → acc ≤ last ∧ (last = acc ∨ last < stop) ∧
      ∀ mark ∈ pending, ∃ place, r.indexOf? mark.start = some place ∧ index ≤ place ∧ place ≤ last ∧ place < stop from
    key pending index last h
  intro pending
  induction pending with
  | nil =>
    intro acc last h
    cases h
    exact ⟨Nat.le_refl _, .inl rfl, by simp⟩
  | cons mark pending ih =>
    intro acc last h
    simp only [List.foldlM_cons, Option.bind_eq_bind, Option.bind_eq_some_iff, Option.pure_def, Option.some.injEq] at h
    obtain ⟨acc', ⟨place, hplace, rfl⟩, h⟩ := h
    obtain ⟨hindex, hb⟩ := Option.filter_eq_some_iff.1 hplace
    simp only [Bool.and_eq_true, decide_eq_true_eq] at hb
    obtain ⟨h1, h2, h3⟩ := ih _ _ h
    refine ⟨by omega, by omega, fun m hm => ?_⟩
    rcases List.mem_cons.1 hm with rfl | hm
    · exact ⟨place, hindex, hb.1, by omega, hb.2⟩
    · exact h3 m hm

/-- Protected code inside a region: `starts` markers of the entries that end together, from the place of the shape on, the code up
to `stop`, the ends of the entries, and what `blockAfterEnd` adds. -/
structure ProtectedAt (g : Graph) (r : Region) (index : Nat) (shape : ProtectedShape) (last stop : Nat)
    (tail : List BlockId) : Prop where
  index_le_last : index ≤ last
  last_lt_stop : last < stop
  stop_le : stop + shape.pending.length ≤ r.length
  pending : shape.pending = leadingMarkers g .tryEnd (r.blocks.drop stop)
  starts : ∀ place, index ≤ place → place ≤ last → ∃ id, r.blocks[place]? = some id ∧ startsOne g shape.pending id = true
  started : ∀ mark ∈ shape.pending, ∃ place, r.blocks[place]? = some mark.start ∧ index ≤ place ∧ place ≤ last
  afterEnd : blockAfterEnd g r.blocks[stop + shape.pending.length]? = .ok (tail, shape.body.follow)
  body : shape.body.blocks = (r.blocks.take stop).drop (last + 1) ++ tail
  cursor : shape.cursor = stop + shape.pending.length + tail.length

/-- The first end lies after the start. -/
theorem firstEnd_bounds {stop stop' : Nat} (h : index < stop') (hstop : firstEnd g r index stop' = .ok stop) :
    index < stop ∧ stop ≤ stop' := by
  obtain ⟨hle, hlow, _⟩ := Region.walkBack_spec hstop
  omega

/-- A shared start consists of starts of the pending entries only. -/
theorem sharedStart_cases {stop last : Nat} {pending : List Marker} (h : sharedStart g r index stop pending = .ok (some last)) :
    lastStart? r index stop pending = some last ∧ (r.sub index (last + 1) none).blocks.all (startsOne g pending) = true := by
  unfold sharedStart at h
  split at h
  · cases h
  · rename_i last' hlast
    obtain ⟨blocks, hblocks, h⟩ := bind_eq_ok.1 h
    have h := Except.ok.inj h
    split at h
    · rename_i hall
      cases h
      rw [(Region.between_eq_ok.1 hblocks).2] at hall
      exact ⟨hlast, hall⟩
    · cases h

/-- Looking for a shared start never fails inside the region. -/
theorem succeeds_sharedStart {stop : Nat} (hlt : index < stop) (hstop : stop ≤ r.length) (pending : List Marker) :
    Succeeds (sharedStart g r index stop pending) := by
  unfold sharedStart
  split
  · exact .pure none
  · rename_i last hlast
    obtain ⟨hle, hlast, _⟩ := lastStart?_spec hlast
    exact (Region.succeeds_between (by omega) (by omega)).bind fun blocks _ => .pure _

/-- What is protected is found where the layout has it. -/
theorem protectedShape_cases {first : BlockId} {start : Marker} {inLoop : Bool} {shape : ProtectedShape}
    (h : protectedShape g r index first start inLoop = .ok (some shape)) :
    ∃ last stop tail, ProtectedAt g r index shape last stop tail := by
  unfold protectedShape at h
  split at h
  · cases h
  rename_i stop' hstop'
  obtain ⟨hindexOf, hlt⟩ := Option.filter_eq_some_iff.1 hstop'
  have hlen := Region.indexOf?_lt hindexOf
  obtain ⟨stop, hstop, h⟩ := bind_eq_ok.1 h
  obtain ⟨hindex, hle⟩ := firstEnd_bounds (by simpa using hlt) hstop
  obtain ⟨rest, hrest, h⟩ := bind_eq_ok.1 h
  cases Region.between_length_eq_ok hrest
  split at h
  · cases h
  obtain ⟨found, hfound, h⟩ := bind_eq_ok.1 h
  split at h
  · cases h
  rename_i last
  obtain ⟨hlast, hall⟩ := sharedStart_cases hfound
  obtain ⟨h1, h2, h3⟩ := lastStart?_spec hlast
  obtain ⟨inside, hinside, h⟩ := bind_eq_ok.1 h
  obtain ⟨⟨tail, exit⟩, hafter, h⟩ := bind_eq_ok.1 h
  cases h
  have hinside := (Region.between_eq_ok.1 hinside).2
  have hpend := leadingMarkers_length_le (g := g) .tryEnd (r.blocks.drop stop)
  rw [List.length_drop] at hpend
  have hlen' : r.blocks.length = r.length := rfl
  refine ⟨last, stop, tail, h1, by omega, ?_, rfl, fun place hp hp' => ?_, fun mark hmark => ?_, hafter, ?_, rfl⟩
  · dsimp only
    omega
  · obtain ⟨id, hid⟩ := Region.exists_getElem? (r := r) (i := place) (by omega)
    exact ⟨id, hid, List.all_eq_true.1 hall id (Region.mem_sub_of_getElem? hid hp (by omega))⟩
  · obtain ⟨place, hplace, hp⟩ := h3 mark hmark
    exact ⟨place, Region.getElem?_of_indexOf? hplace, hp.1, hp.2.1⟩
  · rw [hinside, Region.sub, List.drop_take]

/-- The block after the ends, if it belongs to the protected code, is no marker and stands right after them. -/
theorem blockAfterEnd_cases {next : Option BlockId} {tail : List BlockId} {exit : Option BlockId}
    (h : blockAfterEnd g next = .ok (tail, exit)) :
    (tail = [] ∧ exit = none ∧ ∀ id, next = some id → g.isMarkerOf .handler id = true) ∨
      ∃ id, next = some id ∧ g.marker? id = none ∧ tail = [id] ∧ exit = g.gotoTarget? id := by
  cases next with
  | none =>
    cases h
    exact .inl ⟨rfl, rfl, by simp⟩
  | some id =>
    unfold blockAfterEnd at h
    dsimp only at h
    split at h
    · rename_i mark hmark
      split at h
      · rename_i hkind
        cases h
        refine .inl ⟨rfl, rfl, fun id' hid => ?_⟩
        cases hid
        simp [Graph.isMarkerOf, Graph.markerOf?_eq_some.2 ⟨hmark, hkind⟩]
      · cases h
    · rename_i hmark
      cases h
      exact .inr ⟨id, rfl, hmark, rfl, rfl⟩

/-- What is after the ends lies inside the region. -/
theorem ProtectedAt.cursor_le {shape : ProtectedShape} {last stop : Nat} {tail : List BlockId}
    (h : ProtectedAt g r index shape last stop tail) : shape.cursor ≤ r.length := by
  rw [h.cursor]
  obtain ⟨htail, _⟩ | ⟨id, hid, _, htail, _⟩ := blockAfterEnd_cases h.afterEnd
  · rw [htail]
    exact h.stop_le
  · rw [htail]
    exact Region.lt_length_of_getElem? hid

/-- Protected code is laid out in the order of its region. -/
theorem ProtectedAt.body_sublist {shape : ProtectedShape} {last stop : Nat} {tail : List BlockId}
    (h : ProtectedAt g r index shape last stop tail) : shape.body.blocks.Sublist r.blocks := by
  have htail : tail.Sublist (r.blocks.drop stop) := by
    obtain ⟨rfl, _⟩ | ⟨id, hid, _, rfl, _⟩ := blockAfterEnd_cases h.afterEnd
    · exact List.nil_sublist _
    · refine List.singleton_sublist.2 (List.mem_of_getElem? (i := shape.pending.length) ?_)
      rw [List.getElem?_drop]
      exact hid
  have hinside : ((r.blocks.take stop).drop (last + 1)).Sublist (r.blocks.take stop) := List.drop_sublist _ _
  have hboth := hinside.append htail
  rw [List.take_append_drop] at hboth
  rw [h.body]
  exact hboth

/-- The blocks of protected code are blocks of the region. -/
theorem ProtectedAt.mem_of_mem_body {shape : ProtectedShape} {last stop : Nat} {tail : List BlockId}
    (h : ProtectedAt g r index shape last stop tail) {id : BlockId} (hid : id ∈ shape.body.blocks) : id ∈ r.blocks :=
  h.body_sublist.subset hid

/-- What is added after the ends of the entries is the block there, if anything. -/
theorem ProtectedAt.tail_eq {shape : ProtectedShape} {last stop : Nat} {tail : List BlockId}
    (h : ProtectedAt g r index shape last stop tail) :
    (r.sub (stop + shape.pending.length) shape.cursor none).blocks = tail := by
  rw [h.cursor]
  obtain ⟨htail, _⟩ | ⟨id, hid, _, htail, _⟩ := blockAfterEnd_cases h.afterEnd
  · rw [htail, List.length_nil, Nat.add_zero, Region.sub_self]
  · rw [htail, List.length_singleton, Region.sub_single none hid]

/-- Protected code is laid out as the starts of its entries, the code, the ends of its entries, and the block after them. -/
theorem ProtectedAt.blocks {shape : ProtectedShape} {last stop : Nat} {tail : List BlockId}
    (h : ProtectedAt g r index shape last stop tail) :
    (r.sub index shape.cursor none).blocks = (r.sub index (last + 1) none).blocks ++ ((r.sub (last + 1) stop none).blocks ++
      ((r.sub stop (stop + shape.pending.length) none).blocks ++ tail)) := by
  have h1 := h.index_le_last
  have h2 := h.last_lt_stop
  have h3 := h.cursor
  rw [← h.tail_eq, Region.sub_append_sub none none none (by omega) (by omega), Region.sub_append_sub none none none h2 (by omega),
    Region.sub_append_sub none none none (by omega) (by omega)]

/-- The body holds the blocks between the starts and the ends, and a tail that was pulled in. -/
theorem ProtectedAt.body_blocks {shape : ProtectedShape} {last stop : Nat} {tail : List BlockId}
    (h : ProtectedAt g r index shape last stop tail) : shape.body.blocks = (r.sub (last + 1) stop none).blocks ++ tail := by
  rw [h.body, Region.sub, List.drop_take]

/-- The blocks before the code mark the starts of its entries. -/
theorem ProtectedAt.start_of_mem {shape : ProtectedShape} {last stop : Nat} {tail : List BlockId}
    (h : ProtectedAt g r index shape last stop tail) {id : BlockId} (hid : id ∈ (r.sub index (last + 1) none).blocks) :
    ∃ start, g.markerOf? .tryStart id = some start := by
  have h1 := h.last_lt_stop
  have h2 := h.stop_le
  obtain ⟨i, hi⟩ := List.mem_iff_getElem?.1 hid
  have hlt := Region.lt_length_of_getElem? hi
  rw [Region.length_sub (by omega)] at hlt
  rw [Region.getElem?_sub hlt] at hi
  obtain ⟨id', hid', hstarts⟩ := h.starts (index + i) (by omega) (by omega)
  rw [hi] at hid'
  cases hid'
  simp only [startsOne, Bool.and_eq_true, Graph.isMarkerOf] at hstarts
  exact Option.isSome_iff_exists.1 hstarts.1

/-- The blocks after the code mark the ends of its entries. -/
theorem ProtectedAt.ends {shape : ProtectedShape} {last stop : Nat} {tail : List BlockId}
    (hat : ProtectedAt g r index shape last stop tail) :
    List.Forall₂ (fun id mark => g.markerOf? .tryEnd id = some mark)
      (r.sub stop (stop + shape.pending.length) none).blocks shape.pending := by
  have h := leadingMarkers_forall₂ (g := g) .tryEnd (r.blocks.drop stop)
  rw [← hat.pending] at h
  rw [Region.sub, Nat.add_sub_cancel_left]
  exact h

/-- Only a malformed table has no block after an end. -/
theorem blockAfterEnd_error {next : Option BlockId} {e : StructuringError} (h : blockAfterEnd g next = .error e) :
    ∃ entry fault, e = .malformedTable entry fault := by
  unfold blockAfterEnd at h
  split at h
  · cases h
  · split at h
    · split at h
      · cases h
      · cases h
        exact ⟨_, _, rfl⟩
    · cases h

/-- Whatever is wrong with the ranges of a table is a fault of the table: the search for protected code stays inside of the
region. -/
theorem protectedShape_error {first : BlockId} {start : Marker} {inLoop : Bool} {e : StructuringError}
    (h : protectedShape g r index first start inLoop = .error e) : ∃ entry fault, e = .malformedTable entry fault := by
  unfold protectedShape at h
  split at h
  · cases h
    exact ⟨_, _, rfl⟩
  rename_i stop' hstop'
  obtain ⟨hindexOf, hlt⟩ := Option.filter_eq_some_iff.1 hstop'
  have hlen := Region.indexOf?_lt hindexOf
  have hfirst : Succeeds (firstEnd g r index stop') := Region.succeeds_walkBack _ _ (Nat.le_of_lt hlen)
  obtain ⟨stop, hstop, h⟩ := hfirst.bind_error h
  obtain ⟨hindex, hle⟩ := firstEnd_bounds (by simpa using hlt) hstop
  obtain ⟨rest, hrest, h⟩ := (Region.succeeds_between (by omega) (Nat.le_refl _)).bind_error h
  split at h
  · cases h
  obtain ⟨found, hfound, h⟩ := (succeeds_sharedStart hindex (by omega) _).bind_error h
  split at h
  · cases h
    exact ⟨_, _, rfl⟩
  obtain ⟨_, hlast, _⟩ := lastStart?_spec (sharedStart_cases hfound).1
  obtain ⟨inside, _, h⟩ := (Region.succeeds_between (by omega) (by omega)).bind_error h
  rcases bind_eq_error h with hafter | ⟨⟨tail, exit⟩, _, h⟩
  · exact blockAfterEnd_error hafter
  · cases h

/-! ## Handlers -/

/-- Handler markers at the front of a layout: `ids` are taken, with the entries they belong to and the pending markers used up. -/
structure HandlersTaken (g : Graph) (layout : List BlockId) (pending : List Marker) (entries : List Nat)
    (left used : List Marker) : Prop where
  entriesOf : List.Forall₂ (fun id entry => ∃ mark, g.markerOf? .handler id = some mark ∧ mark.entry = entry)
    (layout.take entries.length) entries
  usedOf : List.Forall₂ (fun id mark => mark.handler = id) (layout.take entries.length) used
  perm : pending.Perm (used ++ left)

/-- The handlers that are taken belong to pending entries, in the order of the layout. -/
theorem takeHandlers_cases {layout : List BlockId} {pending left : List Marker} {entries : List Nat}
    (h : takeHandlers g layout pending = .ok (entries, left)) : ∃ used, HandlersTaken g layout pending entries left used := by
  induction layout generalizing pending left entries with
  | nil =>
    cases h
    exact ⟨[], .nil, .nil, .refl _⟩
  | cons id layout ih =>
    unfold takeHandlers at h
    split at h
    · cases h
      exact ⟨[], .nil, .nil, .refl _⟩
    · rename_i mark hmark
      split at h
      · rename_i hany
        cases hrest : takeHandlers g layout (pending.eraseP (·.handler == id)) with
        | error e =>
          rw [hrest] at h
          cases h
        | ok pair =>
          rw [hrest] at h
          cases h
          obtain ⟨used, hused⟩ := ih hrest
          obtain ⟨m, hm, hmid⟩ := List.any_eq_true.1 hany
          obtain ⟨taken, l₁, l₂, _, htaken, heq, herase⟩ := List.exists_of_eraseP (p := (·.handler == id)) hm hmid
          refine ⟨taken :: used, .cons ⟨mark, hmark, rfl⟩ hused.entriesOf, .cons (by simpa using htaken) hused.usedOf, ?_⟩
          have hperm := hused.perm
          rw [herase] at hperm
          rw [heq]
          exact List.perm_middle.trans (hperm.cons taken)
      · cases h

/-- Only a malformed table has handlers that cannot be taken. -/
theorem takeHandlers_error {layout : List BlockId} {pending : List Marker} {e : StructuringError}
    (h : takeHandlers g layout pending = .error e) : ∃ entry fault, e = .malformedTable entry fault := by
  induction layout generalizing pending with
  | nil => cases h
  | cons id layout ih =>
    unfold takeHandlers at h
    split at h
    · cases h
    · split at h
      · cases hrest : takeHandlers g layout (pending.eraseP (·.handler == id)) with
        | error e' =>
          rw [hrest] at h
          cases h
          exact ih hrest
        | ok pair =>
          rw [hrest] at h
          cases h
      · cases h
        exact ⟨_, _, rfl⟩

/-- No more handlers are taken than there are marks or entries. -/
theorem HandlersTaken.length_le {layout : List BlockId} {pending left used : List Marker} {entries : List Nat}
    (h : HandlersTaken g layout pending entries left used) :
    entries.length ≤ layout.length ∧ left.length + entries.length = pending.length := by
  have h1 := h.entriesOf.length_eq
  have h2 := h.usedOf.length_eq
  have h3 := h.perm.length_eq
  rw [List.length_take] at h1 h2
  rw [List.length_append] at h3
  omega

/-- Every entry that is taken belongs to a marker of the layout. -/
theorem HandlersTaken.entry_of_mem {layout : List BlockId} {pending left used : List Marker} {entries : List Nat}
    (h : HandlersTaken g layout pending entries left used) {entry : Nat} (he : entry ∈ entries) :
    ∃ id ∈ layout, ∃ mark, g.markerOf? .handler id = some mark ∧ mark.entry = entry := by
  obtain ⟨i, hi, rfl⟩ := List.getElem_of_mem he
  have hlen := h.entriesOf.length_eq
  have hget := List.Forall₂.get h.entriesOf (by omega) hi
  exact ⟨_, List.mem_of_mem_take (List.get_mem _ _), hget⟩

/-- Entries are neither lost nor made up when they are put in order. -/
theorem inTableOrder_perm (entries : List Nat) : (inTableOrder entries).Perm entries := by
  induction entries with
  | nil => exact .nil
  | cons entry entries ih =>
    have hparts := (inTableOrder entries).takeWhile_append_dropWhile (p := (· < entry))
    refine List.perm_middle.trans (.cons entry ?_)
    change ((inTableOrder entries).takeWhile (· < entry) ++ (inTableOrder entries).dropWhile (· < entry)).Perm entries
    rw [hparts]
    exact ih

/-- What stands before an entry is less, and what stands after it is not. -/
theorem inTableOrder_pairwise (entries : List Nat) : (inTableOrder entries).Pairwise (· ≤ ·) := by
  induction entries with
  | nil => exact .nil
  | cons entry entries ih =>
    have hless : ∀ other ∈ (inTableOrder entries).takeWhile (· < entry), other < entry := by
      intro other hother
      simpa using List.mem_takeWhile_imp hother
    have hrest : ∀ other ∈ (inTableOrder entries).dropWhile (· < entry), entry ≤ other := by
      intro other hother
      have hpasses : (inTableOrder entries).Pairwise fun a b => decide (b < entry) = true → decide (a < entry) = true := by
        refine ih.imp fun {a b} hle hb => ?_
        rw [decide_eq_true_eq] at hb ⊢
        omega
      simpa using eq_false_of_mem_dropWhile hpasses hother
    refine List.pairwise_append.2 ⟨ih.sublist (List.takeWhile_sublist _), ?_, ?_⟩
    · exact List.pairwise_cons.2 ⟨hrest, ih.sublist (List.dropWhile_sublist _)⟩
    · intro a ha b hb
      have ha := hless a ha
      rcases List.mem_cons.1 hb with rfl | hb
      · omega
      · have := hrest b hb
        omega

/-- What the entries catch is listed in the order of the table. -/
theorem catchTypes_cases {table : List HandlerEntry} {entries : List Nat} {catches : List CatchType}
    (h : catchTypes table entries = .ok catches) :
    List.Forall₂ (fun entry caught => ∃ handler, table[entry]? = some handler ∧ handler.catches = caught)
      (inTableOrder entries) catches := by
  refine (forall₂_of_mapM_ok h).imp fun entry caught hc => ?_
  split at hc
  · rename_i handler hh
    cases hc
    exact ⟨handler, hh, rfl⟩
  · cases hc

/-- What entries catch cannot be told only if the table does not have one of them. -/
theorem catchTypes_error {table : List HandlerEntry} {entries : List Nat} {e : StructuringError}
    (h : catchTypes table entries = .error e) : ∃ entry ∈ entries, table.length ≤ entry ∧ e = .missingEntry entry := by
  obtain ⟨entry, hmem, hf⟩ := exists_of_mapM_error h
  refine ⟨entry, (inTableOrder_perm entries).mem_iff.1 hmem, ?_⟩
  split at hf
  · cases hf
  · rename_i hnone
    cases hf
    exact ⟨List.getElem?_eq_none_iff.1 hnone, rfl⟩

variable {subject : Subject}

/-- A place that is found is at or after the cursor. -/
theorem findAmong_bounds {p : BlockId → Bool} {cursor place : Nat}
    (h : r.findAmong p (places cursor r.length) = .ok (some place)) : cursor ≤ place ∧ place ≤ r.length :=
  (mem_places.1 (Region.findAmong_eq_some h).1).imp_right Nat.le_of_lt

/-- Searching from a cursor on never fails. -/
theorem succeeds_findAmong_places (p : BlockId → Bool) (cursor : Nat) : Succeeds (r.findAmong p (places cursor r.length)) :=
  Region.succeeds_findAmong p fun _ hplace => (mem_places.1 hplace).2

/-- The last handler ends after the cursor, inside the region. -/
theorem lastHandlerEnd_bounds {exit : Option BlockId} {binding : Option Nat} {cursor stop : Nat} (hcursor : cursor ≤ r.length)
    (h : lastHandlerEnd subject r exit binding cursor = .ok stop) : cursor ≤ stop ∧ stop ≤ r.length := by
  unfold lastHandlerEnd at h
  split at h
  · rw [Region.locate_eq] at h
    cases h
    cases hloc : (r.locate? subject.graph _).filter (cursor ≤ ·) with
    | none => exact ⟨hcursor, Nat.le_refl _⟩
    | some place =>
      obtain ⟨hloc, hle⟩ := Option.filter_eq_some_iff.1 hloc
      exact ⟨by simpa using hle, Region.locate?_le hloc⟩
  · split at h
    · cases h
      exact ⟨hcursor, Nat.le_refl _⟩
    · obtain ⟨place, hplace, h⟩ := bind_eq_ok.1 h
      cases h
      cases place with
      | none => exact ⟨hcursor, Nat.le_refl _⟩
      | some place => exact findAmong_bounds hplace

/-- Looking for the end of the last handler never fails. -/
theorem succeeds_lastHandlerEnd (exit : Option BlockId) (binding : Option Nat) (cursor : Nat) :
    Succeeds (lastHandlerEnd subject r exit binding cursor) := by
  unfold lastHandlerEnd
  split
  · rw [Region.locate_eq]
    exact .pure _
  · split
    · exact .pure _
    · exact (succeeds_findAmong_places _ cursor).bind fun place _ => .pure _

/-- A handler ends after the cursor, inside the region. -/
theorem handlerEnd_bounds {exit : Option BlockId} {binding : Option Nat} {cursor stop : Nat} {pending : List Marker}
    (hcursor : cursor ≤ r.length) (h : handlerEnd subject r exit binding cursor pending = .ok stop) :
    cursor ≤ stop ∧ stop ≤ r.length := by
  unfold handlerEnd at h
  split at h
  · exact lastHandlerEnd_bounds hcursor h
  · obtain ⟨found, hfound, h⟩ := bind_eq_ok.1 h
    split at h
    · cases h
      exact findAmong_bounds hfound
    · cases h

/-- Only a malformed table has a handler without an end. -/
theorem handlerEnd_error {exit : Option BlockId} {binding : Option Nat} {cursor : Nat} {pending : List Marker}
    {e : StructuringError} (h : handlerEnd subject r exit binding cursor pending = .error e) :
    ∃ entry fault, e = .malformedTable entry fault := by
  unfold handlerEnd at h
  split at h
  · have hends : Succeeds (lastHandlerEnd subject r exit binding cursor) := succeeds_lastHandlerEnd exit binding cursor
    obtain ⟨stop, hstop⟩ := hends
    rw [hstop] at h
    cases h
  · obtain ⟨found, _, h⟩ := (succeeds_findAmong_places _ cursor).bind_error h
    split at h
    · cases h
    · cases h
      exact ⟨_, _, rfl⟩

/-- A handler of some of the pending entries inside a region: their markers at `cursor`, then the block its header is taken from,
then the rest of it. -/
structure HandlerAt (subject : Subject) (r : Region) (pending : List Marker) (cursor : Nat) (shape : HandlerShape)
    (entries : List Nat) (used : List Marker) (handler : BlockId) : Prop where
  taken : HandlersTaken subject.graph (r.blocks.drop cursor) pending entries shape.pending used
  nonempty : entries ≠ []
  catches : catchTypes subject.method.handlerTable entries = .ok shape.catches
  handlerAt : r.blocks[cursor + entries.length]? = some handler
  start : shape.start = handlerStart subject handler
  bodyStart : shape.bodyStart = if shape.start.binding.isSome then cursor + entries.length + 1 else cursor + entries.length
  bodyStart_le : shape.bodyStart ≤ shape.bodyStop
  bodyStop_le : shape.bodyStop ≤ r.length

/-- A handler starts after its markers. -/
theorem HandlerAt.markers_le {pending : List Marker} {cursor : Nat} {shape : HandlerShape} {entries : List Nat}
    {used : List Marker} {handler : BlockId} (h : HandlerAt subject r pending cursor shape entries used handler) :
    cursor + entries.length ≤ shape.bodyStart := by
  rw [h.bodyStart]
  split <;> omega

/-- A handler is laid out as its markers, the block of its header if it binds the exception, and its body. -/
theorem HandlerAt.blocks {pending : List Marker} {cursor : Nat} {shape : HandlerShape} {entries : List Nat}
    {used : List Marker} {handler : BlockId} (h : HandlerAt subject r pending cursor shape entries used handler) :
    (r.sub cursor shape.bodyStop none).blocks = (r.sub cursor (cursor + entries.length) none).blocks ++
      ((if shape.start.binding.isSome then [handler] else []) ++ (r.sub shape.bodyStart shape.bodyStop none).blocks) := by
  have hle := h.bodyStart_le
  have hmarkers := h.markers_le
  rw [← Region.sub_append_sub none none none (Nat.le_add_right cursor entries.length) (by omega)]
  congr 1
  rw [h.bodyStart] at hle ⊢
  split
  · rename_i hb
    rw [if_pos hb] at hle
    rw [← Region.sub_append_sub none none none (Nat.le_succ _) hle, Region.sub_single none h.handlerAt]
  · rfl

/-- The header of a handler is the code of the block it starts with if that binds the exception, and else holds no code. -/
theorem handlerStart_cases (subject : Subject) (id : BlockId) :
    ((handlerStart subject id).binding = none ∧ (handlerStart subject id).header = .before (subject.graph.spanOf id).start) ∨
      ∃ binding, (handlerStart subject id).binding = some binding ∧
        (handlerStart subject id).header = subject.graph.spanOf id ∧ binding + 1 = (subject.graph.spanOf id).stop ∧
        handlerBinding? subject.method.code (subject.graph.spanOf id).start = some binding := by
  unfold handlerStart
  dsimp only
  split
  · exact .inl ⟨rfl, rfl⟩
  · rename_i binding hbinding
    obtain ⟨hb, hstop⟩ := Option.filter_eq_some_iff.1 hbinding
    exact .inr ⟨binding, rfl, rfl, by simpa using hstop, hb⟩

/-- A handler is found where the layout has it. -/
theorem handlerShape_cases {exit : Option BlockId} {first : Marker} {pending : List Marker} {cursor : Nat}
    {shape : HandlerShape} (h : handlerShape subject r exit first pending cursor = .ok shape) :
    ∃ entries used handler, HandlerAt subject r pending cursor shape entries used handler := by
  unfold handlerShape at h
  obtain ⟨⟨entries, left⟩, htake, h⟩ := bind_eq_ok.1 h
  dsimp only at h
  split at h
  · cases h
  · rename_i firstEntry hfirst
    have hne : entries ≠ [] := List.ne_nil_of_mem (List.min?_mem hfirst)
    obtain ⟨catches, hcatch, h⟩ := bind_eq_ok.1 h
    split at h
    · cases h
    · rename_i handler hhandler
      obtain ⟨bodyStop, hend, h⟩ := bind_eq_ok.1 h
      cases h
      obtain ⟨used, hused⟩ := takeHandlers_cases htake
      have hlt := Region.lt_length_of_getElem? hhandler
      obtain ⟨h1, h2⟩ := handlerEnd_bounds (by split <;> omega) hend
      exact ⟨entries, used, handler, hused, hne, hcatch, hhandler, rfl, rfl, h1, h2⟩

/-- Whatever is wrong with a handler is a fault of the table, or a marker belongs to an entry that the table does not have. -/
theorem handlerShape_error_cases {exit : Option BlockId} {first : Marker} {pending : List Marker} {cursor : Nat}
    {e : StructuringError} (h : handlerShape subject r exit first pending cursor = .error e) :
    (∃ entry fault, e = .malformedTable entry fault) ∨
      ∃ id ∈ r.blocks, ∃ mark, subject.graph.marker? id = some mark ∧ subject.method.handlerTable.length ≤ mark.entry ∧
        e = .missingEntry mark.entry := by
  unfold handlerShape at h
  rcases bind_eq_error h with htake | ⟨⟨entries, left⟩, htake, h⟩
  · exact .inl (takeHandlers_error htake)
  · dsimp only at h
    split at h
    · cases h
      exact .inl ⟨_, _, rfl⟩
    · rcases bind_eq_error h with hcatch | ⟨catches, _, h⟩
      · obtain ⟨entry, hentry, hle, rfl⟩ := catchTypes_error hcatch
        obtain ⟨used, hused⟩ := takeHandlers_cases htake
        obtain ⟨id, hid, mark, hmark, rfl⟩ := hused.entry_of_mem hentry
        exact .inr ⟨id, List.mem_of_mem_drop hid, mark, (Graph.markerOf?_eq_some.1 hmark).1, hle, rfl⟩
      · split at h
        · cases h
          exact .inl ⟨_, _, rfl⟩
        · rcases bind_eq_error h with hend | ⟨bodyStop, _, h⟩
          · exact .inl (handlerEnd_error hend)
          · cases h

end CodeLift.Recognizer
