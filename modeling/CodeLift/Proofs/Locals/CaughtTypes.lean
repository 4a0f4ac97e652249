import CodeLift.Locals.Caught
import CodeLift.Proofs.Keyed
import CodeLift.Proofs.Lists

/-!
# What is noted of caught exceptions

The table of handlers is read entry by entry, and of each store only the class that its first entry catches is remembered. What is
noted of a store in the end is told by what the entries catch that store there, in their order (`Method.find?_noteAll`): the class of
the first, and its type if all of them catch the same. So the type is that of the one class, or that of all exceptions, in whatever
order the entries come.
-/

namespace CodeLift

namespace Method

/-! ## The entries of a table -/

/-- The instruction with which the handler of an entry stores or discards what it catches. -/
def bindingOf? (m : Method) (labels : Labels) (entry : HandlerEntry) : Option Nat :=
  (labels.lookup entry.handler).bind (handlerBinding? m.code)

/-- The store with which the handler of an entry binds what it catches. -/
def storeOf? (m : Method) (labels : Labels) (entry : HandlerEntry) : Option Nat := (m.bindingOf? labels entry).filter (storesAt m.code)

/-- What is noted after entries whose labels all resolve. -/
def noteAll (m : Method) (labels : Labels) (types : CaughtTypes) (table : List HandlerEntry) : CaughtTypes :=
  table.foldl (fun types entry =>
    match m.storeOf? labels entry with
    | some index => noteCaught types index entry.catches
    | none => types) types

/-- What the entries of a table catch that store at an index, in their order. -/
def storedAt (m : Method) (labels : Labels) (table : List HandlerEntry) (index : Nat) : List CatchType :=
  (table.filter fun entry => m.storeOf? labels entry == some index).map (·.catches)

section

variable {m : Method} {labels : Labels} {types types' : CaughtTypes}

/-- A label has an index exactly if it is among the labels. -/
theorem index_eq_ok_iff_lookup {label : Label} {index : Nat} : labels.index label = .ok index ↔ labels.lookup label = some index := by
  unfold Labels.index
  split
  · rename_i hlookup
    simp [hlookup]
  · rename_i hlookup
    simp [hlookup]

theorem pure_eq_ok {ε α : Type} {a b : α} : (pure a : Except ε α) = .ok b ↔ b = a := by
  constructor
  · intro h
    cases h
    rfl
  · rintro rfl
    rfl

/-- An entry is noted at the store of its handler, if its label resolves. -/
theorem noteEntry_eq_ok {entry : HandlerEntry} : m.noteEntry labels types entry = .ok types' ↔
    (labels.lookup entry.handler).isSome = true ∧ types' = m.noteAll labels types [entry] := by
  unfold noteEntry
  rw [bind_eq_ok]
  cases hlookup : labels.lookup entry.handler with
  | none => simp [index_eq_ok_iff_lookup, hlookup]
  | some handler =>
    simp only [index_eq_ok_iff_lookup, hlookup, Option.some.injEq, exists_eq_left', Option.isSome_some, true_and]
    simp only [noteAll, storeOf?, bindingOf?, hlookup, Option.bind_some, List.foldl_cons, List.foldl_nil]
    cases hbinding : handlerBinding? m.code handler with
    | none => exact pure_eq_ok
    | some index =>
      dsimp only
      rw [pure_eq_ok, Option.filter_some]
      by_cases hstore : storesAt m.code index = true
      · rw [if_pos hstore, if_pos hstore]
      · rw [if_neg hstore, if_neg hstore]

/-- A table is read if the labels of its handlers resolve, in whatever order it is. -/
theorem foldlM_noteEntry_eq_ok {table : List HandlerEntry} : table.foldlM (m.noteEntry labels) types = .ok types' ↔
    (∀ entry ∈ table, (labels.lookup entry.handler).isSome = true) ∧ types' = m.noteAll labels types table := by
  induction table generalizing types with
  | nil =>
    rw [List.foldlM_nil, pure_eq_ok]
    simp [noteAll]
  | cons entry table ih =>
    rw [List.foldlM_cons, bind_eq_ok]
    simp only [noteEntry_eq_ok, ih, List.forall_mem_cons]
    constructor
    · rintro ⟨_, ⟨hentry, rfl⟩, htable, rfl⟩
      exact ⟨⟨hentry, htable⟩, rfl⟩
    · rintro ⟨⟨hentry, htable⟩, rfl⟩
      exact ⟨_, ⟨hentry, rfl⟩, htable, rfl⟩

/-- What is noted of a store is told by the entries that store there alone. -/
theorem find?_noteAll (table : List HandlerEntry) (index : Nat) : (m.noteAll labels types table).find? index =
    (m.storedAt labels table index).foldl (fun known catches => some (joinCaught known catches)) (types.find? index) := by
  induction table generalizing types with
  | nil => rfl
  | cons entry table ih =>
    have hcons : m.storedAt labels (entry :: table) index =
        (if m.storeOf? labels entry = some index then [entry.catches] else []) ++ m.storedAt labels table index := by
      by_cases hstore : m.storeOf? labels entry = some index
      · simp [storedAt, hstore]
      · simp [storedAt, hstore]
    rw [noteAll, List.foldl_cons, ← noteAll, ih, hcons, List.foldl_append]
    cases hstore : m.storeOf? labels entry with
    | none => simp
    | some place =>
      by_cases hplace : place = index
      · subst hplace
        simp [noteCaught]
      · have hother : (noteCaught types place entry.catches).find? index = types.find? index := by
          rw [noteCaught, Keyed.find?_put, if_neg (Ne.symm hplace)]
        simp [hplace, hother]

end

/-! ## Joining what is caught at a store -/

/-- What is known of a variable after entries that catch these: the first of them, and its type if they are all the same. -/
def caughtNote : List CatchType → Option (CatchType × String)
  | [] => none
  | first :: rest => some (first, if rest.all (· == first) then first.descriptor else CatchType.any.descriptor)

/-- The type that the variable of a store has after entries that catch these. -/
def caughtDescriptor? (caught : List CatchType) : Option String := (caughtNote caught).map (·.2)

/-- Remembering the first class is enough: one more entry changes what is known as it should. -/
theorem joinCaught_caughtNote (caught : List CatchType) (c : CatchType) :
    some (joinCaught (caughtNote caught) c) = caughtNote (caught ++ [c]) := by
  cases caught with
  | nil => rfl
  | cons first rest =>
    simp only [caughtNote, joinCaught, List.cons_append, List.all_append, List.all_cons, List.all_nil, Bool.and_true]
    by_cases hsame : first = c
    · subst hsame
      simp
    · have hne : (c == first) = false := beq_eq_false_iff_ne.2 (Ne.symm hsame)
      simp [hsame, hne]

theorem foldl_joinCaught (before caught : List CatchType) :
    caught.foldl (fun known catches => some (joinCaught known catches)) (caughtNote before) = caughtNote (before ++ caught) := by
  induction caught generalizing before with
  | nil => simp
  | cons c caught ih => rw [List.foldl_cons, joinCaught_caughtNote, ih, List.append_assoc, List.singleton_append]

/-- The types of a method are those of the entries of its table that store at one place. -/
theorem caughtTypes_eq_ok {m : Method} {labels : Labels} {types : Keyed Nat String} (h : m.caughtTypes labels = .ok types) :
    (∀ entry ∈ m.handlerTable, (labels.lookup entry.handler).isSome = true) ∧
      ∀ index, types.find? index = caughtDescriptor? (m.storedAt labels m.handlerTable index) := by
  obtain ⟨noted, hnoted, h⟩ := bind_eq_ok.1 h
  cases h
  obtain ⟨hlabels, rfl⟩ := foldlM_noteEntry_eq_ok.1 hnoted
  refine ⟨hlabels, ?_⟩
  intro index
  rw [Keyed.find?_map, find?_noteAll, Keyed.find?_empty, caughtDescriptor?]
  exact congrArg (Option.map _) (foldl_joinCaught [] _)

section

variable {caught caught' : List CatchType}

/-- Entries that catch one class give the variable its type. -/
theorem caughtDescriptor?_of_same (hne : caught ≠ []) {c : CatchType} (hsame : ∀ d ∈ caught, d = c) :
    caughtDescriptor? caught = some c.descriptor := by
  obtain ⟨first, rest, rfl⟩ := List.exists_cons_of_ne_nil hne
  obtain rfl : first = c := hsame first List.mem_cons_self
  have hrest : rest.all (· == first) = true := by
    rw [List.all_eq_true]
    intro d hd
    rw [hsame d (List.mem_cons_of_mem _ hd), beq_self_eq_true]
  rw [caughtDescriptor?, caughtNote, if_pos hrest, Option.map_some]

/-- Entries that catch different classes give the variable the type of all exceptions. -/
theorem caughtDescriptor?_of_differ (hdiffer : ¬∃ c, ∀ d ∈ caught, d = c) :
    caughtDescriptor? caught = some CatchType.any.descriptor := by
  cases caught with
  | nil => exact absurd ⟨.any, by simp⟩ hdiffer
  | cons first rest =>
    have hrest : ¬rest.all (· == first) = true := by
      intro hall
      refine hdiffer ⟨first, ?_⟩
      intro d hd
      rcases List.mem_cons.1 hd with rfl | hd
      · rfl
      · exact eq_of_beq (List.all_eq_true.1 hall d hd)
    rw [caughtDescriptor?, caughtNote, if_neg hrest, Option.map_some]

/-- The order of the entries does not matter for the type. -/
theorem caughtDescriptor?_perm (h : caught.Perm caught') : caughtDescriptor? caught = caughtDescriptor? caught' := by
  by_cases hnone : caught = []
  · subst hnone
    rw [h.nil_eq]
  · have hnone' : caught' ≠ [] := by
      rintro rfl
      exact hnone h.eq_nil
    by_cases hsame : ∃ c, ∀ d ∈ caught, d = c
    · obtain ⟨c, hc⟩ := hsame
      rw [caughtDescriptor?_of_same hnone hc]
      exact (caughtDescriptor?_of_same hnone' fun d hd => hc d (h.mem_iff.2 hd)).symm
    · rw [caughtDescriptor?_of_differ hsame]
      refine (caughtDescriptor?_of_differ ?_).symm
      rintro ⟨c, hc⟩
      exact hsame ⟨c, fun d hd => hc d (h.mem_iff.1 hd)⟩

/-- The type of the variable of a store is that of something a handler may catch. -/
theorem exists_catchType_of_caughtDescriptor? {descriptor : String} (h : caughtDescriptor? caught = some descriptor) :
    ∃ c : CatchType, descriptor = c.descriptor := by
  cases caught with
  | nil => cases h
  | cons first rest =>
    rw [caughtDescriptor?, caughtNote, Option.map_some, Option.some.injEq] at h
    subst h
    dsimp only
    split
    · exact ⟨first, rfl⟩
    · exact ⟨.any, rfl⟩

end

end Method

end CodeLift
