import CodeLift.Proofs.Graph.Breaks
import CodeLift.Proofs.Handlers
import CodeLift.Proofs.Safety.Locals
import Mathlib.Order.Bounds.Basic

/-!
# Where handlers end

The end of a handler that nothing jumps past is computed twice: the producer of handlers ends a block there, and the clause of the
handler stops at the first block that starts there or later. `handlerScopeEnd?` finds the first point past the span of the variable
at which the operand stack is empty (`handlerScopeEnd?_eq_some_iff`). A block starts at that point, and so the body of the clause
is the code from the binding up to it, neither more nor less.
-/

namespace CodeLift

/-! ## The depth of the operand stack -/

/-- The depth of the operand stack after code that is entered with a given depth. There is none if the depth would go below zero,
or if it is not known what an instruction takes and leaves. -/
def depthAfter? : (depth : Nat) → List Insn → Option Nat
  | depth, [] => some depth
  | depth, insn :: rest =>
    match insn.effect with
    | .error _ => none
    | .ok effect => if depth < effect.pops then none else depthAfter? (depth - effect.pops + effect.pushes) rest

theorem depthAfter?_cons {depth final : Nat} {insn : Insn} {rest : List Insn} :
    depthAfter? depth (insn :: rest) = some final ↔ ∃ effect, insn.effect = .ok effect ∧ effect.pops ≤ depth ∧
      depthAfter? (depth - effect.pops + effect.pushes) rest = some final := by
  rw [depthAfter?]
  split
  · rename_i heffect
    simp [heffect]
  · rename_i effect heffect
    split
    · rename_i hlt
      simp [heffect, hlt]
    · rename_i hge
      simp [heffect, Nat.le_of_not_lt hge]

/-- Where code can be run to its end, so can each front of it. -/
theorem isSome_depthAfter?_of_append {depth final : Nat} {xs ys : List Insn} (h : depthAfter? depth (xs ++ ys) = some final) :
    (depthAfter? depth xs).isSome = true := by
  induction xs generalizing depth with
  | nil => rfl
  | cons insn xs ih =>
    obtain ⟨effect, heffect, hle, h⟩ := depthAfter?_cons.1 h
    obtain ⟨mid, hmid⟩ := Option.isSome_iff_exists.1 (ih h)
    rw [depthAfter?_cons.2 ⟨effect, heffect, hle, hmid⟩]
    rfl

/-- The depth of the operand stack at an index if it is empty at another one before that. -/
def depthAt? (code : List Insn) (start index : Nat) : Option Nat := depthAfter? 0 ((code.take index).drop start)

/-! ## The first point at which the stack is empty -/

/-- A point of the code that starts at `index` with some values on the stack: it comes after `last`, the stack is empty there, and
no jump lies between `last` and it. -/
structure Drains (last depth index : Nat) (rest : List Insn) (stop : Nat) : Prop where
  after : index < stop
  past : last < stop
  le : stop ≤ index + rest.length
  drained : depthAfter? depth (rest.take (stop - index)) = some 0
  noJump : ∀ k insn, rest[k]? = some insn → last ≤ index + k → index + k < stop → insn.isJump = false

section

variable {last depth index stop : Nat} {insn : Insn} {rest : List Insn}

/-- The first instruction is no jump past `last`, and the point is right after it or one of the rest of the code. -/
theorem drains_cons : Drains last depth index (insn :: rest) stop ↔ ∃ effect, insn.effect = .ok effect ∧ effect.pops ≤ depth ∧
    (last ≤ index → insn.isJump = false) ∧ (last ≤ index ∧ depth - effect.pops + effect.pushes = 0 ∧ stop = index + 1 ∨
      Drains last (depth - effect.pops + effect.pushes) (index + 1) rest stop) := by
  constructor
  · intro ⟨hafter, hpast, hle, hdrained, hnoJump⟩
    obtain ⟨k, rfl⟩ : ∃ k, stop = index + 1 + k := ⟨stop - (index + 1), by omega⟩
    rw [show index + 1 + k - index = k + 1 by omega, List.take_succ_cons] at hdrained
    obtain ⟨effect, heffect, hpops, hdrained⟩ := depthAfter?_cons.1 hdrained
    refine ⟨effect, heffect, hpops, fun hlast => hnoJump 0 insn rfl hlast hafter, ?_⟩
    rcases Nat.eq_zero_or_pos k with rfl | hk
    · rw [List.take_zero, depthAfter?] at hdrained
      exact .inl ⟨by omega, Option.some.inj hdrained, rfl⟩
    · refine .inr ⟨by omega, hpast, by rw [List.length_cons] at hle; omega, ?_, ?_⟩
      · rw [Nat.add_sub_cancel_left]
        exact hdrained
      · intro j next hnext hfrom hto
        exact hnoJump (j + 1) next hnext (by omega) (by omega)
  · rintro ⟨effect, heffect, hpops, hnoJump, h⟩
    have hfirst : ∀ next, (insn :: rest)[0]? = some next → last ≤ index → next.isJump = false := by
      intro next hnext hlast
      cases hnext
      exact hnoJump hlast
    rcases h with ⟨hlast, hzero, rfl⟩ | h
    · refine ⟨by omega, by omega, by rw [List.length_cons]; omega, ?_, ?_⟩
      · rw [Nat.add_sub_cancel_left, List.take_succ_cons, List.take_zero]
        exact depthAfter?_cons.2 ⟨effect, heffect, hpops, by rw [depthAfter?, hzero]⟩
      · intro k next hnext _ hto
        obtain rfl : k = 0 := by omega
        exact hfirst next hnext hlast
    · have hafter := h.after
      have hle := h.le
      refine ⟨by omega, h.past, by rw [List.length_cons]; omega, ?_, ?_⟩
      · rw [show stop - index = stop - (index + 1) + 1 by omega, List.take_succ_cons]
        exact depthAfter?_cons.2 ⟨effect, heffect, hpops, h.drained⟩
      · intro k next hnext hfrom hto
        cases k with
        | zero => exact hfirst next hnext hfrom
        | succ k => exact h.noJump k next hnext (by omega) (by omega)

theorem drain?_cons : drain? last depth index (insn :: rest) = some stop ↔ ∃ effect, insn.effect = .ok effect ∧
    effect.pops ≤ depth ∧ (last ≤ index → insn.isJump = false) ∧
      if last ≤ index ∧ depth - effect.pops + effect.pushes = 0 then index + 1 = stop
      else drain? last (depth - effect.pops + effect.pushes) (index + 1) rest = some stop := by
  rw [drain?]
  split
  · rename_i heffect
    simp [heffect]
  · rename_i effect heffect
    have heffects : ∀ P : Effect → Prop, (∃ e, insn.effect = .ok e ∧ P e) ↔ P effect := by simp [heffect]
    rw [heffects]
    generalize depth - effect.pops + effect.pushes = left
    by_cases hpops : depth < effect.pops
    · simp [hpops]
    · cases hjump : insn.isJump <;> by_cases hlast : last ≤ index <;> by_cases hzero : left = 0 <;>
        simp [hpops, hlast, hzero, Nat.le_of_not_lt hpops]

/-- The stack drains at the first point at which it is empty. -/
theorem drain?_eq_some_iff : drain? last depth index rest = some stop ↔ IsLeast {p | Drains last depth index rest p} stop := by
  induction rest generalizing depth index with
  | nil =>
    constructor
    · intro h
      cases h
    · intro h
      have hafter := h.1.after
      have hle := h.1.le
      rw [List.length_nil] at hle
      omega
  | cons insn rest ih =>
    rw [drain?_cons]
    constructor
    · rintro ⟨effect, heffect, hpops, hnoJump, h⟩
      split at h
      · rename_i hempty
        exact ⟨drains_cons.2 ⟨effect, heffect, hpops, hnoJump, .inl ⟨hempty.1, hempty.2, h.symm⟩⟩, fun p hp => h ▸ hp.after⟩
      · rename_i hrest
        obtain ⟨hdrains, hleast⟩ := ih.1 h
        refine ⟨drains_cons.2 ⟨effect, heffect, hpops, hnoJump, .inr hdrains⟩, fun p hp => ?_⟩
        obtain ⟨effect', heffect', _, _, hp⟩ := drains_cons.1 hp
        cases heffect.symm.trans heffect'
        rcases hp with ⟨hlast, hzero, _⟩ | hp
        · exact absurd ⟨hlast, hzero⟩ hrest
        · exact hleast hp
    · intro h
      obtain ⟨effect, heffect, hpops, hnoJump, hstop⟩ := drains_cons.1 h.1
      refine ⟨effect, heffect, hpops, hnoJump, ?_⟩
      split
      · rename_i hempty
        refine Nat.le_antisymm h.1.after (h.2 ?_)
        exact drains_cons.2 ⟨effect, heffect, hpops, hnoJump, .inl ⟨hempty.1, hempty.2, rfl⟩⟩
      · rename_i hrest
        rcases hstop with ⟨hlast, hzero, _⟩ | hstop
        · exact absurd ⟨hlast, hzero⟩ hrest
        · exact ih.2 ⟨hstop, fun p hp => h.2 (drains_cons.2 ⟨effect, heffect, hpops, hnoJump, .inr hp⟩)⟩

end

/-- A point at which the handler can end whose exception is stored at `binding` in an instance: it comes after the binding, after
the last index of the span of the instance and after all accesses of the instance from the binding on. The depth of the operand
stack is not below zero up to it and zero there, and no jump lies between the last index of the span and it. -/
structure CanEnd (code : List Insn) (ls : Locals) (binding : Nat) (id : LocalId) (l : Local) (stop : Nat) : Prop where
  after : binding < stop
  le : stop ≤ code.length
  past : l.span.stop - 1 < stop
  accesses : ∀ a ∈ Method.accesses code, binding ≤ a.index → ls.find? a.slot a.index = some id → a.index < stop
  depth : ∀ index, binding < index → index ≤ stop → (depthAt? code (binding + 1) index).isSome = true
  drained : depthAt? code (binding + 1) stop = some 0
  noJump : ∀ index insn, l.span.stop - 1 ≤ index → index < stop → code[index]? = some insn → insn.isJump = false

/-- The instance in which an exception is stored is used after that, inside the code, and the point is the first one at which the
handler can end. -/
def ScopeEnds (code : List Insn) (ls : Locals) (binding stop : Nat) : Prop :=
  ∃ kind slot id l, code[binding]? = some (.store kind slot) ∧ ls.find? slot binding = some id ∧ ls.get? id = some l ∧
    binding < l.span.stop - 1 ∧ l.span.stop - 1 < code.length ∧ IsLeast {p | CanEnd code ls binding id l p} stop

/-- A found instance holds the index for which it has been found. -/
theorem Locals.mem_span_of_find? {ls : Locals} {slot index : Nat} {id : LocalId} {l : Local} (h : ls.find? slot index = some id)
    (hl : ls.get? id = some l) : index ∈ l.span := by
  obtain ⟨_, l', hl', hin⟩ := get?_of_find? h
  obtain rfl := Option.some.inj (hl'.symm.trans hl)
  exact hin

/-- A handler can end just where the stack is empty after the span of its variable. -/
theorem canEnd_iff {code : List Insn} {ls : Locals} {binding : Nat} {id : LocalId} {l : Local} {stop : Nat}
    (hl : ls.get? id = some l) (hlast : binding < l.span.stop - 1) (hin : l.span.stop - 1 < code.length) :
    CanEnd code ls binding id l stop ↔ Drains (l.span.stop - 1) 0 (binding + 1) (code.drop (binding + 1)) stop := by
  have htake : (code.drop (binding + 1)).take (stop - (binding + 1)) = (code.take stop).drop (binding + 1) := List.drop_take.symm
  constructor
  · intro h
    have hpast := h.past
    have hle := h.le
    refine ⟨by omega, hpast, by rw [List.length_drop]; omega, by rw [htake]; exact h.drained, ?_⟩
    intro k insn hinsn hfrom hto
    rw [List.getElem?_drop] at hinsn
    exact h.noJump _ insn hfrom hto hinsn
  · intro h
    have hpast := h.past
    have hle := h.le
    have hdrained := h.drained
    rw [List.length_drop] at hle
    rw [htake] at hdrained
    refine ⟨by omega, by omega, hpast, ?_, ?_, hdrained, ?_⟩
    · intro a _ _ hfind
      have hstop := (Locals.mem_span_of_find? hfind hl).2
      omega
    · intro index hafter hbefore
      have hfront : (code.take index).drop (binding + 1) = ((code.take stop).drop (binding + 1)).take (index - (binding + 1)) := by
        rw [← List.drop_take, List.take_take, Nat.min_eq_left hbefore]
      rw [← List.take_append_drop (index - (binding + 1)) ((code.take stop).drop (binding + 1)), ← hfront] at hdrained
      exact isSome_depthAfter?_of_append hdrained
    · intro index insn hfrom hto hindex
      refine h.noJump (index - (binding + 1)) insn ?_ (by omega) (by omega)
      rw [List.getElem?_drop, Nat.add_sub_cancel' (by omega)]
      exact hindex

/-- The end of a handler is the first point at which it can end, if its variable is used after the binding. -/
theorem handlerScopeEnd?_eq_some_iff {code : List Insn} {ls : Locals} {binding stop : Nat} :
    handlerScopeEnd? code ls binding = some stop ↔ ScopeEnds code ls binding stop := by
  have hends : ∀ {id l}, ls.get? id = some l → binding < l.span.stop - 1 → l.span.stop - 1 < code.length →
      (IsLeast {p | CanEnd code ls binding id l p} stop ↔
        drain? (l.span.stop - 1) 0 (binding + 1) (code.drop (binding + 1)) = some stop) := by
    intro id l hl hlast hin
    rw [drain?_eq_some_iff]
    simp only [canEnd_iff hl hlast hin]
  unfold handlerScopeEnd?
  constructor
  · intro h
    split at h
    · rename_i kind slot hstore
      obtain ⟨id, hid, h⟩ := Option.bind_eq_some_iff.1 h
      obtain ⟨l, hl, h⟩ := Option.bind_eq_some_iff.1 h
      dsimp only at h
      split at h
      · rename_i hused
        rw [Bool.and_eq_true, decide_eq_true_eq, decide_eq_true_eq] at hused
        exact ⟨kind, slot, id, l, hstore, hid, hl, hused.1, hused.2, (hends hl hused.1 hused.2).2 h⟩
      · cases h
    · cases h
  · rintro ⟨kind, slot, id, l, hstore, hid, hl, hlast, hin, hleast⟩
    rw [hstore]
    refine Option.bind_eq_some_iff.2 ⟨id, hid, Option.bind_eq_some_iff.2 ⟨l, hl, ?_⟩⟩
    dsimp only
    rw [if_pos (by simp [hlast, hin])]
    exact (hends hl hlast hin).1 hleast

/-! ## The body of a clause -/

/-- Of blocks that follow each other, the first that starts where one of them does, or later, starts just there. -/
theorem Graph.Consecutive.findIdx?_start {g : Graph} {lo hi : Nat} {blocks : List BlockId} (h : g.Consecutive lo blocks hi)
    {id : BlockId} (hid : id ∈ blocks) :
    ∃ k, blocks.findIdx? (fun other => decide ((g.spanOf id).start ≤ (g.spanOf other).start)) = some k ∧
      g.Consecutive lo (blocks.take k) (g.spanOf id).start := by
  induction blocks generalizing lo with
  | nil => cases hid
  | cons first blocks ih =>
    have hbound := (Span.Abut.bounds h (List.mem_map_of_mem hid)).1
    obtain ⟨hstart, hle, hrest⟩ := h
    by_cases hfirst : (g.spanOf id).start ≤ (g.spanOf first).start
    · exact ⟨0, by simp [List.findIdx?_cons, hfirst], Nat.le_antisymm hbound (hstart ▸ hfirst)⟩
    · have htail : id ∈ blocks := by
        rcases List.mem_cons.1 hid with rfl | htail
        · exact absurd (Nat.le_refl _) hfirst
        · exact htail
      obtain ⟨k, hk, hblocks⟩ := ih hrest htail
      exact ⟨k + 1, by simp [List.findIdx?_cons, hfirst, hk], hstart, hle, hblocks⟩

namespace Recognizer

variable {subject : Subject} {r : Region} {exit : Option BlockId} {first : Marker} {pending : List Marker} {cursor : Nat}
  {shape : HandlerShape}

theorem handlerEnd_of_handlerShape (h : handlerShape subject r exit first pending cursor = .ok shape) :
    handlerEnd subject r exit shape.start.binding shape.bodyStart shape.pending = .ok shape.bodyStop := by
  unfold handlerShape at h
  obtain ⟨⟨entries, left⟩, _, h⟩ := bind_eq_ok.1 h
  dsimp only at h
  split at h
  · cases h
  · obtain ⟨catches, _, h⟩ := bind_eq_ok.1 h
    split at h
    · cases h
    · obtain ⟨bodyStop, hend, h⟩ := bind_eq_ok.1 h
      cases h
      exact hend

/-- The rest of a handler that binds its exception follows the binding in the code. -/
theorem HandlerAt.consecutive {entries : List Nat} {used : List Marker} {handler : BlockId} {binding lo hi : Nat}
    (hat : HandlerAt subject r pending cursor shape entries used handler) (hbinding : shape.start.binding = some binding)
    (hr : subject.graph.Consecutive lo r.blocks hi) :
    subject.graph.Consecutive lo (r.blocks.take shape.bodyStart) (binding + 1) ∧
      subject.graph.Consecutive (binding + 1) (r.blocks.drop shape.bodyStart) hi := by
  have hbodyStart : shape.bodyStart = cursor + entries.length + 1 := by rw [hat.bodyStart, hbinding, Option.isSome_some, if_pos rfl]
  have hstop : (subject.graph.spanOf handler).stop = binding + 1 := by
    obtain ⟨hnone, _⟩ | ⟨binding', hsome, _, hstop, _⟩ := handlerStart_cases subject handler
    · rw [hat.start, hnone] at hbinding
      cases hbinding
    · rw [hat.start, hsome] at hbinding
      cases hbinding
      exact hstop.symm
  rw [← List.take_append_drop shape.bodyStart r.blocks] at hr
  obtain ⟨mid, hbefore, hafter⟩ := Graph.consecutive_append.1 hr
  obtain ⟨hlt, hhandler⟩ := List.getElem?_eq_some_iff.1 hat.handlerAt
  have hmid : binding + 1 = mid := by
    rw [hbodyStart, List.take_succ_eq_append_getElem hlt, hhandler] at hbefore
    obtain ⟨_, _, hlast⟩ := Graph.consecutive_append.1 hbefore
    rw [← hstop]
    exact hlast.2.2
  rw [hmid]
  exact ⟨hbefore, hafter⟩

/-- The body of a handler that nothing jumps past ends where its scope does, if a block of the region starts there. -/
theorem body_ends_with_scope {binding stop lo hi : Nat} (h : handlerShape subject r none first pending cursor = .ok shape)
    (hlast : shape.pending = []) (hbinding : shape.start.binding = some binding)
    (hscope : handlerScopeEnd? subject.method.code subject.locals binding = some stop)
    (hr : subject.graph.Consecutive lo r.blocks hi) (hblock : ∃ id ∈ r.blocks, (subject.graph.spanOf id).start = stop) :
    subject.graph.Consecutive (binding + 1) (r.sub shape.bodyStart shape.bodyStop none).blocks stop := by
  obtain ⟨entries, used, handler, hat⟩ := handlerShape_cases h
  obtain ⟨hbefore, hafter⟩ := hat.consecutive hbinding hr
  obtain ⟨id, hid, rfl⟩ := hblock
  -- What comes before the body of the handler ends with the binding, and the scope ends later.
  have hrest : id ∈ r.blocks.drop shape.bodyStart := by
    rw [← List.take_append_drop shape.bodyStart r.blocks] at hid
    rcases List.mem_append.1 hid with hid | hid
    · have hspan := Span.Abut.start_le_stop hbefore (List.mem_map_of_mem hid)
      have hbound := (Span.Abut.bounds hbefore (List.mem_map_of_mem hid)).2
      have hlate := (handlerScopeEnd?_bounds hscope).1
      omega
    · exact hid
  obtain ⟨k, hk, hbody⟩ := hafter.findIdx?_start hrest
  have hend := handlerEnd_of_handlerShape h
  rw [hlast, hbinding] at hend
  simp only [handlerEnd, lastHandlerEnd, Option.bind_some, hscope, Region.findAmong_to_end, hk, Option.map_some] at hend
  rw [← Except.ok.inj hend, Option.getD_some, Region.sub, Nat.add_sub_cancel_left]
  exact hbody

end Recognizer

/-- A clause that has been cut out of a region whose blocks follow each other: it is a handler of the region, and its body stands
for the code of the blocks of the handler after its start. -/
structure CutFrom (subject : Subject) (r : Region) (exit : Option BlockId) (shape : Recognizer.HandlerShape)
    (clause : CatchSection (List Section)) : Prop where
  consecutive : ∃ lo hi, subject.graph.Consecutive lo r.blocks hi
  shaped : ∃ first pending cursor, Recognizer.handlerShape subject r exit first pending cursor = .ok shape
  clause_eq : clause = ⟨shape.catches, shape.start.boundTo, shape.start.header, clause.body⟩
  covers : (Section.covered clause.body).Perm (subject.graph.codeOf (r.sub shape.bodyStart shape.bodyStop none).blocks)

/-- Sections that stand for the code of their region, whose clauses have all been cut out of regions. -/
def ClausesCut (subject : Subject) : RegionProperty := fun around r sections =>
  Covers subject.graph around r sections ∧ ∀ lo hi, subject.graph.Consecutive lo r.blocks hi →
    ∀ handling ∈ Section.handlersAll sections, ∃ r exit shape, CutFrom subject r exit shape handling.clause

section

variable {subject : Subject} {around : List Breakable} {r : Region} {lo hi : Nat}

theorem Inner.cutFrom {sections : List Section} (h : Inner subject (ClausesCut subject) around r sections)
    (hr : subject.graph.Consecutive lo r.blocks hi) {handling : Handling} (hmem : handling ∈ Section.handlersAll sections) :
    ∃ r exit shape, CutFrom subject r exit shape handling.clause := by
  rcases h with h | ⟨_, rfl⟩
  · exact h.2 lo hi hr handling hmem
  · cases hmem

theorem ClausesTaken.cutFrom {exit : Option BlockId} {pending : List Marker} {cursor stop : Nat}
    {clauses : List (CatchSection (List Section))}
    (h : ClausesTaken subject (ClausesCut subject) around r exit pending cursor clauses stop)
    (hr : subject.graph.Consecutive lo r.blocks hi) :
    (∀ clause ∈ clauses, ∃ r exit shape, CutFrom subject r exit shape clause) ∧
      ∀ handling ∈ Section.handlersClauses clauses, ∃ r exit shape, CutFrom subject r exit shape handling.clause := by
  induction h with
  | nil cursor => exact ⟨by simp, by simp [Section.handlersClauses]⟩
  | @cons first rest cursor stop shape body others hshape hbody hothers ih =>
    obtain ⟨entries, used, handler, hat⟩ := Recognizer.handlerShape_cases hshape
    obtain ⟨lo', hi', _, hsub, _⟩ := hr.sub hat.bodyStart_le
    have hcovers := (hbody.mono fun _ _ _ hinner => hinner.1).covers
    refine ⟨List.forall_mem_cons.2 ⟨⟨r, exit, shape, ⟨lo, hi, hr⟩, ⟨first, first :: rest, cursor, hshape⟩, rfl, hcovers⟩, ih.1⟩, ?_⟩
    intro handling hmem
    rw [Section.handlersClauses] at hmem
    rcases List.mem_append.1 hmem with hmem | hmem
    · exact hbody.cutFrom hsub hmem
    · exact ih.2 handling hmem

theorem Taken.cutFrom (hb : Graph.Built subject.toSource subject.graph) (hr : subject.graph.Consecutive lo r.blocks hi)
    {index : Nat} {found : Match} (h : Taken subject (ClausesCut subject) around r index found) {handling : Handling}
    (hmem : handling ∈ Section.handlersAll found.sections) : ∃ r exit shape, CutFrom subject r exit shape handling.clause := by
  obtain ⟨own, parts, hmade⟩ | ⟨shape, last, stop, tail, body, clauses, hat, hbody, hclauses, hsections⟩ :=
    h.parts fun id span target => hb.goto_nonempty
  · rw [hmade.handlers] at hmem
    obtain ⟨part, hpart, hmem⟩ := List.mem_flatMap.1 hmem
    obtain ⟨around, hinner⟩ := hmade.inner part hpart
    obtain ⟨a, b, hle, _, hblocks⟩ := hmade.within part hpart
    obtain ⟨lo', hi', _, hsub, _⟩ := hr.sub hle
    exact hinner.cutFrom (hblocks ▸ hsub) hmem
  · have hall := hclauses.cutFrom hr
    rw [hsections, Section.handlersAll, Section.handlers, Section.handlersAll_nil, List.append_nil] at hmem
    rcases List.mem_append.1 hmem with hmem | hmem
    · rcases List.mem_append.1 hmem with hmem | hmem
      · rw [← List.take_append_drop index r.blocks] at hr
        obtain ⟨lo', _, hfrom⟩ := Graph.consecutive_append.1 hr
        obtain ⟨mid, after, hbodyAt, htailAt, _⟩ := hat.places hb hfrom
        have hwhole : subject.graph.Consecutive lo' shape.body.blocks after := by
          rw [hat.body_blocks]
          exact Graph.consecutive_append.2 ⟨mid, hbodyAt, htailAt⟩
        exact hbody.cutFrom hwhole hmem
      · obtain ⟨clause, hclause, rfl⟩ := List.mem_map.1 hmem
        exact hall.1 clause hclause
    · exact hall.2 handling hmem

theorem Scanned.cutFrom (hb : Graph.Built subject.toSource subject.graph) (hr : subject.graph.Consecutive lo r.blocks hi)
    {index : Nat} {sections : List Section} (h : Scanned subject (ClausesCut subject) around r index sections) {handling : Handling}
    (hmem : handling ∈ Section.handlersAll sections) : ∃ r exit shape, CutFrom subject r exit shape handling.clause := by
  induction h with
  | done _ => cases hmem
  | step htaken _ _ ih =>
    rw [Section.handlersAll_append] at hmem
    rcases List.mem_append.1 hmem with hmem | hmem
    · exact htaken.cutFrom hb hr hmem
    · exact ih hmem

theorem Scanned.clausesCut (hb : Graph.Built subject.toSource subject.graph) {sections : List Section}
    (h : Scanned subject (ClausesCut subject) around r 0 sections) : ClausesCut subject around r sections := by
  constructor
  · have hcovers := Scanned.covers hb (h.mono fun _ _ _ hinner => hinner.1)
    rw [Region.sub_zero_length] at hcovers
    exact hcovers
  · intro lo hi hr handling hmem
    exact h.cutFrom hb hr hmem

end

/-- All clauses of a method are cut out of regions. -/
theorem Subject.exists_cutFrom {subject : Subject} (hb : Graph.Built subject.toSource subject.graph) {recognizers : List Recognizer}
    (hrec : ∀ recognizer ∈ recognizers, recognizer ∈ Recognizer.all) {events events' : List Event} {sections : List Section}
    (h : subject.sectionsTraced recognizers events = .ok sections events') {handling : Handling}
    (hmem : handling ∈ Section.handlersAll sections) : ∃ r exit shape, CutFrom subject r exit shape handling.clause := by
  obtain ⟨s, hs⟩ := Subject.exists_of_sectionsTraced h
  have hinner := Subject.inner_of_sections (fun _ _ _ hscanned => hscanned.clausesCut hb) hrec hs
  exact hinner.cutFrom hb.laidOut.abut hmem

/-- Let an exception be stored at the start of a handler. Its scope ends at the first point after the span of its variable at which
the operand stack is empty, unless a jump comes before that. There the code ends or a code block starts, and the body of a clause
that nothing jumps past is all code from the binding up to that point, if the region from which it is cut has a block that starts
there. All clauses of a method are cut from regions in this way. -/
theorem handlers_end_with_scope (src : Source) (g : Graph) (hlabels : src.method.labels = .ok src.labels)
    (hgraph : Graph.build src Producer.all = .ok g) :
    (∀ entry ∈ src.method.handlerTable, ∀ handler binding stop, src.labelIndex entry.handler = .ok handler →
      handlerBinding? src.method.code handler = some binding →
      (handlerScopeEnd? src.method.code src.locals binding = some stop ↔ ScopeEnds src.method.code src.locals binding stop) ∧
      (handlerScopeEnd? src.method.code src.locals binding = some stop →
        (stop = src.method.code.length ∨ ∃ id, id < g.codeBlocks ∧ (g.spanOf id).start = stop) ∧
        ∀ settings r shape clause, CutFrom ⟨src, g, settings⟩ r none shape clause → shape.pending = [] →
          shape.start.binding = some binding → (∃ id ∈ r.blocks, (g.spanOf id).start = stop) →
          ∀ i, i ∈ Section.covered clause.body ↔ binding < i ∧ i < stop)) ∧
    ∀ settings recognizers events sections events', (∀ recognizer ∈ recognizers, recognizer ∈ Recognizer.all) →
      Subject.sectionsTraced ⟨src, g, settings⟩ recognizers events = .ok sections events' →
      ∀ handling ∈ Section.handlersAll sections, ∃ r exit shape, CutFrom ⟨src, g, settings⟩ r exit shape handling.clause := by
  have hb : Graph.Built src g := Graph.built_of_build hgraph
  refine ⟨?_, ?_⟩
  · intro entry hentry handler binding stop hhandler hbinding
    refine ⟨handlerScopeEnd?_eq_some_iff, fun hscope => ⟨?_, ?_⟩⟩
    · have hpos := Producer.pos_of_handlerScopeEnd? hscope
      rcases Nat.lt_or_ge stop src.method.code.length with hlt | hge
      · refine .inr ((Graph.isCut_of_build hlabels hgraph).exists_start hlt fun _ => ?_)
        exact .scope hentry ((Source.labelIndex_eq_ok hlabels).1 hhandler) hbinding (by rw [Nat.sub_add_cancel hpos]; exact hscope)
      · exact .inl (Nat.le_antisymm (handlerScopeEnd?_bounds hscope).2 hge)
    · intro settings r shape clause hcut hlast hbinds hblock i
      obtain ⟨lo, hi, hr⟩ := hcut.consecutive
      obtain ⟨first, pending, cursor, hshape⟩ := hcut.shaped
      have hbody := Recognizer.body_ends_with_scope hshape hlast hbinds hscope hr hblock
      rw [hcut.covers.mem_iff]
      exact hbody.mem_codeOf
  · intro settings recognizers events sections events' hrec h handling hmem
    exact @Subject.exists_cutFrom ⟨src, g, settings⟩ hb recognizers hrec events events' sections h handling hmem

/-- A method that returns inside protected code. The handler stores the exception, loads and discards it, and goes on. -/
def storedThenRead : Source where
  method :=
    { owner := "A", name := "m", descriptor := "()V", isStatic := true
      code := [.label ⟨0⟩, .ret none, .label ⟨1⟩, .store .reference 0, .load .reference 0, .pop, .nop, .ret none]
      variableTable := []
      handlerTable := [⟨⟨0⟩, ⟨1⟩, ⟨1⟩, .any⟩] }
  labels := [(⟨0⟩, 0), (⟨1⟩, 2)]
  locals := Locals.empty.add ⟨0, "e", "Ljava/lang/Throwable;", none, ⟨3, 5⟩, .synthesized⟩

/-- The shape of the handler of the method, in the region of all its blocks. -/
def storedThenRead.shape (g : Graph) : Except StructuringError Recognizer.HandlerShape :=
  Recognizer.handlerShape ⟨storedThenRead, g, ⟨false, 10, true⟩⟩ ⟨g.order, none⟩ none ⟨.tryEnd, 0, 4, 5, 6⟩
    [⟨.tryEnd, 0, 4, 5, 6⟩] 3

/-- The handler ends after the instruction that discards the exception, not after the one that loads it. -/
theorem handlers_end_with_scope_read : ∃ g, Graph.build storedThenRead Producer.all = .ok g ∧
    ScopeEnds storedThenRead.method.code storedThenRead.locals 3 6 ∧ (∃ id, id < g.codeBlocks ∧ (g.spanOf id).start = 6) ∧
    ∃ shape clause, CutFrom ⟨storedThenRead, g, ⟨false, 10, true⟩⟩ ⟨g.order, none⟩ none shape clause ∧
      ∀ i, i ∈ Section.covered clause.body ↔ 3 < i ∧ i < 6 := by
  have htest : ((Graph.build storedThenRead Producer.all).toOption.any fun g =>
      g.order.any (fun id => (g.spanOf id).start == 6) && (storedThenRead.shape g).toOption.any fun shape =>
        shape.pending.isEmpty && shape.start.binding == some 3 &&
          g.codeOf (Region.sub ⟨g.order, none⟩ shape.bodyStart shape.bodyStop none).blocks == [4, 5]) = true := by decide +kernel
  cases hgraph : Graph.build storedThenRead Producer.all with
  | error e =>
    rw [hgraph] at htest
    cases htest
  | ok g =>
    rw [hgraph] at htest
    obtain ⟨hblock, htest⟩ := Bool.and_eq_true_iff.1 htest
    cases hshape : storedThenRead.shape g with
    | error e =>
      rw [hshape] at htest
      cases htest
    | ok shape =>
      rw [hshape, Except.toOption, Option.any_some] at htest
      simp only [Bool.and_eq_true, List.isEmpty_iff, beq_iff_eq] at htest
      obtain ⟨⟨hlast, hbinding⟩, hcode⟩ := htest
      obtain ⟨id, hid, hstart⟩ := List.any_eq_true.1 hblock
      have hscope : handlerScopeEnd? storedThenRead.method.code storedThenRead.locals 3 = some 6 := by decide +kernel
      have hcut : CutFrom ⟨storedThenRead, g, ⟨false, 10, true⟩⟩ ⟨g.order, none⟩ none shape
          ⟨shape.catches, shape.start.boundTo, shape.start.header, [.body ⟨4, 6⟩]⟩ :=
        ⟨⟨0, _, (Graph.built_of_build hgraph).laidOut.abut⟩, ⟨_, _, _, hshape⟩, rfl, .of_eq hcode.symm⟩
      obtain ⟨hends, hconclusion⟩ := (handlers_end_with_scope storedThenRead g rfl hgraph).1 _ List.mem_cons_self 2 3 6 rfl
        (by decide +kernel)
      obtain ⟨hstarts, hbody⟩ := hconclusion hscope
      exact ⟨g, rfl, hends.1 hscope, hstarts.resolve_left (by decide), shape, _, hcut,
        hbody _ _ shape _ hcut hlast hbinding ⟨id, hid, of_decide_eq_true hstart⟩⟩

end CodeLift
