import CodeLift.Proofs.Locals.Binding
import CodeLift.Proofs.Statement.Ledger
import CodeLift.Proofs.Statement.Making

/-!
# Building statements is sound

Sections whose code holds jumps only where the statements expect them, and that are well formed, are built into well-formed
statements, over operands that are in the arena. What can fail is what the code does with its values.
-/

namespace CodeLift

open Building

/-- Whether a section on its own can be built: its code can be run, and it is well formed. -/
def Section.isBuildable (code : List Insn) (scope : Scope) (s : Section) : Bool := s.isExecutable code && s.isWellFormed scope

namespace Build

variable {f : Frame} {b : Builder}

/-! ## Instructions -/

/-- An object under construction that is found is in the arena. -/
theorem uninitialized?_sound {index : Nat} {method : MethodRef} {object : Option ExprId}
    (hobject : ∀ id ∈ object.toList, id < b.arena.size) :
    Sound b (uninitialized? index method object) fun found n =>
      n = b.arena.size ∧ ∀ id className, found = some (id, className) → id < n := by
  unfold uninitialized?
  cases object with
  | none => exact .pure ⟨rfl, nofun⟩
  | some id =>
    have hid := hobject id (by simp)
    dsimp only
    split
    · refine (Sound.exprAt hid).bind fun e b' _ hb' => ?_
      rw [← hb'] at hid ⊢
      split
      · refine .pure ⟨rfl, ?_⟩
        rintro _ _ ⟨⟩
        exact hid
      · exact .pure ⟨rfl, nofun⟩
    · exact .pure ⟨rfl, nofun⟩

/-- A call leaves a frame over expressions of the arena. -/
theorem call_sound (hf : f.Sound b.arena.size) (index : Nat) (method : MethodRef) :
    Sound b (call index method f) fun f' n => f'.Sound n := by
  unfold call
  refine (Sound.ofExcept (Q := fun _ n => f.Sound n) (fun _ _ => hf) fun _ _ => rfl).bind fun type b₁ _ hf => ?_
  refine (Frame.popMany_sound hf index _).bind fun r b₂ _ hr => ?_
  refine (Frame.popIf_sound hr.2 index _).bind fun r' b₃ hle hr' => ?_
  have harguments : ∀ id ∈ r.1, id < b₃.arena.size := fun id hid => Nat.lt_of_lt_of_le (hr.1 id hid) hle
  refine (uninitialized?_sound hr'.1).bind fun found b₄ _ hfound => ?_
  rw [← hfound.1] at harguments hr'
  cases found with
  | some found =>
    obtain ⟨id, className⟩ := found
    refine (Sound.setExpr (e := .new className method.descriptor r.1) harguments).bind fun _ b₅ _ hsize => .pure ?_
    have hid := hfound.2 id className rfl
    rw [← hsize] at hid hr'
    split
    · exact hr'.2
    · exact hr'.2.emit rfl (by simpa [Statement.operands] using hid)
  | none =>
    refine (Sound.alloc ?_).bind fun id b₅ _ hid => .pure ?_
    · intro child hchild
      rcases List.mem_append.1 hchild with hchild | hchild
      · exact hr'.1 child hchild
      · exact harguments child hchild
    · split
      · exact (hr'.2.mono hid.2).push hid.1
      · exact (hr'.2.mono hid.2).emit rfl (by simpa [Statement.operands] using hid.1)

/-- A variable that the code touches is found. -/
theorem resolve_sound {code : List Insn} {ls : Locals} (hls : ls.Explains code) {index slot : Nat} {kind : ValueKind} {i : Insn}
    (hi : code[index]? = some i) (haccess : i.access = some (slot, kind)) :
    Sound b (Building.ofExcept .locals (ls.resolve slot index)) fun _ n => n = b.arena.size := by
  obtain ⟨id, hid, _⟩ := hls.covered index i slot kind hi haccess
  refine .ofExcept (fun _ _ => rfl) fun e he => ?_
  rw [Locals.resolve, hid] at he
  cases he

/-- One instruction that is no jump. -/
theorem insn_sound {code : List Insn} {ls : Locals} (hls : ls.Explains code) {index : Nat} {i : Insn} (hi : code[index]? = some i)
    (hjump : i.isJump = false) (hf : f.Sound b.arena.size) :
    Sound b (insn ls index i f) fun f' n => f'.Sound n := by
  have hpush : ∀ (e : Expr), e.children = [] → Sound b (f.pushNew e) fun f' n => f'.Sound n :=
    fun e he => Frame.pushNew_sound hf (by simp [he])
  cases i with
  | label l => exact .pure hf
  | line n => exact .pure hf
  | nop => exact .pure hf
  | constNull => exact hpush _ rfl
  | constInt value => exact hpush _ rfl
  | constString value => exact hpush _ rfl
  | load kind slot =>
    refine (resolve_sound hls hi rfl).bind fun id b' _ hsize => ?_
    exact Frame.pushNew_sound (hsize ▸ hf) (by simp [Expr.children])
  | store kind slot =>
    refine (Frame.pop_sound hf index).bind fun r b₁ _ hr => ?_
    refine (resolve_sound hls hi rfl).bind fun id b₂ _ hsize => .pure ?_
    rw [← hsize] at hr
    exact hr.2.emit rfl (by simpa [Statement.operands] using hr.1)
  | increment slot amount =>
    refine (resolve_sound hls hi rfl).bind fun id b₁ _ hsize => .pure ?_
    rw [← hsize] at hf
    exact hf.emit rfl (by simp [Statement.operands])
  | arith kind op =>
    refine (Frame.pop_sound hf index).bind fun r b₁ _ hr => ?_
    refine (Frame.pop_sound hr.2 index).bind fun r' b₂ hle hr' => ?_
    refine Frame.pushNew_sound hr'.2 ?_
    simpa [Expr.children] using ⟨hr'.1, Nat.lt_of_lt_of_le hr.1 hle⟩
  | pop =>
    refine (Frame.pop_sound hf index).bind fun r b₁ _ hr => ?_
    refine (Sound.exprAt hr.1).bind fun e b₂ _ hsize => .pure ?_
    rw [← hsize] at hr
    split
    · exact hr.2.emit rfl (by simpa [Statement.operands] using hr.1)
    · exact hr.2
  | dup => exact (Frame.pop_sound hf index).bind fun r b₁ _ hr => .pure ((hr.2.push hr.1).push hr.1)
  | new className => exact hpush _ rfl
  | getField field =>
    refine (Frame.popIf_sound hf index _).bind fun r b₁ _ hr => ?_
    exact Frame.pushNew_sound hr.2 hr.1
  | putField field =>
    refine (Frame.pop_sound hf index).bind fun r b₁ _ hr => ?_
    refine (Frame.popIf_sound hr.2 index _).bind fun r' b₂ hle hr' => .pure ?_
    refine hr'.2.emit rfl ?_
    intro id hid
    rcases List.mem_append.1 hid with hid | hid
    · exact hr'.1 id hid
    · rw [List.mem_singleton.1 hid]
      exact Nat.lt_of_lt_of_le hr.1 hle
  | invoke method => exact call_sound hf index method
  | jump test target => cases hjump
  | goto target => cases hjump
  | switch otherwise arms => cases hjump
  | ret kind =>
    cases kind with
    | none => exact .pure (hf.emit rfl (by simp [Statement.operands]))
    | some kind =>
      refine (Frame.pop_sound hf index).bind fun r b₁ _ hr => .pure ?_
      exact hr.2.emit rfl (by simpa [Statement.operands] using hr.1)
  | throw =>
    refine (Frame.pop_sound hf index).bind fun r b₁ _ hr => .pure ?_
    exact hr.2.emit rfl (by simpa [Statement.operands] using hr.1)

end Build

/-- The arena is closed, and what is held is in it. Building fails for the values of the code only. -/
def Ledger.closed (settings : Settings) {src : Source} (hls : src.locals.Explains src.method.code) : Ledger src settings where
  Entry := Empty
  entries _ _ _ := []
  Holds held a _ := a.IsClosed ∧ ∀ id ∈ held, id < a.size
  Tolerates e := e.isAboutValues = true
  tolerates_values := id
  exchange hiff h := ⟨h.1, fun id hid => h.2 id ((hiff id).2 hid)⟩
  forget _ _ _ _ _ h := ⟨h.1, fun id hid => h.2 id (List.mem_append_right _ hid)⟩
  make {e held a _} he h := by
    have hsize := a.size_lt_push e
    refine ⟨h.1.push (by simp [Expr.children_of_isImplicit he]), ?_⟩
    exact List.forall_mem_cons.2 ⟨hsize, fun id hid => Nat.lt_trans (h.2 id hid) hsize⟩
  insn {index i f b others _} hi hjump h := by
    obtain ⟨hf, hothers⟩ := List.forall_mem_append.1 h.2
    have hjump : i.isJump = false := hjump.resolve_right fun hall => nomatch hall (.missingInsn 0)
    have hinsn := Build.insn_sound hls hi hjump hf h.1
    cases hrun : Build.insn src.locals index i f b with
    | ok f' b' =>
      rw [hrun] at hinsn
      refine ⟨hinsn.1.1, List.forall_mem_append.2 ⟨hinsn.2, fun id hid => ?_⟩⟩
      exact Nat.lt_of_lt_of_le (hothers id hid) hinsn.1.2
    | error e b' =>
      rw [hrun] at hinsn
      exact hinsn.2

/-- Statements are well formed. -/
def Making.wellFormed (src : Source) : Making src where
  allows := Section.isWellFormed
  wants := Statement.isWellFormed
  insn := (Build.insn_yields _ _ _ _).mono fun _ _ h => h.mono fun _ hs => Statement.isWellFormed_of_isSimple hs
  madeInto {scope s t} hs h := by
    cases h with
    | forUpdate loopBody out hproper hstraight =>
      simp only [Section.isWellFormed, Option.all_some, Bool.and_eq_true, Bool.or_eq_true, List.isEmpty_iff] at hs
      simp only [Statement.isWellFormed, Bool.and_eq_true]
      refine ⟨hproper hs.1.2, hstraight ?_⟩
      rcases hs.2 with rfl | h
      · rfl
      · exact h.2
    | _ => simp_all [Section.isWellFormed, Statement.isWellFormed]
  comment := rfl

namespace Source

variable {src : Source} {sections : List Section} {settings : Settings} {events events' : List Event}

/-- Sections that can be built can be executed, and so can all inside them. -/
theorem all_isExecutable (hs : Section.everywhereAll (Section.isBuildable src.method.code) .outermost sections = true) :
    (Section.subtrees sections).all (Section.isExecutable src.method.code) = true := by
  rw [← Section.everywhereAll_eq_all _ .outermost]
  exact Section.everywhereAll_and (fun _ _ hs _ => (Bool.and_eq_true_iff.1 hs).1) hs hs

/-- The statements of a method are well formed, and all that they refer to is in the arena. -/
theorem body_sound (hls : src.locals.Explains src.method.code)
    (hs : Section.everywhereAll (Section.isBuildable src.method.code) .outermost sections = true) {body : Body}
    (h : src.body settings sections events = .ok body events') :
    body.arena.IsClosed ∧ Statement.SoundAll .outermost body.arena.size body.statements := by
  have hkeeps := (Ledger.closed settings hls).list_keeps sections (.inl (all_isExecutable hs)) ⟨.empty, by simp⟩ events
  have hwell : Section.everywhereAll Section.isWellFormed .outermost sections = true :=
    Section.everywhereAll_and (fun _ _ hs _ => (Bool.and_eq_true_iff.1 hs).2) hs hs
  have hlist := Source.body_eq_ok.1 h
  rw [hlist] at hkeeps
  exact ⟨hkeeps.1, Statement.soundAll_iff.2 ⟨(Making.wellFormed src).list_makes hwell _ _ hlist, hkeeps.2⟩⟩

/-- What fails is about values. -/
theorem isAboutValues_of_body (hls : src.locals.Explains src.method.code)
    (hs : Section.everywhereAll (Section.isBuildable src.method.code) .outermost sections = true) {e : StatementError}
    (h : src.body settings sections events = .error e events') : e.isAboutValues = true := by
  have hkeeps := (Ledger.closed settings hls).list_keeps sections (.inl (all_isExecutable hs)) ⟨.empty, by simp⟩ events
  unfold Source.body at h
  cases hlist : Build.list src settings sections ⟨#[], events⟩ with
  | ok statements b =>
    rw [hlist] at h
    cases h
  | error e' b =>
    rw [hlist] at hkeeps h
    cases h
    exact hkeeps

end Source

end CodeLift
