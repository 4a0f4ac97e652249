import CodeLift.Proofs.Span
import CodeLift.Proofs.Statement.Usage

/-!
# Stack depth and the symbolic stack

`Insn.effect` says how many values an instruction takes and leaves, and `Build.insn` takes and leaves them on a stack of
expressions. The two agree: straight code runs as long as the running depth covers what its instructions take, and then leaves as
many values as the depth says. The one difference is a constructor call that completes an object under construction, which leaves
nothing whatever its descriptor says.
-/

namespace CodeLift

open Build

/-- Whether an instruction is a constructor call on an object under construction: the deepest value it takes is one. -/
def Insn.completes (a : Arena) (stack : List ExprId) : Insn → Bool
  | .invoke method =>
    method.isConstructor && match (Insn.invoke method).effect with
      | .ok effect => (stack[effect.pops - 1]?.bind (a[·]?)).any Expr.isBuilding
      | .error _ => false
  | _ => false

/-- Whether an instruction calls no method whose descriptor cannot be read. -/
def Insn.isReadable : Insn → Bool
  | .invoke method => (MethodType.parse method.descriptor).toOption.isSome
  | _ => true

/-- A readable instruction has an effect on the stack. -/
theorem Insn.exists_effect {i : Insn} (h : i.isReadable = true) : ∃ effect, i.effect = .ok effect := by
  cases i with
  | invoke method =>
    cases hparse : MethodType.parse method.descriptor with
    | ok type => exact ⟨_, effect_invoke hparse⟩
    | error e =>
      rw [isReadable, hparse] at h
      cases h
  | ret kind => cases kind <;> exact ⟨_, rfl⟩
  | _ => exact ⟨_, rfl⟩

namespace Build

/-! ## One instruction -/

/-- The action succeeds, or the stack is shallower than the values it takes, and it fails for that reason. -/
def Takes {α : Type} (index : Nat) (b : Builder) (depth pops : Nat) (x : Building α) : Prop :=
  (∃ a b', x b = .ok a b') ∨ depth < pops ∧ ∃ b', x b = .error (.stackUnderflow index) b'

namespace Takes

variable {α β : Type} {index depth pops : Nat} {b b' : Builder} {f : Frame}

theorem ok {x : Building α} {a : α} (h : x b = .ok a b') : Takes index b depth pops x := .inl ⟨a, b', h⟩

/-- An action that succeeds takes no part in what follows. -/
theorem ok_bind {x : Building α} {k : α → Building β} {a : α} (h : x b = .ok a b') (hk : Takes index b' depth pops (k a)) :
    Takes index b depth pops (x >>= k) := by
  unfold Takes
  rw [run_bind_of_ok h]
  exact hk

/-- Taking one value off needs one more. -/
theorem pop_bind {k : ExprId × Frame → Building β}
    (hk : ∀ value f', f = ⟨value :: f'.stack, f'.out⟩ → Takes index b f'.stack.length pops (k (value, f'))) :
    Takes index b f.stack.length (pops + 1) (f.pop index >>= k) := by
  obtain ⟨stack, out⟩ := f
  cases stack with
  | nil => exact .inr ⟨by simp, b, run_bind_of_error rfl⟩
  | cons value stack =>
    have hpop : Frame.pop ⟨value :: stack, out⟩ index b = .ok (value, ⟨stack, out⟩) b := rfl
    rcases hk value ⟨stack, out⟩ rfl with ⟨a, b', hok⟩ | ⟨hlt, b', herror⟩
    · exact .inl ⟨a, b', by rw [run_bind_of_ok hpop, hok]⟩
    · exact .inr ⟨Nat.succ_lt_succ hlt, b', by rw [run_bind_of_ok hpop, herror]⟩

/-- Taking a value off, where it is needed, needs one more then. -/
theorem popIf_bind {needed : Bool} {k : Option ExprId × Frame → Building β}
    (hk : ∀ object f', f = ⟨object.toList ++ f'.stack, f'.out⟩ → Takes index b f'.stack.length pops (k (object, f'))) :
    Takes index b f.stack.length (pops + needed.toNat) (f.popIf index needed >>= k) := by
  unfold Frame.popIf
  cases needed with
  | true =>
    rw [if_pos rfl, bind_assoc]
    exact pop_bind fun value f' hf => ok_bind rfl (hk (some value) f' hf)
  | false => exact ok_bind rfl (hk none f rfl)

/-- Taking several values off needs as many more. -/
theorem popMany_bind {n : Nat} {k : List ExprId × Frame → Building β}
    (hk : ∀ values f', f = ⟨values.reverse ++ f'.stack, f'.out⟩ → Takes index b f'.stack.length pops (k (values, f'))) :
    Takes index b f.stack.length (pops + n) (f.popMany index n >>= k) := by
  induction n generalizing f k with
  | zero => exact ok_bind rfl (hk [] f rfl)
  | succ n ih =>
    rw [Frame.popMany, bind_assoc]
    refine pop_bind fun last f₁ hf₁ => ?_
    dsimp only
    rw [bind_assoc]
    refine ih fun values f₂ hf₂ => ok_bind rfl (hk _ f₂ ?_)
    rw [hf₁, hf₂]
    simp

end Takes

variable {ls : Locals} {index : Nat} {f : Frame} {b : Builder} {i : Insn} {effect : Effect}

/-- An expression of the arena can be looked up. -/
theorem exprAt_of_lt {id : ExprId} (h : id < b.arena.size) : Building.exprAt index id b = .ok b.arena[id] b := by
  refine run_bind_eq_ok.2 ⟨b, b, rfl, ?_⟩
  rw [Array.getElem?_eq_getElem h]
  rfl

/-- Looking for the object under construction never fails on expressions of the arena. -/
theorem uninitialized?_isOk (index : Nat) (method : MethodRef) {object : Option ExprId}
    (h : ∀ id ∈ object.toList, id < b.arena.size) :
    ∃ found, uninitialized? index method object b = .ok found b := by
  unfold uninitialized?
  cases object with
  | none => exact ⟨none, rfl⟩
  | some id =>
    have hid : id < b.arena.size := h id (by simp)
    dsimp only
    split
    · rw [run_bind_of_ok (exprAt_of_lt hid)]
      cases b.arena[id] <;> exact ⟨_, rfl⟩
    · exact ⟨_, rfl⟩

/-- A call takes its arguments, and its object unless it is static. -/
theorem call_takes {method : MethodRef} {type : MethodType} (htype : MethodType.parse method.descriptor = .ok type)
    (hstack : ∀ id ∈ f.stack, id < b.arena.size) :
    Takes index b f.stack.length ((method.kind != .static).toNat + type.parameters.length) (call index method f) := by
  unfold call
  refine Takes.ok_bind (Building.ofExcept_eq_ok.2 ⟨htype, rfl⟩) ?_
  refine Takes.popMany_bind fun arguments f₁ hf₁ => ?_
  have hpops : (method.kind != .static).toNat = 0 + (method.kind != .static).toNat := (Nat.zero_add _).symm
  rw [hpops]
  refine Takes.popIf_bind fun object f₂ hf₂ => ?_
  have hobject : ∀ id ∈ object.toList, id < b.arena.size := by
    intro id hid
    apply hstack
    rw [hf₁, hf₂]
    simp [hid]
  obtain ⟨found, hfound⟩ := uninitialized?_isOk index method hobject
  refine Takes.ok_bind hfound ?_
  cases found with
  | some found => exact Takes.ok rfl
  | none => exact Takes.ok rfl

/-- A call with an effect has a descriptor that can be read. -/
theorem exists_parse_of_effect {method : MethodRef} (h : (Insn.invoke method).effect = .ok effect) :
    ∃ type, MethodType.parse method.descriptor = .ok type := by
  cases hparse : MethodType.parse method.descriptor with
  | ok type => exact ⟨type, rfl⟩
  | error e =>
    rw [Insn.effect, hparse] at h
    cases h

/-- An instruction that is no jump, and whose variable and descriptor are known, fails only if the stack is too shallow. -/
theorem insn_takes (heffect : i.effect = .ok effect) (hjump : i.isJump = false)
    (haccess : ∀ slot ∈ i.slot, ∃ x, ls.resolve slot index = .ok x) (hstack : ∀ id ∈ f.stack, id < b.arena.size) :
    Takes index b f.stack.length effect.pops (insn ls index i f) := by
  cases i with
  | label name => exact .ok rfl
  | line number => exact .ok rfl
  | nop => exact .ok rfl
  | constNull => exact .ok rfl
  | constInt value => exact .ok rfl
  | constString value => exact .ok rfl
  | load kind slot =>
    obtain ⟨x, hx⟩ := haccess slot rfl
    exact .ok_bind (Building.ofExcept_eq_ok.2 ⟨hx, rfl⟩) (.ok rfl)
  | store kind slot =>
    obtain ⟨x, hx⟩ := haccess slot rfl
    cases heffect
    exact .pop_bind fun value f' _ => .ok_bind (Building.ofExcept_eq_ok.2 ⟨hx, rfl⟩) (.ok rfl)
  | increment slot amount =>
    obtain ⟨x, hx⟩ := haccess slot rfl
    exact .ok_bind (Building.ofExcept_eq_ok.2 ⟨hx, rfl⟩) (.ok rfl)
  | arith kind op =>
    cases heffect
    exact .pop_bind fun rhs f₁ _ => .pop_bind fun lhs f₂ _ => .ok rfl
  | pop =>
    cases heffect
    refine .pop_bind fun value f' hf => .ok_bind (exprAt_of_lt (hstack value ?_)) (.ok rfl)
    rw [hf]
    exact List.mem_cons_self
  | dup =>
    cases heffect
    exact .pop_bind fun value f' _ => .ok rfl
  | new className => exact .ok rfl
  | getField field =>
    cases heffect
    have hpops : (if field.isStatic = true then 0 else 1) = 0 + (!field.isStatic).toNat := by cases field.isStatic <;> rfl
    dsimp only
    rw [hpops]
    exact .popIf_bind fun object f' _ => .ok rfl
  | putField field =>
    cases heffect
    have hpops : (if field.isStatic = true then 1 else 2) = 0 + (!field.isStatic).toNat + 1 := by cases field.isStatic <;> rfl
    dsimp only
    rw [hpops]
    exact .pop_bind fun value f₁ _ => .popIf_bind fun object f₂ _ => .ok rfl
  | invoke method =>
    obtain ⟨type, htype⟩ := exists_parse_of_effect heffect
    rw [effect_invoke htype] at heffect
    cases heffect
    have hpops : (if method.kind = .static then 0 else 1) = (method.kind != .static).toNat := by cases method.kind <;> rfl
    dsimp only
    rw [hpops, Nat.add_comm]
    exact call_takes htype hstack
  | jump test target => cases hjump
  | goto target => cases hjump
  | switch otherwise arms => cases hjump
  | ret kind =>
    cases kind with
    | none => exact .ok rfl
    | some kind =>
      cases heffect
      exact .pop_bind fun value f' _ => .ok rfl
  | throw =>
    cases heffect
    exact .pop_bind fun value f' _ => .ok rfl

/-- Only a call completes an object. -/
theorem completes_of_calls_nil (hcalls : i.calls = []) (a : Arena) (stack : List ExprId) : i.completes a stack = false := by
  cases i with
  | invoke method => cases hcalls
  | _ => rfl

/-- A constructor takes at least the object. -/
theorem pops_pos {method : MethodRef} (hconstructor : method.isConstructor = true)
    (heffect : (Insn.invoke method).effect = .ok effect) : 0 < effect.pops := by
  obtain ⟨type, htype⟩ := exists_parse_of_effect heffect
  rw [effect_invoke htype, if_neg (kind_ne_static hconstructor)] at heffect
  cases heffect
  exact Nat.succ_pos _

/-- A call that takes no object under construction as its receiver completes none. -/
theorem completes_eq_false {a : Arena} {used : List ExprId} {pushes : Nat} (rest : List ExprId)
    (heffect : i.effect = .ok ⟨used.length, pushes⟩)
    (hother : ∀ method, i = .invoke method → method.isConstructor = true → ∀ id, used.getLast? = some id → ∀ e, a[id]? = some e →
      e.isBuilding = false) : i.completes a (used ++ rest) = false := by
  cases i with
  | invoke method =>
    by_cases hconstructor : method.isConstructor = true
    · have hpos : 0 < used.length := pops_pos hconstructor heffect
      have hreceiver : (used ++ rest)[used.length - 1]? = used.getLast? := by
        rw [List.getElem?_append_left (by omega), List.getLast?_eq_getElem?]
      simp only [Insn.completes, heffect, hconstructor, hreceiver, Bool.true_and]
      rw [Option.any_eq_false]
      intro e he
      obtain ⟨id, hid, he⟩ := Option.bind_eq_some_iff.1 he
      simp [hother method rfl hconstructor id hid e he]
    · simp [Insn.completes, hconstructor]
  | _ => rfl

/-- An instruction finds on the stack what its effect says it takes, and changes the depth as its effect says, except that a
constructor call that completes an object leaves nothing. -/
theorem Flow.length_stack {a a' : Arena} {f' : Frame} (h : Flow i a f a' f') (heffect : i.effect = .ok effect) :
    effect.pops ≤ f.stack.length ∧
      f'.stack.length + effect.pops = f.stack.length + if i.completes a f.stack then 0 else effect.pushes := by
  cases h with
  | spend _ used rest out more _ hcalls heffect' =>
    cases heffect.symm.trans heffect'
    rw [completes_of_calls_nil hcalls]
    simp
    omega
  | make _ used rest out e pushes _ heffect' _ hcalls _ hother =>
    cases heffect.symm.trans heffect'
    rw [completes_eq_false rest heffect hother]
    cases pushes <;> simp <;> omega
  | pop =>
    cases heffect
    simp [Insn.completes]
  | dup =>
    cases heffect
    simp [Insn.completes]
  | new =>
    cases heffect
    simp [Insn.completes, Frame.push]
  | @complete method _ arguments id className rest out pushes heffect' hconstructor hid =>
    cases heffect.symm.trans heffect'
    have hcompletes : (Insn.invoke method).completes a (arguments.reverse ++ id :: rest) = true := by
      simp [Insn.completes, heffect, hconstructor, hid, Expr.isBuilding]
    rw [hcompletes]
    simp
    omega

/-- What is on the stack after an instruction has a place in the arena. -/
theorem Flow.lt_size {a a' : Arena} {f' : Frame} (h : Flow i a f a' f') (hstack : ∀ id ∈ f.stack, id < a.size) :
    ∀ id ∈ f'.stack, id < a'.size := by
  intro id hid
  cases h with
  | spend => exact hstack id (List.mem_append_right _ hid)
  | make _ used rest out e pushes =>
    rw [Array.size_push]
    cases pushes with
    | true =>
      rcases List.mem_cons.1 hid with rfl | hid
      · exact Nat.lt_succ_self _
      · exact Nat.lt_succ_of_lt (hstack id (List.mem_append_right _ hid))
    | false => exact Nat.lt_succ_of_lt (hstack id (List.mem_append_right _ hid))
  | pop => exact hstack id (List.mem_cons_of_mem _ hid)
  | dup =>
    apply hstack
    simpa using hid
  | new =>
    rw [Array.size_push]
    rcases List.mem_cons.1 hid with rfl | hid
    · exact Nat.lt_succ_self _
    · exact Nat.lt_succ_of_lt (hstack id hid)
  | complete =>
    rw [Array.size_setIfInBounds]
    exact hstack id (by simp_all)

end Build

/-! ## Straight code -/

namespace Source

/-- Whether a span holds straight code: instructions that are no jumps, except for a goto in last place, and whose variables and
descriptors are known. -/
def isStraight (src : Source) (span : Span) : Bool :=
  span.stop ≤ src.method.code.length && span.indices.all fun index => src.method.code[index]?.all fun i =>
    (!i.isJump || isImpliedGoto span.stop index i) && i.slot.all (fun slot => (src.locals.resolve slot index).toOption.isSome) &&
      i.isReadable

/-- The effect of the instruction at an index. -/
def effectAt (src : Source) (index : Nat) : Effect := (src.method.code[index]?.bind (·.effect.toOption)).getD ⟨0, 0⟩

/-- The running depth before the instruction at an index, by the effects alone of the instructions from `start` on. -/
def effectDepth (src : Source) (start depth index : Nat) : Int :=
  (⟨start, index⟩ : Span).indices.foldl (fun d j => d + ((src.effectAt j).pushes - (src.effectAt j).pops)) depth

/-- Whether the instruction at an index is a call that completes an object under construction. -/
def completesAt (src : Source) (index : Nat) (a : Arena) (stack : List ExprId) : Bool :=
  src.method.code[index]?.any (·.completes a stack)

/-- Every instruction of straight code has an effect and resolves its variable. -/
theorem exists_of_isStraight {src : Source} {span : Span} (h : src.isStraight span = true) {index : Nat} (hindex : index ∈ span) :
    ∃ i, src.method.code[index]? = some i ∧ i.effect = .ok (src.effectAt index) ∧
      (i.isJump = true → isImpliedGoto span.stop index i = true) ∧
      ∀ slot ∈ i.slot, ∃ x, src.locals.resolve slot index = .ok x := by
  simp only [isStraight, Bool.and_eq_true, decide_eq_true_eq, List.all_eq_true] at h
  have hlt : index < src.method.code.length := Nat.lt_of_lt_of_le hindex.2 h.1
  have hi : src.method.code[index]? = some src.method.code[index] := List.getElem?_eq_getElem hlt
  have hall := h.2 index (Span.mem_indices.2 hindex)
  rw [hi, Option.all_some] at hall
  simp only [Bool.and_eq_true, Bool.or_eq_true, Bool.not_eq_true'] at hall
  obtain ⟨⟨hjump, hslot⟩, hreadable⟩ := hall
  obtain ⟨effect, heffect⟩ := Insn.exists_effect hreadable
  refine ⟨_, hi, ?_, ?_, ?_⟩
  · simp [effectAt, hi, heffect, Except.toOption]
  · intro h
    rcases hjump with hjump | hjump
    · rw [h] at hjump
      cases hjump
    · exact hjump
  · intro slot hmem
    rw [Option.mem_def.1 hmem] at hslot
    cases hresolve : src.locals.resolve slot index with
    | ok x => exact ⟨x, rfl⟩
    | error e =>
      rw [Option.all_some, hresolve] at hslot
      cases hslot

end Source

namespace Build

variable {src : Source} {span : Span} {f : Frame} {b : Builder} {index : Nat}

/-- Straight code in two parts is run one after the other. -/
theorem straight_append (stop : Nat) (xs ys : List Nat) (f : Frame) :
    straight src stop (xs ++ ys) f = straight src stop xs f >>= straight src stop ys := by
  induction xs generalizing f with
  | nil => rw [List.nil_append, straight, pure_bind]
  | cons index xs ih =>
    rw [List.cons_append, straight, straight]
    cases src.method.code[index]? with
    | none => rfl
    | some i =>
      dsimp only
      split
      · rw [pure_bind, pure_bind, ih]
      · rw [bind_assoc]
        exact bind_congr fun f' => ih f'

/-- One instruction of straight code runs exactly if the stack holds what it takes. -/
theorem step_depth (hcode : src.isStraight span = true) (hindex : index ∈ span) (hstack : ∀ id ∈ f.stack, id < b.arena.size) :
    (∃ f' b', straight src span.stop [index] f b = .ok f' b' ∧ (∀ id ∈ f'.stack, id < b'.arena.size) ∧
      (src.effectAt index).pops ≤ f.stack.length ∧
      f'.stack.length + (src.effectAt index).pops =
        f.stack.length + if src.completesAt index b.arena f.stack then 0 else (src.effectAt index).pushes) ∨
    f.stack.length < (src.effectAt index).pops ∧
      ∃ b', straight src span.stop [index] f b = .error (.stackUnderflow index) b' := by
  obtain ⟨i, hi, heffect, hjump, hslot⟩ := Source.exists_of_isStraight hcode hindex
  have hsingle : straight src span.stop [index] f =
      if isImpliedGoto span.stop index i then pure f else insn src.locals index i f := by
    rw [straight, hi]
    dsimp only
    split
    · rw [pure_bind, straight]
    · exact bind_pure _
  have hcompletes : src.completesAt index b.arena f.stack = i.completes b.arena f.stack := by
    rw [Source.completesAt, hi, Option.any_some]
  rw [hsingle, hcompletes]
  by_cases himplied : isImpliedGoto span.stop index i = true
  · rw [if_pos himplied]
    cases i with
    | goto target =>
      have hnone : src.effectAt index = ⟨0, 0⟩ := (Except.ok.inj heffect).symm
      rw [hnone]
      exact .inl ⟨f, b, rfl, hstack, Nat.zero_le _, rfl⟩
    | _ => cases himplied
  · rw [if_neg himplied]
    have hno : i.isJump = false := Bool.eq_false_iff.2 fun h => himplied (hjump h)
    rcases insn_takes heffect hno hslot hstack with ⟨f', b', hok⟩ | hunderflow
    · have hflow := (insn_ran hok).1.flow
      exact .inl ⟨f', b', hok, hflow.lt_size hstack, hflow.length_stack heffect⟩
    · exact .inr hunderflow

/-- Whether the call at an index completes an object under construction, once the code of a span before it has run. -/
def foldsAt (src : Source) (span : Span) (f : Frame) (b : Builder) (index : Nat) : Bool :=
  match straight src span.stop (⟨span.start, index⟩ : Span).indices f b with
  | .ok f' b' => src.completesAt index b'.arena f'.stack
  | .error _ _ => false

/-- By how much the instruction at an index of a span changes the depth of the stack. -/
def changeAt (src : Source) (span : Span) (f : Frame) (b : Builder) (index : Nat) : Int :=
  (if foldsAt src span f b index then 0 else (src.effectAt index).pushes : Nat) - (src.effectAt index).pops

/-- The running depth of the stack before the instruction at an index of a span. -/
def depthAt (src : Source) (span : Span) (f : Frame) (b : Builder) (index : Nat) : Int :=
  (⟨span.start, index⟩ : Span).indices.foldl (fun d j => d + changeAt src span f b j) f.stack.length

/-- The indices of the first instructions of a span. -/
theorem indices_start_add (start n : Nat) : (⟨start, start + n⟩ : Span).indices = List.range' start n := by
  rw [Span.indices, Span.length, Nat.add_sub_cancel_left]

/-- The running depth changes by what the instruction before changes it. -/
theorem depthAt_succ (n : Nat) : depthAt src span f b (span.start + (n + 1)) =
    depthAt src span f b (span.start + n) + changeAt src span f b (span.start + n) := by
  rw [depthAt, depthAt, indices_start_add, indices_start_add, List.range'_1_concat]
  simp

/-- What an instruction changes is its effect, but for the result of a constructor that completes an object. -/
theorem changeAt_of_run {n : Nat} {f₁ : Frame} {b₁ : Builder}
    (h : straight src span.stop (List.range' span.start n) f b = .ok f₁ b₁) :
    changeAt src span f b (span.start + n) =
      (if src.completesAt (span.start + n) b₁.arena f₁.stack then 0 else (src.effectAt (span.start + n)).pushes : Nat) -
        (src.effectAt (span.start + n)).pops := by
  rw [changeAt, foldsAt, indices_start_add, h]

/-- The first `n` instructions of a span have run and the stack is as deep as the running depth says, or they have failed at the
first one for which the depth is too small. -/
theorem run_depth (hcode : src.isStraight span = true) (hstack : ∀ id ∈ f.stack, id < b.arena.size) {n : Nat}
    (hn : n ≤ span.length) :
    (∃ f' b', straight src span.stop (List.range' span.start n) f b = .ok f' b' ∧ (∀ id ∈ f'.stack, id < b'.arena.size) ∧
      (f'.stack.length : Int) = depthAt src span f b (span.start + n) ∧
      ∀ j, span.start ≤ j → j < span.start + n → ((src.effectAt j).pops : Int) ≤ depthAt src span f b j) ∨
    ∃ i b', i ∈ span ∧ straight src span.stop (List.range' span.start n) f b = .error (.stackUnderflow i) b' ∧
      depthAt src span f b i < (src.effectAt i).pops ∧
      ∀ j, span.start ≤ j → j < i → ((src.effectAt j).pops : Int) ≤ depthAt src span f b j := by
  induction n with
  | zero => exact .inl ⟨f, b, rfl, hstack, by simp [depthAt, Span.indices, Span.length], by omega⟩
  | succ n ih =>
    have hindex : span.start + n ∈ span := by
      rw [Span.length] at hn
      rw [Span.mem_def]
      omega
    rw [List.range'_1_concat, straight_append]
    rcases ih (by omega) with ⟨f₁, b₁, hrun, hstack₁, hlength, hbefore⟩ | ⟨i, b', hi, hrun, hlt, hbefore⟩
    · rw [run_bind_of_ok hrun, depthAt_succ, changeAt_of_run hrun]
      rcases step_depth hcode hindex hstack₁ with ⟨f₂, b₂, hstep, hstack₂, hpops, hlength₂⟩ | ⟨hlt, b₂, hstep⟩
      · refine .inl ⟨f₂, b₂, hstep, hstack₂, by omega, fun j hfrom hto => ?_⟩
        by_cases hlast : j = span.start + n
        · rw [hlast]
          omega
        · exact hbefore j hfrom (by omega)
      · exact .inr ⟨_, b₂, hindex, hstep, by omega, hbefore⟩
    · exact .inr ⟨i, b', hi, run_bind_of_error hrun, hlt, hbefore⟩

/-- Only a call of a constructor completes an object. -/
theorem exists_of_foldsAt (h : foldsAt src span f b index = true) :
    ∃ method, src.method.code[index]? = some (.invoke method) ∧ method.isConstructor = true := by
  unfold foldsAt at h
  split at h
  · obtain ⟨i, hi, hcompletes⟩ := (Option.any_eq_true _ _).1 h
    cases i with
    | invoke method => exact ⟨method, hi, (Bool.and_eq_true_iff.1 hcompletes).1⟩
    | _ => cases hcompletes
  · cases h

/-- Where no constructor declares a result, a call that completes an object changes the depth as its effect says. -/
theorem depthAt_of_void (hvoid : ∀ index ∈ span, ∀ method, src.method.code[index]? = some (.invoke method) →
    method.isConstructor = true → (src.effectAt index).pushes = 0) {index : Nat} (hindex : index ≤ span.stop) :
    depthAt src span f b index = src.effectDepth span.start f.stack.length index := by
  rw [depthAt, Source.effectDepth]
  refine List.foldl_ext _ _ _ fun d j hj => ?_
  obtain ⟨hfrom, hto⟩ : span.start ≤ j ∧ j < index := Span.mem_indices.1 hj
  rw [changeAt]
  split
  case isTrue hfolds =>
    obtain ⟨method, hinvoke, hconstructor⟩ := exists_of_foldsAt hfolds
    rw [hvoid j ⟨hfrom, by omega⟩ method hinvoke hconstructor]
  case isFalse => rfl

/-- Straight code runs exactly if the running depth covers what each of its instructions takes. It then leaves as many values as the
depth says, and fails otherwise at the first instruction for which the depth is too small. The depth is that of the effects alone
if no constructor declares a result. -/
theorem straight_code_follows_depth (src : Source) (span : Span) (f : Frame) (b : Builder) (hcode : src.isStraight span = true)
    (hstack : ∀ id ∈ f.stack, id < b.arena.size) :
    ((∃ f' b', body src span f b = .ok f' b') ↔ ∀ i ∈ span, ((src.effectAt i).pops : Int) ≤ depthAt src span f b i) ∧
      (∀ f' b', body src span f b = .ok f' b' → (f'.stack.length : Int) = depthAt src span f b span.stop) ∧
      (∀ e b', body src span f b = .error e b' → ∃ i ∈ span, e = .stackUnderflow i ∧
        depthAt src span f b i < (src.effectAt i).pops ∧
        ∀ j ∈ span, j < i → ((src.effectAt j).pops : Int) ≤ depthAt src span f b j) ∧
      ((∀ index ∈ span, ∀ method, src.method.code[index]? = some (.invoke method) → method.isConstructor = true →
          (src.effectAt index).pushes = 0) →
        ∀ index ≤ span.stop, depthAt src span f b index = src.effectDepth span.start f.stack.length index) := by
  have hstop : depthAt src span f b (span.start + span.length) = depthAt src span f b span.stop := by
    rw [depthAt, depthAt, indices_start_add]
    rfl
  rcases run_depth hcode hstack (Nat.le_refl span.length) with ⟨f₁, b₁, hrun, _, hlength, hbefore⟩ | ⟨i, b₁, hi, hrun, hlt, hbefore⟩
  · have hrun : body src span f b = .ok f₁ b₁ := hrun
    have hall : ∀ i ∈ span, ((src.effectAt i).pops : Int) ≤ depthAt src span f b i := by
      rintro i ⟨hfrom, hto⟩
      refine hbefore i hfrom ?_
      rw [Span.length]
      omega
    refine ⟨⟨fun _ => hall, fun _ => ⟨f₁, b₁, hrun⟩⟩, fun f' b' h => ?_, fun e b' h => ?_, fun hvoid index => depthAt_of_void hvoid⟩
    · rw [hrun] at h
      cases h
      exact hlength.trans hstop
    · rw [hrun] at h
      cases h
  · have hrun : body src span f b = .error (.stackUnderflow i) b₁ := hrun
    refine ⟨⟨?_, fun hall => absurd (hall i hi) (Int.not_le.2 hlt)⟩, fun f' b' h => ?_, fun e b' h => ?_,
      fun hvoid index => depthAt_of_void hvoid⟩
    · rintro ⟨f', b', h⟩
      rw [hrun] at h
      cases h
    · rw [hrun] at h
      cases h
    · rw [hrun] at h
      cases h
      exact ⟨i, hi, rfl, hlt, fun j hj hji => hbefore j hj.1 hji⟩

/-- Completes an object with a constructor whose descriptor declares a result, and then drops three values. -/
def completesThenDrops : Source where
  method :=
    { owner := "A", name := "m", descriptor := "(I)V", isStatic := true
      code := [.new "C", .dup, .load .int 0, .invoke ⟨.special, "C", "<init>", "(I)I"⟩, .pop, .pop, .pop, .goto ⟨0⟩]
      variableTable := []
      handlerTable := [] }
  labels := []
  locals := Locals.empty.add ⟨0, "param0", "I", none, ⟨0, 8⟩, .parameter⟩

/-- The effects alone leave a value for the third drop, but the constructor call has left none. -/
theorem straight_code_follows_depth_drops :
    completesThenDrops.isStraight ⟨0, 8⟩ = true ∧ completesThenDrops.effectDepth 0 1 6 = 1 ∧
      ∃ b', body completesThenDrops ⟨0, 8⟩ ⟨[0], []⟩ ⟨#[.null], []⟩ = .error (.stackUnderflow 6) b' ∧
        depthAt completesThenDrops ⟨0, 8⟩ ⟨[0], []⟩ ⟨#[.null], []⟩ 6 < 1 := by
  have hcode : completesThenDrops.isStraight ⟨0, 8⟩ = true := by decide +kernel
  have hfails : failsWith (.stackUnderflow 6) (body completesThenDrops ⟨0, 8⟩ ⟨[0], []⟩ ⟨#[.null], []⟩) = true := by
    decide +kernel
  obtain ⟨b', hrun⟩ := exists_of_failsWith hfails
  obtain ⟨i, -, hi, hlt, -⟩ := (straight_code_follows_depth _ _ _ _ hcode (by decide)).2.2.1 _ _ hrun
  cases hi
  exact ⟨hcode, by decide +kernel, b', hrun, hlt⟩

end Build

end CodeLift
