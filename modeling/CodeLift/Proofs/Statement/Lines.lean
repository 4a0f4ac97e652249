import CodeLift.Proofs.Statement.Segments
import CodeLift.Proofs.Statement.Sound

/-!
# What a line of code makes

`Build.Runs` says what the code of a line does to the arena, whatever stood there before: the calls of the code become calls of the
arena, and as long as the line uses its values only as often as it may, its expressions remain a segment. It holds of each
instruction, of straight code and of conditions.
-/

namespace CodeLift

/-- The methods that the expressions of an arena call. -/
def Arena.calls (a : Arena) : List MethodRef := a.toList.flatMap Expr.calls

/-- A new expression adds its own calls. -/
theorem Arena.calls_push (a : Arena) (e : Expr) : Arena.calls (a.push e) = Arena.calls a ++ e.calls := by simp [Arena.calls]

/-- An expression without calls is replaced by one with its own. -/
theorem Arena.calls_set {a : Arena} {id : ExprId} {e : Expr} (he : a[id]? = some e) (hnil : e.calls = []) (e' : Expr) :
    (Arena.calls (a.setIfInBounds id e')).Perm (Arena.calls a ++ e'.calls) := by
  unfold Arena.calls
  rw [Array.toList_setIfInBounds]
  exact Arena.flatMap_set_perm (by simpa using he) hnil

/-- The method that the instruction at an index calls, if it calls one. -/
def callsAt (code : List Insn) (index : Nat) : List MethodRef := (code[index]?.map Insn.calls).getD []

/-- The calls at an index are those of its instruction. -/
theorem callsAt_eq {code : List Insn} {index : Nat} {i : Insn} (hi : code[index]? = some i) : callsAt code index = i.calls := by
  rw [callsAt, hi]
  rfl

namespace Build

/-- The rest of a line can run where the arena, the stack and the references from statements are these. -/
def Reaches (code : List Insn) (base : Arena) (rest : List Nat) (a : Arena) (stack roots : List ExprId) : Prop :=
  ∃ held entries, Segment base a held entries roots ∧ entries.map Prod.fst = stack ∧
    (runEach code Usage.step rest (entries.map Prod.snd)).isSome = true

/-- What is made of the instructions `covered`, of which those of `line` run on the stack at hand: the arena and the stack before
and after, and the references from the statements that are made. -/
structure Runs (code : List Insn) (covered line : List Nat) (a : Arena) (stack new : List ExprId) (a' : Arena)
    (stack' : List ExprId) : Prop where
  calls : (Arena.calls a').Perm (Arena.calls a ++ covered.flatMap (callsAt code))
  keeps : ∀ {base rest roots}, Reaches code base (line ++ rest) a stack roots → Reaches code base rest a' stack' (roots ++ new)

variable {code : List Insn} {index : Nat} {i : Insn} {base a a' a'' : Arena} {stack stack' stack'' new new' roots : List ExprId}
  {covered covered' line line' rest : List Nat}

namespace Reaches

/-- Roots can be dropped. -/
theorem mono (h : Reaches code base rest a stack roots) {roots' : List ExprId} (hsub : roots'.Subperm roots) :
    Reaches code base rest a stack roots' := by
  obtain ⟨held, entries, hsegment, hstack, hrun⟩ := h
  have hroots : (entries.map Prod.fst ++ roots').Subperm (entries.map Prod.fst ++ roots) := (List.subperm_append_left _).2 hsub
  refine ⟨held, entries, hsegment.weaken hroots (fun _ hp => hp) fun id hid => ?_, hstack, hrun⟩
  exact hsegment.isRaw_of_mem_roots (hsub.subset hid)

/-- An instruction without a result takes values from the stack. -/
theorem spend (hi : code[index]? = some i) (hordinary : i.isOrdinary = true) (hcalls : i.calls = []) {used : List ExprId}
    (heffect : i.effect = .ok ⟨used.length, 0⟩) (h : Reaches code base (index :: rest) a (used ++ stack) roots) :
    Reaches code base rest a stack (roots ++ used) := by
  obtain ⟨held, entries, hsegment, hstack, hrun⟩ := h
  obtain ⟨us, es, rfl, rfl, rfl⟩ := List.map_eq_append_iff.1 hstack
  obtain ⟨vs, hstep, hrest⟩ := (isSome_runEach_cons hi).1 hrun
  rw [List.map_append, Usage.step_of_isOrdinary hordinary heffect (by simp)] at hstep
  obtain ⟨hready, rfl⟩ := Usage.apply_of_completed?_none (Usage.completed?_of_calls_nil hcalls _) hstep
  exact ⟨held, es, hsegment.spend (fun p hp => hready p.2 (List.mem_map_of_mem hp)) (List.Subperm.refl _), rfl, hrest⟩

/-- A new expression without operands becomes an operand of a statement. -/
theorem leaf {e : Expr} (hchildren : e.children = []) (heffects : e.hasEffects = false) (hbuilding : e.isBuilding = false)
    (h : Reaches code base rest a stack roots) : Reaches code base rest (a.push e) stack (roots ++ [a.size]) := by
  obtain ⟨held, entries, hsegment, hstack, hrun⟩ := h
  have hnone : Segment base a held ([] ++ entries) roots := hsegment
  have hpush : Segment base (a.push e) _ ([(a.size, .free)] ++ entries) roots :=
    hnone.push (by simp) (by simp [hchildren]) (by simp [heffects]) (by simp) (by simp [hbuilding]) nofun
  exact ⟨_, entries, hpush.spend (by simp [Usage.isReady]) (List.Subperm.refl _), hstack, hrun⟩

end Reaches

/-! ## Instructions -/

/-- An expression is made of values on the stack. -/
theorem Reaches.make (hi : code[index]? = some i) (hordinary : i.isOrdinary = true) {used : List ExprId} {e : Expr} {pushes : Bool}
    (heffect : i.effect = .ok ⟨used.length, pushes.toNat⟩) (hchildren : e.children.Perm used) (hcalls : e.calls = i.calls)
    (hbuilding : e.isBuilding = false)
    (hother : ∀ method, i = .invoke method → method.isConstructor = true → ∀ id, used.getLast? = some id → ∀ e, a[id]? = some e →
      e.isBuilding = false) (h : Reaches code base (index :: rest) a (used ++ stack) roots) :
    Reaches code base rest (a.push e) (if pushes then a.size :: stack else stack)
      (roots ++ if pushes then [] else [a.size]) := by
  obtain ⟨held, entries, hsegment, hstack, hrun⟩ := h
  obtain ⟨us, es, rfl, rfl, rfl⟩ := List.map_eq_append_iff.1 hstack
  obtain ⟨vs, hstep, hrest⟩ := (isSome_runEach_cons hi).1 hrun
  have hnone : Usage.completed? (us.map Prod.snd) i = none := by
    cases i with
    | invoke method =>
      simp only [Usage.completed?, List.getLast?_map]
      cases hlast : us.getLast? with
      | none => rfl
      | some p =>
        cases hv : p.2 with
        | building k =>
          by_cases hconstructor : method.isConstructor = true
          · -- The object of such a call is not under construction, so it was not tracked as such.
            have hp : p ∈ us := List.mem_of_getLast? hlast
            have hfits := hsegment.fits p (List.mem_append_left es hp)
            rw [hv] at hfits
            obtain ⟨e', he', hraw⟩ := (Option.any_eq_true _ _).1 hfits
            have hnot := hother method rfl hconstructor p.1 (by simp [hlast]) e' he'
            rw [hnot] at hraw
            cases hraw
          · simp [hv, hconstructor]
        | _ => simp [hv]
    | _ => rfl
  rw [List.map_append, Usage.step_of_isOrdinary hordinary heffect (by simp)] at hstep
  obtain ⟨hready, rfl⟩ := Usage.apply_of_completed?_none hnone hstep
  obtain ⟨held', hpush⟩ :
      ∃ held', Segment base (a.push e) held' ([(a.size, Usage.result (us.map Prod.snd) i)] ++ es) roots := by
    refine ⟨_, hsegment.push (fun p hp => hready p.2 (List.mem_map_of_mem hp)) hchildren ?_ ?_ ?_ ?_⟩
    · intro heffects
      simp [Usage.result, ← hcalls, Expr.calls_ne_nil heffects]
    · intro honce
      simp [Usage.result, honce]
    · simp only [hbuilding, Bool.false_eq_true, false_iff]
      rintro ⟨k, hk⟩
      have hready := Usage.isReady_result (us.map Prod.snd) i
      rw [hk] at hready
      cases hready
    · intro k hk
      have hready := Usage.isReady_result (us.map Prod.snd) i
      rw [hk] at hready
      cases hready
  cases pushes with
  | true =>
    rw [if_pos rfl, if_pos rfl, List.append_nil]
    exact ⟨_, _, hpush, rfl, hrest⟩
  | false =>
    rw [if_neg nofun, if_neg nofun]
    exact ⟨_, es, hpush.spend (by simp [Usage.isReady_result]) (List.Subperm.refl _), rfl, hrest⟩

/-- A value that is dropped becomes a statement if it is a call. -/
theorem Reaches.pop (hi : code[index]? = some .pop) {value : ExprId} {e : Expr} (he : a[value]? = some e)
    (h : Reaches code base (index :: rest) a (value :: stack) roots) :
    Reaches code base rest a stack (roots ++ if e.hasEffects then [value] else []) := by
  obtain ⟨held, entries, hsegment, hstack, hrun⟩ := h
  obtain ⟨⟨value, v⟩, es, rfl, rfl, rfl⟩ := List.map_eq_cons_iff.1 hstack
  obtain ⟨vs, hstep, hrest⟩ := (isSome_runEach_cons hi).1 hrun
  cases hstep
  by_cases heffects : e.hasEffects = true
  · rw [if_pos heffects]
    have hready : v.isReady = true := by
      cases v with
      | building k =>
        have hraw := hsegment.fits _ List.mem_cons_self
        exact absurd (hraw.symm.trans (Arena.isRaw_of_hasEffects he heffects)) nofun
      | _ => rfl
    have hentries : Segment base a held ([(value, v)] ++ es) roots := hsegment
    exact ⟨held, es, hentries.spend (by simpa using hready) (List.Subperm.refl _), rfl, hrest⟩
  · rw [if_neg heffects]
    rw [List.append_nil]
    exact ⟨held, es, hsegment.drop (List.sublist_cons_self _ _), rfl, hrest⟩

/-- A value that may be used more than once is duplicated. -/
theorem Reaches.dup (hi : code[index]? = some .dup) {value : ExprId}
    (h : Reaches code base (index :: rest) a (value :: stack) roots) :
    Reaches code base rest a (value :: value :: stack) roots := by
  obtain ⟨held, entries, hsegment, hstack, hrun⟩ := h
  obtain ⟨⟨value, v⟩, es, rfl, rfl, rfl⟩ := List.map_eq_cons_iff.1 hstack
  obtain ⟨vs, hstep, hrest⟩ := (isSome_runEach_cons hi).1 hrun
  simp only [List.map_cons, Usage.step] at hstep
  by_cases honce : v = .once
  · rw [if_pos honce] at hstep
    cases hstep
  · rw [if_neg honce] at hstep
    cases hstep
    exact ⟨held, _, hsegment.dup honce, rfl, hrest⟩

/-- A new object under construction is reached from the stack. -/
theorem Reaches.allocate {className : String} (hi : code[index]? = some (.new className))
    (h : Reaches code base (index :: rest) a stack roots) :
    Reaches code base rest (a.push (.newUninitialized className)) (a.size :: stack) roots := by
  obtain ⟨held, entries, hsegment, hstack, hrun⟩ := h
  obtain ⟨vs, hstep, hrest⟩ := (isSome_runEach_cons hi).1 hrun
  simp only [Usage.step] at hstep
  by_cases hmem : (entries.map Prod.snd).contains (.building index) = true
  · rw [if_pos hmem] at hstep
    cases hstep
  · rw [if_neg hmem] at hstep
    cases hstep
    have hnone : Segment base a held ([] ++ entries) roots := hsegment
    refine ⟨_, _, hnone.push (by simp) (.refl _) (by simp [Expr.hasEffects]) (by simp) (v := .building index) ?_ ?_, ?_, hrest⟩
    · simp [Expr.isBuilding]
    · intro k _ hbuilding
      exact hmem (List.contains_iff_mem.2 hbuilding)
    · rw [List.map_cons, hstack]

/-- An object under construction is completed in place, and becomes a statement if the stack does not hold it any more. -/
theorem Reaches.complete {method : MethodRef} (hi : code[index]? = some (.invoke method)) {arguments : List ExprId} {id : ExprId}
    {className : String} {pushes : Nat} (heffect : (Insn.invoke method).effect = .ok ⟨arguments.length + 1, pushes⟩)
    (hconstructor : method.isConstructor = true) (hid : a[id]? = some (.newUninitialized className))
    (h : Reaches code base (index :: rest) a (arguments.reverse ++ id :: stack) roots) :
    Reaches code base rest (a.setIfInBounds id (.new className method.descriptor arguments)) stack
      (roots ++ if stack.contains id then [] else [id]) := by
  obtain ⟨held, entries, hsegment, hstack, hrun⟩ := h
  obtain ⟨us, es', rfl, hus, hstack'⟩ := List.map_eq_append_iff.1 hstack
  obtain ⟨⟨id, v⟩, es, rfl, rfl, rfl⟩ := List.map_eq_cons_iff.1 hstack'
  obtain ⟨vs, hstep, hrest⟩ := (isSome_runEach_cons hi).1 hrun
  have hentry : (id, v) ∈ us ++ (id, v) :: es := by simp
  have hraw : a.isRaw id = true := Arena.isRaw_eq hid
  obtain ⟨k, hk⟩ := hsegment.building_of_isRaw hentry hraw
  obtain rfl : v = .building k := hk
  have hlen : us.length = arguments.length := by simpa using congrArg List.length hus
  have hvalues : (us ++ (id, Usage.building k) :: es).map Prod.snd = (us.map Prod.snd ++ [.building k]) ++ es.map Prod.snd := by
    simp
  rw [hvalues, Usage.step_of_isOrdinary rfl heffect (by simp [hlen])] at hstep
  have hsome : Usage.completed? (us.map Prod.snd ++ [.building k]) (.invoke method) = some k := by
    simp [Usage.completed?, hconstructor]
  obtain ⟨hready, hcount, rfl⟩ := Usage.apply_of_completed?_some hsome hstep
  rw [List.dropLast_concat] at hready
  have hrest : (runEach code Usage.step rest ((es.map fun p => (p.1, p.2.complete k)).map Prod.snd)).isSome = true := by
    rw [List.map_map] at hrest ⊢
    exact hrest
  have hready : ∀ p ∈ us, p.2.isReady = true := fun p hp => hready p.2 (List.mem_map_of_mem hp)
  have hchildren : (Expr.new className method.descriptor arguments).children.Perm (us.map Prod.fst) := by
    rw [hus]
    exact (List.reverse_perm arguments).symm
  have hsite : ∀ p ∈ (id, Usage.building k) :: es, p.1 = id ↔ p.2 = .building k := by
    intro p hp
    have hp := List.mem_append_right us hp
    constructor
    · rintro rfl
      obtain ⟨k', hk'⟩ := hsegment.building_of_isRaw hp hraw
      rw [hk', ← (hsegment.sites p hp _ hentry k' k hk' rfl).1 rfl]
    · exact fun hk' => (hsegment.sites p hp _ hentry k k hk' rfl).2 rfl
  have hle := (hsegment.bounds_of_mem hentry).1
  by_cases hmem : (es.map Prod.fst).contains id = true
  · rw [if_pos hmem, List.append_nil]
    have hkept : Segment base a held (us ++ es) roots := hsegment.drop ((List.sublist_cons_self _ _).append_left us)
    have hcomplete := hkept.complete hready hle hid rfl rfl hchildren rfl (fun p hp => hsite p (List.mem_cons_of_mem _ hp)) hcount
    exact ⟨held, _, hcomplete, by simp, hrest⟩
  · rw [if_neg hmem]
    have hzero : (es.map Prod.snd).count (.building k) = 0 := by
      refine List.count_eq_zero.2 fun hmem' => hmem ?_
      obtain ⟨p, hp, hp'⟩ := List.mem_map.1 hmem'
      exact List.contains_iff_mem.2 (List.mem_map.2 ⟨p, hp, (hsite p (List.mem_cons_of_mem _ hp)).2 hp'⟩)
    have hcomplete := hsegment.complete hready hle hid rfl rfl hchildren rfl hsite (by simp [hzero])
    have honce : Segment base (a.setIfInBounds id (.new className method.descriptor arguments)) held
        ([(id, .once)] ++ es.map fun p => (p.1, p.2.complete k)) roots := by simpa [Usage.complete] using hcomplete
    exact ⟨held, _, honce.spend (by simp [Usage.isReady]) (List.Subperm.refl _), by simp, hrest⟩

/-! ## Runs -/

namespace Runs

theorem refl (a : Arena) (stack : List ExprId) : Runs code [] [] a stack [] a stack := by
  refine ⟨by simp, fun h => ?_⟩
  rw [List.append_nil]
  exact h

/-- Code runs, and then more. -/
theorem trans (h : Runs code covered line a stack new a' stack') (h' : Runs code covered' line' a' stack' new' a'' stack'') :
    Runs code (covered ++ covered') (line ++ line') a stack (new ++ new') a'' stack'' := by
  constructor
  · rw [List.flatMap_append, ← List.append_assoc]
    exact h'.calls.trans (h.calls.append_right _)
  · intro base rest roots hreaches
    rw [List.append_assoc] at hreaches
    rw [← List.append_assoc]
    exact h'.keeps (h.keeps hreaches)

/-- In which order instructions and references are listed does not matter, and references may be dropped. -/
theorem mono (h : Runs code covered line a stack new a' stack') (hcovered : covered'.Perm covered) (hnew : new'.Subperm new) :
    Runs code covered' line a stack new' a' stack' :=
  ⟨h.calls.trans ((hcovered.symm.flatMap_right _).append_left _),
    fun hreaches => (h.keeps hreaches).mono ((List.subperm_append_left _).2 hnew)⟩

/-- Instructions that call nothing need not be run. -/
theorem cover (h : Runs code covered line a stack new a' stack') (hcalls : ∀ index ∈ covered', callsAt code index = []) :
    Runs code (covered' ++ covered) line a stack new a' stack' := by
  refine ⟨?_, h.keeps⟩
  rw [List.flatMap_append, List.flatMap_eq_nil_iff.2 hcalls, List.nil_append]
  exact h.calls

/-- What is made on a stack of its own, which is empty in the end, is made without the stack at hand. -/
theorem nested {start : List ExprId} (h : Runs code covered line a' start new a'' []) (hcalls : Arena.calls a' = Arena.calls a)
    (hstart : Reaches code a line a' start []) (stack : List ExprId) : Runs code covered [] a stack new a'' stack := by
  refine ⟨hcalls ▸ h.calls, fun hreaches => ?_⟩
  rw [← List.append_nil line] at hstart
  obtain ⟨held', entries', hinner, hempty, _⟩ := h.keeps hstart
  obtain ⟨held, entries, hsegment, hstack, hrun⟩ := hreaches
  obtain rfl := List.map_eq_nil_iff.1 hempty
  exact ⟨_, entries, hsegment.absorb hinner, hstack, hrun⟩

/-- An instruction without calls spends values of the stack. -/
theorem spend (hi : code[index]? = some i) (hordinary : i.isOrdinary = true) (hcalls : i.calls = []) {used : List ExprId}
    (heffect : i.effect = .ok ⟨used.length, 0⟩) : Runs code [index] [index] a (used ++ stack) used a stack :=
  ⟨by simp [callsAt_eq hi, hcalls], fun hreaches => hreaches.spend hi hordinary hcalls heffect⟩

/-- A new expression without operands is a root. -/
theorem leaf {e : Expr} (hchildren : e.children = []) (hcalls : e.calls = []) (heffects : e.hasEffects = false)
    (hbuilding : e.isBuilding = false) : Runs code [] [] a stack [a.size] (a.push e) stack :=
  ⟨by simp [Arena.calls_push, hcalls], fun hreaches => hreaches.leaf hchildren heffects hbuilding⟩

end Runs

/-- What one instruction makes. -/
theorem Flow.runs {f f' : Frame} (hi : code[index]? = some i) (h : Flow i a f a' f') :
    ∃ more, f'.out = f.out ++ more ∧ Runs code [index] [index] a f.stack (Statement.roots more) a' f'.stack := by
  cases h with
  | spend _ used rest out more hordinary hcalls heffect hmore =>
    exact ⟨more, rfl, (Runs.spend hi hordinary hcalls heffect).mono (.refl _) hmore.subperm⟩
  | make _ used rest out e pushes hordinary heffect hchildren hcalls hbuilding hother =>
    refine ⟨if pushes then [] else [.expr a.size], by cases pushes <;> simp, ?_, fun hreaches => ?_⟩
    · simp [callsAt_eq hi, Arena.calls_push, hcalls]
    · have hmake := hreaches.make hi hordinary heffect hchildren hcalls hbuilding hother
      cases pushes <;> simpa [Statement.roots, Statement.operands] using hmake
  | @pop _ value e rest out he =>
    refine ⟨if e.hasEffects then [.expr value] else [], by cases e.hasEffects <;> simp, ?_, fun hreaches => ?_⟩
    · simp [callsAt_eq hi, Insn.calls]
    · have hpop := hreaches.pop hi he
      cases heffects : e.hasEffects <;> simpa [Statement.roots, Statement.operands, heffects] using hpop
  | dup =>
    refine ⟨[], by simp, by simp [callsAt_eq hi, Insn.calls], fun hreaches => ?_⟩
    simpa [Statement.roots] using hreaches.dup hi
  | new =>
    refine ⟨[], by simp [Frame.push], by simp [callsAt_eq hi, Insn.calls, Arena.calls_push, Expr.calls], fun hreaches => ?_⟩
    simpa [Statement.roots, Frame.push] using hreaches.allocate hi
  | @complete method _ arguments id className rest out pushes heffect hconstructor hid =>
    refine ⟨if rest.contains id then [] else [.expr id], by cases rest.contains id <;> simp, ?_, fun hreaches => ?_⟩
    · have hcalls := Arena.calls_set hid rfl (.new className method.descriptor arguments)
      simpa [callsAt_eq hi, Insn.calls, Expr.calls, MethodRef.called_of_isConstructor hconstructor] using hcalls
    · have hcomplete := hreaches.complete hi heffect hconstructor hid
      cases hmem : rest.contains id <;> rw [hmem] at hcomplete <;> simpa [Statement.roots, Statement.operands] using hcomplete

/-- What straight code makes. -/
theorem body_runs {src : Source} {span : Span} {f f' : Frame} {b b' : Builder} (h : body src span f b = .ok f' b') :
    ∃ more, f'.out = f.out ++ more ∧
      Runs src.method.code span.indices span.indices b.arena f.stack (Statement.roots more) b'.arena f'.stack := by
  have hrun : ∃ done more, done ++ [] = span.indices ∧ f'.out = f.out ++ more ∧
      Runs src.method.code done done b.arena f.stack (Statement.roots more) b'.arena f'.stack := by
    refine straight_preserves (P := fun rest a g => ∃ done more, done ++ rest = span.indices ∧ g.out = f.out ++ more ∧
      Runs src.method.code done done b.arena f.stack (Statement.roots more) a g.stack) ?_ ?_ h ⟨[], [], rfl, by simp, .refl _ _⟩
    · rintro index rest i a g a' g' hi _ hran ⟨done, more, hdone, hout, hruns⟩
      obtain ⟨more', hout', hstep⟩ := hran.flow.runs hi
      refine ⟨done ++ [index], more ++ more', by simp [← hdone], by rw [hout', hout, List.append_assoc], ?_⟩
      rw [Statement.roots_append]
      exact hruns.trans hstep
    · rintro index rest i a g hi hgoto ⟨done, more, hdone, hout, hruns⟩
      obtain ⟨target, rfl⟩ : ∃ target, i = .goto target := by cases i <;> simp_all [isImpliedGoto]
      have hstep : Runs src.method.code [index] [index] a ([] ++ g.stack) [] a g.stack := Runs.spend hi rfl rfl rfl
      refine ⟨done ++ [index], more, by simp [← hdone], hout, ?_⟩
      rw [← List.append_nil (Statement.roots more)]
      exact hruns.trans hstep
  obtain ⟨done, more, hdone, hout, hruns⟩ := hrun
  rw [List.append_nil] at hdone
  exact ⟨more, hout, hdone ▸ hruns⟩

/-! ## Conditions -/

variable {src : Source} {f : Frame} {b b' : Builder}

/-- The operands of a test are spent by its jump. -/
theorem operands_runs {b b' : Builder} {f : Frame} {test : JumpTest} {target : Label} {r : ExprId × ExprId × Frame}
    (hi : code[index]? = some (.jump test target)) (h : operands test index f b = .ok r b') :
    r.2.2.out = f.out ∧ Runs code [index] [index] b.arena f.stack [r.1, r.2.1] b'.arena r.2.2.stack := by
  obtain ⟨lhs, rhs, f'⟩ := r
  rcases operands_eq_ok h with ⟨htwo, rfl, hb⟩ | ⟨hone, rfl, hrhs, e, he, rfl⟩
  · rw [hb]
    have hspend : Runs code [index] [index] b.arena ([rhs, lhs] ++ f'.stack) [rhs, lhs] b.arena f'.stack :=
      Runs.spend hi rfl rfl (by simp [Insn.effect, htwo])
    exact ⟨rfl, hspend.mono (.refl _) (List.Perm.swap _ _ _).subperm⟩
  · have hspend : Runs code [index] [index] b.arena ([lhs] ++ f'.stack) [lhs] b.arena f'.stack :=
      Runs.spend hi rfl rfl (by simp [Insn.effect, hone])
    have hleaf : Runs code [] [] b.arena f'.stack [b.arena.size] (b.arena.push e) f'.stack := by
      rcases he with rfl | rfl
      · exact Runs.leaf rfl rfl rfl rfl
      · exact Runs.leaf rfl rfl rfl rfl
    dsimp only at hrhs ⊢
    rw [hrhs]
    exact ⟨rfl, hspend.trans hleaf⟩

/-- A jump runs its span, with its operands as roots. -/
theorem jump_runs {span : Span} {negate isOpen : Bool} {r : Condition × Frame} (hspan : span.start < span.stop)
    (h : jump src span negate isOpen f b = .ok r b') :
    ∃ more, r.2.out = f.out ++ more ∧
      Runs src.method.code span.indices span.indices b.arena f.stack (Statement.roots more ++ r.1.operands) b'.arena r.2.stack := by
  unfold jump at h
  obtain ⟨⟨test, last⟩, b₁, hjump, h₁⟩ := run_bind_eq_ok.1 h
  obtain ⟨inner, b₂, hbody, h₂⟩ := run_bind_eq_ok.1 h₁
  obtain ⟨hstop, rfl, target, hi⟩ := spanJump_eq_ok hjump
  dsimp only at hstop hi h₂
  obtain ⟨more, hout, hruns⟩ := body_runs hbody
  split at h₂
  · obtain ⟨⟨lhs, rhs, f'⟩, b₃, hoperands, h₃⟩ := run_bind_eq_ok.1 h₂
    cases h₃
    obtain ⟨hout', hruns'⟩ := operands_runs hi hoperands
    refine ⟨more, ?_, ?_⟩
    · rw [hout', hout]
      rfl
    · rw [Span.indices_concat hstop (by omega)]
      exact hruns.trans hruns'
  · cases h₂

mutual

/-- A condition runs the spans of its jumps. -/
theorem condition_runs (g : Guard) (hspans : ∀ span ∈ g.spans, span.start < span.stop) {isOpen : Bool} {f : Frame}
    {b b' : Builder} {r : Condition × Bool × Frame} (h : condition src g isOpen f b = .ok r b') :
    ∃ more, r.2.2.out = f.out ++ more ∧
      Runs src.method.code (g.spans.flatMap Span.indices) (g.spans.flatMap Span.indices) b.arena f.stack
        (Statement.roots more ++ r.1.operands) b'.arena r.2.2.stack := by
  cases g with
  | jump span negate =>
    unfold condition at h
    obtain ⟨r₁, b₁, hjump, hrest⟩ := run_bind_eq_ok.1 h
    cases hrest
    simpa [Guard.spans] using jump_runs (hspans span (by simp [Guard.spans])) hjump
  | and parts =>
    unfold condition at h
    obtain ⟨r₁, b₁, hparts, hrest⟩ := run_bind_eq_ok.1 h
    cases hrest
    simpa [Guard.spans] using conditions_runs parts (by simpa [Guard.spans] using hspans) hparts
  | or parts =>
    unfold condition at h
    obtain ⟨r₁, b₁, hparts, hrest⟩ := run_bind_eq_ok.1 h
    cases hrest
    simpa [Guard.spans] using conditions_runs parts (by simpa [Guard.spans] using hspans) hparts
  | not inner =>
    unfold condition at h
    obtain ⟨r₁, b₁, hinner, hrest⟩ := run_bind_eq_ok.1 h
    cases hrest
    simpa [Guard.spans] using condition_runs inner (by simpa [Guard.spans] using hspans) hinner

/-- What the jumps of conditions and the code before them make. -/
theorem conditions_runs (parts : List Guard) (hspans : ∀ span ∈ Guard.spansAll parts, span.start < span.stop) {isOpen : Bool}
    {f : Frame} {b b' : Builder} {r : List Condition × Bool × Frame} (h : conditions src parts isOpen f b = .ok r b') :
    ∃ more, r.2.2.out = f.out ++ more ∧
      Runs src.method.code ((Guard.spansAll parts).flatMap Span.indices) ((Guard.spansAll parts).flatMap Span.indices) b.arena
        f.stack (Statement.roots more ++ Condition.operandsAll r.1) b'.arena r.2.2.stack := by
  cases parts with
  | nil =>
    cases h
    exact ⟨[], by simp, .refl _ _⟩
  | cons part rest =>
    unfold conditions at h
    obtain ⟨r₁, b₁, hpart, h₁⟩ := run_bind_eq_ok.1 h
    obtain ⟨r₂, b₂, hrest, h₂⟩ := run_bind_eq_ok.1 h₁
    cases h₂
    simp only [Guard.spansAll, List.forall_mem_append] at hspans
    obtain ⟨more, hout, hruns⟩ := condition_runs part hspans.1 hpart
    obtain ⟨more', hout', hruns'⟩ := conditions_runs rest hspans.2 hrest
    refine ⟨more ++ more', by rw [hout', hout, List.append_assoc], ?_⟩
    rw [Guard.spansAll, List.flatMap_append]
    refine (hruns.trans hruns').mono (.refl _) (List.Perm.subperm ?_)
    simp only [Condition.operandsAll, Statement.roots_append, List.append_assoc]
    refine .append_left _ ?_
    rw [← List.append_assoc, ← List.append_assoc]
    exact List.perm_append_comm.append_right _

end

/-- The spans of a condition that ends in jumps are not empty. -/
theorem runsTo_spans {g : Guard} {last : Insn → Bool} (h : g.spans.all (Span.runsTo code last) = true) :
    ∀ span ∈ g.spans, span.start < span.stop := by
  intro span hspan
  obtain ⟨stop, _, hstop, hle, _⟩ := Span.exists_of_runsTo (List.all_eq_true.1 h span hspan)
  omega

/-- A line starts with nothing on the stack and nothing reached. -/
theorem reaches_start (a : Arena) (h : Section.isLinear code [] line = true) : Reaches code a line a [] [] :=
  ⟨∅, [], Segment.start a, rfl, h⟩

/-- A handler starts with the exception on its stack. -/
theorem reaches_caught (a : Arena) (types : List CatchType) (h : Section.isLinear code [.free] line = true) :
    Reaches code a line (a.push (.caught types)) [a.size] [] := by
  have hnone : Segment a a ∅ ([] ++ []) [] := Segment.start a
  refine ⟨_, [(a.size, .free)], hnone.push nofun (.refl _) nofun nofun ?_ nofun, rfl, h⟩
  simp [Expr.isBuilding]

/-- What the condition of a loop tested at the top makes. -/
theorem headGuard_runs {g : Guard} {condition : Condition} (hspans : ∀ span ∈ g.spans, span.start < span.stop)
    (hlinear : Section.isLinear src.method.code [] (g.spans.flatMap Span.indices) = true)
    (h : headGuard src g b = .ok condition b') (stack : List ExprId) :
    Runs src.method.code (g.spans.flatMap Span.indices) [] b.arena stack condition.operands b'.arena stack := by
  unfold headGuard at h
  obtain ⟨r, b₁, hcondition, h₁⟩ := run_bind_eq_ok.1 h
  obtain ⟨statements, b₂, hfinish, h₂⟩ := run_bind_eq_ok.1 h₁
  cases h₂
  obtain ⟨hframe, rfl⟩ := Frame.finish_eq_ok hfinish
  obtain ⟨more, _, hruns⟩ := condition_runs g hspans hcondition
  rw [hframe] at hruns
  have hnested := hruns.nested rfl (reaches_start _ hlinear) stack
  exact hnested.mono (.refl _) (List.sublist_append_right _ _).subperm

end Build

end CodeLift
