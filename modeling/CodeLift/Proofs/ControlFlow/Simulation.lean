import CodeLift.Proofs.ControlFlow.Condition
import CodeLift.Structuring.Session

/-!
# Runs that walks follow

`Simulates` says that a walk through the graph executes what a run of sections executes and ends where the ending of the run says
that control goes. One lemma for each way in which runs are put together carries this from the parts of a construct to the whole:
sequences, branches, the rounds of loops, and cases that fall through.
-/

namespace CodeLift

namespace Run

@[simp] theorem trace_catchContinue (r : Run) : r.catchContinue.trace = r.trace := by
  unfold catchContinue
  split <;> rfl

@[simp] theorem trace_leaveLoop (r : Run) : r.leaveLoop.trace = r.trace := by
  unfold leaveLoop
  split <;> rfl

@[simp] theorem trace_leaveSwitch (r : Run) : r.leaveSwitch.trace = r.trace := by
  unfold leaveSwitch
  split <;> rfl

theorem catchContinue_cut {r : Run} (h : r.ending = .cut) : r.catchContinue.ending = .cut := by simp only [catchContinue, h]

theorem leaveLoop_cut {r : Run} (h : r.ending = .cut) : r.leaveLoop.ending = .cut := by simp only [leaveLoop, h]

theorem leaveSwitch_cut {r : Run} (h : r.ending = .cut) : r.leaveSwitch.ending = .cut := by simp only [leaveSwitch, h]

/-- A round does not end with a continue of its own loop. -/
theorem catchContinue_ne (r : Run) : r.catchContinue.ending ≠ .continued 0 := by
  unfold catchContinue
  split
  · nofun
  · rename_i h
    exact h

/-- A run in two parts that do not end so does not end so. -/
theorem andThen_ne {r : Run} {next : Nat → Run} {ending : Ending} (h : r.ending ≠ ending)
    (h' : ∀ clock, (next clock).ending ≠ ending) : (r.andThen next).ending ≠ ending := by
  unfold andThen
  split
  · exact h' _
  · exact h

end Run

/-- What runs and walks are made in: a graph and its code, the outcomes, and how many rounds each loop of a run may take. -/
structure Run.Context where
  graph : Graph
  code : List Insn
  oracle : Oracle
  rounds : Nat

/-- Where control is after a run: at the target if the run is done, where a construct around it leads if it breaks or continues
one, and out of the method if it has halted. A run that is cut says only that the walk was long. -/
def Lands (bound : Nat) (around : List Breakable) (target : Option BlockId) (run : Run) (n : Nat) (place : Place) : Prop :=
  match run.ending with
  | .done => place = ⟨target, run.clock⟩
  | .broke depth => ∃ b, around[depth]? = some b ∧ place = ⟨b.breakTo, run.clock⟩
  | .continued depth => ∃ b, (around.filter (·.continueTo.isSome))[depth]? = some b ∧ place = ⟨b.continueTo, run.clock⟩
  | .halted => place.block = none
  | .cut => bound ≤ n

namespace Lands

variable {bound n : Nat} {around : List Breakable} {target : Option BlockId} {run : Run} {place : Place}

/-- More steps before a run. -/
theorem add (h : Lands bound around target run n place) (m : Nat) : Lands (bound + m) around target run (m + n) place := by
  unfold Lands at h ⊢
  split at h
  · exact h
  · exact h
  · exact h
  · exact h
  · omega

/-- A walk that is long enough for a bound is so for a smaller one. -/
theorem mono {bound' : Nat} (hle : bound' ≤ bound) (h : Lands bound around target run n place) :
    Lands bound' around target run n place := by
  unfold Lands at h ⊢
  split at h
  · exact h
  · exact h
  · exact h
  · exact h
  · exact hle.trans h

/-- Where a run that is not done leaves off does not depend on the target. -/
theorem of_not_done {target' : Option BlockId} (hne : run.ending ≠ .done) (h : Lands bound around target run n place) :
    Lands bound around target' run n place := by
  unfold Lands at h ⊢
  split at h
  · rename_i hdone
    exact absurd hdone hne
  · exact h
  · exact h
  · exact h
  · exact h

/-- The run of a loop, seen from outside. -/
theorem leaveLoop {exit : Option BlockId} {cont : BlockId} (hdone : run.ending ≠ .done) (hcont : run.ending ≠ .continued 0)
    (h : Lands bound (⟨exit, some cont⟩ :: around) target run n place) : Lands bound around exit run.leaveLoop n place := by
  obtain ⟨trace, clock, ending⟩ := run
  cases ending with
  | done => exact absurd rfl hdone
  | halted => exact h
  | cut => exact h
  | broke depth =>
    obtain ⟨b, hb, hplace⟩ := h
    cases depth with
    | zero =>
      cases hb
      exact hplace
    | succ depth => exact ⟨b, hb, hplace⟩
  | continued depth =>
    obtain ⟨b, hb, hplace⟩ := h
    cases depth with
    | zero => exact absurd rfl hcont
    | succ depth => exact ⟨b, hb, hplace⟩

/-- The run of a switch, seen from outside. -/
theorem leaveSwitch {exit : Option BlockId} (h : Lands bound (⟨exit, none⟩ :: around) exit run n place) :
    Lands bound around exit run.leaveSwitch n place := by
  obtain ⟨trace, clock, ending⟩ := run
  cases ending with
  | done => exact h
  | halted => exact h
  | cut => exact h
  | broke depth =>
    obtain ⟨b, hb, hplace⟩ := h
    cases depth with
    | zero =>
      cases hb
      exact hplace
    | succ depth => exact ⟨b, hb, hplace⟩
  | continued depth => exact h

/-- A continue of a loop starts its next round. -/
theorem catchContinue {exit : Option BlockId} {cont : BlockId}
    (h : Lands bound (⟨exit, some cont⟩ :: around) (some cont) run n place) :
    Lands bound (⟨exit, some cont⟩ :: around) (some cont) run.catchContinue n place := by
  obtain ⟨trace, clock, ending⟩ := run
  cases ending with
  | done => exact h
  | halted => exact h
  | cut => exact h
  | broke depth => exact h
  | continued depth =>
    cases depth with
    | zero =>
      obtain ⟨b, hb, hplace⟩ := h
      cases hb
      exact hplace
    | succ depth => exact h

end Lands

/-- A walk from `start` follows a run from each clock, and ends at `target` if the run is done. If `moves`, it visits a block. -/
def Simulates (c : Run.Context) (around : List Breakable) (start target : Option BlockId) (moves : Prop)
    (run : Nat → Run) : Prop :=
  ∀ clock, ∃ n place, c.graph.Walks c.code c.oracle n ⟨start, clock⟩ (run clock).trace place ∧
    Lands c.rounds around target (run clock) n place ∧ (moves → (run clock).ending ≠ .cut → 0 < n)

namespace Simulates

variable {c : Run.Context} {around : List Breakable} {start mid target : Option BlockId} {moves moves' : Prop}
  {run next : Nat → Run}

/-- Nothing to run. -/
theorem nil : Simulates c around start start False fun clock => ⟨[], clock, .done⟩ :=
  fun _ => ⟨0, _, .zero _, rfl, False.elim⟩

/-- A walk that visits a block does so under a stronger condition. -/
theorem weaken (h : Simulates c around start target moves run) (hmoves : moves' → moves) :
    Simulates c around start target moves' run := by
  intro clock
  obtain ⟨n, place, hwalk, hlands, hpos⟩ := h clock
  exact ⟨n, place, hwalk, hlands, fun hm => hpos (hmoves hm)⟩

/-- Runs that are always done follow the same walk whatever is around them. -/
theorem change_around {around' : List Breakable} (hdone : ∀ clock, (run clock).ending = .done)
    (h : Simulates c around start target moves run) : Simulates c around' start target moves run := by
  intro clock
  obtain ⟨n, place, hwalk, hlands, hpos⟩ := h clock
  refine ⟨n, place, hwalk, ?_, hpos⟩
  unfold Lands at hlands ⊢
  rw [hdone clock] at hlands ⊢
  exact hlands

/-- One run after another. -/
theorem andThen (h : Simulates c around start mid moves run) (h' : Simulates c around mid target moves' next) :
    Simulates c around start target moves fun clock => (run clock).andThen next := by
  intro clock
  obtain ⟨n, place, hwalk, hlands, hpos⟩ := h clock
  unfold Run.andThen
  dsimp only
  split
  · rename_i hdone
    have hplace : place = ⟨mid, (run clock).clock⟩ := by simpa only [Lands, hdone] using hlands
    subst hplace
    obtain ⟨m, place', hwalk', hlands', _⟩ := h' (run clock).clock
    have hpos := fun hm => hpos hm (by rw [hdone]; nofun)
    refine ⟨n + m, place', hwalk.trans hwalk', ?_, fun hm _ => Nat.add_pos_left (hpos hm) m⟩
    exact (hlands'.add n).mono (Nat.le_add_right _ _)
  · rename_i hdone
    exact ⟨n, place, hwalk, hlands.of_not_done hdone, hpos⟩

/-- Some blocks before a run. -/
theorem prepend {n : Nat} {trace : List Nat} {asked : Nat} (hn : 0 < n)
    (hwalk : ∀ clock, c.graph.Walks c.code c.oracle n ⟨start, clock⟩ trace ⟨mid, clock + asked⟩)
    (h : Simulates c around mid target moves run) :
    Simulates c around start target True fun clock => (run (clock + asked)).after trace := by
  intro clock
  obtain ⟨m, place, hwalk', hlands, _⟩ := h (clock + asked)
  exact ⟨n + m, place, (hwalk clock).trans hwalk', (hlands.add n).mono (Nat.le_add_right _ _), fun _ _ => Nat.add_pos_left hn m⟩

/-- A branch: the run of the side that the condition chooses, after the evaluation of the condition. -/
theorem branch {yes no : Option BlockId} {test : Nat → Test} {run' : Nat → Run}
    (htest : Tests c.graph c.code c.oracle start yes no test) (hyes : Simulates c around yes target moves run)
    (hno : Simulates c around no target moves' run') :
    Simulates c around start target True fun clock =>
      ((if (test clock).holds then run else run') (test clock).clock).after (test clock).trace := by
  intro clock
  obtain ⟨n, hn, hwalk⟩ := htest clock
  unfold Decides at hwalk
  dsimp only
  split
  · rename_i hholds
    rw [if_pos hholds] at hwalk
    obtain ⟨m, place, hwalk', hlands, _⟩ := hyes (test clock).clock
    exact ⟨n + m, place, hwalk.trans hwalk', (hlands.add n).mono (Nat.le_add_right _ _), fun _ _ => Nat.add_pos_left hn m⟩
  · rename_i hholds
    rw [if_neg hholds] at hwalk
    obtain ⟨m, place, hwalk', hlands, _⟩ := hno (test clock).clock
    exact ⟨n + m, place, hwalk.trans hwalk', (hlands.add n).mono (Nat.le_add_right _ _), fun _ _ => Nat.add_pos_left hn m⟩

/-- A break of the innermost construct. -/
theorem broke {exit cont : Option BlockId} :
    Simulates c (⟨exit, cont⟩ :: around) exit target False fun clock => ⟨[], clock, .broke 0⟩ :=
  fun _ => ⟨0, _, .zero _, ⟨_, rfl, rfl⟩, False.elim⟩

/-! ## Loops -/

/-- A body that is left by continue lands where the loop continues. -/
theorem catchContinue {exit : Option BlockId} {cont : BlockId}
    (h : Simulates c (⟨exit, some cont⟩ :: around) start (some cont) moves run) :
    Simulates c (⟨exit, some cont⟩ :: around) start (some cont) moves fun clock => (run clock).catchContinue := by
  intro clock
  obtain ⟨n, place, hwalk, hlands, hpos⟩ := h clock
  refine ⟨n, place, ?_, hlands.catchContinue, fun hm hne => hpos hm fun h => hne (Run.catchContinue_cut h)⟩
  rw [Run.trace_catchContinue]
  exact hwalk

/-- Rounds that each visit a block: a walk follows them as long as they go on, and if they are cut it has visited as many blocks as
there were rounds. -/
theorem repeated (h : Simulates c around start start True run) (exit : Option BlockId) (k clock : Nat) :
    ∃ n place, c.graph.Walks c.code c.oracle n ⟨start, clock⟩ (Run.repeated run k clock).trace place ∧
      Lands (min k c.rounds) around exit (Run.repeated run k clock) n place ∧ (Run.repeated run k clock).ending ≠ .done ∧
      ((Run.repeated run k clock).ending ≠ .cut → 0 < n) := by
  induction k generalizing clock with
  | zero => exact ⟨0, _, .zero _, Nat.min_le_left _ _, nofun, fun h => absurd rfl h⟩
  | succ k ih =>
    obtain ⟨n, place, hwalk, hlands, hpos⟩ := h clock
    unfold Run.repeated Run.andThen
    split
    · rename_i hdone
      have hplace : place = ⟨start, (run clock).clock⟩ := by simpa only [Lands, hdone] using hlands
      subst hplace
      have hn : 0 < n := hpos trivial (by rw [hdone]; nofun)
      obtain ⟨m, place', hwalk', hlands', hnot, _⟩ := ih (run clock).clock
      refine ⟨n + m, place', hwalk.trans hwalk', ?_, hnot, fun _ => Nat.add_pos_left hn m⟩
      exact (hlands'.add n).mono (by omega)
    · rename_i hdone
      exact ⟨n, place, hwalk, (hlands.of_not_done hdone).mono (Nat.min_le_right _ _), hdone, hpos trivial⟩

/-- A loop: its rounds, up to a break or a jump further out. -/
theorem loop {exit : Option BlockId} {cont : BlockId} (h : Simulates c (⟨exit, some cont⟩ :: around) start start True run)
    (hne : ∀ clock, (run clock).ending ≠ .continued 0) :
    Simulates c around start exit True fun clock => (Run.repeated run c.rounds clock).leaveLoop := by
  have hcontinued : ∀ k clock, (Run.repeated run k clock).ending ≠ .continued 0 := by
    intro k
    induction k with
    | zero => exact fun _ => nofun
    | succ k ih => exact fun clock => Run.andThen_ne (hne clock) ih
  intro clock
  obtain ⟨n, place, hwalk, hlands, hdone, hpos⟩ := h.repeated exit c.rounds clock
  rw [Nat.min_self] at hlands
  refine ⟨n, place, ?_, hlands.leaveLoop hdone (hcontinued _ _), fun _ hcut => hpos fun h => hcut (Run.leaveLoop_cut h)⟩
  rw [Run.trace_leaveLoop]
  exact hwalk

/-- A round of a loop that tests its condition first: the body and the update, or a break. -/
theorem roundWhile {yes exit : Option BlockId} {cont : BlockId} {test : Nat → Test} {body update : Nat → Run} {kind : LoopKind}
    (hkind : kind = .whileDo ∨ kind = .forUpdate) (htest : Tests c.graph c.code c.oracle start yes exit test)
    (hbody : Simulates c (⟨exit, some cont⟩ :: around) yes (some cont) moves body)
    (hupdate : Simulates c (⟨exit, some cont⟩ :: around) (some cont) start moves' update) :
    Simulates c (⟨exit, some cont⟩ :: around) start start True (round kind test body update) := by
  have hround : round kind test body update = fun clock =>
      ((if (test clock).holds then fun clock => (body clock).catchContinue.andThen update else fun clock => ⟨[], clock, .broke 0⟩)
        (test clock).clock).after (test clock).trace := by
    funext clock
    have hround : round kind test body update clock = if (test clock).holds then
        ((body (test clock).clock).catchContinue.andThen update).after (test clock).trace
        else ⟨(test clock).trace, (test clock).clock, .broke 0⟩ := by
      rcases hkind with rfl | rfl <;> rfl
    rw [hround]
    by_cases hholds : (test clock).holds = true
    · rw [if_pos hholds, if_pos hholds]
    · rw [if_neg hholds, if_neg hholds, Run.after, List.append_nil]
  rw [hround]
  exact branch htest (hbody.catchContinue.andThen hupdate) broke

/-- A round of a loop that tests its condition last: the body, unless there is none, and then another round or a break. -/
theorem roundDoWhile {exit : Option BlockId} {cont : BlockId} {test : Nat → Test} {body update : Nat → Run}
    (htest : Tests c.graph c.code c.oracle (some cont) start exit test)
    (hbody : Simulates c (⟨exit, some cont⟩ :: around) start (some cont) moves body)
    (hmoves : moves ∨ start = some cont ∧ ∀ clock, body clock = ⟨[], clock, .done⟩) :
    Simulates c (⟨exit, some cont⟩ :: around) start start True (round .doWhile test body update) := by
  have hlast : Simulates c (⟨exit, some cont⟩ :: around) (some cont) start True fun clock =>
      ⟨(test clock).trace, (test clock).clock, if (test clock).holds then .done else .broke 0⟩ := by
    intro clock
    obtain ⟨n, hn, hwalk⟩ := htest clock
    refine ⟨n, _, hwalk, ?_, fun _ _ => hn⟩
    cases hholds : (test clock).holds <;> simp [Lands, hholds]
  rcases hmoves with hmoves | ⟨hstart, hempty⟩
  · exact (hbody.catchContinue.andThen hlast).weaken fun _ => hmoves
  · have heq : round .doWhile test body update = fun clock =>
        ⟨(test clock).trace, (test clock).clock, if (test clock).holds then .done else .broke 0⟩ := by
      funext clock
      simp only [round, hempty]
      rfl
    rw [heq, hstart]
    rw [hstart] at hlast
    exact hlast

/-- A round ends with a continue of its own loop only if its update does. -/
theorem round_ne_continued {kind : LoopKind} {test : Nat → Test} {body update : Nat → Run}
    (hupdate : ∀ clock, (update clock).ending ≠ .continued 0) (clock : Nat) :
    (round kind test body update clock).ending ≠ .continued 0 := by
  cases kind with
  | forever => exact Run.catchContinue_ne _
  | doWhile =>
    refine Run.andThen_ne (Run.catchContinue_ne _) fun clock => ?_
    dsimp only
    split <;> nofun
  | whileDo =>
    unfold round
    dsimp only
    split
    · exact Run.andThen_ne (Run.catchContinue_ne _) hupdate
    · nofun
  | forUpdate =>
    unfold round
    dsimp only
    split
    · exact Run.andThen_ne (Run.catchContinue_ne _) hupdate
    · nofun

/-! ## Switches -/

/-- A switch: its cases, up to a break or a jump further out. -/
theorem leaveSwitch {exit : Option BlockId} (h : Simulates c (⟨exit, none⟩ :: around) start exit moves run) :
    Simulates c around start exit moves fun clock => (run clock).leaveSwitch := by
  intro clock
  obtain ⟨n, place, hwalk, hlands, hpos⟩ := h clock
  refine ⟨n, place, ?_, hlands.leaveSwitch, fun hm hcut => hpos hm fun h => hcut (Run.leaveSwitch_cut h)⟩
  rw [Run.trace_leaveSwitch]
  exact hwalk

end Simulates

/-! ## Straight code -/

/-- Straight code without a return or throw runs to its end. -/
theorem runStraight_done {code : List Insn} {indices : List Nat} (h : ∀ i ∈ indices, isExitAt code i = false) (clock : Nat) :
    runStraight code clock indices = ⟨indices.filter fun i => !isGotoAt code i, clock, .done⟩ := by
  induction indices with
  | nil => rfl
  | cons i rest ih =>
    obtain ⟨hi, hrest⟩ := List.forall_mem_cons.1 h
    rw [runStraight, hi, ih hrest, List.filter_cons]
    cases isGotoAt code i <;> rfl

/-- Straight code that ends with a return or throw halts there. -/
theorem runStraight_halted {code : List Insn} {indices : List Nat} {last : Nat} (h : ∀ i ∈ indices, isExitAt code i = false)
    (hlast : isExitAt code last = true) (clock : Nat) :
    runStraight code clock (indices ++ [last]) = ⟨(indices ++ [last]).filter fun i => !isGotoAt code i, clock, .halted⟩ := by
  have hgoto : isGotoAt code last = false := by
    unfold isExitAt at hlast
    unfold isGotoAt
    split at hlast
    · rename_i h
      rw [h]
    · rename_i h
      rw [h]
    · cases hlast
  induction indices with
  | nil => simp [runStraight, hlast, hgoto]
  | cons i rest ih =>
    obtain ⟨hi, hrest⟩ := List.forall_mem_cons.1 h
    rw [List.cons_append, runStraight, hi, ih hrest, List.filter_cons]
    cases isGotoAt code i <;> rfl

end CodeLift
