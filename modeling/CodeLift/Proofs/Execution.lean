import CodeLift.Graph.Basic
import CodeLift.Section

/-!
# Executions of block graphs and of section trees

An execution is the sequence of the instructions that are executed, gotos left out. What a run depends on beside the code is an
oracle: the outcomes of the conditional jumps and the keys of the switches, in the order in which they are evaluated. A graph is
run for a number of blocks, a section tree with a bound on the rounds of each of its loops; `FirstExecuted` says what the
executions found under ever larger bounds have in common.
-/

namespace CodeLift

/-- What one conditional jump or switch of a run finds: whether the jump is taken, or the key. -/
structure Outcome where
  taken : Bool
  key : Int32

/-- The outcomes of a run, in the order in which they are asked for. -/
abbrev Oracle := Nat → Outcome

/-- Whether the instruction at an index is a goto. -/
def isGotoAt (code : List Insn) (index : Nat) : Bool :=
  match code[index]? with
  | some (.goto _) => true
  | _ => false

/-- Whether the instruction at an index is a return or a throw. -/
def isExitAt (code : List Insn) (index : Nat) : Bool :=
  match code[index]? with
  | some (.ret _) | some .throw => true
  | _ => false

/-- The instructions of a span that count as executed once control has run through it. -/
def executed (code : List Insn) (span : Span) : List Nat := span.indices.filter fun index => !isGotoAt code index

/-- `first` are the first `k` instructions of the execution that larger and larger bounds approximate. -/
def FirstExecuted (k : Nat) (approximation : Nat → List Nat) (first : List Nat) : Prop :=
  ∃ bound, ∀ n, bound ≤ n → (approximation n).take k = first

/-! ## Block graphs -/

/-- Where a run of a graph is: the block it enters next, unless it has ended, and how many outcomes it has asked for. -/
structure Place where
  block : Option BlockId
  clock : Nat

namespace Graph

/-- The edge that leads on from a block, and whether taking it asks for an outcome. -/
def leave (outcome : Outcome) : BlockKind → Option BlockId × Nat
  | .body next => (next, 0)
  | .goto target => (some target, 0)
  | .branch _ target fallthrough => (some (if outcome.taken then target else fallthrough), 1)
  | .switch arms otherwise => (some ((arms.lookup outcome.key).getD otherwise), 1)
  | .exit | .marker _ => (none, 0)

/-- Runs the block at a place: gives the instructions executed and the place after it. -/
def visit (g : Graph) (code : List Insn) (oracle : Oracle) (place : Place) : List Nat × Place :=
  match place.block.bind g.block? with
  | none => ([], ⟨none, place.clock⟩)
  | some ⟨span, kind⟩ =>
    let (next, asked) := leave (oracle place.clock) kind
    (executed code span, ⟨next, place.clock + asked⟩)

/-- Runs a number of blocks from a place on. -/
def walk (g : Graph) (code : List Insn) (oracle : Oracle) : Nat → Place → List Nat × Place
  | 0, place => ([], place)
  | n + 1, place =>
    let (now, next) := g.visit code oracle place
    let (later, last) := g.walk code oracle n next
    (now ++ later, last)

/-- The execution of a graph from its first block on, for a number of blocks. -/
def execution (g : Graph) (code : List Insn) (oracle : Oracle) (n : Nat) : List Nat := (g.walk code oracle n ⟨some 0, 0⟩).1

end Graph

/-! ## Section trees -/

/-- How the run of some sections ends. -/
inductive Ending where
  /-- Control goes on after them. -/
  | done
  /-- A break leaves loops and switches around them: the innermost, and as many more as given. -/
  | broke (depth : Nat)
  /-- A continue starts the next round of a loop around them. -/
  | continued (depth : Nat)
  /-- The method has returned or thrown. -/
  | halted
  /-- A loop has used up its rounds. -/
  | cut
  deriving DecidableEq, Repr

/-- The run of some sections: the instructions executed, how many outcomes have been asked for, and how it ends. -/
structure Run where
  trace : List Nat
  clock : Nat
  ending : Ending
  deriving DecidableEq, Repr

namespace Run

/-- Executes some instructions before a run. -/
def after (trace : List Nat) (r : Run) : Run := { r with trace := trace ++ r.trace }

/-- Goes on with another run when this one is done. -/
def andThen (r : Run) (next : Nat → Run) : Run :=
  match r.ending with
  | .done => (next r.clock).after r.trace
  | _ => r

/-- The run of a round whose body ends with a continue of this very loop goes on behind the body. -/
def catchContinue (r : Run) : Run :=
  match r.ending with
  | .continued 0 => { r with ending := .done }
  | _ => r

/-- The run of a loop, seen from outside the loop. -/
def leaveLoop (r : Run) : Run :=
  match r.ending with
  | .broke 0 => { r with ending := .done }
  | .broke (depth + 1) => { r with ending := .broke depth }
  | .continued (depth + 1) => { r with ending := .continued depth }
  | _ => r

/-- The run of a switch, seen from outside the switch. -/
def leaveSwitch (r : Run) : Run :=
  match r.ending with
  | .broke 0 => { r with ending := .done }
  | .broke (depth + 1) => { r with ending := .broke depth }
  | _ => r

/-- Repeats a round as long as it ends with `done`, at most `n` times. -/
def repeated (round : Nat → Run) : Nat → Nat → Run
  | 0, clock => ⟨[], clock, .cut⟩
  | n + 1, clock => (round clock).andThen (repeated round n)

end Run

/-- The run of straight code: up to the first return or throw, or to its end. -/
def runStraight (code : List Insn) (clock : Nat) : List Nat → Run
  | [] => ⟨[], clock, .done⟩
  | index :: rest =>
    if isExitAt code index then ⟨[index], clock, .halted⟩
    else if isGotoAt code index then runStraight code clock rest
    else (runStraight code clock rest).after [index]

/-- The evaluation of a guard: the instructions executed, how many outcomes have been asked for, and whether it holds. -/
structure Test where
  trace : List Nat
  clock : Nat
  holds : Bool
  deriving DecidableEq, Repr

/-- Executes some instructions before an evaluation. -/
def Test.after (trace : List Nat) (t : Test) : Test := { t with trace := trace ++ t.trace }

namespace Guard

mutual

/-- Evaluates a guard: conjunctions and disjunctions stop at the first part that decides them. -/
def test (code : List Insn) (oracle : Oracle) : Guard → Nat → Test
  | .jump span negate, clock => ⟨executed code span, clock + 1, (oracle clock).taken != negate⟩
  | .and parts, clock => testAll code oracle true parts clock
  | .or parts, clock => testAll code oracle false parts clock
  | .not inner, clock =>
    let t := test code oracle inner clock
    { t with holds := !t.holds }

/-- Evaluates guards in order as long as they give `neutral`. -/
def testAll (code : List Insn) (oracle : Oracle) (neutral : Bool) : List Guard → Nat → Test
  | [], clock => ⟨[], clock, neutral⟩
  | part :: rest, clock =>
    let t := test code oracle part clock
    if t.holds = neutral then (testAll code oracle neutral rest t.clock).after t.trace else t

end

end Guard

/-- The cases of a switch from the one that a key selects on: the first that has the key, or else the default. -/
def selectFrom {β : Type} (key : Int32) (cases : List (Case β)) : List (Case β) :=
  match cases.dropWhile fun c => !c.values.contains key with
  | [] => cases.dropWhile fun c => !c.isDefault
  | selected => selected

/-- Runs cases one after the other: each falls through to the next. -/
def fallThrough : List (Case (Nat → Run)) → Nat → Run
  | [], clock => ⟨[], clock, .done⟩
  | c :: rest, clock => (c.body clock).andThen (fallThrough rest)

/-- One round of a loop, which ends with `done` if another is to follow. -/
def round (kind : LoopKind) (test : Nat → Test) (body update : Nat → Run) (clock : Nat) : Run :=
  match kind with
  | .forever => (body clock).catchContinue
  | .doWhile =>
    (body clock).catchContinue.andThen fun clock =>
      let t := test clock
      ⟨t.trace, t.clock, if t.holds then .done else .broke 0⟩
  | .whileDo | .forUpdate =>
    let t := test clock
    if t.holds then ((body t.clock).catchContinue.andThen update).after t.trace else ⟨t.trace, t.clock, .broke 0⟩

namespace Section

mutual

/-- Runs a section, each loop for at most `rounds` rounds. Exceptions do not arise, and a comment says nothing about what its code
does. -/
def run (code : List Insn) (oracle : Oracle) (rounds : Nat) : Section → Nat → Run
  | .body span, clock => runStraight code clock span.indices
  | .branch guard thenPart elsePart, clock =>
    let t := guard.test code oracle clock
    ((if t.holds then runAll code oracle rounds thenPart else runAll code oracle rounds elsePart) t.clock).after t.trace
  | .loop kind guard loopBody update, clock =>
    let test := ((guard.map (Guard.test code oracle)).getD fun clock => ⟨[], clock, true⟩)
    (Run.repeated (round kind test (runAll code oracle rounds loopBody) (runAll code oracle rounds update)) rounds clock).leaveLoop
  | .switch key cases, clock =>
    let selected := selectFrom (oracle clock).key (runCases code oracle rounds cases)
    ((fallThrough selected (clock + 1)).leaveSwitch).after (executed code key)
  | .tryCatch tried _, clock => runAll code oracle rounds tried clock
  | .breakOut depth _, clock => ⟨[], clock, .broke depth⟩
  | .continueNext depth _, clock => ⟨[], clock, .continued depth⟩
  | .comment _ _, clock => ⟨[], clock, .halted⟩

/-- Runs sections one after the other. -/
def runAll (code : List Insn) (oracle : Oracle) (rounds : Nat) : List Section → Nat → Run
  | [], clock => ⟨[], clock, .done⟩
  | s :: rest, clock => (run code oracle rounds s clock).andThen (runAll code oracle rounds rest)

/-- The cases of a switch with the runs of their bodies. -/
def runCases (code : List Insn) (oracle : Oracle) (rounds : Nat) : List (Case (List Section)) → List (Case (Nat → Run))
  | [] => []
  | ⟨values, isDefault, caseBody⟩ :: rest =>
    ⟨values, isDefault, runAll code oracle rounds caseBody⟩ :: runCases code oracle rounds rest

end

/-- The execution of a section tree, each loop for at most `rounds` rounds. -/
def execution (sections : List Section) (code : List Insn) (oracle : Oracle) (rounds : Nat) : List Nat :=
  (runAll code oracle rounds sections 0).trace

end Section

end CodeLift
