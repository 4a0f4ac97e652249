import CodeLift.Locals.Basic

/-!
# Accesses that nothing else explains

What is left of the accesses of a slot is split into runs, each of one variable: an access goes on with the run of its slot while
they agree on the kind of value and no known instance of the slot starts in between. One pass over the code collects the runs of all
slots; they are then sorted, and those of a slot are numbered.
-/

namespace CodeLift

namespace Method

/-- An instruction that touches a slot. -/
structure Access where
  index : Nat
  slot : Nat
  kind : ValueKind
  deriving DecidableEq, Repr

/-- The accesses of the code, in order. -/
def accesses (code : List Insn) : List Access :=
  code.zipIdx.filterMap fun (insn, index) => insn.access.map fun (slot, kind) => ⟨index, slot, kind⟩

/-- A run of accesses of a slot that agree on the kind of value. -/
structure Run where
  kind : ValueKind
  first : Nat
  last : Nat
  deriving DecidableEq, Repr

/-- The run of a single access. -/
def Run.single (a : Access) : Run := ⟨a.kind, a.index, a.index⟩

/-- The runs found in the code so far: those that may go on, by slot, and those that are finished. -/
structure RunScan where
  opened : Keyed Nat Run
  finished : List (Nat × Run)

/-- Whether a run goes on with an access of its slot: they agree on the kind of value, and no instance of the slot starts between
the last access of the run and this one. -/
def Run.goesOn (ls : Locals) (run : Run) (a : Access) : Bool :=
  run.kind == a.kind && !(ls.startsOf a.slot).any fun start => decide (run.last < start) && decide (start < a.index)

/-- Takes an access that no instance covers. The run of its slot goes on with it, or is finished and another one starts. -/
def RunScan.take (ls : Locals) (scan : RunScan) (a : Access) : RunScan :=
  match scan.opened.find? a.slot with
  | some run =>
    if run.goesOn ls a then { scan with opened := scan.opened.put a.slot { run with last := a.index } }
    else ⟨scan.opened.put a.slot (.single a), scan.finished ++ [(a.slot, run)]⟩
  | none => { scan with opened := scan.opened.put a.slot (.single a) }

/-- Looks at an access of the code. -/
def RunScan.step (ls : Locals) (scan : RunScan) (a : Access) : RunScan :=
  if (ls.find? a.slot a.index).isSome then scan else scan.take ls a

/-- The runs of the accesses that no instance covers, with their slots: those that were finished, then those left open. -/
def collectRuns (ls : Locals) (code : List Insn) : List (Nat × Run) :=
  let scan := (accesses code).foldl (RunScan.step ls) ⟨.empty, []⟩
  scan.finished ++ scan.opened.entries

/-- The order of runs by slot, and in a slot by the first access. -/
def runBefore (a b : Nat × Run) : Bool := a.1 < b.1 || a.1 == b.1 && a.2.first ≤ b.2.first

/-- Puts a run into a sorted list, before the first that it does not come after. -/
def insertRun (run : Nat × Run) : List (Nat × Run) → List (Nat × Run)
  | [] => [run]
  | other :: rest => if runBefore run other then run :: other :: rest else other :: insertRun run rest

/-- Sorts runs by slot, and in a slot by the first access. -/
def sortRuns (listed : List (Nat × Run)) : List (Nat × Run) := listed.foldr insertRun []

/-- The instance that explains the `n`th run of a slot, for the types that stores give to what they bind. -/
def runLocal (types : Keyed Nat String) (slot n : Nat) (run : Run) : Local :=
  { slot, signature := none, origin := .synthesized
    name := "var" ++ toString slot ++ (if n = 0 then "" else "_" ++ toString n)
    descriptor := (if run.kind = .reference then types.find? run.first else none).getD run.kind.descriptor
    span := ⟨run.first, run.last + 1⟩ }

/-- The instances that explain runs, in order. A run of the slot of the one before it has the next number, any other the number
zero. -/
def explainRuns (types : Keyed Nat String) : (previous : Option Nat) → (n : Nat) → List (Nat × Run) → List Local
  | _, _, [] => []
  | previous, n, (slot, run) :: rest =>
    let n := if previous = some slot then n + 1 else 0
    runLocal types slot n run :: explainRuns types (some slot) n rest

/-- The instances that explain the accesses nothing else does: by slot, and in a slot by the order of the runs. -/
def synthesized (types : Keyed Nat String) (ls : Locals) (code : List Insn) : List Local :=
  explainRuns types none 0 (sortRuns (collectRuns ls code))

end Method

end CodeLift
