import CodeLift.Recognizer.Basic

/-!
# Recognizing switches

The cases of a switch are laid out after it. A switch ends where a goto before the last case leads past that case; without one,
at the default label if no case starts there, and else at the end of the region.
-/

namespace CodeLift.Recognizer

/-- A switch with its targets as places of the region, all of them after the switch. -/
structure SwitchLayout where
  arms : List (Int32 × Nat)
  defaultAt : Nat

namespace SwitchLayout

/-- Finds the targets of the switch at a place. -/
def of (g : Graph) (r : Region) (index : Nat) (arms : List (Int32 × BlockId)) (otherwise : BlockId) :
    Except StructuringError (Option SwitchLayout) := do
  let locate (target : BlockId) : Except StructuringError (Option Nat) := do return (← r.locate g target).filter (index < ·)
  match ← locate otherwise with
  | none => return none
  | some defaultAt =>
    let located ← arms.mapM fun (value, target) => do return (← locate target).map (value, ·)
    return (located.mapM id).map (⟨·, defaultAt⟩)

/-- The first place at which a case starts. -/
def firstCase (s : SwitchLayout) : Nat := (s.arms.map (·.2)).foldl min s.defaultAt

/-- The last place at which a case starts, or to which the default leads. -/
def lastCase (s : SwitchLayout) : Nat := (s.arms.map (·.2)).foldl max s.defaultAt

/-- Where the goto at a place leads, if it leads to the last case or past it. -/
def exitAt (s : SwitchLayout) (g : Graph) (r : Region) (place : Nat) : Except StructuringError (Option Nat) := do
  match g.gotoTarget? (← r.blockAt place) with
  | some target => return (← r.locate g target).filter (s.lastCase ≤ ·)
  | none => return none

/-- The place where the switch ends. -/
def findStop (s : SwitchLayout) (g : Graph) (r : Region) : Except StructuringError Nat := do
  let exits ← (places s.firstCase s.lastCase).mapM (s.exitAt g r)
  match (exits.filterMap id).min? with
  | some exit => return exit
  | none => return if s.defaultAt = s.lastCase && s.arms.all (·.2 != s.lastCase) then s.lastCase else r.length

/-- Whether the default leads to a case, for a switch that ends at `stop`. -/
def hasDefault (s : SwitchLayout) (stop : Nat) : Bool := s.defaultAt < stop

end SwitchLayout

/-- The labels of a case. -/
structure CaseLabels where
  values : List Int32
  isDefault : Bool
  deriving DecidableEq, Repr

namespace CaseLabels

/-- Changes the labels of the case at a place, in a list of cases in the order of their places. A case that is not there yet starts
without labels. -/
def change (place : Nat) (f : CaseLabels → CaseLabels) : List (Nat × CaseLabels) → List (Nat × CaseLabels)
  | [] => [(place, f ⟨[], false⟩)]
  | (start, labels) :: rest =>
    if place < start then (place, f ⟨[], false⟩) :: (start, labels) :: rest
    else if place = start then (start, f labels) :: rest
    else (start, labels) :: change place f rest

/-- One more value. -/
def add (value : Int32) (labels : CaseLabels) : CaseLabels := { labels with values := labels.values ++ [value] }

end CaseLabels

/-- The cases of a switch with their labels, in the order of their places, and the values that lead to its end. -/
structure SwitchLabels where
  cases : List (Nat × CaseLabels)
  skipped : List Int32

namespace SwitchLayout

/-- Puts the value of an arm to the case that it leads to, for a switch that ends at `stop`. -/
def enter (stop : Nat) (labels : SwitchLabels) (arm : Int32 × Nat) : SwitchLabels :=
  if arm.2 = stop then { labels with skipped := labels.skipped ++ [arm.1] }
  else { labels with cases := CaseLabels.change arm.2 (.add arm.1) labels.cases }

/-- The labels of the cases of a switch that ends at `stop`. -/
def labels (s : SwitchLayout) (stop : Nat) : SwitchLabels :=
  let entered := s.arms.foldl (enter stop) ⟨[], []⟩
  if s.hasDefault stop then
    { entered with cases := CaseLabels.change s.defaultAt (fun labels => { labels with isDefault := true }) entered.cases }
  else entered

/-- The case for the values that lead to the end. It is needed only if the default does not lead there too. -/
def skippedCases (s : SwitchLayout) (stop : Nat) : List (Case (List Section)) :=
  if s.hasDefault stop && !(s.labels stop).skipped.isEmpty then [⟨(s.labels stop).skipped, false, [.breakOut 0 none]⟩] else []

end SwitchLayout

/-- Structures cases with the given places and labels, the last of which ends at `stop`. -/
def switchCases (subject : Subject) (nested : Nested) (r : Region) (stop : Nat) :
    List (Nat × CaseLabels) → Structuring (List (Case (List Section)))
  | [] => return []
  | (start, labels) :: rest => do
    let caseStop := (rest.head?.map (·.1)).getD stop
    let region ← r.slice start caseStop (r.blockOrFollow? caseStop)
    let body ← nested.breakable subject region (r.blockOrFollow? stop)
    let cases ← switchCases subject nested r stop rest
    return ⟨labels.values, labels.isDefault, body⟩ :: cases

/-- The code and the layout of the switch at a place, with the place where it ends: its cases are laid out right after it, and
before its end. -/
def switchLayout (g : Graph) (r : Region) (index : Nat) : Except StructuringError (Option (Span × SwitchLayout × Nat)) := do
  match g.block? (← r.blockAt index) with
  | some ⟨key, .switch arms otherwise⟩ =>
    match ← SwitchLayout.of g r index arms otherwise with
    | none => return none
    | some s =>
      if s.firstCase = index + 1 then
        let stop ← s.findStop g r
        return if s.lastCase ≤ stop then some (key, s, stop) else none
      else return none
  | _ => return none

/-- Switches. -/
def switch : Recognizer := fun subject nested r index => do
  match ← Structuring.ofExcept (switchLayout subject.graph r index) with
  | none => return none
  | some (key, s, stop) =>
    let cases ← switchCases subject nested r stop (s.labels stop).cases
    return some ⟨[.switch key (cases ++ s.skippedCases stop)], stop⟩

end CodeLift.Recognizer
