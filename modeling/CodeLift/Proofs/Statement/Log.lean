import CodeLift.Statement.Build

/-!
# Lists along a run

What instructions do while a method is built can be listed: each instruction that is run lists something, given the arena and the
stack that it finds, and what a run lists is what its instructions list, in the order in which they run. What a list of sections
has listed before it fails stays listed, also where the list becomes a comment.
-/

namespace CodeLift

variable {ε : Type}

/-- What is listed after an action, if it succeeds. -/
def Building.andThen {α : Type} (x : Building α) (b : Builder) (log : α → Builder → List ε) : List ε :=
  match x b with
  | .ok a b' => log a b'
  | .error _ _ => []

namespace Building

variable {α : Type} {x : Building α} {b b' : Builder} {log : α → Builder → List ε}

theorem andThen_of_ok {a : α} (h : x b = .ok a b') : x.andThen b log = log a b' := by rw [andThen, h]

theorem andThen_of_error {e : StatementError} (h : x b = .error e b') : x.andThen b log = [] := by rw [andThen, h]

theorem andThen_nil (x : Building α) (b : Builder) : (x.andThen b fun _ _ => ([] : List ε)) = [] := by
  cases h : x b with
  | ok a b' => exact andThen_of_ok h
  | error e b' => exact andThen_of_error h

end Building

namespace Build

variable (src : Source) (settings : Settings) (own : Arena → List ExprId → Insn → List ε)

/-- What straight code lists which ends at `stop`, given the indices of its instructions. -/
def straightLog (stop : Nat) : List Nat → Frame → Builder → List ε
  | [], _, _ => []
  | index :: rest, f, b =>
    match src.method.code[index]? with
    | none => []
    | some i =>
      if isImpliedGoto stop index i then straightLog stop rest f b
      else (insn src.locals index i f).andThen b fun f' b' => own b.arena f.stack i ++ straightLog stop rest f' b'

/-- What the code of a span lists. -/
def bodyLog (span : Span) (f : Frame) (b : Builder) : List ε := straightLog src own span.stop span.indices f b

/-- What the code before the jump that ends a span lists. -/
def jumpLog (span : Span) (f : Frame) (b : Builder) : List ε :=
  (spanJump src span).andThen b fun r b => bodyLog src own ⟨span.start, r.2⟩ ⟨f.stack, []⟩ b

mutual

/-- What the code of a guard lists. -/
def conditionLog : Guard → (isOpen : Bool) → Frame → Builder → List ε
  | .jump span _, _, f, b => jumpLog src own span f b
  | .and parts, isOpen, f, b => conditionsLog parts isOpen f b
  | .or parts, isOpen, f, b => conditionsLog parts isOpen f b
  | .not inner, isOpen, f, b => conditionLog inner isOpen f b

/-- What the code of several guards lists, in order. -/
def conditionsLog : List Guard → (isOpen : Bool) → Frame → Builder → List ε
  | [], _, _, _ => []
  | part :: rest, isOpen, f, b =>
    conditionLog part isOpen f b ++ (condition src part isOpen f).andThen b fun r b => conditionsLog rest r.2.1 r.2.2 b

end

/-- What the code of the guard of a loop that is tested at the top lists. -/
def headLog (g : Guard) (b : Builder) : List ε := conditionLog src own g false ⟨[], []⟩ b

mutual

/-- What a section lists, built into the list at hand. -/
def sectionLog : Section → Frame → Builder → List ε
  | .body span, f, b => bodyLog src own span f b
  | .branch g thenPart elsePart, f, b =>
    conditionLog src own g true f b ++ (condition src g true f).andThen b fun _ b =>
      sectionsLog thenPart ⟨[], []⟩ b ++ (list src settings thenPart).andThen b fun _ b => sectionsLog elsePart ⟨[], []⟩ b
  | .loop .doWhile (some g) loopBody _, _, b =>
    sectionsLog loopBody ⟨[], []⟩ b ++ (sectionsInto src settings loopBody ⟨[], []⟩).andThen b fun inner b =>
      conditionLog src own g true inner b
  | .loop .forUpdate (some g) loopBody update, _, b =>
    headLog src own g b ++ (headGuard src g).andThen b fun _ b =>
      sectionsLog update ⟨[], []⟩ b ++ (list src settings update).andThen b fun _ b => sectionsLog loopBody ⟨[], []⟩ b
  | .loop _ (some g) loopBody _, _, b =>
    headLog src own g b ++ (headGuard src g).andThen b fun _ b => sectionsLog loopBody ⟨[], []⟩ b
  | .loop _ none loopBody _, _, b => sectionsLog loopBody ⟨[], []⟩ b
  | .switch key cases, f, b =>
    (spanSwitch src key).andThen b fun last b =>
      bodyLog src own ⟨key.start, last⟩ f b ++ (body src ⟨key.start, last⟩ f).andThen b fun f b =>
        (f.pop last).andThen b fun _ b => switchLog cases b
  | .tryCatch tried clauses, _, b =>
    sectionsLog tried ⟨[], []⟩ b ++ (list src settings tried).andThen b fun _ b => catchLog clauses b
  | .breakOut _ _, _, _ => []
  | .continueNext _ _, _, _ => []
  | .comment _ _, _, _ => []

/-- What sections list, built into the list at hand in order. -/
def sectionsLog : List Section → Frame → Builder → List ε
  | [], _, _ => []
  | s :: rest, f, b => sectionLog s f b ++ (sectionInto src settings s f).andThen b fun f b => sectionsLog rest f b

/-- What the cases of a switch list, in order. -/
def switchLog : List (Case (List Section)) → Builder → List ε
  | [], _ => []
  | ⟨_, _, caseBody⟩ :: rest, b =>
    sectionsLog caseBody ⟨[], []⟩ b ++ (list src settings caseBody).andThen b fun _ b => switchLog rest b

/-- What the clauses of a try list, in order. -/
def catchLog : List (CatchSection (List Section)) → Builder → List ε
  | [], _ => []
  | ⟨types, _, header, handlerBody⟩ :: rest, b =>
    (handlerStack src types header).andThen b fun stack b =>
      sectionsLog handlerBody ⟨stack, []⟩ b ++
        (orComment src settings handlerBody (sectionsInto src settings handlerBody ⟨stack, []⟩)).andThen b fun _ b =>
          catchLog rest b

end

end Build

/-- What is listed while the statements of a method are built. -/
def Source.log (src : Source) (settings : Settings) (own : Arena → List ExprId → Insn → List ε) (sections : List Section)
    (events : List Event) : List ε := Build.sectionsLog src settings own sections ⟨[], []⟩ ⟨#[], events⟩

end CodeLift
