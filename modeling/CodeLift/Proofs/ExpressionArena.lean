import CodeLift.Proofs.Executable
import CodeLift.Proofs.HandlerScope
import CodeLift.Proofs.Statement.ArenaSteps

/-!
# The arena of a method

What the statements of a method and its expressions name is there: expressions of the arena and variables of the method. The
arena has a cycle exactly if some constructor call takes an argument that leads to the object that it completes; without cycles
every expression can be printed in full.
-/

namespace CodeLift

/-- A handler binds a variable of the method. -/
theorem Recognizer.lt_size_of_handlerStart {subject : Subject} {id : BlockId} {x : LocalId}
    (h : x ∈ (handlerStart subject id).boundTo) : x < subject.locals.size := by
  unfold handlerStart at h
  dsimp only at h
  split at h
  · cases h
  · dsimp only at h
    split at h
    · exact Locals.lt_size_of_find? h
    · cases h

/-- The clauses of a method bind variables of the method. -/
theorem Subject.bindsBelow {subject : Subject} (hb : Graph.Built subject.toSource subject.graph) {recognizers : List Recognizer}
    (hrec : ∀ recognizer ∈ recognizers, recognizer ∈ Recognizer.all) {events events' : List Event} {sections : List Section}
    (h : subject.sectionsTraced recognizers events = .ok sections events') :
    Section.BindsBelow subject.locals.size (Section.handlersAll sections) := by
  intro handling hmem x hx
  obtain ⟨r, exit, shape, hcut⟩ := Subject.exists_cutFrom hb hrec h hmem
  obtain ⟨first, pending, cursor, hshape⟩ := hcut.shaped
  obtain ⟨entries, used, handler, hat⟩ := Recognizer.handlerShape_cases hshape
  rw [hcut.clause_eq, hat.start] at hx
  exact Recognizer.lt_size_of_handlerStart hx

/-- What the statements of a method and its expressions name is in the arena and among the variables of the method. The objects of
the arena that have their arguments are those that a constructor call completes, and the arena has no cycles exactly if, for each of
these calls, none of the arguments leads to the object in the arena that the call finds. Then each expression is printed as it is
made of the expressions that it refers to, and the bound of the printer does not matter. -/
theorem arenas_are_well_formed (m : Method) (src : Source) (g : Graph) (settings settings' : Settings)
    (recognizers : List Recognizer) (events events₁ events₂ events₃ events₄ events₅ : List Event) (sections : List Section)
    (body : Body) (hsrc : m.source events = .ok src events₁) (hgraph : Graph.build src Producer.all = .ok g)
    (hrec : ∀ recognizer ∈ recognizers, recognizer ∈ Recognizer.all)
    (hsections : Subject.sectionsTraced ⟨src, g, settings⟩ recognizers events₂ = .ok sections events₃)
    (hbody : src.body settings' sections events₄ = .ok body events₅) :
    (∀ id ∈ Statement.roots body.statements, id < body.arena.size) ∧
    (∀ id child, body.arena.Refers id child → child < body.arena.size) ∧
    (∀ x ∈ Statement.targets body.statements, x < src.locals.size) ∧
    (∀ (id : ExprId) (x : LocalId), body.arena[id]? = some (.var x) → x < src.locals.size) ∧
    (∀ (id : ExprId) arguments, (∃ className descriptor, body.arena[id]? = some (.new className descriptor arguments)) ↔
      ∃ fold ∈ src.folds settings' sections events₄, fold.object = id ∧ fold.arguments = arguments) ∧
    (body.arena.Acyclic ↔ ∀ fold ∈ src.folds settings' sections events₄, fold.IsHarmless) ∧
    (body.arena.Acyclic →
      (WellFounded fun child id => body.arena.Refers id child) ∧
      ∀ (id : ExprId) e, body.arena[id]? = some e → body.arena.text src.locals id = e.text src.locals (body.arena.text src.locals) ∧
        ∀ bound, body.arena.size < bound → body.arena.textWithin src.locals bound id = body.arena.text src.locals id) := by
  obtain ⟨rfl, hls⟩ := Method.source_explains hsrc
  have hb : Graph.Built src g := Graph.built_of_build hgraph
  obtain ⟨s, hs⟩ := Subject.exists_of_sectionsTraced hsections
  obtain ⟨hclosed, hsound⟩ := Source.body_sound hls (everywhereAll_isBuildable ⟨src, g, settings⟩ hb hrec rfl hs) hbody
  have hbinds : Section.BindsBelow src.locals.size (Section.handlersAll sections) :=
    @Subject.bindsBelow ⟨src, g, settings⟩ hb recognizers hrec events₂ events₃ sections hsections
  obtain ⟨hsteps, htargets⟩ := Source.steps_folds hbinds hbody
  refine ⟨(Statement.soundAll_iff.1 hsound).2, ?_, htargets, fun id x hx => hsteps.lt_of_var hx,
    fun id arguments => hsteps.exists_new_iff, hsteps.acyclic_iff, ?_⟩
  · rintro id child ⟨e, he, hchild⟩
    exact hclosed id e he child hchild
  · intro hacyclic
    exact ⟨hacyclic.wellFounded, fun id e he => hacyclic.text_eq he⟩

/-- A method that constructs an object from another new one, which is younger, and leaves it on the stack. -/
def constructsNested : Method where
  owner := "C"
  name := "m"
  descriptor := "(I)V"
  isStatic := true
  code := [.new "A", .dup, .new "B", .dup, .load .int 0, .invoke ⟨.special, "B", "<init>", "(I)V"⟩,
    .invoke ⟨.special, "A", "<init>", "(LB;)V"⟩, .ret none]
  variableTable := []
  handlerTable := []

/-- The statements of the method are a comment, but both objects stay in the arena. The older one refers to the younger one, and no
argument leads back. -/
theorem arenas_are_well_formed_nested :
    ∃ src g sections body events₁ events₃ events₅, constructsNested.source [] = .ok src events₁ ∧
      Graph.build src Producer.all = .ok g ∧
      Subject.sectionsTraced ⟨src, g, ⟨true, 10, true⟩⟩ Recognizer.all [] = .ok sections events₃ ∧
      src.body ⟨true, 10, true⟩ sections [] = .ok body events₅ ∧ Statement.roots body.statements = [] ∧ body.arena.Acyclic ∧
      (∀ fold ∈ src.folds ⟨true, 10, true⟩ sections [], fold.IsHarmless) ∧
      (∃ fold ∈ src.folds ⟨true, 10, true⟩ sections [], fold.object = 0 ∧ fold.arguments = [1]) ∧
      ∃ fold ∈ src.folds ⟨true, 10, true⟩ sections [], fold.object = 1 ∧ fold.arguments = [2] := by
  have hlifts : (match constructsNested.source [] with
      | .ok src _ => src.structuresInto ⟨true, 10, true⟩ fun sections =>
        succeedsWith (fun body => decide (Statement.roots body.statements = []) && decide body.arena.Acyclic &&
          decide (body.arena[0]? = some (.new "A" "(LB;)V" [1])) && decide (body.arena[1]? = some (.new "B" "(I)V" [2])))
          (src.body ⟨true, 10, true⟩ sections [])
      | .error _ _ => false) = true := by decide +kernel
  split at hlifts
  · rename_i src events₁ hsrc
    obtain ⟨g, sections, events₃, hgraph, hsections, htest⟩ := Source.exists_of_structuresInto hlifts
    obtain ⟨body, events₅, hbody, htest⟩ := exists_of_succeedsWith htest
    simp only [Bool.and_eq_true, decide_eq_true_eq] at htest
    obtain ⟨⟨⟨hroots, hacyclic⟩, hfirst⟩, hsecond⟩ := htest
    obtain ⟨_, _, _, _, hnew, hiff, _⟩ := arenas_are_well_formed constructsNested src g _ _ _ [] _ [] _ [] _ sections body hsrc
      hgraph (fun _ => id) hsections hbody
    exact ⟨src, g, sections, body, events₁, events₃, events₅, hsrc, hgraph, hsections, hbody, hroots, hacyclic, hiff.1 hacyclic,
      (hnew 0 [1]).1 ⟨_, _, hfirst⟩, (hnew 1 [2]).1 ⟨_, _, hsecond⟩⟩
  · cases hlifts

end CodeLift
