import CodeLift.Event
import CodeLift.Locals.Caught
import CodeLift.Locals.Declared
import CodeLift.Locals.Runs

/-!
# Binding the variables of a method

Every load, store and increment of a method gets an instance. They come from four sources, the most trusted first: the
parameters, the table of declared variables, copies made by a load and a store next to each other, and the runs of accesses
that nothing else explains. An instance the table refuses is dropped and reported.
-/

namespace CodeLift

/-- The instances bound so far, and what was reported about those refused. -/
structure Binding where
  locals : Locals
  events : List Event

namespace Binding

/-- Before anything is bound. -/
def empty : Binding := ⟨.empty, []⟩

/-- The report of an instance the table refuses. -/
def dropped (l : Local) : Event :=
  ⟨.debug, "dropping local `" ++ l.name ++ "` in slot " ++ toString l.slot ++ " at " ++ toString l.span.start ++ ".." ++
    toString l.span.stop⟩

/-- Offers an instance to the table, and reports it if the table refuses it. -/
def offer (b : Binding) (l : Local) : Binding :=
  match b.locals.insert? l with
  | some locals => { b with locals }
  | none => { b with events := b.events ++ [dropped l] }

/-- Offers instances in order. -/
def offerAll (b : Binding) (ls : List Local) : Binding := ls.foldl offer b

end Binding

namespace Method

/-- At a load followed by a store that no instance covers, binds the store's slot to a copy of the instance loaded, up to the
end of that instance or to the next instance of the slot. -/
def bindCopy (b : Binding) : (Insn × Insn) × Nat → Binding
  | ((.load _ loaded, .store _ stored), index) =>
    if (b.locals.find? stored index).isSome then b
    else match (b.locals.find? loaded (index - 1)).bind b.locals.get? with
      | none => b
      | some source =>
        let stop := max source.span.stop (index + 1)
        let stop := match b.locals.nextStart? stored index with
          | some next => min stop next
          | none => stop
        b.offer { source with slot := stored, span := ⟨index, stop⟩, origin := .copied }
  | _ => b

/-- Binds the copies made by a load and a store next to each other. -/
def bindCopies (code : List Insn) (b : Binding) : Binding := ((code.zip code.tail).zipIdx 1).foldl bindCopy b

/-- The binding of the parameters and of the declared variables, each where the table declares it. -/
def bindDeclared (m : Method) (type : MethodType) (declared : List Local) : Binding :=
  let (claimed, left) := claimParameters m.code.length (entryPoint m.code) 0 (m.parameters type) declared
  (Binding.empty.offerAll claimed).offerAll left

/-- The binding of everything but the accesses that nothing else explains. -/
def bindKnown (m : Method) (type : MethodType) (declared : List Local) : Binding :=
  let b := m.bindDeclared type declared
  bindCopies m.code { b with locals := extendLocals m.code b.locals }

/-- Binds the variables of a method: every load, store and increment gets an instance. -/
def bindLocals (m : Method) (labels : Labels) : Traced LocalsError Locals := do
  let type ← Traced.ofExcept ((MethodType.parse m.descriptor).mapError .descriptor)
  let declared ← Traced.ofExcept ((m.variableTable.mapM (declaredLocal labels)).mapError .labels)
  let known := m.bindKnown type declared
  Traced.report known.events
  let types ← Traced.ofExcept ((m.caughtTypes labels).mapError .labels)
  let bound := (Binding.mk known.locals []).offerAll (synthesized types known.locals m.code)
  Traced.report bound.events
  return bound.locals

end Method

end CodeLift
