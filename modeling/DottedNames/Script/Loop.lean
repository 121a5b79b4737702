import DottedNames.Script

/-!
# Loops over names

A loop goes through a name and runs a script of its own for each segment that is yielded. What
yields the segments is an iterator: it refers to a container, counts the parts that it has yielded,
and looks at the container each time it is asked for the next one, so that it would go on for ever
in a container that grows as fast. The iterator of a name refers to the tuple of the segments that
the name has when the loop begins, not to the name (`Fqn.__iter__`).
-/

namespace DottedNames.Script

/-- What yields the parts of a container one after another. -/
structure Iterator where
  /-- The container. -/
  container : Value
  /-- The number of parts that were yielded. -/
  position : Nat

namespace Iterator

/-- The iterator of a name with the given segments, before it yields the first of them. -/
def ofName (q : QualName) : Iterator := ⟨.tuple q.segments, 0⟩

/-- The segment that is yielded next, if there is one. -/
def next? (i : Iterator) (m : Machine) : Option Segment :=
  match (m.operand i.container).iterate with
  | .ok (.segments ss) => ss[i.position]?
  | _ => none

/-- The iterator after one more part was yielded. -/
def advance (i : Iterator) : Iterator := { i with position := i.position + 1 }

end Iterator

/-- A loop between two rounds. The type `α` is that of the actions its body may take. -/
structure Loop (α : Type) where
  /-- The state of the script that the loop is part of. -/
  machine : Machine
  /-- What yields the segments. -/
  iterator : Iterator
  /-- The rounds so far: each segment that was yielded, and the actions that the body took. -/
  rounds : List (Segment × List α)

namespace Loop

variable {α : Type}

/-- The loop over a name before its first round. -/
def start (m : Machine) (q : QualName) : Loop α := ⟨m, .ofName q, []⟩

/-- The segments that were yielded so far. -/
def yielded (l : Loop α) : List Segment := l.rounds.map Prod.fst

/-- The actions that the body took so far. -/
def actions (l : Loop α) : List α := l.rounds.flatMap Prod.snd

/-- The loop after one more round, if another segment is yielded. The body decides what to do by the
segment and everything that happened before, and each action is a step of the script. -/
def round? (step : α → Step) (body : Loop α → Segment → List α) (l : Loop α) : Option (Loop α) :=
  (l.iterator.next? l.machine).map fun s => {
    machine := l.machine.run ((body l s).map step)
    iterator := l.iterator.advance
    rounds := l.rounds ++ [(s, body l s)] }

/-- The loop after the given number of rounds, if there are as many. -/
def after (step : α → Step) (body : Loop α → Segment → List α) : Nat → Loop α → Option (Loop α)
  | 0, l => some l
  | n + 1, l => (l.round? step body).bind (after step body n)

end Loop

end DottedNames.Script
