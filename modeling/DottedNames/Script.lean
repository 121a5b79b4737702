import DottedNames.Operand.Container
import DottedNames.QualName.Display
import DottedNames.Script.Store

/-!
# Scripts over names

A script is a sequence of steps over a set of registers. Each step applies one operation to values,
which it writes down or takes from registers, and may put the result into a register. A register
that holds a qualified name holds its handle, so two registers may hold the same name and see each
other's pushes; every operation that yields a name of its own makes a new name for it.

A step is a sequence of actions, any of which may be refused; then the rest of the step is left out,
and what was done up to there stays done. Where several parts of a step could be refused, the
argument comes before the value the operation is applied to, and in a list of arguments each one is
checked before the next is built.
-/

namespace DottedNames.Script

/-- What a register may hold. -/
inductive Value where
  /-- A value that is no name. -/
  | datum (d : Datum)
  /-- A segment. -/
  | segment (s : Segment)
  /-- A list of segments. -/
  | segments (ss : List Segment)
  /-- A tuple of segments. -/
  | tuple (ss : List Segment)
  /-- A qualified name, by its handle. -/
  | name (h : Handle)

/-- How a value is written down in a step. -/
inductive Expr where
  /-- A value that is no name. -/
  | datum (d : Datum)
  /-- The segment that a datum spells. -/
  | segment (d : Datum)
  /-- The qualified name that a datum spells, made anew. -/
  | name (d : Datum)
  /-- What a register holds. -/
  | register (r : Text)

/-- The operations of a step. -/
inductive Operation where
  /-- The argument itself. -/
  | value (arg : Expr)
  /-- The qualified name that the argument spells (`Fqn.new`). -/
  | readName (arg : Expr)
  /-- The qualified name that the argument spells, or nothing (`Fqn.try_new`). -/
  | tryReadName (arg : Expr)
  /-- The segment that the argument spells (`Name.validate`). -/
  | readSegment (arg : Expr)
  /-- The segment that the argument spells, or nothing (`Name.try_validate`). -/
  | tryReadSegment (arg : Expr)
  /-- The simple name of a segment (`Fqn.from_name`). -/
  | ofSegment (arg : Expr)
  /-- The name of a list of segments (`Fqn.from_names`). -/
  | ofSegments (args : List Expr)
  /-- Extend a name in place (`Fqn.push`). -/
  | push (on arg : Expr)
  /-- A name extended by a segment (`Fqn.child`). -/
  | child (on arg : Expr)
  /-- The enclosing scope of a name, or nothing (`Fqn.parent`). -/
  | parent (on : Expr)
  /-- A name with the same segments, or a list or record with the same content (`Fqn.copy`). -/
  | copy (on : Expr)
  /-- A copy of a value of any kind. -/
  | duplicate (on : Expr)
  /-- The innermost segment (`Fqn.leaf`). -/
  | leaf (on : Expr)
  /-- Whether a name has only one segment (`Fqn.is_simple`). -/
  | isSimple (on : Expr)
  /-- The only segment of a simple name, or nothing (`Fqn.as_simple_name`). -/
  | toSegment (on : Expr)
  /-- The written form (`Fqn.as_string`). -/
  | text (on : Expr)
  /-- The segments at this moment, as a tuple (`Fqn.parts`). -/
  | parts (on : Expr)
  /-- The number of segments (`Fqn.__len__`), or of the parts of another container. -/
  | length (on : Expr)
  /-- What going through a container yields, as a list (`Fqn.__iter__`). -/
  | iterate (on : Expr)
  /-- Push every segment that going through a name yields onto the name itself. -/
  | iteratePushing (on : Expr)
  /-- Everything there is to tell about a name. -/
  | describe (on : Expr)
  /-- Whether a container contains the argument. -/
  | contains (on arg : Expr)
  /-- Whether two values have the same hash. -/
  | sameHash (on arg : Expr)
  /-- Whether two values are equal. -/
  | equal (on arg : Expr)
  /-- Whether two values are different. -/
  | unequal (on arg : Expr)
  /-- Whether an order relation holds. -/
  | related (r : OrderRelation) (on arg : Expr)

/-- One step of a script. -/
structure Step where
  /-- What the step does. -/
  operation : Operation
  /-- The register that the result is put into. -/
  target : Option Text

/-- The state of a script between two steps. -/
structure Machine where
  /-- The names that were made so far. -/
  store : Store
  /-- What the registers hold. -/
  registers : List (Text × Value)

namespace Machine

/-- The state before the first step. -/
def empty : Machine := ⟨.empty, []⟩

/-- What a register holds. -/
def lookup? (m : Machine) (r : Text) : Option Value :=
  (m.registers.find? (·.1 == r)).map Prod.snd

/-- The state after a value was put into a register, if one is named. -/
def put (m : Machine) (target : Option Text) (v : Value) : Machine :=
  match target with
  | some r => { m with registers := (m.registers.filter (·.1 != r)) ++ [(r, v)] }
  | none => m

/-- The operand that a value is at this moment; there is none for a handle without a name. -/
def operand? (m : Machine) : Value → Option Operand
  | .datum d => some (.datum d)
  | .segment s => some (.segment s)
  | .segments ss => some (.segments ss)
  | .tuple ss => some (.tuple ss)
  | .name h => (m.store.get? h).map .name

/-- A value as the operand it is at this moment. -/
def operand (m : Machine) (v : Value) : Operand := (m.operand? v).getD (.datum .null)

end Machine

/-! ## Actions -/

/-- A part of a step. It may change the state, and it gives a value or is refused; what it changed
before it was refused stays changed. -/
abbrev Action : Type → Type := EStateM Fault Machine

namespace Action

/-- The value nothing. -/
def nothing : Value := .datum .null

/-- A new name. -/
def create (q : QualName) : Action Value := do
  let m ← get
  let (store, h) := m.store.alloc q
  set { m with store }
  return .name h

/-- A value that is the operand at this moment: a new name for a qualified name. -/
def give : Operand → Action Value
  | .designator (.name q) => create q
  | .designator (.segment s) => return .segment s
  | .segments ss => return .segments ss
  | .tuple ss => return .tuple ss
  | .datum d => return .datum d

/-- The value of an expression. -/
def eval : Expr → Action Value
  | .datum d => return .datum d
  | .segment d => return .segment (← ofExcept (Operand.datum d).readSegment)
  | .name d => do create (← ofExcept (Operand.datum d).readName)
  | .register r => do
    match (← get).lookup? r with
    | some v => return v
    | none => throw (.unknownRegister r)

/-- The segments of a list of expressions, each checked before the next is evaluated, as
`Fqn.from_names` checks them. -/
def evalSegments : List Expr → Action (List Segment)
  | [] => return []
  | e :: es => do
    let v ← eval e
    let s ← ofExcept ((← get).operand v).asSegment
    return s :: (← evalSegments es)

/-- Extend a name in place by the segment that an operand is (`Fqn.push`). -/
def pushOnto (x : Value) (a : Operand) : Action Unit := do
  match x with
  | .name h =>
    let s ← ofExcept a.asSegment
    modify fun m => { m with store := m.store.push h s }
  | _ => throw (.noAttribute ((← get).operand x).kind "push".toList)

end Action

/-! ## Operations -/

/-- What an operation does with its expressions. Most operations look at the values of one or two
expressions, by a function of their own. -/
inductive Form where
  /-- Evaluate an expression. -/
  | value (e : Expr)
  /-- Look at the value of an expression. -/
  | view (on : Expr) (f : Operand → Except Fault Operand)
  /-- Look at the value an operation is applied to and at its argument, which is evaluated first. -/
  | viewPair (on arg : Expr) (f : Operand → Operand → Except Fault Operand)
  /-- Make a name of the segments that some expressions are. -/
  | collect (args : List Expr)
  /-- Push the argument, which is evaluated first, onto a name. -/
  | push (on arg : Expr)
  /-- Push everything that going through a name yields onto the name itself. -/
  | iteratePushing (on : Expr)

/-- The form of each operation. -/
def Operation.form : Operation → Form
  | .value arg => .value arg
  | .readName arg => .view arg fun x => return .name (← x.readName)
  | .tryReadName arg => .view arg fun x => return .ofName? x.readName?
  | .readSegment arg => .view arg fun x => return .segment (← x.readSegment)
  | .tryReadSegment arg => .view arg fun x => return .ofSegment? x.readSegment?
  | .ofSegment arg => .view arg fun x => return .name (.ofSegment (← x.asSegment))
  | .ofSegments args => .collect args
  | .push on arg => .push on arg
  | .child on arg => .viewPair on arg fun x a => do
    let q ← x.asName "child"
    return .name (q.push (← a.asSegment))
  | .parent on => .view on fun x => return .ofName? (← x.asName "parent").parent?
  | .copy on => .view on Operand.copy
  | .duplicate on => .view on fun x => return x
  | .leaf on => .view on fun x => return .segment (← x.asName "leaf").leaf
  | .isSimple on => .view on fun x => return .datum (.bool (← x.asName "is_simple").isSimple)
  | .toSegment on => .view on fun x =>
    return .ofSegment? (← x.asName "as_simple_name").toSegment?
  | .text on => .view on fun x => return .datum (.text (← x.asName "as_string").text)
  | .parts on => .view on fun x => return .tuple (← x.asName "parts").segments
  | .length on => .view on fun x => return .datum (.int (← x.length))
  | .iterate on => .view on fun x => return .ofItems (← x.iterate)
  | .iteratePushing on => .iteratePushing on
  | .describe on => .view on fun x => return .datum (← x.asName "as_string").describe
  | .contains on arg => .viewPair on arg fun x a => return .datum (.bool (← x.contains a))
  | .sameHash on arg => .viewPair on arg fun x a => return .datum (.bool (← x.sameHash a))
  | .equal on arg => .viewPair on arg fun x a => return .datum (.bool (x.same a))
  | .unequal on arg => .viewPair on arg fun x a => return .datum (.bool !(x.same a))
  | .related r on arg => .viewPair on arg fun x a =>
    return .datum (.bool (← Operand.related r x a))

namespace Action

/-- The result of an operation of the given form. -/
def perform : Form → Action Value
  | .value e => eval e
  | .view on f => do
    let x ← eval on
    give (← ofExcept (f ((← get).operand x)))
  | .viewPair on arg f => do
    let a ← eval arg
    let x ← eval on
    let m ← get
    give (← ofExcept (f (m.operand x) (m.operand a)))
  | .collect args => do
    match QualName.ofSegments? (← evalSegments args) with
    | some q => create q
    | none => throw .noSegments
  | .push on arg => do
    let a ← eval arg
    let x ← eval on
    pushOnto x ((← get).operand a)
    return nothing
  | .iteratePushing on => do
    let x ← eval on
    let items ← ofExcept ((← get).operand x).iterate
    items.operands.forM (pushOnto x)
    return nothing

/-- The result of a step, which is put into the target. -/
def ofStep (s : Step) : Action Value := do
  let v ← perform s.operation.form
  modify (·.put s.target v)
  return v

end Action

/-! ## Runs -/

namespace Machine

/-- The state after a step, and the result of the step. -/
def step (m : Machine) (s : Step) : Machine × Except Fault Value :=
  match (Action.ofStep s).run m with
  | .ok v m => (m, .ok v)
  | .error f m => (m, .error f)

/-- The state after a list of steps. -/
def run (m : Machine) (steps : List Step) : Machine := steps.foldl (fun m s => (m.step s).1) m

/-- The state and the result after each step. -/
def trace (m : Machine) : List Step → List (Machine × Except Fault Value)
  | [] => []
  | s :: steps =>
    let (m, result) := m.step s
    (m, result) :: m.trace steps

/-- A value as it is displayed at this moment. -/
def display (m : Machine) (v : Value) : Datum := (m.operand v).display

/-- What the registers hold, as it is displayed at this moment. -/
def displayRegisters (m : Machine) : List (Text × Datum) :=
  m.registers.map fun (r, v) => (r, m.display v)

end Machine

end DottedNames.Script
