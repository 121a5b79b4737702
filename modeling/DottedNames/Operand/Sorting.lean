import DottedNames.Operand

/-!
# Sorting

Sorting uses the strict order only and is stable. It starts from the run that the items begin with:
either they do not descend, or they descend strictly and are reversed, which no two equal items can
tell. Every further item is inserted into the sorted items behind all of those that it does not
precede, at a place that is found by halving. In descending order, too, items that compare equal
keep their places, which is why the items are reversed before and after.

The first comparison that is refused refuses the whole sort.
-/

namespace DottedNames.Operand

/-! ## The run at the beginning -/

/-- The items behind `last` that go on without descending, and the others. -/
def ascendingRun (last : Operand) :
    List Operand → Except Fault (List Operand × List Operand)
  | [] => .ok ([], [])
  | y :: ys => do
    if ← related .lt y last then
      return ([], y :: ys)
    else
      let (run, rest) ← ascendingRun y ys
      return (y :: run, rest)

/-- The items behind `last` that go on descending strictly, in reverse and in front of `run`, and
the others. -/
def descendingRun (last : Operand) (run : List Operand) :
    List Operand → Except Fault (List Operand × List Operand)
  | [] => .ok (run, [])
  | y :: ys => do
    if ← related .lt y last then
      descendingRun y (y :: run) ys
    else
      return (run, y :: ys)

/-- The run that some items begin with, in ascending order, and the others. -/
def firstRun : List Operand → Except Fault (List Operand × List Operand)
  | x :: y :: ys => do
    if ← related .lt y x then
      descendingRun y [y, x] ys
    else
      let (run, rest) ← ascendingRun y ys
      return (x :: y :: run, rest)
  | items => .ok (items, [])

/-! ## Insertion -/

/-- The place behind all items of the sorted list `ys` that `x` does not precede, if it is between
`low` and `high`. -/
def insertionPoint (x : Operand) (ys : List Operand) (low high : Nat) : Except Fault Nat :=
  if low < high then
    let middle := (low + high) / 2
    match ys[middle]? with
    | none => .ok low
    | some y =>
      match related .lt x y with
      | .error f => .error f
      | .ok true => insertionPoint x ys low middle
      | .ok false => insertionPoint x ys (middle + 1) high
  else .ok low
termination_by high - low

/-- The sorted list `ys` with `x` inserted behind all items that it does not precede. -/
def insertSorted (x : Operand) (ys : List Operand) : Except Fault (List Operand) :=
  (insertionPoint x ys 0 ys.length).map fun place => ys.insertIdx place x

/-! ## Sorting -/

/-- The items in ascending order, equal ones in the order they came in. -/
def sortAscending (items : List Operand) : Except Fault (List Operand) := do
  let (run, rest) ← firstRun items
  rest.foldlM (fun sorted x => insertSorted x sorted) run

/-- The items in ascending or, if `descending`, in descending order. -/
def sort (descending : Bool) (items : List Operand) : Except Fault (List Operand) :=
  if descending then (sortAscending items.reverse).map List.reverse else sortAscending items

end DottedNames.Operand
