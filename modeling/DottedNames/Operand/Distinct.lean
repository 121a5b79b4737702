import DottedNames.Operand

/-!
# First occurrences

The distinct items of a list, in the order of their first occurrences. An item is dropped when an
equal one was kept before, whichever type either has; an item without a hash is refused.

The items may come from somewhere where they can be refused themselves. Each one is looked at before
the next is asked for, so the first item that is refused for either reason decides.
-/

namespace DottedNames.Operand

/-- The kept items with `x` at the end, unless an equal one is kept already. -/
def keep (kept : List Operand) (x : Operand) : List Operand :=
  if kept.any (·.same x) then kept else kept ++ [x]

/-- The kept items after one more item, which needs a hash. -/
def keepHashed (kept : List Operand) (x : Operand) : Except Fault (List Operand) := do
  let _ ← x.hashKey
  return keep kept x

/-- The first occurrence of each item. -/
def distinct (items : List Operand) : Except Fault (List Operand) := items.foldlM keepHashed []

/-- The first occurrence of each item of a list in which items may be refused. -/
def distinctOf (items : List (Except Fault Operand)) : Except Fault (List Operand) :=
  items.foldlM (fun kept item => item >>= keepHashed kept) []

end DottedNames.Operand
