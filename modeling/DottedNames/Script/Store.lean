import DottedNames.QualName

/-!
# The store of mutable names

A qualified name that can be extended in place is an object that refers to a list of segments, and
whoever wants to see or extend it holds the handle of the object. The lists are objects as well:
a name is made for a list that is there already, and pushing onto the name extends that list. Two
holders of one handle are aliases, each sees what the other pushes; and so would be the holders of
two names that refer to one list. `alloc` makes a list for each name, and nothing else makes names,
which is why two different names never influence each other.

The view of a store is `get?`, the qualified name behind a handle. Nothing is ever given up, so a
handle stays good.
-/

namespace DottedNames

/-- The handle of a name. -/
structure Handle where
  /-- The number of names that were made before it. -/
  index : Nat
deriving DecidableEq

/-- The names that were made so far, and the lists of their segments. -/
structure Store where
  /-- The lists of segments, the oldest first. -/
  lists : List (List Segment)
  /-- For each name, the oldest first, the number of the list that it refers to. -/
  names : List Nat

namespace Store

/-- The store without names. -/
def empty : Store := ⟨[], []⟩

/-- The segments of the list that a name refers to. -/
def segments? (st : Store) (h : Handle) : Option (List Segment) :=
  st.names[h.index]?.bind fun i => st.lists[i]?

/-- The qualified name behind a handle. -/
def get? (st : Store) (h : Handle) : Option QualName :=
  (st.segments? h).bind QualName.ofSegments?

/-! ## Changes -/

/-- The store with one more list, and the number of that list. -/
def newList (st : Store) (ss : List Segment) : Store × Nat :=
  ({ st with lists := st.lists ++ [ss] }, st.lists.length)

/-- The store with one more name, which refers to the list with the given number, and the handle of
that name (`Fqn._from_list`). -/
def nameList (st : Store) (i : Nat) : Store × Handle :=
  ({ st with names := st.names ++ [i] }, ⟨st.names.length⟩)

/-- The store with one more name, which refers to a list of its own, and the handle of that name. -/
def alloc (st : Store) (q : QualName) : Store × Handle :=
  let (st, i) := st.newList q.segments
  st.nameList i

/-- The store with a segment appended to the list that a name refers to. -/
def push (st : Store) (h : Handle) (s : Segment) : Store :=
  match st.names[h.index]? with
  | some i => { st with lists := st.lists.modify i (· ++ [s]) }
  | none => st

end Store

end DottedNames
