import DottedNames.InvalidIdentifier

/-!
# Qualified names

A qualified name, an `Fqn`, is a non-empty list of segments, the outermost scope first. It is
written with a dot between neighbouring segments, and since no segment has a dot, the written form
determines the segments: `parse` cuts a text at its dots and reads every piece as a segment, and
reports the first piece that is none.

The view of a qualified name is its list of segments. Each operation below is described by what it
does to that list: `push` appends, `parent?` drops the last segment, `leaf` is the last segment.
-/

namespace DottedNames

/-- A dotted name, an `Fqn`, as the list of its segments. -/
structure QualName where
  /-- The segments, the outermost scope first. -/
  segments : List Segment
  /-- There is at least one segment. -/
  segments_ne_nil : segments ≠ []
deriving DecidableEq

namespace QualName

/-- The dot that stands between two segments (`FQN_SEPARATOR`). -/
def separator : Char := '.'

/-! ## Construction from segments -/

/-- The name of one segment (`Fqn.from_name`). -/
def ofSegment (s : Segment) : QualName := ⟨[s], by simp⟩

/-- The name with the given segments, if there are any (`Fqn.from_names`). -/
def ofSegments? (ss : List Segment) : Option QualName :=
  if h : ss = [] then none else some ⟨ss, h⟩

/-- The name with one more segment at its inner end: what `Fqn.child` gives and what `Fqn.push`
makes of a name. -/
def push (q : QualName) (s : Segment) : QualName := ⟨q.segments ++ [s], by simp⟩

/-! ## Parts -/

/-- The innermost segment (`Fqn.leaf`). -/
def leaf (q : QualName) : Segment := q.segments.getLast q.segments_ne_nil

/-- The number of segments. -/
def length (q : QualName) : Nat := q.segments.length

/-- Whether the name has only one segment (`Fqn.is_simple`). -/
def isSimple (q : QualName) : Bool := q.length == 1

/-- The only segment of a simple name (`Fqn.as_simple_name`). -/
def toSegment? (q : QualName) : Option Segment :=
  match q.segments with
  | [s] => some s
  | _ => none

/-- The enclosing scope, which a simple name does not have (`Fqn.parent`). -/
def parent? (q : QualName) : Option QualName := ofSegments? q.segments.dropLast

/-- The texts of the segments. -/
def texts (q : QualName) : List Text := q.segments.map Segment.text

/-- The written form: the texts of the segments with dots between them (`Fqn.as_string`). -/
def text (q : QualName) : Text := Text.join [separator] q.texts

/-! ## The segments after each operation -/

theorem ofSegments?_eq_some_iff {ss : List Segment} {q : QualName} :
    ofSegments? ss = some q ↔ ss = q.segments := by
  unfold ofSegments?
  split
  · next h => simp [h, q.segments_ne_nil.symm]
  · cases q
    simp

@[simp] theorem segments_ofSegment (s : Segment) : (ofSegment s).segments = [s] := rfl

@[simp] theorem segments_push (q : QualName) (s : Segment) :
    (q.push s).segments = q.segments ++ [s] := rfl

@[simp] theorem leaf_push (q : QualName) (s : Segment) : (q.push s).leaf = s := by simp [leaf]

@[simp] theorem parent?_push (q : QualName) (s : Segment) : (q.push s).parent? = some q := by
  simp [parent?, ofSegments?, q.segments_ne_nil]

/-! ## Reading -/

/-- The pieces between the dots of a text; there is always at least one. -/
def pieces (t : Text) : List Text := t.splitOn separator

/-- The segments that the pieces of `source` from the `index`-th on spell. -/
def readPieces (source : Text) : Nat → List Text → Except InvalidIdentifier (List Segment)
  | _, [] => .ok []
  | index, piece :: rest =>
    match Segment.ofText? piece with
    | none => .error { text := piece, place := some ⟨source, index⟩ }
    | some s =>
      match readPieces source (index + 1) rest with
      | .error e => .error e
      | .ok ss => .ok (s :: ss)

/-- Pieces that can be read are the texts of the segments they are read as. -/
theorem map_text_of_readPieces {source : Text} {index : Nat} {ps : List Text} {ss : List Segment}
    (h : readPieces source index ps = .ok ss) : ss.map Segment.text = ps := by
  induction ps generalizing index ss with
  | nil => cases h; rfl
  | cons p ps ih =>
    unfold readPieces at h
    split at h
    · cases h
    · next s hs =>
      split at h
      · cases h
      · next hss =>
        cases h
        simp [ih hss, Segment.text_of_ofText? hs]

/-- Pieces can be read exactly as the segments that they are the texts of. -/
theorem readPieces_eq_ok_iff {source : Text} {index : Nat} {ps : List Text} {ss : List Segment} :
    readPieces source index ps = .ok ss ↔ ss.map Segment.text = ps := by
  refine ⟨map_text_of_readPieces, ?_⟩
  rintro rfl
  induction ss generalizing index with
  | nil => rfl
  | cons s ss ih => simp [readPieces, ih]

/-- A text has at least one piece. -/
theorem pieces_ne_nil (t : Text) : pieces t ≠ [] := List.splitOn_ne_nil _ _

/-- The name that a dotted text spells, or the report on its first invalid piece (`Fqn.new`). -/
def parse (t : Text) : Except InvalidIdentifier QualName :=
  match h : readPieces t 0 (pieces t) with
  | .error e => .error e
  | .ok ss => .ok ⟨ss, by
      rintro rfl
      exact pieces_ne_nil t (map_text_of_readPieces h).symm⟩

/-- A text spells exactly the name whose segments have its pieces as their texts. -/
theorem parse_eq_ok_iff {t : Text} {q : QualName} : parse t = .ok q ↔ q.texts = pieces t := by
  unfold parse
  split
  · next e he =>
    simp only [reduceCtorEq, false_iff]
    intro h
    rw [readPieces_eq_ok_iff.2 h] at he
    cases he
  · next ss hss =>
    have h := map_text_of_readPieces hss
    constructor
    · intro hq
      cases hq
      exact h
    · intro hq
      have hread : readPieces t 0 (pieces t) = .ok q.segments := readPieces_eq_ok_iff.2 hq
      rw [hss] at hread
      cases q
      cases hread
      rfl

/-- The pieces of the written form are the texts of the segments, for no segment has a dot. -/
@[simp] theorem pieces_text (q : QualName) : pieces q.text = q.texts := by
  unfold pieces text Text.join
  rw [List.splitOn_intercalate]
  · intro p hp hdot
    obtain ⟨s, _, rfl⟩ := List.mem_map.1 hp
    have h := Segment.isNameChar_of_mem_text hdot
    revert h
    decide
  · simp [texts, q.segments_ne_nil]

/-- The name that a dotted text spells, if it spells one (`Fqn.try_new`). -/
def parse? (t : Text) : Option QualName := (parse t).toOption

end QualName

end DottedNames
