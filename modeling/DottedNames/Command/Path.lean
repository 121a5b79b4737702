import DottedNames.Text.Utf8

/-!
# Paths and files

A path is normalized before it is used and before it is shown: empty components and the component
`.` are dropped, `..` stays, and a path without components is `.`. A path that starts with exactly
two slashes keeps both, and any other absolute path keeps one.

A tree holds the files that can be read. Following a path goes component by component from the
directory the tree starts in; on the way every component but the last has to be a directory, and
`..` leads to the directory above. Where an absolute path leads is not in the tree, apart from the
root directory itself.
-/

namespace DottedNames

/-- Why a file cannot be read. -/
inductive ReadFault where
  /-- There is no such file. -/
  | missing
  /-- A component on the way is no directory. -/
  | notDirectory
  /-- It is a directory. -/
  | isDirectory
  /-- A component or the whole path is too long. -/
  | nameTooLong
  /-- The path has a character that no path may have. -/
  | nullCharacter
deriving DecidableEq

namespace Path

/-- The components of a path that count. -/
def components (path : Text) : List Text :=
  (path.splitOn '/').filter fun c => !c.isEmpty && c != ['.']

/-- The slashes that a normalized path starts with. -/
def root (path : Text) : Text :=
  match path with
  | '/' :: '/' :: '/' :: _ => ['/']
  | '/' :: '/' :: _ => ['/', '/']
  | '/' :: _ => ['/']
  | _ => []

/-- The normalized form of a path. -/
def normalize (path : Text) : Text :=
  let t := root path ++ Text.join ['/'] (components path)
  if t.isEmpty then ['.'] else t

/-- The most bytes a component may have. -/
def maxComponent : Nat := 255

/-- One more than the most bytes a path may have. -/
def maxPath : Nat := 4096

end Path

/-- A file: the components of its path, and its bytes. -/
structure File where
  /-- The components of the path. -/
  path : List Text
  /-- The content. -/
  bytes : List UInt8

/-- The files below a directory. -/
abbrev FileTree := List File

namespace FileTree

/-- The bytes of the file with a path, if there is one. -/
def file? (tree : FileTree) (path : List Text) : Option (List UInt8) :=
  (tree.find? (·.path == path)).map File.bytes

/-- Whether a path is a directory: the start, or on the way to a file. -/
def isDirectory (tree : FileTree) (path : List Text) : Bool :=
  path.isEmpty || tree.any fun f => f.path.length > path.length && path.isPrefixOf f.path

/-- Where a walk through the tree stands. -/
inductive Whereabouts where
  /-- In a directory below the start. -/
  | within (path : List Text)
  /-- That many directories above the start. -/
  | above (levels : Nat)

/-- Follow the components of a path from a place. -/
def walk (tree : FileTree) : Whereabouts → List Text → Except ReadFault (List UInt8)
  | .within path, [] =>
    match tree.file? path with
    | some bytes => .ok bytes
    | none => .error .isDirectory
  | .above _, [] => .error .isDirectory
  | .within path, c :: rest =>
    if !tree.isDirectory path then .error .notDirectory
    else if c = ['.', '.'] then
      match path with
      | [] => walk tree (.above 1) rest
      | _ :: _ => walk tree (.within path.dropLast) rest
    else if (Utf8.encode c).length > Path.maxComponent then .error .nameTooLong
    else
      let next := path ++ [c]
      if tree.isDirectory next || (tree.file? next).isSome then walk tree (.within next) rest
      else .error .missing
  | .above levels, c :: rest =>
    if c = ['.', '.'] then walk tree (.above (levels + 1)) rest
    else if (Utf8.encode c).length > Path.maxComponent then .error .nameTooLong
    else .error .missing

/-- The bytes of the file that a path leads to. -/
def read (tree : FileTree) (path : Text) : Except ReadFault (List UInt8) :=
  let shown := Path.normalize path
  if Char.ofNat 0 ∈ path then .error .nullCharacter
  else if (Utf8.encode shown).length ≥ Path.maxPath then .error .nameTooLong
  else
    walk tree (if (Path.root path).isEmpty then .within [] else .above 0) (Path.components path)

end FileTree

end DottedNames
