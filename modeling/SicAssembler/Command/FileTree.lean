import SicAssembler.Command.Path
import SicAssembler.Diagnostic

/-! # File trees

A file tree holds the files and directories that a command can see, and the directory that it
works in. A place in the tree is the list of names that lead to it from the root. A place is a
directory if it was made one or if something lies below it.
-/

namespace SicAssembler

/-- Files and directories, by their places. -/
structure FileTree where
  /-- The directory in which relative paths start. -/
  workingDirectory : List String := []
  directories : List (List String) := []
  files : List (List String × ByteArray) := []

namespace FileTree

def file? (tree : FileTree) (place : List String) : Option ByteArray := tree.files.lookup place

def isDirectory (tree : FileTree) (place : List String) : Bool :=
  place.isPrefixOf tree.workingDirectory ||
    tree.directories.any (place.isPrefixOf ·) ||
    tree.files.any fun (other, _) => place.isPrefixOf other && place != other

/-- Follow segments from a place on. Every place on the way has to be a directory; the last one
need not exist. -/
def walk (tree : FileTree) : List String → List String → Except FileFailure (List String)
  | place, [] => .ok place
  | place, segment :: rest =>
    if tree.isDirectory place then
      if segment = "" ∨ segment = "." then tree.walk place rest
      else if segment = ".." then tree.walk place.dropLast rest
      else tree.walk (place ++ [segment]) rest
    else if (tree.file? place).isSome then .error .notDirectory
    else .error .notFound

def origin (tree : FileTree) (path : String) : List String :=
  if path.toList.head? = some '/' then [] else tree.workingDirectory

def segments (path : String) : List String := (Path.segments path.toList).map String.ofList

def locate (tree : FileTree) (path : String) : Except FileFailure (List String) :=
  tree.walk (tree.origin path) (segments path)

def read (tree : FileTree) (path : String) : Except FileFailure ByteArray := do
  let place ← tree.locate path
  match tree.file? place with
  | some content => .ok content
  | none => if tree.isDirectory place then .error .isDirectory else .error .notFound

/-- Give the file at a place a content, and make the file if there is none. -/
def put (tree : FileTree) (place : List String) (content : ByteArray) : FileTree :=
  { tree with files := (place, content) :: tree.files.filter fun entry => entry.1 != place }

private theorem lookup_filter_of_ne {place query : List String} (differs : query ≠ place)
    (files : List (List String × ByteArray)) :
    (files.filter fun entry => entry.1 != place).lookup query = files.lookup query := by
  induction files with
  | nil => rfl
  | cons entry rest ih =>
    obtain ⟨other, content⟩ := entry
    by_cases here : other = place
    · subst here
      simpa [List.lookup_cons, beq_eq_false_iff_ne.mpr differs] using ih
    · simp [here, List.lookup_cons, ih]

/-- Writing a file changes that file and no other. -/
theorem file?_put (tree : FileTree) (place query : List String) (content : ByteArray) :
    (tree.put place content).file? query =
      if query = place then some content else tree.file? query := by
  by_cases same : query = place
  · simp [put, file?, same]
  · simp [put, file?, same, List.lookup_cons, beq_eq_false_iff_ne.mpr same,
      lookup_filter_of_ne same]

def endsWithSlash (path : String) : Bool := path.toList.getLast? == some '/'

/-- The place that a path leads to when a file is to be made there: a `/` at its end is not
followed. -/
def locateNew (tree : FileTree) (path : String) : Except FileFailure (List String) :=
  let front := (segments path).reverse.dropWhile (· == "")
  tree.walk (tree.origin path) front.reverse

def write (tree : FileTree) (path : String) (content : ByteArray) :
    Except FileFailure FileTree := do
  let place ← tree.locateNew path
  if endsWithSlash path || tree.isDirectory place then .error .isDirectory
  else .ok (tree.put place content)

/-- The names that lead from one place down to another. -/
def below? : List String → List String → Option (List String)
  | [], place => some place
  | name :: rest, other :: place => if name = other then below? rest place else none
  | _ :: _, [] => none

/-- The files below the working directory, by their relative paths. -/
def visibleFiles (tree : FileTree) : List (String × ByteArray) :=
  tree.files.filterMap fun (place, content) =>
    (below? tree.workingDirectory place).map fun names => (String.intercalate "/" names, content)

end FileTree

end SicAssembler
