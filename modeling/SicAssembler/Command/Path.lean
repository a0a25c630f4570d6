import SicAssembler.Text.Separated

/-! # Paths

A path is a text with `/` between its segments. The file name is the last segment that is neither
empty nor `.`, unless it is `..`. The extension of a file name is what follows its last dot, but a
dot in front of the whole name starts no extension.
-/

namespace SicAssembler.Path

/-- The segments of a path, in order. There is at least one. -/
def segments (path : List Char) : List (List Char) :=
  let (first, others) := Text.splitParts '/' path
  first :: others

/-- Whether a segment stays in the directory that it is looked up in. -/
def isIdle (segment : List Char) : Bool := segment.isEmpty || segment == ['.']

/-- Write the segments in front of a file name, each with its `/`. -/
def frontText (segments : List (List Char)) : List Char :=
  segments.flatMap fun segment => segment ++ ['/']

/-- The file name of a path and the text in front of it. Idle segments behind the name are left
out. -/
def fileName? (path : List Char) : Option (List Char × List Char) :=
  match (segments path).reverse.dropWhile isIdle with
  | [] => none
  | name :: front => if name = ['.', '.'] then none else some (frontText front.reverse, name)

/-- Split a file name at its last dot. -/
def splitExtension? (name : List Char) : Option (List Char × List Char) :=
  let back := name.reverse.takeWhile (· != '.')
  match name.reverse.dropWhile (· != '.') with
  | _ :: front => if front.isEmpty then none else some (front.reverse, back.reverse)
  | [] => none

def stem (name : List Char) : List Char := ((splitExtension? name).map Prod.fst).getD name

/-- A path without the characters of its extension at the end. -/
def dropExtension (path : List Char) : List Char :=
  match (fileName? path).bind fun (_, name) => splitExtension? name with
  | some (_, extension) => path.take (path.length - extension.length)
  | none => path

/-- A path with another extension. The old extension is removed first; if what remains has no file
name, it gets no extension. -/
def withExtension (extension : List Char) (path : List Char) : List Char :=
  let kept := dropExtension path
  match fileName? kept with
  | some (front, name) => front ++ stem name ++ '.' :: extension
  | none => kept

def objectFile (input : String) : String :=
  String.ofList (withExtension ['o', 'b', 'j'] input.toList)

example : objectFile "d.e/a.b.asm" = "d.e/a.b.obj" := by decide
example : objectFile ".asm" = ".asm.obj" := by decide
example : objectFile "a/" = "a.obj" := by decide
example : objectFile "..asm" = ".." := by decide

end SicAssembler.Path
