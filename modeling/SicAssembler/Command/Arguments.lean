import SicAssembler.Machine

/-! # Command line arguments

Arguments are read from left to right, and the first one that decides what happens ends the
reading: a request for the version or for help, or an argument that makes no sense. Short options
may be joined, and the value of an option may stand in the same argument or in the next one. Every
option may be given once. After `--` every argument is the input file.
-/

namespace SicAssembler.Command

/-- What to assemble and what to write. -/
structure Options where
  input : String := "input.asm"
  /-- The object file; by default it stands beside the input. -/
  output : Option String := none
  machine : Machine := .xe
  /-- Where a listing is written, if one is wanted. -/
  listing : Option String := none
  /-- Whether the symbols are printed. -/
  symbols : Bool := false
deriving DecidableEq, Repr

/-- Why arguments make no sense. -/
inductive UsageError where
  | unknownOption
  | repeatedOption
  | missingValue
  | emptyValue
  /-- An option without a value was given one. -/
  | unwantedValue
  | extraArgument
deriving DecidableEq, Repr

def UsageError.message : UsageError → String
  | .unknownOption => "unexpected option"
  | .repeatedOption => "an option cannot be used multiple times"
  | .missingValue => "an option needs a value"
  | .emptyValue => "a value cannot be empty"
  | .unwantedValue => "an option takes no value"
  | .extraArgument => "unexpected argument"

/-- What the arguments ask for. -/
inductive Request where
  | assemble (options : Options)
  | version
  | help
  | misuse (error : UsageError)
deriving DecidableEq, Repr

inductive ValueOption where
  | output
  | listing
deriving DecidableEq, Repr

/-- What has been read so far. -/
structure Draft where
  input : Option String := none
  output : Option String := none
  listing : Option String := none
  sic : Bool := false
  symbols : Bool := false
deriving DecidableEq, Repr

namespace Draft

/-- Fill a place that is still empty with a text that is not. -/
def fill (occupied : UsageError) (place : Option String) (value : String) :
    Except Request (Option String) :=
  if value.isEmpty then .error (.misuse .emptyValue)
  else if place.isSome then .error (.misuse occupied)
  else .ok (some value)

def setInput (draft : Draft) (value : String) : Except Request Draft := do
  return { draft with input := ← fill .extraArgument draft.input value }

def setValue (draft : Draft) (value : String) : ValueOption → Except Request Draft
  | .output => do return { draft with output := ← fill .repeatedOption draft.output value }
  | .listing => do return { draft with listing := ← fill .repeatedOption draft.listing value }

def setSic (draft : Draft) : Except Request Draft :=
  if draft.sic then .error (.misuse .repeatedOption) else .ok { draft with sic := true }

def setSymbols (draft : Draft) : Except Request Draft :=
  if draft.symbols then .error (.misuse .repeatedOption) else .ok { draft with symbols := true }

/-- The options, with defaults for what was not given. -/
def finish (draft : Draft) : Options where
  input := draft.input.getD "input.asm"
  output := draft.output
  machine := if draft.sic then .sic else .xe
  listing := draft.listing
  symbols := draft.symbols

end Draft

/-- Remove one `=` between a short option and its value. -/
def dropEquals : List Char → List Char
  | '=' :: rest => rest
  | text => text

/-- Take the value that is joined to a short option, or wait for the next argument. -/
def joinedValue (draft : Draft) (option : ValueOption) (text : List Char) :
    Except Request (Draft × Option ValueOption) :=
  if text.isEmpty then .ok (draft, some option)
  else do return (← draft.setValue (String.ofList (dropEquals text)) option, none)

/-- Read joined short options. The result also tells which option waits for its value. -/
def readShort : Draft → List Char → Except Request (Draft × Option ValueOption)
  | draft, [] => .ok (draft, none)
  | draft, 's' :: rest => do readShort (← draft.setSymbols) rest
  | _, 'V' :: _ => .error .version
  | _, 'h' :: _ => .error .help
  | draft, 'o' :: rest => joinedValue draft .output rest
  | draft, 'l' :: rest => joinedValue draft .listing rest
  | _, _ :: _ => .error (.misuse .unknownOption)

/-- Split a long option from the value behind its first `=`. -/
def splitEquals : List Char → List Char × Option (List Char)
  | [] => ([], none)
  | '=' :: value => ([], some value)
  | c :: rest =>
    let (name, value) := splitEquals rest
    (c :: name, value)

/-- Read a long option with a value, joined or in the next argument. -/
def longValue (draft : Draft) (option : ValueOption) :
    Option (List Char) → Except Request (Draft × Option ValueOption)
  | none => .ok (draft, some option)
  | some value => do return (← draft.setValue (String.ofList value) option, none)

def longFlag (value : Option (List Char)) (effect : Except Request Draft) :
    Except Request (Draft × Option ValueOption) :=
  if value.isSome then .error (.misuse .unwantedValue) else do return (← effect, none)

/-- Read a long option, without its two dashes. -/
def readLong (draft : Draft) (text : List Char) : Except Request (Draft × Option ValueOption) :=
  let (name, value) := splitEquals text
  match String.ofList name with
  | "output" => longValue draft .output value
  | "listing" => longValue draft .listing value
  | "sic" => longFlag value draft.setSic
  | "symbols" => longFlag value draft.setSymbols
  | "version" => longFlag value (.error .version)
  | "help" => longFlag value (.error .help)
  | _ => .error (.misuse .unknownOption)

/-- Read arguments behind `--`. -/
def readInputs : Draft → List String → Except Request Draft
  | draft, [] => .ok draft
  | draft, argument :: rest => do readInputs (← draft.setInput argument) rest

/-- Read arguments, the first of which may be the value that an option waits for. -/
def readFrom : Option ValueOption → Draft → List String → Except Request Draft
  | none, draft, [] => .ok draft
  | some _, _, [] => .error (.misuse .missingValue)
  | waiting, draft, argument :: rest =>
    match waiting, argument.toList with
    | some _, '-' :: _ :: _ => .error (.misuse .missingValue)
    | some option, _ => do readFrom none (← draft.setValue argument option) rest
    | none, ['-', '-'] => readInputs draft rest
    | none, '-' :: '-' :: text => do
      let (draft, waiting) ← readLong draft text
      readFrom waiting draft rest
    | none, '-' :: c :: text => do
      let (draft, waiting) ← readShort draft (c :: text)
      readFrom waiting draft rest
    | none, _ => do readFrom none (← draft.setInput argument) rest

def Request.ofArguments (arguments : List String) : Request :=
  match readFrom none {} arguments with
  | .ok draft => .assemble draft.finish
  | .error request => request

example : Request.ofArguments ["-sl", "a.lst", "--sic", "-oa.obj", "a.asm"] =
    .assemble ⟨"a.asm", some "a.obj", .sic, some "a.lst", true⟩ := by decide
example : Request.ofArguments ["-o", "-V"] = .misuse .missingValue := by decide
example : Request.ofArguments ["-sV", "-x"] = .version := by decide

end SicAssembler.Command
