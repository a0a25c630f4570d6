import SicAssembler.Diagnostic
import SicAssembler.Machine.Catalog
import SicAssembler.Operand
import SicAssembler.Statement.Words

/-! # Statements

A statement is an operation with an optional label in front of it and an optional operand behind
it. A `+` in front of the operation asks for the extended format. Blank lines and lines that start
with `.` hold no statement.
-/

namespace SicAssembler

structure Statement where
  label : Option String
  operation : Operation
  operand : Option Operand
  extended : Bool
deriving DecidableEq, Repr

def hasPlus (word : String) : Bool := word.toList.head? == some '+'

/-- Read a word as an operation of a machine; the flag tells whether it was marked with `+`. -/
def Machine.operator? (machine : Machine) (word : String) : Option (Operation × Bool) :=
  match word.toList with
  | '+' :: bare => (machine.operation? (String.ofList bare)).map (·, true)
  | _ => (machine.operation? word).map (·, false)

namespace Statement

/-- Find the operation among the words of a line. In a line of two words the first one is tried as
the operation before the second one is. -/
def ofWords? (machine : Machine) : List String → Option Statement
  | [word] =>
    (machine.operator? word).map fun (operation, extended) => ⟨none, operation, none, extended⟩
  | [first, second] =>
    match machine.operator? first with
    | some (operation, extended) => some ⟨none, operation, some ⟨second⟩, extended⟩
    | none =>
      (machine.operator? second).map fun (operation, extended) =>
        ⟨some first, operation, none, extended⟩
  | [label, word, operand] =>
    (machine.operator? word).map fun (operation, extended) =>
      ⟨some label, operation, some ⟨operand⟩, extended⟩
  | _ => none

/-- The fault of words that form no statement: a marked word is taken for an unknown operation. -/
def wordsFault (text : String) (words : List String) : Fault :=
  match (words.take 2).find? hasPlus with
  | some word => .invalidOpcode word .unknown
  | none => .malformed text

/-- Why a statement may not be extended. -/
def extendedReason? (machine : Machine) (operation : Operation) : Option OpcodeReason :=
  match machine, operation with
  | .sic, _ => some .extendedOnSic
  | .xe, .machine instruction =>
    if instruction.format = .three then none else some .extendedNeedsFormat3
  | .xe, .directive _ => some .extendedDirective

/-- Check the two uses of the mark `+`: never on a label, and only where an extended format
exists. -/
def checkPlus (machine : Machine) (statement : Statement) : Except Fault Statement :=
  match statement.label.filter hasPlus with
  | some label => .error (.invalidOpcode label .unknown)
  | none =>
    if statement.extended then
      match extendedReason? machine statement.operation with
      | some reason => .error (.invalidOpcode ("+" ++ statement.operation.mnemonic) reason)
      | none => .ok statement
    else .ok statement

/-- Whether a trimmed line is blank or a comment. -/
def isInert (text : List Char) : Bool := text.isEmpty || text.head? == some '.'

/-- Read the statement of a line; `none` for a blank line or a comment. -/
def parse (machine : Machine) (line : String) : Except Fault (Option Statement) :=
  let text := Text.trim line.toList
  if isInert text then .ok none
  else
    let shown := String.ofList text
    let words := (Words.split text).map String.ofList
    if words.length > 3 then .error (.malformed shown)
    else
      match ofWords? machine words with
      | none => .error (wordsFault shown words)
      | some statement => (checkPlus machine statement).map some

/-- The operation word of a statement, with its mark. -/
def operator (statement : Statement) : String :=
  if statement.extended then "+" ++ statement.operation.mnemonic else statement.operation.mnemonic

/-- The words of a statement in the order in which they are written. -/
def words (statement : Statement) : List String :=
  statement.label.toList ++ [statement.operator] ++ (statement.operand.map Operand.text).toList

/-- A statement written with single spaces. -/
def print (statement : Statement) : String := String.intercalate " " statement.words

end Statement

end SicAssembler
