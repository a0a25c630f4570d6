import SicAssembler.Assembler
import SicAssembler.Command.Arguments
import SicAssembler.Command.FileTree

/-! # Running the command

The command reads its input, assembles it, writes the object file, then the listing if one is
wanted, and at last prints the symbols. The first failure ends it with a message; what was written
before stays.
-/

namespace SicAssembler.Command

/-- Everything that an assembly can be asked to write. -/
structure Products where
  object : String
  listing : String
  symbols : String
deriving DecidableEq, Repr

/-- One symbol a line, its address behind it. -/
def renderSymbols (symbols : SymbolTable) : String :=
  Text.unlines (symbols.sorted.map fun (name, address) =>
    Text.alignLeft 8 name ++ " " ++ Text.hexColumn 6 address)

def produce (machine : Machine) (content : ByteArray) : Except Diagnostic Products :=
  match String.fromUTF8? content with
  | none => .error (.file .notUtf8)
  | some text =>
    match ({ machine := machine } : Assembler).assembleText text with
    | (.error diagnostic, _) => .error diagnostic
    | (.ok program, assembler) =>
      .ok ⟨Text.unlines program.records, renderListing assembler.listing,
        renderSymbols assembler.symbols⟩

def Options.objectPath (options : Options) : String :=
  options.output.getD (Path.objectFile options.input)

/-- The files to write, in order. -/
def Options.writes (options : Options) (products : Products) : List (String × String) :=
  (options.objectPath, products.object) ::
    (options.listing.map fun path => (path, products.listing)).toList

def Options.prints (options : Options) (products : Products) : String :=
  if options.symbols then products.symbols else ""

def errorLine (diagnostic : Diagnostic) : String := "error: " ++ diagnostic.message ++ "\n"

def versionLine : String := "sicxe 1.0.0\n"

def usageLine : String := "Usage: sicxe [OPTIONS] [FILE]"

def helpText : String :=
  "Two-pass SIC/XE assembler producing H/T/M/E object records\n\n" ++
  usageLine ++ "\n\n" ++
  "Arguments:\n" ++
  "  [FILE]  Assembly source file [default: input.asm]\n\n" ++
  "Options:\n" ++
  "  -o, --output <FILE>   Object program file\n" ++
  "      --sic             Assemble for the base SIC machine instead of SIC/XE\n" ++
  "  -l, --listing <FILE>  Write the assembly listing to FILE\n" ++
  "  -s, --symbols         Print the symbol table sorted by address\n" ++
  "  -h, --help            Print help\n" ++
  "  -V, --version         Print version\n"

structure Outcome where
  status : Nat
  output : String := ""
  errors : String := ""
  tree : FileTree

/-- Write files one after another. A failure comes with the tree that it leaves. -/
def writeAll : FileTree → List (String × String) → Option FileFailure × FileTree
  | tree, [] => (none, tree)
  | tree, (path, text) :: rest =>
    match tree.write path text.toUTF8 with
    | .error failure => (some failure, tree)
    | .ok next => writeAll next rest

def fail (tree : FileTree) (diagnostic : Diagnostic) : Outcome :=
  { status := 1, errors := errorLine diagnostic, tree := tree }

def assembleFile (tree : FileTree) (options : Options) : Outcome :=
  match tree.read options.input with
  | .error failure => fail tree (.file failure)
  | .ok content =>
    match produce options.machine content with
    | .error diagnostic => fail tree diagnostic
    | .ok products =>
      match writeAll tree (options.writes products) with
      | (some failure, next) => fail next (.file failure)
      | (none, next) => { status := 0, output := options.prints products, tree := next }

/-- Run the command with its arguments in a file tree. The wording of a misuse is left to the
caller. -/
def run (tree : FileTree) (arguments : List String) : Outcome :=
  match Request.ofArguments arguments with
  | .assemble options => assembleFile tree options
  | .version => { status := 0, output := versionLine, tree := tree }
  | .help => { status := 0, output := helpText, tree := tree }
  | .misuse _ => { status := 2, tree := tree }

end SicAssembler.Command
