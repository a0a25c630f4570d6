import SicAssembler.Command.Run

/-! # The command line program

The program runs a request on the files of the system. What it computes, writes and prints is
decided by `SicAssembler.Command`; only the calls to the system stand here.
-/

namespace SicAssembler.Command

/-- A failure of the system, as a diagnostic words it. -/
def failureOf : IO.Error → FileFailure
  | .noFileOrDirectory _ _ _ => .notFound
  | .inappropriateType _ 20 _ => .notDirectory
  | .inappropriateType _ 21 _ => .isDirectory
  | error => .other error.toString

def report (diagnostic : Diagnostic) : IO UInt32 := do
  IO.eprint (errorLine diagnostic)
  return 1

/-- Write files one after another, up to the first failure. -/
def writeFiles : List (String × String) → IO (Option FileFailure)
  | [] => return none
  | (path, text) :: rest => do
    match ← (IO.FS.writeFile path text).toBaseIO with
    | .error error => return some (failureOf error)
    | .ok () => writeFiles rest

def execute (options : Options) : IO UInt32 := do
  match ← (IO.FS.readBinFile options.input).toBaseIO with
  | .error error => report (.file (failureOf error))
  | .ok content =>
    match produce options.machine content with
    | .error diagnostic => report diagnostic
    | .ok products =>
      match ← writeFiles (options.writes products) with
      | some failure => report (.file failure)
      | none =>
        IO.print (options.prints products)
        return 0

end SicAssembler.Command

open SicAssembler.Command in
/-- Do what the arguments ask for. -/
def main (arguments : List String) : IO UInt32 := do
  match Request.ofArguments arguments with
  | .assemble options => execute options
  | .version => IO.print versionLine; return 0
  | .help => IO.print helpText; return 0
  | .misuse error =>
    IO.eprintln ("error: " ++ error.message ++ "\n\n" ++ usageLine)
    return 2
