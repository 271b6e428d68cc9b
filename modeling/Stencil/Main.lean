import Stencil.Command.Run

/-!
# The command

Compiles a template file into a source file on disk.
-/

namespace Stencil
namespace Command

/-- The fault behind an error of the operating system. -/
def FileFault.ofError : IO.Error → FileFault
  | .noFileOrDirectory _ _ _ => .notFound
  | .alreadyExists _ _ _ => .exists
  | .inappropriateType _ code text =>
    if code == 20 then .notDirectory
    else if code == 21 then .isDirectory
    else .other text
  | e => .other (toString e)

/-- The outcome of an operation on the disk. -/
def attempt {α : Type} (operation : IO α) : IO (Except FileFault α) := do
  try
    return .ok (← operation)
  catch e =>
    return .error (FileFault.ofError e)

def diskFileSystem : FileSystem IO where
  read path := attempt (IO.FS.readFile path)
  write path text := attempt (IO.FS.writeFile path text)
  makeDir path := attempt (IO.FS.createDir path)
  isDir path := do return ← ((← IO.currentDir) / path).isDir

/-- How the command is used. -/
def usage : String :=
  "Usage: stencil [OPTIONS] <TEMPLATE>\n\n" ++
  "  -o, --out <OUT>                           output file (.sol) or directory\n" ++
  "      --config <CONFIG>                     JSON file with options\n" ++
  "      --name <NAME>                         name of the library or contract\n" ++
  "      --contract                            write a contract\n" ++
  "      --partial <NAME=FILE>                 a partial, may be repeated\n" ++
  "      --condense-whitespace                 collapse white space in templates\n" ++
  "      --min-repeating-substring-length <N>  least length of shared text\n"

/-- Runs the command with the given arguments and gives its exit code. -/
def execute (arguments : List String) : IO UInt32 := do
  match Arguments.parse arguments with
  | .error fault =>
    IO.eprintln ("error: " ++ fault.message ++ "\n\n" ++ usage)
    return 2
  | .ok .help =>
    IO.println usage
    return 0
  | .ok .version =>
    IO.println "stencil"
    return 0
  | .ok (.compile template a) =>
    match ← (run diskFileSystem template a).run with
    | .ok path =>
      IO.println ("Successfully compiled to " ++ path)
      return 0
    | .error failure =>
      IO.eprintln ("Error: " ++ failure.message)
      if let some cause := failure.cause then
        IO.eprintln ("\nCaused by:\n    " ++ cause.message)
      return 1

end Command
end Stencil

/-- Compiles the template named on the command line. -/
def main (arguments : List String) : IO UInt32 :=
  Stencil.Command.execute arguments
