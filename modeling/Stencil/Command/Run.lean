import Stencil.Command.Arguments
import Stencil.Command.Files
import Stencil.Compile
import Stencil.Options.Reader

/-!
# Running the command

Reads a template, its options and its partials, and writes the compiled source next to the template
or where it is told to.

- `Failure`    : what went wrong, and why
- `outputPath` : where the source is written
- `prepare`    : the source of a command, from the files that it reads
- `deliver`    : writes a file
- `run`        : a whole compilation
-/

namespace Stencil
namespace Command

/-- Why a step of the command failed. -/
inductive Cause where
  | file (fault : FileFault)
  /-- The options could not be read. -/
  | options (error : Error)
  | compile (error : Error)
  deriving DecidableEq, Repr

def Cause.message : Cause → String
  | .file fault => fault.message
  | .options error => error.message
  | .compile error => error.message

/-- What went wrong, and why if there is more to say. -/
structure Failure where
  message : String
  cause : Option Cause := none
  deriving DecidableEq, Repr

/-- A step of the command. -/
abbrev Step (m : Type → Type) := ExceptT Failure m

/-- Takes over the result of an operation on files, with what to say if it failed. -/
def fileStep {m : Type → Type} [Monad m] {α : Type} (message : String)
    (operation : m (Except FileFault α)) : Step m α := do
  match ← operation with
  | .ok a => return a
  | .error fault => throw ⟨message, some (.file fault)⟩

/-! ## Options -/

/-- The options of a configuration file, or none in particular. -/
def loadConfig {m : Type → Type} [Monad m] (fs : FileSystem m) (config : Option String) :
    Step m Options := do
  match config with
  | none => return {}
  | some path =>
    let text ← fileStep ("Failed to read config " ++ path) (fs.read path)
    match Options.ofJson text with
    | .ok o => return o
    | .error e => throw ⟨"Invalid config " ++ path, some (.options e)⟩

/-- Options with those of the command line in place of others. -/
def overrideOptions (a : Arguments) (o : Options) : Options :=
  { o with
    name := a.name.getD o.name
    contract := o.contract || a.contract
    condenseWhitespace := o.condenseWhitespace || a.condenseWhitespace
    minRepeatLength := a.minRepeatLength.getD o.minRepeatLength }

/-- The name and the file of a partial on the command line. -/
def splitPartial (argument : String) : Option (String × String) :=
  let name := argument.toList.takeWhile (· != '=')
  match argument.toList.dropWhile (· != '=') with
  | _ :: file =>
    if name.isEmpty || file.isEmpty then none else some (String.ofList name, String.ofList file)
  | [] => none

/-- Reads a partial and adds it to the options. -/
def loadPartial {m : Type → Type} [Monad m] (fs : FileSystem m) (o : Options)
    (argument : String) : Step m Options := do
  match splitPartial argument with
  | none => throw ⟨"Invalid partial '" ++ argument ++ "', expected NAME=FILE", none⟩
  | some (name, file) =>
    let source ← fileStep ("Failed to read partial " ++ name ++ " from " ++ file) (fs.read file)
    return { o with partials := Ordered.put name source o.partials }

def loadOptions {m : Type → Type} [Monad m] (fs : FileSystem m) (a : Arguments) :
    Step m Options := do
  let o ← loadConfig fs a.config
  a.partials.foldlM (loadPartial fs) (overrideOptions a o)

/-! ## Output -/

def sourceExtension : String := "sol"

/-- Where the source of a template is written: next to it, into a directory, or to a file. -/
def outputPath (template : String) (out : Option String) : Except Failure String :=
  match PathName.stem? template with
  | none => .error ⟨"Template path " ++ template ++ " has no file name", none⟩
  | some stem =>
    let name := PathName.withExtension stem sourceExtension
    match out with
    | none => .ok (PathName.join ((PathName.parent? template).getD "") name)
    | some out =>
      match PathName.extension? out with
      | none => .ok (PathName.join out name)
      | some extension =>
        if extension == sourceExtension then .ok out
        else .error ⟨"Output file must have a .sol extension, got ." ++ extension, none⟩

/-- Takes over a result that needs no files. -/
def liftExcept {m : Type → Type} [Monad m] {α : Type} : Except Failure α → Step m α
  | .ok a => return a
  | .error e => throw e

/-- Where the source of a command goes, and the source: the template compiled. -/
def prepare {m : Type → Type} [Monad m] (fs : FileSystem m) (template : String) (a : Arguments) :
    Step m (String × String) := do
  let text ← fileStep ("Failed to read template " ++ template) (fs.read template)
  let options ← loadOptions fs a
  let out ← liftExcept (outputPath template a.out)
  let source ← liftExcept <| (compile options text).mapError fun e =>
    ⟨"Failed to compile " ++ template, some (.compile e)⟩
  return (out, source)

/-- Writes a file, in a directory that is made for it unless it is there. -/
def deliver {m : Type → Type} [Monad m] (fs : FileSystem m) (out source : String) :
    Step m Unit := do
  let directory := (PathName.parent? out).getD ""
  if !directory.isEmpty then
    fileStep ("Failed to create directory " ++ directory) (makeDirs fs directory)
  fileStep ("Failed to write " ++ out) (fs.write out source)

/-- Compiles the template of a command and writes the source; gives the path of that. -/
def run {m : Type → Type} [Monad m] (fs : FileSystem m) (template : String) (a : Arguments) :
    Step m String := do
  let (out, source) ← prepare fs template a
  deliver fs out source
  return out

end Command
end Stencil
