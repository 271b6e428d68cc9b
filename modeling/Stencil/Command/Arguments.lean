import Stencil.Text.Unsigned

/-!
# Arguments of the command line

- `Arguments`       : what a command asks for
- `Request`         : a compilation, or information about the command
- `Arguments.parse` : reads arguments from left to right
-/

namespace Stencil
namespace Command

/-- What a command asks for. -/
structure Arguments where
  /-- The file with the template. -/
  template : Option String := none
  /-- The file or directory to write to. -/
  out : Option String := none
  /-- A file with options. -/
  config : Option String := none
  name : Option String := none
  contract : Bool := false
  /-- Partials as names and files. -/
  partials : List String := []
  condenseWhitespace : Bool := false
  minRepeatLength : Option Nat := none
  deriving DecidableEq, Repr

/-- A compilation, or information about the command. -/
inductive Request where
  | compile (template : String) (arguments : Arguments)
  | help
  | version
  deriving DecidableEq, Repr

/-- Why arguments are refused. -/
inductive UsageFault where
  | unknown (argument : String)
  | missingValue (option : String)
  | invalidValue (option value : String)
  | repeated (option : String)
  | unexpectedValue (option : String)
  | missingTemplate
  deriving DecidableEq, Repr

def UsageFault.message : UsageFault → String
  | .unknown argument => "unexpected argument '" ++ argument ++ "'"
  | .missingValue option => "a value is required for '" ++ option ++ "'"
  | .invalidValue option value => "invalid value '" ++ value ++ "' for '" ++ option ++ "'"
  | .repeated option => "'" ++ option ++ "' cannot be used more than once"
  | .unexpectedValue option => "'" ++ option ++ "' takes no value"
  | .missingTemplate => "no template is given"

/-- An option that takes a value. -/
inductive ValueOption where
  | out
  | config
  | name
  | partialFile
  | minRepeatLength
  deriving DecidableEq, Repr

/-- An option that stands alone. -/
inductive Switch where
  | contract
  | condenseWhitespace
  | help
  | version
  deriving DecidableEq, Repr

/-- The option of a long name that takes a value. -/
def ValueOption.ofName? : String → Option ValueOption
  | "out" => some .out
  | "config" => some .config
  | "name" => some .name
  | "partial" => some .partialFile
  | "min-repeating-substring-length" => some .minRepeatLength
  | _ => none

/-- The option of a long name that stands alone. -/
def Switch.ofName? : String → Option Switch
  | "contract" => some .contract
  | "condense-whitespace" => some .condenseWhitespace
  | "help" => some .help
  | "version" => some .version
  | _ => none

namespace Arguments

/-- Sets an option that may be given once. -/
def setOnce (option : String) (old : Option String) (value : String) :
    Except UsageFault (Option String) :=
  if old.isSome then .error (.repeated option) else .ok (some value)

/-- Sets a path that may be given once and is not empty. -/
def setPath (option : String) (old : Option String) (value : String) :
    Except UsageFault (Option String) :=
  if value.isEmpty then .error (.missingValue option) else setOnce option old value

def set (a : Arguments) (option : ValueOption) (value : String) :
    Except UsageFault Arguments :=
  match option with
  | .out => return { a with out := ← setPath "--out" a.out value }
  | .config => return { a with config := ← setPath "--config" a.config value }
  | .name => return { a with name := ← setOnce "--name" a.name value }
  | .partialFile => return { a with partials := a.partials ++ [value] }
  | .minRepeatLength =>
    let option := "--min-repeating-substring-length"
    match Text.readUnsigned Text.bound64 value.toList with
    | none => .error (.invalidValue option value)
    | some n =>
      if a.minRepeatLength.isSome then .error (.repeated option)
      else .ok { a with minRepeatLength := some n }

/-- Takes an argument that is no option. -/
def setTemplate (a : Arguments) (value : String) : Except UsageFault Arguments :=
  if a.template.isSome then .error (.unknown value)
  else return { a with template := ← setPath "<TEMPLATE>" a.template value }

/-- Whether an argument would be read as an option. -/
def isOption (argument : String) : Bool :=
  match argument.toList with
  | '-' :: _ :: _ => true
  | _ => false

/-- A long option's name and the value after its equals sign. -/
def splitEquals (body : List Char) : String × Option String :=
  let name := body.takeWhile (· != '=')
  match body.dropWhile (· != '=') with
  | [] => (String.ofList name, none)
  | _ :: value => (String.ofList name, some (String.ofList value))

/-- An argument by its form. -/
inductive Form where
  /-- Two dashes: no options follow. -/
  | separator
  | long (name : String) (value : Option String)
  /-- One dash, a letter and what follows it. -/
  | short (letter : Char) (rest : List Char)
  | plain
  deriving DecidableEq, Repr

def Form.of (argument : String) : Form :=
  match argument.toList with
  | ['-', '-'] => .separator
  | '-' :: '-' :: body => .long (splitEquals body).1 (splitEquals body).2
  | '-' :: letter :: rest => .short letter rest
  | _ => .plain

/-- The value attached to a short option; an equals sign may come before it. -/
def attached? : List Char → Option String
  | [] => none
  | '=' :: value => some (String.ofList value)
  | value => some (String.ofList value)

/-- The request of arguments that have all been read. -/
def request (a : Arguments) : Except UsageFault Request :=
  match a.template with
  | some template => .ok (.compile template a)
  | none => .error .missingTemplate

/-- Reads arguments of which none is an option. -/
def readPlain (a : Arguments) (rest : List String) : Except UsageFault Request := do
  (← rest.foldlM setTemplate a).request

mutual

/-- Reads arguments from left to right. -/
def readFrom (a : Arguments) : List String → Except UsageFault Request
  | [] => a.request
  | argument :: rest =>
    match Form.of argument with
    | .separator => readPlain a rest
    | .plain => do readFrom (← a.setTemplate argument) rest
    | .long name value =>
      match Switch.ofName? name, ValueOption.ofName? name, value with
      | some _, _, some _ => .error (.unexpectedValue argument)
      | some .help, _, none => .ok .help
      | some .version, _, none => .ok .version
      | some .contract, _, none =>
        if a.contract then .error (.repeated argument)
        else readFrom { a with contract := true } rest
      | some .condenseWhitespace, _, none =>
        if a.condenseWhitespace then .error (.repeated argument)
        else readFrom { a with condenseWhitespace := true } rest
      | none, some option, some value => do readFrom (← a.set option value) rest
      | none, some option, none => readValue a argument option rest
      | none, none, _ => .error (.unknown argument)
    | .short letter tail =>
      if letter == 'h' then .ok .help
      else if letter == 'V' then .ok .version
      else if letter == 'o' then
        match attached? tail with
        | some value => do readFrom (← a.set .out value) rest
        | none => readValue a argument .out rest
      else .error (.unknown argument)

/-- Reads the value of an option, which must not look like an option, and then what follows. -/
def readValue (a : Arguments) (argument : String) (option : ValueOption) :
    List String → Except UsageFault Request
  | [] => .error (.missingValue argument)
  | value :: rest =>
    if isOption value then .error (.missingValue argument)
    else do readFrom (← a.set option value) rest

end

def parse (arguments : List String) : Except UsageFault Request :=
  readFrom {} arguments

end Arguments
end Command
end Stencil
