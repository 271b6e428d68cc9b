import Stencil.Json.Reader
import Stencil.Options.Basic
import Stencil.Ordered
import Stencil.Text.Unsigned

/-!
# Reading options

Options are a JSON object in which every key is optional. The fields of a compilation are read in
the order of the text, then those of the layout; other keys are passed over.

- `describe`         : what a value is, in messages
- `readFields`       : reads the known keys of an object, each at most once
- `Options.ofJson`   : options from text
-/

namespace Stencil

open Json (Value)

namespace Options

/-- What a value is, in messages. -/
def describe : Value → String
  | .null => "null"
  | .boolean b => "boolean `" ++ (if b then "true" else "false") ++ "`"
  | .number (.integer n) => "integer `" ++ (Json.Number.integer n).text ++ "`"
  | .number n => "floating point `" ++ n.text ++ "`"
  | .string s => "string " ++ Text.quoted s
  | .array _ => "sequence"
  | .object _ => "map"

/-! ## Values -/

def readText : Value → Except OptionsFault String
  | .string s => .ok s
  | v => .error (.invalidType (describe v) "a string")

def readFlag : Value → Except OptionsFault Bool
  | .boolean b => .ok b
  | v => .error (.invalidType (describe v) "a boolean")

/-- A number that is not negative. -/
def readSize : Value → Except OptionsFault Nat
  | .number (.integer n) =>
    if n < 0 then .error (.invalidValue (describe (.number (.integer n))) "usize")
    else .ok n.toNat
  | v => .error (.invalidType (describe v) "usize")

/-- Texts by key; a repeated key takes the later value and the later place. -/
def readTexts : Value → Except OptionsFault (List (String × String))
  | .object members =>
    members.foldlM (fun found (key, v) => do return Ordered.put key (← readText v) found) []
  | v => .error (.invalidType (describe v) "a map")

/-! ## Fields -/

/-- Reads the keys that `field?` knows, by the field that each stands for, each field once. -/
def readFields {α : Type} (field? : String → Option String)
    (read : String → Value → α → Except OptionsFault α) :
    (seen : List String) → α → List (String × Value) → Except OptionsFault α
  | _, a, [] => .ok a
  | seen, a, (key, v) :: rest =>
    match field? key with
    | none => readFields field? read seen a rest
    | some field =>
      if seen.contains field then .error (.duplicateField field)
      else do readFields field? read (field :: seen) (← read field v a) rest

/-- The field of a compilation that a key stands for. -/
def compileField? (key : String) : Option String :=
  if key == "pragma" then some "solidityPragma"
  else if ["name", "header", "solidityPragma", "contract", "partials", "condenseWhitespace",
      "minRepeatingSubstringLength"].contains key then some key
  else none

/-- Reads a field of a compilation. -/
def readCompileField (field : String) (v : Value) (o : Options) : Except OptionsFault Options :=
  match field with
  | "name" => return { o with name := ← readText v }
  | "header" => return { o with header := ← readText v }
  | "solidityPragma" => return { o with pragma := ← readText v }
  | "contract" => return { o with contract := ← readFlag v }
  | "partials" => return { o with partials := ← readTexts v }
  | "condenseWhitespace" => return { o with condenseWhitespace := ← readFlag v }
  | "minRepeatingSubstringLength" => return { o with minRepeatLength := ← readSize v }
  | _ => return o

/-- The field of the layout that a key stands for. -/
def styleField? (key : String) : Option String :=
  if ["printWidth", "tabWidth", "useTabs", "singleQuote", "bracketSpacing",
      "explicitTypes"].contains key then some key
  else none

/-- Reads a field of the layout. -/
def readStyleField (field : String) (v : Value) (s : Source.Style) :
    Except OptionsFault Source.Style :=
  match field with
  | "printWidth" => return { s with printWidth := ← readSize v }
  | "tabWidth" => return { s with tabWidth := ← readSize v }
  | "useTabs" => return { s with useTabs := ← readFlag v }
  | "singleQuote" => return { s with singleQuote := ← readFlag v }
  | "bracketSpacing" => return { s with bracketSpacing := ← readFlag v }
  | "explicitTypes" => return { s with explicitTypes := ← readFlag v }
  | _ => return s

def ofValue : Value → Except OptionsFault Options
  | .object members => do
    let o ← readFields compileField? readCompileField [] {} members
    let style ← readFields styleField? readStyleField [] o.style members
    return { o with style }
  | v => .error (.invalidType (describe v) "struct CompileOptions")

def ofJson (text : String) : Except Error Options :=
  match Json.parse text with
  | none => .error (.invalidOptions .notJson)
  | some v =>
    match ofValue v with
    | .ok o => .ok o
    | .error fault => .error (.invalidOptions fault)

end Options
end Stencil
