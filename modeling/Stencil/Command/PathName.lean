/-!
# Names of files

The parts of a path as it is written: its directory, its last component and that one's extension.

- `parent?`, `fileName?`   : a path up to its last component, and that component
- `stem?`, `extension?`    : a file name before and after its last dot
- `withExtension`, `join`  : new paths from old ones
-/

namespace Stencil
namespace Command
namespace PathName

/-- The number of characters that stand for the starting directory: a leading slash, or a leading
dot that is a component. -/
def leadLength : List Char → Nat
  | '/' :: _ => 1
  | ['.'] => 1
  | '.' :: '/' :: _ => 1
  | _ => 0

/-- The last component after the lead, which may be empty, and the path before its slash. -/
def splitLast (lead : Nat) (path : List Char) : List Char × List Char :=
  let last := ((path.drop lead).reverse.takeWhile (· != '/')).reverse
  (last, path.take (max lead (path.length - last.length - 1)))

/-- A component that leads nowhere. -/
def isVoid (component : List Char) : Bool := component == [] || component == ['.']

/-- A path without the void components at its end. -/
def dropVoid (lead : Nat) : Nat → List Char → List Char
  | 0, path => path
  | fuel + 1, path =>
    if path.length ≤ lead then path
    else
      let (last, before) := splitLast lead path
      if isVoid last then dropVoid lead fuel before else path

/-- A path without the void components at its end, and the length of its lead. -/
def trimmed (path : String) : List Char × Nat :=
  let cs := path.toList
  let lead := leadLength cs
  (dropVoid lead cs.length cs, lead)

/-- The directory of a path; the root directory and the empty path have none. -/
def parent? (path : String) : Option String :=
  let (cs, lead) := trimmed path
  if cs.length ≤ lead then
    if cs.head? == some '.' then some "" else none
  else
    let before := (splitLast lead cs).2
    some (String.ofList (dropVoid lead before.length before))

/-- The last component of a path, if it names a file. -/
def fileName? (path : String) : Option String :=
  let (cs, lead) := trimmed path
  if cs.length ≤ lead then none
  else
    let last := (splitLast lead cs).1
    if last == ['.', '.'] then none else some (String.ofList last)

/-- A file name before and after its last dot; a dot in front does not count. -/
def splitDot (name : String) : String × Option String :=
  let after := (name.toList.reverse.takeWhile (· != '.')).reverse
  let before := name.toList.take (name.toList.length - after.length - 1)
  if name == ".." || before.isEmpty then (name, none)
  else (String.ofList before, some (String.ofList after))

/-- The last component of a path without its extension. -/
def stem? (path : String) : Option String :=
  (fileName? path).map fun name => (splitDot name).1

/-- The extension of the last component of a path. -/
def extension? (path : String) : Option String :=
  (fileName? path).bind fun name => (splitDot name).2

/-- A file name with the given extension; a name that is no file stays as it is. -/
def withExtension (name extension : String) : String :=
  match stem? name with
  | some stem => stem ++ "." ++ extension
  | none => name

/-- A path inside a directory; an absolute path stays as it is. -/
def join (directory path : String) : String :=
  if path.toList.head? == some '/' || directory.isEmpty then path
  else if directory.toList.getLast? == some '/' then directory ++ path
  else directory ++ "/" ++ path

end PathName
end Command
end Stencil
