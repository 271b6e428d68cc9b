import Stencil.Command.PathName

/-!
# Files

What the command does to files is written over four operations, so that it can run on a disk or on
a tree of files in memory.

- `FileFault`     : why an operation on a file fails
- `FileSystem`    : the operations
- `makeDirs`      : makes a directory with those that it lies in
- `Tree`          : files and directories in memory
-/

namespace Stencil
namespace Command

/-- Why an operation on a file fails. -/
inductive FileFault where
  | notFound
  | exists
  | notDirectory
  | isDirectory
  | other (text : String)
  deriving DecidableEq, Repr

def FileFault.message : FileFault → String
  | .notFound => "No such file or directory (os error 2)"
  | .exists => "File exists (os error 17)"
  | .notDirectory => "Not a directory (os error 20)"
  | .isDirectory => "Is a directory (os error 21)"
  | .other text => text

/-- Operations on files, in a monad `m`. -/
structure FileSystem (m : Type → Type) where
  /-- The text of a file. -/
  read : String → m (Except FileFault String)
  /-- Writes a file. -/
  write : String → String → m (Except FileFault Unit)
  /-- Makes one directory. -/
  makeDir : String → m (Except FileFault Unit)
  isDir : String → m Bool

/-- Makes a directory; one that is there already will do. -/
def makeDir {m : Type → Type} [Monad m] (fs : FileSystem m) (path : String) :
    m (Except FileFault Unit) := do
  match ← fs.makeDir path with
  | .ok () => return .ok ()
  | .error fault => return if ← fs.isDir path then .ok () else .error fault

/-- Makes a directory with those that it lies in, of which there are at most `fuel`. -/
def makeDirsUpTo {m : Type → Type} [Monad m] (fs : FileSystem m) :
    Nat → String → m (Except FileFault Unit)
  | 0, _ => return .ok ()
  | fuel + 1, path => do
    if path.isEmpty then return .ok ()
    match ← makeDir fs path with
    | .error .notFound =>
      match PathName.parent? path with
      | none => return .error .notFound
      | some parent =>
        match ← makeDirsUpTo fs fuel parent with
        | .error fault => return .error fault
        | .ok () => makeDir fs path
    | result => return result

/-- Makes a directory with those that it lies in. -/
def makeDirs {m : Type → Type} [Monad m] (fs : FileSystem m) (path : String) :
    m (Except FileFault Unit) :=
  makeDirsUpTo fs (path.length + 1) path

/-! ## Files in memory -/

/-- The directory that relative paths start from. -/
def workingDirectory : List String := ["work"]

/-- Files and directories by their components, from the root directory. -/
structure Tree where
  files : List (List String × String) := []
  directories : List (List String) := [[], workingDirectory]
  deriving Repr

namespace Tree

/-- What is found at a place. -/
inductive Entry where
  | file (text : String)
  | directory
  | missing
  deriving DecidableEq, Repr

/-- What is found at a place. -/
def entry (t : Tree) (place : List String) : Entry :=
  if t.directories.contains place then .directory
  else match t.files.lookup place with
    | some text => .file text
    | none => .missing

/-- The components of a path between its slashes, empty ones included. -/
def components : List Char → List (List Char)
  | [] => [[]]
  | c :: rest =>
    if c == '/' then [] :: components rest
    else match components rest with
      | [] => [[c]]
      | first :: others => (c :: first) :: others

/-- Follows components from a directory to the place that they name. Whatever comes before a
component has to be a directory. -/
def follow (t : Tree) (place : List String) : List (List Char) → Except FileFault (List String)
  | [] => .ok place
  | component :: rest =>
    match t.entry place with
    | .missing => .error .notFound
    | .file _ => .error .notDirectory
    | .directory =>
      if PathName.isVoid component then t.follow place rest
      else if component == ['.', '.'] then t.follow place.dropLast rest
      else t.follow (place ++ [String.ofList component]) rest

/-- The place that a path names, from the root directory or from the working directory. -/
def locate (t : Tree) (path : String) : Except FileFault (List String) :=
  let start := if path.toList.head? == some '/' then [] else workingDirectory
  t.follow start (components path.toList)

/-- The directories that lead to a place. -/
def ancestors (place : List String) : List (List String) :=
  (List.range place.length).map place.take

def put (t : Tree) (place : List String) (text : String) : Tree :=
  { t with files := t.files.filter (·.1 != place) ++ [(place, text)] }

/-- A tree with the given files in the working directory, and the directories that these lie
in. -/
def ofFiles (files : List (String × String)) : Tree :=
  files.foldl (fun t (path, text) =>
    let place := workingDirectory ++ (components path.toList).map String.ofList
    { t.put place text with directories := t.directories ++ ancestors place }) {}

/-- The path of a place from the working directory, if it lies inside. -/
def pathInside? (place : List String) : Option String :=
  (workingDirectory.isPrefixOf? place).map "/".intercalate

/-- The files in the working directory that differ from those of an earlier tree, by path. -/
def changes (before after : Tree) : List (String × String) :=
  let changed := after.files.filter fun (place, text) => before.files.lookup place != some text
  let named := changed.filterMap fun (place, text) => (pathInside? place).map (·, text)
  named.mergeSort fun a b => a.1 ≤ b.1

def read (t : Tree) (path : String) : Except FileFault String := do
  let place ← t.locate path
  match t.entry place with
  | .file text => .ok text
  | .directory => .error .isDirectory
  | .missing => .error .notFound

def write (t : Tree) (path text : String) : Except FileFault Tree := do
  if path.toList.getLast? == some '/' then throw .isDirectory
  let place ← t.locate path
  match t.entry place with
  | .directory => throw .isDirectory
  | _ => return t.put place text

/-- Makes a directory in one that is there. -/
def addDir (t : Tree) (path : String) : Except FileFault Tree := do
  let place ← t.locate (String.ofList (PathName.trimmed path).1)
  match t.entry place with
  | .missing => return { t with directories := t.directories ++ [place] }
  | _ => throw .exists

def isDir (t : Tree) (path : String) : Bool :=
  match t.locate path with
  | .ok place => t.entry place == .directory
  | .error _ => false

/-- The operations on a tree of files. -/
def fileSystem : FileSystem (StateM Tree) where
  read path := do return (← get).read path
  write path text := do
    match (← get).write path text with
    | .ok t => set t; return .ok ()
    | .error fault => return .error fault
  makeDir path := do
    match (← get).addDir path with
    | .ok t => set t; return .ok ()
    | .error fault => return .error fault
  isDir path := do return (← get).isDir path

end Tree

end Command
end Stencil
