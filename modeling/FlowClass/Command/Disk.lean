import FlowClass.Text.Basic

/-!
# Files

`Disk` is what the command does with files, in any monad; `Files` is a directory as a value, for
which `Files.disk` does the same without any effect.
-/

namespace FlowClass.Command

/-- Why a path leads nowhere, or a directory is not made there. -/
inductive PathFault where
  /-- A directory on the way is missing. -/
  | missing
  /-- Something is there already. -/
  | taken
  /-- The path is no path, or goes through a file. -/
  | refused
deriving DecidableEq

/-- The file operations of the command. -/
structure Disk (m : Type → Type) where
  /-- The text of a file, if it can be read. -/
  read : String → m (Option String)
  isDir : String → m Bool
  /-- Makes one directory, for which those above have to be there. -/
  makeDir : String → m (Except PathFault Unit)
  /-- Writes a file; false if that fails. -/
  write : String → String → m Bool

/-! ## Paths -/

def isAbsolute (path : String) : Bool :=
  Text.startsWith ['/'] path.toList

/-- A path inside a directory; an absolute one stays as it is. -/
def joinPath (dir name : String) : String :=
  if isAbsolute name then name
  else if dir.toList.getLast? = some '/' then dir ++ name
  else dir ++ "/" ++ name

/-- The names of a path. -/
def namesOf (path : String) : List String :=
  (Text.splitOn '/' path.toList).map String.ofList

/-- The name stays in the directory. -/
def isStay (name : String) : Bool :=
  name.isEmpty || name = "."

/-- The directories above a path, the nearest first. Names that stay where they are do not count:
the nearest one above `a/b/.` is `a`. -/
def dirsAbove (path : String) : List String :=
  let moving := (namesOf path).filter fun name => !isStay name
  let root := if isAbsolute path then "/" else ""
  (List.range (moving.length - 1)).reverse.map fun i => root ++ joinText "/" (moving.take (i + 1))

/-! ## Making directories -/

namespace Disk

variable {m : Type → Type} [Monad m]

/-- Makes one directory, unless it is there. -/
def ensureDir (disk : Disk m) (path : String) : m (Except PathFault Unit) := do
  match ← disk.makeDir path with
  | .ok () => return .ok ()
  | .error .taken => return if ← disk.isDir path then .ok () else .error .refused
  | .error fault => return .error fault

/-- Makes the first directory of the list; the following ones, each above the one before, are made
first where they are missing. -/
def ensureDirs (disk : Disk m) : List String → m Bool
  | [] => return true
  | path :: above => do
    match ← disk.ensureDir path with
    | .ok () => return true
    | .error .missing =>
      if ← disk.ensureDirs above then return (← disk.ensureDir path).isOk else return false
    | .error _ => return false

/-- Makes a directory and those above it; false if that fails. -/
def makeDirs (disk : Disk m) (path : String) : m Bool :=
  disk.ensureDirs (path :: dirsAbove path)

end Disk

/-! ## A directory as a value -/

/-- A place below the working directory, by the names on the way. -/
abbrev Location := List String

/-- The working directory and all below it. -/
structure Files where
  files : List (Location × String) := []
  dirs : List Location := []

namespace Files

def isDir (f : Files) (here : Location) : Bool :=
  here.isEmpty || f.dirs.contains here

def isFile (f : Files) (here : Location) : Bool :=
  (f.files.lookup here).isSome

/-- A relative path of a length that the system takes. -/
def isValidPath (path : String) : Bool :=
  !path.isEmpty && path.utf8ByteSize < 4096 && !isAbsolute path

/-- A name that a file or directory can have. -/
def isValidName (name : String) : Bool :=
  name.utf8ByteSize ≤ 255 && !name.toList.contains '\x00'

/-- One name further from a location. -/
def step (here : Location) (name : String) : Option Location :=
  if isStay name then some here
  else if name = ".." then if here.isEmpty then none else some here.dropLast
  else if isValidName name then some (here ++ [name])
  else none

/-- Follows names from a location; all but the last have to lead to directories. -/
def locate (f : Files) : Location → List String → Except PathFault Location
  | here, [] => .ok here
  | here, name :: names =>
    if f.isDir here then
      match step here name with
      | some next => f.locate next names
      | none => .error .refused
    else if f.isFile here then .error .refused
    else .error .missing

/-- The location of a path from the working directory. -/
def resolve (f : Files) (path : String) : Except PathFault Location :=
  if isValidPath path then f.locate [] (namesOf path) else .error .refused

def read? (f : Files) (path : String) : Option String :=
  (f.resolve path).toOption.bind fun here => f.files.lookup here

/-- The path leads to a directory. -/
def leadsToDir (f : Files) (path : String) : Bool :=
  match f.resolve path with
  | .ok here => f.isDir here
  | .error _ => false

/-- Makes the directory `name` in the one that `parents` lead to. A name that stays there, or leads
back up, is taken. -/
def makeDirIn (f : Files) (parents : List String) (name : String) : Except PathFault Files :=
  match f.locate [] (parents ++ ["."]) with
  | .error fault => .error fault
  | .ok here =>
    if isStay name || name = ".." then .error .taken
    else
      match step here name with
      | none => .error .refused
      | some new =>
        if f.isDir new || f.isFile new then .error .taken
        else .ok { f with dirs := new :: f.dirs }

/-- Makes the directory at a path. Slashes at its end do not count. -/
def makeDir (f : Files) (path : String) : Except PathFault Files :=
  if isValidPath path then
    match (namesOf path).reverse.dropWhile String.isEmpty with
    | [] => .error .refused
    | name :: parents => f.makeDirIn parents.reverse name
  else .error .refused

/-- Puts a text at a location. -/
def put (f : Files) (here : Location) (text : String) : Files :=
  { f with files := (here, text) :: f.files.filter fun entry => entry.1 != here }

def write? (f : Files) (path text : String) : Option Files :=
  (f.resolve path).toOption.bind fun here =>
    if f.isDir here then none else some (f.put here text)

/-- The operations on a directory that is a value. -/
def disk : Disk (StateM Files) where
  read path := do return (← get).read? path
  isDir path := do return (← get).leadsToDir path
  makeDir path := do
    match (← get).makeDir path with
    | .error fault => return .error fault
    | .ok f =>
      set f
      return .ok ()
  write path text := do
    match (← get).write? path text with
    | none => return false
    | some f =>
      set f
      return true

/-- Writes a file, and the directories above it. -/
def place (f : Files) (path text : String) : Files :=
  let made := ((disk.ensureDirs (dirsAbove path)).run f).2
  (made.write? path text).getD f

/-- A directory with the given files. -/
def ofList (files : List (String × String)) : Files :=
  files.foldl (fun f (path, text) => f.place path text) {}

end Files

end FlowClass.Command
