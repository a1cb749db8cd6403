import RailsSchema.OrderedMap

/-!
# Files

`FileAccess` is what a run needs of files, in any monad. `FileSystem` is a tree of files held in
memory, and `FileSystem.access` gives a run that tree as its files: a path is followed from the root
or from the working directory, `.` and empty segments staying where they are and `..` going up.
-/

namespace RailsSchema.CommandLine

/-- Why a file cannot be read or written. -/
inductive FileError where
  /-- There is no such file, or a directory on the way to it does not exist. -/
  | missing
  /-- What stands there is a directory. -/
  | isDirectory
  /-- What stands on the way is no directory. -/
  | notDirectory
  /-- A name on the way, or the whole path, is longer than the system takes. -/
  | nameTooLong
  /-- The contents are no text. -/
  | notText
  /-- The system says something else. -/
  | other (message : String)
  deriving DecidableEq, Repr

/-- The wording of a file error. -/
def FileError.message : FileError → String
  | .missing => "No such file or directory (os error 2)"
  | .isDirectory => "Is a directory (os error 21)"
  | .notDirectory => "Not a directory (os error 20)"
  | .nameTooLong => "File name too long (os error 36)"
  | .notText => "stream did not contain valid UTF-8"
  | .other message => message

/-- What a run needs of files. -/
structure FileAccess (m : Type → Type) where
  read : (path : String) → m (Except FileError String)
  write : (path : String) → (contents : String) → m (Except FileError Unit)

/-! ## Files in memory -/

/-- What stands at a place of a file tree. -/
inductive Node where
  | file (contents : ByteArray)
  | directory

/-- A file tree. `nodes` tells what stands at each path from the root, a path being written without
`.`, `..` and empty segments. The root, the working directory and those above it are directories and
need not be listed. -/
structure FileSystem where
  nodes : OrderedMap Node
  workingDirectory : List String

namespace FileSystem

/-- The segments of a path, or of what is left of it. -/
def segments : List Char → List (List Char)
  | [] => [[]]
  | c :: cs =>
    if c = '/' then [] :: segments cs
    else
      match segments cs with
      | [] => [[c]]
      | segment :: others => (c :: segment) :: others

/-- The path that some segments make. -/
def join (path : List String) : String := "/".intercalate path

/-- What stands at a path from the root. -/
def node? (files : FileSystem) (path : List String) : Option Node :=
  if path.isPrefixOf files.workingDirectory then some .directory
  else files.nodes.get? (join path)

/-- The most bytes that a name may have. -/
def maxNameSize : Nat := 255

/-- The most bytes that a path may have. -/
def maxPathSize : Nat := 4095

/-- The place that a segment names in a directory. -/
def enter (files : FileSystem) (here : List String) (segment : String) :
    Except FileError (List String) :=
  match files.node? here with
  | none => .error .missing
  | some (.file _) => .error .notDirectory
  | some .directory =>
    if segment = "" || segment = "." then .ok here
    else if segment = ".." then .ok here.dropLast
    else if maxNameSize < segment.utf8ByteSize then .error .nameTooLong
    else .ok (here ++ [segment])

/-- The names of a path, in the order in which they are followed. -/
def names (path : String) : List String := (segments path.toList).map String.ofList

/-- The place that a path leads to by some of its names. -/
def follow (files : FileSystem) (path : String) (names : List String) :
    Except FileError (List String) :=
  if path = "" then .error .missing
  else if maxPathSize < path.utf8ByteSize then .error .nameTooLong
  else
    names.foldlM files.enter
      (if path.toList.head? = some '/' then [] else files.workingDirectory)

/-- The place that a path names, all segments but the last having to be directories. -/
def locate (files : FileSystem) (path : String) : Except FileError (List String) :=
  files.follow path (names path)

/-- The text of a file. -/
def read (files : FileSystem) (path : String) : Except FileError String := do
  let place ← files.locate path
  match files.node? place with
  | none => .error .missing
  | some .directory => .error .isDirectory
  | some (.file contents) =>
    match String.fromUTF8? contents with
    | some text => .ok text
    | none => .error .notText

/-- The names that lead to a name with a slash after it; `none` where a path does not end so. -/
def parentNames? (path : String) : Option (List String) :=
  match (names path).getLast?, (names path).reverse.dropWhile (· = "") with
  | some "", name :: before => if name = "." || name = ".." then none else some before.reverse
  | _, _ => none

/-- The place where a path lets a file be made or replaced. A name with a slash after it asks for a
directory, which is refused whatever stands there. -/
def locateForWriting (files : FileSystem) (path : String) : Except FileError (List String) :=
  match parentNames? path with
  | none => files.locate path
  | some before => do
    let parent ← files.follow path before
    let _ ← files.enter parent "."
    .error .isDirectory

/-- The tree after a file has been written. -/
def write (files : FileSystem) (path contents : String) : Except FileError FileSystem := do
  let place ← files.locateForWriting path
  match files.node? place with
  | some .directory => .error .isDirectory
  | _ => .ok { files with nodes := files.nodes.insert (join place) (.file contents.toUTF8) }

/-- A file tree as the files of a run. -/
def access : FileAccess (StateM FileSystem) where
  read path := do return (← get).read path
  write path contents := do
    match (← get).write path contents with
    | .ok files =>
      set files
      return .ok ()
    | .error error => return .error error

/-! ## The working directory -/

/-- The tree in which something stands in the working directory and nothing else is known. -/
def ofEntries (workingDirectory : List String) (entries : List (String × Node)) : FileSystem where
  nodes := entries.map fun (name, node) => (join (workingDirectory ++ [name]), node)
  workingDirectory := workingDirectory

/-- The name of what stands in the working directory at a path from the root. -/
def entryName? (files : FileSystem) (path : String) : Option String :=
  if (names path).dropLast = files.workingDirectory then (names path).getLast? else none

/-- What stands in the working directory itself. -/
def entries (files : FileSystem) : List (String × Node) :=
  files.nodes.filterMap fun (path, node) => (files.entryName? path).map fun name => (name, node)

end FileSystem

end RailsSchema.CommandLine
