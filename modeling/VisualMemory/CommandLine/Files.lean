/-!
# Files

A session finds its files by name. On a disk a name is a way through folders: its parts, with
slashes between them, lead from the home folder, or from the root if a slash comes first.

* `LoadError`: why a file cannot be loaded.
* `Files`: the contents of files by name.
* `Disk`: files and folders by path.
* `Disk.walk`, `Disk.read`: the path and the file that a name stands for.
* `Disk.append?`: a disk with more at the end of a file.
-/

namespace VisualMemory.CommandLine

/-- Why a file cannot be loaded. -/
inductive LoadError where
  | missing
  | denied
  /-- There is a file where a folder has to be. -/
  | notFolder
  /-- There is a folder where the file has to be. -/
  | folder
  | nameTooLong
  | other (reason : String)
  deriving DecidableEq, Repr

def LoadError.message : LoadError → String
  | missing => "No such file or directory (os error 2)"
  | denied => "Permission denied (os error 13)"
  | notFolder => "Not a directory (os error 20)"
  | folder => "Is a directory (os error 21)"
  | nameTooLong => "File name too long (os error 36)"
  | other reason => reason

/-- The contents of files by name. -/
abbrev Files := String → Except LoadError (Array UInt8)

/-! ## Disks -/

/-- The names of the folders from the root to a place, and the name at that place. -/
abbrev Path := List String

/-- What stands at a path. -/
inductive Entry where
  | file (bytes : Array UInt8)
  | folder
  deriving DecidableEq, Repr

/-- Files and folders by path, and the folder in which names start. An earlier entry hides later
ones at its path. -/
structure Disk where
  entries : List (Path × Entry) := []
  home : Path := []
  deriving DecidableEq, Repr

namespace Disk

/-- The most bytes in a name. -/
def maxName : Nat := 4095

/-- The most bytes in a part of a name. -/
def maxPart : Nat := 255

/-- What stands at a path. The folders above an entry and above the home folder are there without
entries of their own. -/
def entry? (d : Disk) (path : Path) : Option Entry :=
  match d.entries.lookup path with
  | some entry => some entry
  | none =>
    if (d.home :: d.entries.map (·.1)).any path.isPrefixOf then some .folder else none

/-- The path that the parts of a name lead to from a path; only folders are left by a part. -/
def walk (d : Disk) : Path → List String → Except LoadError Path
  | path, [] => .ok path
  | path, part :: parts =>
    match d.entry? path with
    | none => .error .missing
    | some (.file _) => .error .notFolder
    | some .folder =>
      if part = "" ∨ part = "." then d.walk path parts
      else if part = ".." then d.walk path.dropLast parts
      else if maxPart < part.utf8ByteSize then .error .nameTooLong
      else d.walk (path ++ [part]) parts

def read (d : Disk) (name : String) : Except LoadError (Array UInt8) :=
  if name.isEmpty then .error .missing
  else if maxName < name.utf8ByteSize then .error .nameTooLong
  else do
    let parts := (name.toList.splitOn '/').map String.ofList
    let path ← d.walk (if parts.head? = some "" then [] else d.home) parts
    match d.entry? path with
    | some (.file bytes) => .ok bytes
    | some .folder => .error .folder
    | none => .error .missing

/-- Whether the way to a path is cut off by a file, or has a part that no name can have. -/
def isBlocked (d : Disk) (path : Path) : Bool :=
  path.any (maxPart < ·.utf8ByteSize) ||
    (List.range path.length).any fun depth =>
      match d.entry? (path.take depth) with
      | some (.file _) => true
      | _ => false

/-- The disk with bytes at the end of the file at a path. The file is new if nothing stands there,
and so are the folders above it; a folder takes no bytes. -/
def append? (d : Disk) (path : Path) (bytes : Array UInt8) : Option Disk :=
  if d.isBlocked path then none
  else match d.entry? path with
    | some .folder => none
    | some (.file before) => some { d with entries := (path, .file (before ++ bytes)) :: d.entries }
    | none => some { d with entries := (path, .file bytes) :: d.entries }

end Disk

end VisualMemory.CommandLine
