import PageAudit.Cli.Path

/-!
# The disk

What a run can learn of the files around it. A disk answers from entries that were looked up before, or
from a `FileTree` in memory: files and, with them, the directories on the way to them.
-/

namespace PageAudit

/-- Answers about paths as they are spelled. -/
structure Disk where
  /-- The absolute path without dots, if there is something at the path. -/
  canonical? : String → Option Path
  isFile : String → Bool
  /-- The bytes of a file. -/
  read? : String → Option ByteArray

namespace Disk

/-- Something stands at the path. -/
def isTaken (d : Disk) (path : String) : Bool :=
  (d.canonical? path).isSome

/-- The text of a file, if it is UTF-8. -/
def text? (d : Disk) (path : String) : Option String :=
  (d.read? path).bind String.fromUTF8?

end Disk

/-- What stands at a path. -/
structure DiskEntry where
  /-- The absolute path without dots. -/
  canonical : Path
  isFile : Bool
  /-- The bytes of a file that can be read. -/
  bytes? : Option ByteArray

namespace Disk

def ofEntries (entries : List (String × DiskEntry)) : Disk where
  canonical? s := (entries.lookup s).map (·.canonical)
  isFile s := (entries.lookup s).any (·.isFile)
  read? s := (entries.lookup s).bind (·.bytes?)

end Disk

structure FileTree where
  /-- The current directory. -/
  directory : List String
  files : List (List String × ByteArray)

namespace FileTree

def file? (t : FileTree) (place : List String) : Option ByteArray :=
  (t.files.find? (·.1 == place)).map (·.2)

/-- The current directory, those above it, and those on the way to a file. -/
def isDirectory (t : FileTree) (place : List String) : Bool :=
  place.isPrefixOf t.directory
    || t.files.any fun (path, _) => place.isPrefixOf path && place.length < path.length

/-- Follows the parts of a path. Only a directory has something in it. -/
def follow? (t : FileTree) (place : List String) : List String → Option (List String)
  | [] => some place
  | part :: rest =>
    if !t.isDirectory place then none
    else if part = "." then t.follow? place rest
    else if part = ".." then t.follow? place.dropLast rest
    else
      let inside := place ++ [part]
      if (t.file? inside).isSome || t.isDirectory inside then t.follow? inside rest else none

/-- Where a path leads. One that ends in a slash or a dot has to lead to a directory. -/
def locate? (t : FileTree) (s : String) : Option (List String) :=
  let p := Path.parse s
  let wantsDirectory := s.endsWith "/" || s.endsWith "/." || s == "."
  (t.follow? (if p.absolute then [] else t.directory) p.parts).filter fun place =>
    !wantsDirectory || t.isDirectory place

def disk (t : FileTree) : Disk where
  canonical? s := if s.isEmpty then none else (t.locate? s).map (⟨true, ·⟩)
  isFile s := ((t.locate? s).bind t.file?).isSome
  read? s := (t.locate? s).bind t.file?

end FileTree

end PageAudit
