import GameShip.Bytes
import Std.Data.ExtTreeMap

/-!
# Files

* `Disk`: the files and directories under the directory in which the ship runs.
* `Disk.read`, `Disk.list`, `Disk.contents`: what a file, a directory or the files in it hold.
* `Disk.write`, `Disk.createDirectory`, `Disk.delete`: changes.
* `FileError`: why a file could not be used.
-/

namespace GameShip

/-- Why a file could not be used. -/
inductive FileError where
  | notFound
  /-- A key file has another size than a key. -/
  | keySize (actual : Nat)
  /-- A file that is to be sent is shorter than the header of a frame. -/
  | shorterThanHeader
  /-- Anything else, such as a directory where a file is needed. -/
  | other
  deriving DecidableEq, Repr

/-- The text that explains what is wrong with the content of a file. -/
def FileError.message? : FileError → Option String
  | .keySize actual => some ("key file must hold exactly 16 bytes, not " ++ toString actual)
  | .shorterThanHeader => some "file is shorter than a frame header"
  | .notFound | .other => none

/-- What a name in a directory stands for. -/
inductive DiskEntry where
  | directory
  | file (bytes : Bytes)
  /-- A file that the ship may neither read nor write. -/
  | unreadable
  deriving DecidableEq, Repr

namespace DiskEntry

/-- It is a file, whether or not that can be read. -/
def isFile : DiskEntry → Bool
  | .directory => false
  | .file _ | .unreadable => true

/-- What is read from it. -/
def content : DiskEntry → Except FileError Bytes
  | .file bytes => .ok bytes
  | .directory | .unreadable => .error .other

end DiskEntry

/-- The place of an entry: the names on the way to it. -/
abbrev DiskPath := List String

/-- The files and directories under one directory, whose own place is empty. -/
structure Disk where
  entries : Std.ExtTreeMap DiskPath DiskEntry := {}
  deriving Inhabited

namespace Disk

/-- What stands at a place. -/
def at? (disk : Disk) (place : DiskPath) : Option DiskEntry :=
  if place = [] then some .directory else disk.entries[place]?

/-- A name of more bytes than this cannot be used. -/
def maxNameSize : Nat := 255

/-- A path of more bytes than this cannot be used. -/
def maxPathSize : Nat := 4095

/-- A path below another one. A path from the root stays as it is. A slash comes between the two
unless one is there already or nothing comes before it. -/
def join (base path : String) : String :=
  if path.startsWith "/" then path
  else
    match base.toList.getLast? with
    | none | some '/' => base ++ path
    | some _ => base ++ "/" ++ path

/-- What stands where a path has led to. Outside this disk, where there is no place, that is some
directory. -/
def reached? (disk : Disk) : (place : Option DiskPath) → Option DiskEntry
  | some place => disk.at? place
  | none => some .directory

/-- The directory around a place. -/
def parent : (place : Option DiskPath) → Option DiskPath
  | none | some [] => none
  | some place => some place.dropLast

/-- Goes from a place along the parts of a path. A part that is empty or a dot stays, two dots go
back, and every part but the last has to lead to a directory. The names outside this disk are not
known. -/
def walk (disk : Disk) : (place : Option DiskPath) → (parts : List String) →
    Except FileError (Option DiskPath)
  | place, [] => .ok place
  | place, part :: parts =>
    match disk.reached? place with
    | none => .error .notFound
    | some (.file _) | some .unreadable => .error .other
    | some .directory =>
      if part = "" ∨ part = "." then disk.walk place parts
      else if part = ".." then disk.walk (parent place) parts
      else if part.utf8ByteSize > maxNameSize then .error .other
      else
        match place.map (· ++ [part]) with
        | none => .error .notFound
        | some next =>
          if (disk.at? next).isNone then .error .notFound else disk.walk (some next) parts

/-- The entry that a path leads to, and its place. A path from the root begins outside this
disk. -/
def find (disk : Disk) (path : String) : Except FileError (Option DiskPath × DiskEntry) :=
  if path.toList.contains '\x00' ∨ path.utf8ByteSize > maxPathSize then .error .other
  else if path.isEmpty then .error .notFound
  else
    match disk.walk (if path.startsWith "/" then none else some []) (path.splitOn "/") with
    | .error e => .error e
    | .ok place => match disk.reached? place with
      | some entry => .ok (place, entry)
      | none => .error .notFound

/-- The content of the file that a path leads to. -/
def read (disk : Disk) (path : String) : Except FileError Bytes :=
  match disk.find path with
  | .ok (_, entry) => entry.content
  | .error e => .error e

/-- A path leads to a file, whether or not that can be read. -/
def isFile (disk : Disk) (path : String) : Bool :=
  match disk.find path with
  | .ok (_, entry) => entry.isFile
  | .error _ => false

/-- The names in the directory at a place, in no particular order. -/
def children (disk : Disk) (place : DiskPath) : List (String × DiskEntry) :=
  disk.entries.toList.filterMap fun (path, entry) =>
    match path.getLast? with
    | some name => if path.dropLast = place then some (name, entry) else none
    | none => none

/-- The names in the directory that a path leads to, in no particular order. Of those outside this
disk there are none. -/
def list (disk : Disk) (path : String) : Except FileError (List (String × DiskEntry)) :=
  match disk.find path with
  | .ok (place, .directory) => .ok (place.elim [] disk.children)
  | .ok (_, .file _) | .ok (_, .unreadable) => .error .other
  | .error e => .error e

/-- What is read from the names in a directory, each by its own path. -/
def contents (disk : Disk) (directory : String) (names : List (String × DiskEntry)) :
    List (String × Except FileError Bytes) :=
  names.map fun (name, _) => (name, disk.read (join directory name))

/-- Puts an entry at a place. -/
def put (disk : Disk) (place : DiskPath) (entry : DiskEntry) : Disk :=
  ⟨disk.entries.insert place entry⟩

/-- Makes a directory of a place and of every place on the way to it, unless a file is in the
way. -/
def createDirectory (disk : Disk) (place : DiskPath) : Option Disk :=
  (List.range place.length).foldlM (fun disk n =>
    let step := place.take (n + 1)
    match disk.at? step with
    | none => some (disk.put step .directory)
    | some .directory => some disk
    | some (.file _) | some .unreadable => none) disk

/-- Writes a file into a directory that exists. -/
def write (disk : Disk) (place : DiskPath) (bytes : Bytes) : Option Disk :=
  match disk.at? place.dropLast, disk.at? place with
  | some .directory, some (.file _) | some .directory, none => some (disk.put place (.file bytes))
  | _, _ => none

/-- Removes the file at a place. -/
def delete (disk : Disk) (place : DiskPath) : Disk :=
  match disk.at? place with
  | some (.file _) | some .unreadable => ⟨disk.entries.erase place⟩
  | some .directory | none => disk

/-- The order of names in a directory listing: that of their bytes. -/
def sorted {α : Type} (names : List (String × α)) : List (String × α) :=
  names.mergeSort fun a b => decide (a.1 ≤ b.1)

end Disk

end GameShip
