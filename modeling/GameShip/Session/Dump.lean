import GameShip.Disk
import GameShip.Frame.Basic

/-!
# Packet dumps

* `Dump`: the record of every frame of one session, each in a file of its own.
* `Dump.record`: adds a frame to the record.
* `Dump.flush`: writes what was recorded to the disk.
-/

namespace GameShip

/-- Who sent a frame. -/
inductive Direction where
  | client
  | ship
  deriving DecidableEq, Inhabited, Repr

/-- The record of every frame of one session. -/
structure Dump where
  /-- The directory in which the files stand. -/
  directory : DiskPath
  /-- How many frames have been recorded, by which the next one is numbered. -/
  count : UInt32 := 0
  /-- The files that have not been written to the disk yet, the last one first. -/
  recorded : List (String × Bytes) := []
  deriving DecidableEq, Repr

namespace Dump

/-- The name of the file for the next frame. -/
def fileName (dump : Dump) (opcode : Opcode) (direction : Direction) : String :=
  let letter := match direction with
    | .client => "C"
    | .ship => "S"
  toString dump.count ++ "." ++ Opcode.hexByte opcode.kind ++ "." ++
    Opcode.hexByte opcode.subtype ++ "." ++ letter ++ ".bin"

/-- Adds a frame to the record. -/
def record (dump : Dump) (opcode : Opcode) (direction : Direction) (frame : Bytes) : Dump :=
  { dump with
    count := dump.count + 1
    recorded := (dump.fileName opcode direction, frame) :: dump.recorded }

/-- Writes what was recorded to the disk. A file that cannot be written is left out. -/
def flush (dump : Dump) (disk : Disk) : Dump × Disk :=
  ({ dump with recorded := [] },
    dump.recorded.foldr (fun (name, frame) disk =>
      (disk.write (dump.directory ++ [name]) frame).getD disk) disk)

end Dump

end GameShip
