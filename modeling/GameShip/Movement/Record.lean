import GameShip.Wire.Reader

/-!
# Movement records

* `MovementRecord`: all that a client tells about how an entity moves.
* `MovementRecord.toBytes`, `MovementRecord.read`: its full form, which is always 0x38 bytes.
-/

namespace GameShip

/-- All that a client tells about how an entity moves. The fields whose meaning is not known are
kept as they are. -/
structure MovementRecord where
  entity1 : EntityHeader := {}
  entity2 : EntityHeader := {}
  timestamp : UInt32 := 0
  rotation : Rotation := {}
  position : Position := {}
  unknown2 : UInt16 := 0
  unknownPosition : Position := {}
  unknown3 : UInt16 := 0
  unknown4 : UInt32 := 0
  deriving DecidableEq, Inhabited, Repr

namespace MovementRecord

/-- The number of bytes of the full form. -/
def size : Nat := 0x38

/-- The full form of a record. -/
def toBytes (d : MovementRecord) : Bytes :=
  Wire.header d.entity1 ++ Wire.header d.entity2 ++ Wire.u32 d.timestamp ++
    Wire.rotation d.rotation ++ Wire.position d.position ++ Wire.u16 d.unknown2 ++
    Wire.position d.unknownPosition ++ Wire.u16 d.unknown3 ++ Wire.u32 d.unknown4

/-- Reads the full form of a record. -/
def read : ReadM MovementRecord := ReadM.restoring do
  return {
    entity1 := ← Reader.header
    entity2 := ← Reader.header
    timestamp := ← Reader.u32
    rotation := ← Reader.rotation
    position := ← Reader.point
    unknown2 := ← Reader.u16
    unknownPosition := ← Reader.point
    unknown3 := ← Reader.u16
    unknown4 := ← Reader.u32 }

/-- The location that a record announces. -/
def location (d : MovementRecord) : Location := ⟨d.rotation, d.position⟩

@[simp] theorem length_toBytes (d : MovementRecord) : d.toBytes.length = size := by
  simp [toBytes, size, Wire.header, Wire.u64, Wire.u32, Wire.u16, Wire.half, Wire.rotation,
    Wire.position]

end MovementRecord

end GameShip
