import GameShip.Movement.Record

/-!
# Packed movement updates

A client that moves sends only what has changed. A word of flags says which fields of a record
follow; they come in the order of the flag bits.

* `MovementField`: the fields, with the orders in which they are read, written and counted.
* `MovementFlags`: the word of flags.
* `PackedMovement`: an update, with `PackedMovement.read` and `PackedMovement.toBytes`.
-/

namespace GameShip

/-- A field that a packed update can carry. The first field has the lowest flag bit. -/
inductive MovementField where
  | entity1Id
  | entity1Kind
  | entity1Unknown
  | entity2Id
  | entity2Kind
  | entity2Unknown
  | timestamp
  | rotationX
  | rotationY
  | rotationZ
  | rotationW
  | positionX
  | positionY
  | positionZ
  | unknown2
  | unknownX
  | unknownY
  | unknownZ
  | unknown3
  | unknown4
  deriving DecidableEq, Inhabited, Repr

/-- The word that says which fields follow. Bits without a field are kept. -/
structure MovementFlags where
  bits : UInt32 := 0
  deriving DecidableEq, Inhabited, Repr

namespace MovementField

/-- Every field, in the order of the flag bits. -/
def all : List MovementField := [
  .entity1Id, .entity1Kind, .entity1Unknown, .entity2Id, .entity2Kind, .entity2Unknown,
  .timestamp, .rotationX, .rotationY, .rotationZ, .rotationW, .positionX, .positionY, .positionZ,
  .unknown2, .unknownX, .unknownY, .unknownZ, .unknown3, .unknown4]

/-- The fields in the order in which they are read. -/
def readOrder : List MovementField := [
  .entity1Id, .entity1Kind, .entity1Unknown, .entity2Id, .entity2Kind, .entity2Unknown,
  .timestamp, .rotationX, .rotationY, .rotationZ, .rotationW, .positionX, .positionY, .positionZ,
  .unknown2, .unknownX, .unknownY, .unknownZ, .unknown3, .unknown4]

/-- The fields in the order in which they are written. -/
def writeOrder : List MovementField := [
  .entity1Id, .entity1Kind, .entity1Unknown, .entity2Id, .entity2Kind, .entity2Unknown,
  .timestamp, .rotationX, .rotationY, .rotationZ, .rotationW, .positionX, .positionY, .positionZ,
  .unknown2, .unknownX, .unknownY, .unknownZ, .unknown3, .unknown4]

/-- The numbers of bytes that are counted for the fields. The last one, which has a short form, is
not among them. -/
def widths : List (MovementField × Nat) := [
  (.entity1Id, 8), (.entity1Kind, 2), (.entity1Unknown, 2), (.entity2Id, 8), (.entity2Kind, 2),
  (.entity2Unknown, 2), (.timestamp, 4), (.rotationX, 2), (.rotationY, 2), (.rotationZ, 2),
  (.rotationW, 2), (.positionX, 2), (.positionY, 2), (.positionZ, 2), (.unknown2, 2),
  (.unknownX, 2), (.unknownY, 2), (.unknownZ, 2), (.unknown3, 2)]

/-- The flag of a field. -/
def mask : MovementField → UInt32
  | .entity1Id => 0x01
  | .entity1Kind => 0x02
  | .entity1Unknown => 0x04
  | .entity2Id => 0x08
  | .entity2Kind => 0x10
  | .entity2Unknown => 0x20
  | .timestamp => 0x40
  | .rotationX => 0x80
  | .rotationY => 0x100
  | .rotationZ => 0x200
  | .rotationW => 0x400
  | .positionX => 0x800
  | .positionY => 0x1000
  | .positionZ => 0x2000
  | .unknown2 => 0x4000
  | .unknownX => 0x8000
  | .unknownY => 0x10000
  | .unknownZ => 0x20000
  | .unknown3 => 0x40000
  | .unknown4 => 0x80000

/-- Reads a field into a record. -/
def read (short : Bool) (d : MovementRecord) : MovementField → ReadM MovementRecord
  | .entity1Id => return { d with entity1.id := ← Reader.u64 }
  | .entity1Kind => return { d with entity1.kind := ⟨← Reader.u16⟩ }
  | .entity1Unknown => return { d with entity1.unknown := ← Reader.u16 }
  | .entity2Id => return { d with entity2.id := ← Reader.u64 }
  | .entity2Kind => return { d with entity2.kind := ⟨← Reader.u16⟩ }
  | .entity2Unknown => return { d with entity2.unknown := ← Reader.u16 }
  | .timestamp => return { d with timestamp := ← Reader.u32 }
  | .rotationX => return { d with rotation.x := ← Reader.half }
  | .rotationY => return { d with rotation.y := ← Reader.half }
  | .rotationZ => return { d with rotation.z := ← Reader.half }
  | .rotationW => return { d with rotation.w := ← Reader.half }
  | .positionX => return { d with position.x := ← Reader.half }
  | .positionY => return { d with position.y := ← Reader.half }
  | .positionZ => return { d with position.z := ← Reader.half }
  | .unknown2 => return { d with unknown2 := ← Reader.u16 }
  | .unknownX => return { d with unknownPosition.x := ← Reader.half }
  | .unknownY => return { d with unknownPosition.y := ← Reader.half }
  | .unknownZ => return { d with unknownPosition.z := ← Reader.half }
  | .unknown3 => return { d with unknown3 := ← Reader.u16 }
  | .unknown4 =>
    if short then return { d with unknown4 := (← Reader.u8).toUInt32 }
    else return { d with unknown4 := ← Reader.u32 }

/-- The written form of a field of a record. -/
def write (short : Bool) (d : MovementRecord) : MovementField → Bytes
  | .entity1Id => Wire.u64 d.entity1.id
  | .entity1Kind => Wire.u16 d.entity1.kind.code
  | .entity1Unknown => Wire.u16 d.entity1.unknown
  | .entity2Id => Wire.u64 d.entity2.id
  | .entity2Kind => Wire.u16 d.entity2.kind.code
  | .entity2Unknown => Wire.u16 d.entity2.unknown
  | .timestamp => Wire.u32 d.timestamp
  | .rotationX => Wire.half d.rotation.x
  | .rotationY => Wire.half d.rotation.y
  | .rotationZ => Wire.half d.rotation.z
  | .rotationW => Wire.half d.rotation.w
  | .positionX => Wire.half d.position.x
  | .positionY => Wire.half d.position.y
  | .positionZ => Wire.half d.position.z
  | .unknown2 => Wire.u16 d.unknown2
  | .unknownX => Wire.half d.unknownPosition.x
  | .unknownY => Wire.half d.unknownPosition.y
  | .unknownZ => Wire.half d.unknownPosition.z
  | .unknown3 => Wire.u16 d.unknown3
  | .unknown4 => if short then Wire.u8 d.unknown4.toUInt8 else Wire.u32 d.unknown4

end MovementField

namespace MovementFlags

/-- The field follows. -/
def has (flags : MovementFlags) (f : MovementField) : Bool := flags.bits &&& f.mask != 0

/-- The flag that gives the last field its short form. -/
def shortMask : UInt32 := 0x100000

/-- The last field has its short form. -/
def short (flags : MovementFlags) : Bool := flags.bits &&& shortMask != 0

/-- Every flag that has a meaning. -/
def all : MovementFlags :=
  ⟨MovementField.all.foldl (fun bits f => bits ||| f.mask) 0 ||| shortMask⟩

/-- The number of bytes of the fields that follow. -/
def encodedLength (flags : MovementFlags) : Nat :=
  let add (size : Nat) (field : MovementField × Nat) : Nat :=
    if flags.has field.1 then size + field.2 else size
  let size := MovementField.widths.foldl add 0
  if flags.has .unknown4 then size + (if flags.short then 1 else 4) else size

end MovementFlags

/-- A packed movement update. The fields of `record` that the flags do not announce are not part
of it. -/
structure PackedMovement where
  flags : MovementFlags := {}
  record : MovementRecord := {}
  deriving DecidableEq, Inhabited, Repr

namespace PackedMovement

/-- The number of bytes in front of the flags, which mean nothing here. -/
def paddingSize : Nat := 6

/-- The number of bytes in front of the fields. -/
def prologueSize : Nat := paddingSize + 3

/-- Reads those of the listed fields that are announced. -/
def readFields (flags : MovementFlags) :
    List MovementField → MovementRecord → ReadM MovementRecord
  | [], d => return d
  | f :: fs, d => do
    let d ← if flags.has f then f.read flags.short d else pure d
    readFields flags fs d

/-- Reads an update. Fields that are not announced are left at zero. -/
def read : ReadM PackedMovement := do
  Reader.skip paddingSize
  let flags : MovementFlags := ⟨← Reader.u24⟩
  let record ← readFields flags MovementField.readOrder {}
  return { flags, record }

/-- The update in a packet body, and how many bytes of the body it takes. -/
def ofBytes (body : Bytes) : Except ReadError (PackedMovement × Nat) :=
  ReadM.run (do return (← read, ← Reader.here)) body

/-- The written form of the announced fields. -/
def fieldBytes (m : PackedMovement) : Bytes :=
  MovementField.writeOrder.flatMap fun f =>
    if m.flags.has f then f.write m.flags.short m.record else []

/-- The written form of an update. Flags above the lowest 24 are not written. -/
def toBytes (m : PackedMovement) : Bytes :=
  Bytes.zeros paddingSize ++ Bytes.ofNat 3 m.flags.bits.toNat ++ m.fieldBytes

end PackedMovement

end GameShip
