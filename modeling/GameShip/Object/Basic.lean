import GameShip.Wire.Reader

/-!
# Objects of the world

* `WorldObject`: a thing with a place and a name, such as a teleporter.
* `WorldObject.toBytes`, `WorldObject.read`: its binary form, which is the body of the packet that
  shows it to a client.
* `WorldObject.ofCapture`: the object in a captured packet.
-/

namespace GameShip

/-- A thing with a place and a name. -/
structure WorldObject where
  header : EntityHeader
  location : Location := {}
  name : String
  thingFlag : UInt32 := 0
  /-- Values that depend on the type of the object; they are kept. -/
  things : List UInt32 := []
  deriving DecidableEq, Inhabited, Repr

namespace WorldObject

/-- The size of the field for the name. -/
def nameSize : Nat := 0x34

/-- The number by which an object is known. -/
def id (object : WorldObject) : UInt64 := object.header.id

/-- An object of the plainest type. -/
def named (id : UInt64) (name : String) (location : Location := {}) : WorldObject where
  header := { id, kind := .object }
  location
  name

/-- Stands in for an object of which nothing but the number is known. -/
def placeholder (id : UInt64) : WorldObject := named id "Unknown"

/-- The binary form of an object. -/
def toBytes (object : WorldObject) : Bytes :=
  Wire.header object.header ++ Wire.location object.location ++ Bytes.zeros 2 ++
    Utf8.padded object.name nameSize ++ Wire.u32 object.thingFlag ++
    Wire.u32 (UInt32.ofNat object.things.length) ++ object.things.flatMap Wire.u32

/-- A run of bytes of fixed size. -/
private def field (size : Nat) : ReadM Bytes := ReadM.exactly size fun _ => .truncated

/-- Reads the binary form of an object. -/
def read : ReadM WorldObject := do
  let header ← Reader.header
  let location ← Reader.location
  let _ ← field 2
  let name := Utf8.untilNul (← field nameSize)
  let thingFlag ← Reader.u32
  let things ← Reader.words (← Reader.u32).toNat
  return { header, location, name, thingFlag, things }

/-- The object in a captured packet, which begins with a frame header. -/
def ofCapture (capture : Bytes) : Except ReadError WorldObject :=
  ReadM.run (do let _ ← field 8; read) capture

end WorldObject

end GameShip
