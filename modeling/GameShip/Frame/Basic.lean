import GameShip.Frame.Opcode

/-!
# Frames

A connection carries a sequence of frames: a header of eight bytes, which begins with the size
of the whole, and a payload.

* `Frame`: one frame.
* `Frame.toBytes`: its written form.
* `Frame.Header.ofBytes?`: the header at the start of a byte string.
-/

namespace GameShip

/-- One frame. -/
structure Frame where
  opcode : Opcode
  flags : PacketFlags := .none
  /-- A second flag byte, which is kept but means nothing here. -/
  flags2 : UInt8 := 0
  payload : Bytes := []
  deriving DecidableEq, Inhabited, Repr

namespace Frame

/-- The size of the header of a frame. -/
def headerSize : Nat := 8

/-- A frame that claims to be larger than this is never taken out of a receive buffer. -/
def maxSize : Nat := 0x1000000

/-- What stands at the start of a frame. -/
structure Header where
  /-- The claimed size of the frame, with this header. -/
  size : Nat
  opcode : Opcode
  flags : PacketFlags
  flags2 : UInt8
  deriving DecidableEq, Repr

/-- The header that eight bytes stand for. -/
def Header.ofBytes? : Bytes → Option Header
  | [a, b, c, d, kind, subtype, flags, flags2] =>
    some { size := Bytes.value [a, b, c, d], opcode := ⟨kind, subtype⟩, flags := ⟨flags⟩, flags2 }
  | _ => none

/-- The size of a frame with its header. -/
def size (frame : Frame) : Nat := headerSize + frame.payload.length

/-- The written form of a frame. -/
def toBytes (frame : Frame) : Bytes :=
  Bytes.ofNat 4 frame.size ++
    [frame.opcode.kind, frame.opcode.subtype, frame.flags.bits, frame.flags2] ++ frame.payload

/-- How many bytes a frame with this header takes. A claimed size below that of the header itself
counts as the header alone, so that every frame takes some bytes. -/
def Header.extent (header : Header) : Nat := max header.size headerSize

theorem Header.headerSize_le_extent (header : Header) : headerSize ≤ header.extent :=
  Nat.le_max_right ..

@[simp] theorem length_toBytes (frame : Frame) : frame.toBytes.length = frame.size := by
  simp [toBytes, size, headerSize]
  omega

end Frame

end GameShip
