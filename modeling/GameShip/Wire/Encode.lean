import GameShip.Pose
import GameShip.Text.Utf8
import GameShip.Text.Utf16

/-!
# The written form of fields

Each function gives the bytes of one field of a packet; a body is their concatenation. Numbers
are little-endian. Counts and string lengths inside bodies are disguised by an `Obfuscation`.
-/

namespace GameShip

/-- The two constants that disguise a count. -/
structure Obfuscation where
  xor : UInt32
  sub : UInt32
  deriving DecidableEq, Inhabited, Repr

/-- The disguised form of a count. -/
def Obfuscation.hide (key : Obfuscation) (count : UInt32) : UInt32 := (count + key.sub) ^^^ key.xor

/-- The count behind a disguised word. -/
def Obfuscation.reveal (key : Obfuscation) (word : UInt32) : UInt32 := (word ^^^ key.xor) - key.sub

theorem Obfuscation.reveal_hide (key : Obfuscation) (count : UInt32) :
    key.reveal (key.hide count) = count := by
  rw [hide, reveal, UInt32.xor_assoc, UInt32.xor_self, UInt32.xor_zero, UInt32.add_sub_cancel]

namespace Wire

def u8 (v : UInt8) : Bytes := [v]

def u16 (v : UInt16) : Bytes := Bytes.ofNat 2 v.toNat

def u32 (v : UInt32) : Bytes := Bytes.ofNat 4 v.toNat

def u64 (v : UInt64) : Bytes := Bytes.ofNat 8 v.toNat

/-- A number rounded to binary16. -/
def half (v : Single) : Bytes := u16 (Half.ofSingle v).bits

def header (h : EntityHeader) : Bytes := u64 h.id ++ u16 h.kind.code ++ u16 h.unknown

def rotation (r : Rotation) : Bytes := half r.x ++ half r.y ++ half r.z ++ half r.w

def position (p : Position) : Bytes := half p.x ++ half p.y ++ half p.z

def location (l : Location) : Bytes := rotation l.rotation ++ position l.position

/-- A disguised count. -/
def hidden (key : Obfuscation) (count : UInt32) : Bytes := u32 (key.hide count)

/-- A byte string behind its disguised length plus one, followed by up to four zero bytes so
that the whole ends on a multiple of four. An empty string is only the disguised zero. -/
def ascii (key : Obfuscation) (text : String) : Bytes :=
  if text.isEmpty then hidden key 0
  else
    let length := text.utf8ByteSize
    hidden key (UInt32.ofNat length + 1) ++ Utf8.padded text (length + 4 - length % 4)

/-- A text in UTF-16 behind its disguised length, in which the terminator counts, filled up to
a multiple of four bytes. -/
def utf16 (key : Obfuscation) (text : String) : Bytes :=
  let length := (Utf16.units text).length + 1
  hidden key (UInt32.ofNat length) ++ Utf16.padded text (length + length % 2)

end Wire

end GameShip
