import GameShip.Proofs.Wire.Reading

/-!
# Bodies read back field by field

* `FieldKind`: what a packet body can be made of, with the constants of each kind.
* `Field`: a value that a field of its kind can hold.
* `readAll_writeAll`: a body written field by field is read back field by field.
-/

namespace GameShip

/-- What one field of a packet body can be. -/
inductive FieldKind where
  | u8
  | u16
  | u32
  | u64
  | half
  | header
  | location
  /-- A run of bytes. -/
  | bytes (count : Nat)
  /-- A run of zeros, which the reader leaves out. -/
  | zeros (count : Nat)
  /-- A disguised count. -/
  | hidden (key : Obfuscation)
  /-- A text in a field of `size` bytes. -/
  | fixedAscii (size : Nat)
  /-- A text in a field of `size` UTF-16 units. -/
  | fixedUtf16 (size : Nat)
  /-- A text behind its disguised length. -/
  | ascii (key : Obfuscation)
  /-- A text in UTF-16 behind its disguised length. -/
  | utf16 (key : Obfuscation)

namespace FieldKind

/-- What a field of the kind stands for. -/
abbrev Value : FieldKind → Type
  | u8 => UInt8
  | u16 => UInt16
  | u32 => UInt32
  | u64 => UInt64
  | half => Single
  | header => EntityHeader
  | location => Location
  | bytes _ => Bytes
  | zeros _ => Unit
  | hidden _ => UInt32
  | fixedAscii _ | fixedUtf16 _ | ascii _ | utf16 _ => String

/-- The written form of a field. -/
def write : (kind : FieldKind) → kind.Value → Bytes
  | u8, v => Wire.u8 v
  | u16, v => Wire.u16 v
  | u32, v => Wire.u32 v
  | u64, v => Wire.u64 v
  | half, v => Wire.half v
  | header, v => Wire.header v
  | location, v => Wire.location v
  | bytes _, bs => bs
  | zeros count, _ => Bytes.zeros count
  | hidden key, v => Wire.hidden key v
  | fixedAscii size, text => Utf8.padded text size
  | fixedUtf16 size, text => Utf16.padded text size
  | ascii key, text => Wire.ascii key text
  | utf16 key, text => Wire.utf16 key text

/-- Reads a field. -/
def read : (kind : FieldKind) → ReadM kind.Value
  | u8 => Reader.u8
  | u16 => Reader.u16
  | u32 => Reader.u32
  | u64 => Reader.u64
  | half => Reader.half
  | header => Reader.header
  | location => Reader.location
  | bytes count => Reader.bytes count
  | zeros count => Reader.skip count
  | hidden key => Reader.hidden key
  | fixedAscii size => Reader.fixedAscii size
  | fixedUtf16 size => Reader.fixedUtf16 size
  | ascii key => Reader.ascii key
  | utf16 key => Reader.utf16 key

/-- The value is one that a field of the kind holds in full. The bytes of a field of UTF-16 units
are counted by a word of 64 bits, as all bytes in memory are. -/
def Fits : (kind : FieldKind) → kind.Value → Prop
  | bytes count, bs => bs.length = count
  | fixedAscii size, text => NulFree text ∧ text.utf8ByteSize ≤ size
  | fixedUtf16 size, text =>
    NulFree text ∧ (Utf16.units text).length ≤ size ∧ 2 * size < UInt64.size
  | ascii _, text => NulFree text ∧ text.utf8ByteSize < UInt32.size - 1
  | utf16 _, text => NulFree text ∧ (Utf16.units text).length < UInt32.size - 1
  | _, _ => True

instance : (kind : FieldKind) → (v : kind.Value) → Decidable (kind.Fits v)
  | bytes _, bs => inferInstanceAs (Decidable (bs.length = _))
  | fixedAscii _, _ | fixedUtf16 _, _ | ascii _, _ | utf16 _, _ => instDecidableAnd
  | u8, _ | u16, _ | u32, _ | u64, _ | half, _ | header, _ | location, _ | zeros _, _
  | hidden _, _ => isTrue trivial

/-- What is read for a value that was written: numbers that travel as binary16 are rounded. -/
def received : (kind : FieldKind) → kind.Value → kind.Value
  | half, v => v.rounded
  | location, v => v.rounded
  | _, v => v

/-- A field is read back, whatever follows it. -/
theorem takes_write (kind : FieldKind) {v : kind.Value} (hfits : kind.Fits v) :
    kind.read.Takes (kind.write v) (kind.received v) := by
  cases kind with
  | u8 => exact Reader.takes_u8 v
  | u16 => exact Reader.takes_u16 v
  | u32 => exact Reader.takes_u32 v
  | u64 => exact Reader.takes_u64 v
  | half => exact Reader.takes_half v
  | header => exact Reader.takes_header v
  | location => exact Reader.takes_location v
  | bytes count => exact (Reader.fixed_bytes count).takes hfits
  | zeros count => exact Reader.takes_zeros count
  | hidden key => exact Reader.takes_hidden key v
  | fixedAscii size => exact Reader.takes_fixedAscii hfits.1 hfits.2
  | fixedUtf16 size => exact Reader.takes_fixedUtf16 hfits.1 hfits.2.1 hfits.2.2
  | ascii key => exact Reader.takes_ascii key hfits.1 (Nat.add_lt_of_lt_sub hfits.2)
  | utf16 key => exact Reader.takes_utf16 key hfits.1 (Nat.add_lt_of_lt_sub hfits.2)

end FieldKind

/-- A field of a packet body, with a value that it holds in full. -/
structure Field where
  kind : FieldKind
  value : kind.Value
  fits : kind.Fits value

/-- A body of the given fields. -/
def writeAll (fields : List Field) : Bytes := fields.flatMap fun f => f.kind.write f.value

/-- Reads fields of the given kinds one after the other. -/
def readAll : List FieldKind → ReadM (List ((kind : FieldKind) × kind.Value))
  | [] => return []
  | kind :: kinds => do
    let v ← kind.read
    return ⟨kind, v⟩ :: (← readAll kinds)

theorem takes_writeAll (fields : List Field) :
    (readAll (fields.map Field.kind)).Takes (writeAll fields)
      (fields.map fun f => ⟨f.kind, f.kind.received f.value⟩) := by
  induction fields with
  | nil => exact ReadM.Takes.pure []
  | cons f fields ih => exact (f.kind.takes_write f.fits).bind (ih.map _)

namespace Wire

theorem length_hidden (key : Obfuscation) (count : UInt32) : (hidden key count).length = 4 :=
  Bytes.length_ofNat 4 _

theorem length_ascii_mod (key : Obfuscation) (text : String) :
    (ascii key text).length % 4 = 0 := by
  unfold ascii
  split
  · rw [length_hidden]
  · rw [List.length_append, length_hidden, Utf8.length_padded]
    omega

theorem length_utf16_mod (key : Obfuscation) (text : String) :
    (utf16 key text).length % 4 = 0 := by
  rw [utf16, List.length_append, length_hidden, Utf16.length_padded]
  omega

end Wire

/-- A body written field by field is read back field by field, and what follows it is left. The
texts behind a disguised length keep the fields after them on a multiple of four. -/
theorem readAll_writeAll (fields : List Field) (rest : Bytes) :
    readAll (fields.map Field.kind) (Reader.ofBytes (writeAll fields ++ rest)) =
        .ok (fields.map fun f => ⟨f.kind, f.kind.received f.value⟩)
          ⟨(writeAll fields).length, rest⟩ ∧
      ∀ (key : Obfuscation) (text : String),
        (Wire.ascii key text).length % 4 = 0 ∧ (Wire.utf16 key text).length % 4 = 0 := by
  refine ⟨?_, fun key text => ⟨Wire.length_ascii_mod key text, Wire.length_utf16_mod key text⟩⟩
  rw [Reader.ofBytes, takes_writeAll fields 0 rest, Nat.zero_add]

-- four units, among them a surrogate pair and the terminator
example : writeAll [⟨.utf16 ⟨0x4315, 0x7A⟩, "é𝄞", by decide⟩, ⟨.half, .one, by decide⟩] =
    [0x6B, 0x43, 0, 0, 0xE9, 0, 0x34, 0xD8, 0x1E, 0xDD, 0, 0, 0, 0x3C] := by decide

end GameShip
