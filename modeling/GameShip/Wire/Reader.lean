import GameShip.Text.Digit
import GameShip.Wire.Encode

/-!
# Reading fields

* `Reader`: what is left of a packet body and how far into it we are.
* `ReadError`: why a body could not be read.
* `ReadM`: a read in progress. A read of fixed width that fails leaves the reader where it was;
  a read made of several stays after the parts that succeeded.
-/

namespace GameShip

/-- Why a packet body could not be read. -/
inductive ReadError where
  /-- A field of fixed width did not fit. -/
  | truncated
  /-- A run of bytes that starts at `position` did not fit. -/
  | endedAt (position : Nat)
  /-- The body announces more list entries than the rest of it can hold. -/
  | tooManyThings (count position : Nat)
  deriving DecidableEq, Inhabited, Repr

/-- The text that explains a failed read, where there is one. -/
def ReadError.message? : ReadError → Option String
  | .truncated => none
  | .endedAt position => some ("packet ended at 0x" ++ hexDigits position)
  | .tooManyThings count _ => some (toString count ++ " things do not fit in the packet")

/-- A packet body that is being read. -/
structure Reader where
  /-- How many bytes have been consumed. -/
  position : Nat
  /-- The bytes not consumed yet. -/
  rest : Bytes
  deriving DecidableEq, Inhabited, Repr

/-- A reader at the start of a packet body. -/
def Reader.ofBytes (bytes : Bytes) : Reader := ⟨0, bytes⟩

/-- The number of bytes not consumed yet. -/
def Reader.remaining (r : Reader) : Nat := r.rest.length

/-- A read in progress: it may fail, and moves the reader. -/
abbrev ReadM := EStateM ReadError Reader

namespace ReadM

/-- Consumes exactly `count` bytes, or fails as `error` says and consumes none. -/
def exactly (count : Nat) (error : Reader → ReadError) : ReadM Bytes := fun r =>
  let bytes := r.rest.take count
  if bytes.length = count then .ok bytes ⟨r.position + count, r.rest.drop count⟩
  else .error (error r) r

/-- Puts the reader back where it was if the read fails. -/
def restoring {α : Type} (read : ReadM α) : ReadM α := fun r =>
  match read r with
  | .ok a r' => .ok a r'
  | .error e _ => .error e r

/-- The outcome of a read from the start of a body. -/
def run {α : Type} (read : ReadM α) (body : Bytes) : Except ReadError α :=
  match read (Reader.ofBytes body) with
  | .ok a _ => .ok a
  | .error e _ => .error e

end ReadM

namespace Reader

/-- How far into the body the reader is. -/
def here : ReadM Nat := fun r => .ok r.position r

/-- How many bytes are left. -/
def left : ReadM Nat := fun r => .ok r.remaining r

/-- A number of `width` bytes. -/
def number (width : Nat) : ReadM Nat := do
  return Bytes.value (← ReadM.exactly width fun _ => .truncated)

def u8 : ReadM UInt8 := do return UInt8.ofNat (← number 1)

def u16 : ReadM UInt16 := do return UInt16.ofNat (← number 2)

def u32 : ReadM UInt32 := do return UInt32.ofNat (← number 4)

def u64 : ReadM UInt64 := do return UInt64.ofNat (← number 8)

/-- A run of bytes. -/
def bytes (count : Nat) : ReadM Bytes := ReadM.exactly count fun r => .endedAt r.position

/-- Leaves out a run of bytes. -/
def skip (count : Nat) : ReadM Unit := do let _ ← bytes count

/-- A number of three bytes. -/
def u24 : ReadM UInt32 := do return UInt32.ofNat (Bytes.value (← bytes 3))

/-- A binary16 number. -/
def half : ReadM Single := do return Half.toSingle ⟨← u16⟩

def header : ReadM EntityHeader := ReadM.restoring do
  let id ← u64
  let kind ← u16
  let unknown ← u16
  return { id, kind := ⟨kind⟩, unknown }

def rotation : ReadM Rotation := do
  return { x := ← half, y := ← half, z := ← half, w := ← half }

def point : ReadM Position := do
  return { x := ← half, y := ← half, z := ← half }

def location : ReadM Location := ReadM.restoring do
  let rotation ← rotation
  let position ← point
  return { rotation, position }

/-- The count behind a disguised word. -/
def hidden (key : Obfuscation) : ReadM UInt32 := do return key.reveal (← u32)

/-- A text in a field of `size` bytes, which ends at the first zero byte. -/
def fixedAscii (size : Nat) : ReadM String := do return Utf8.untilNul (← bytes size)

/-- A text in a field of `size` UTF-16 units, which ends at the first zero unit. The number of
bytes of the field is a word of 64 bits. -/
def fixedUtf16 (size : Nat) : ReadM String := do
  return Utf16.untilNul (← bytes (2 * size % UInt64.size))

/-- A text behind its disguised length, as `Wire.ascii` writes it. -/
def ascii (key : Obfuscation) : ReadM String := do
  match (← hidden key).toNat with
  | 0 => return ""
  | length + 1 =>
    let text ← fixedAscii length
    skip (4 - length % 4)
    return text

/-- A text behind its disguised length, as `Wire.utf16` writes it. -/
def utf16 (key : Obfuscation) : ReadM String := do
  let length := (← hidden key).toNat
  if length = 0 then return ""
  let text ← fixedUtf16 length
  if length % 2 = 1 then skip 2
  return text

/-- A list of `count` words. -/
def words : (count : Nat) → ReadM (List UInt32)
  | 0 => return []
  | count + 1 => do
    let word ← u32
    return word :: (← words count)

end Reader

end GameShip
