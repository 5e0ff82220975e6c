import GameShip.Cipher.Rc4
import GameShip.Frame.Basic

/-!
# The receive buffer

Cuts a stream of bytes into frames, however the stream is chunked. Bytes are decrypted once, as
they come in.

* `FrameBuffer.push`: takes in a chunk, whole or not at all.
* `FrameBuffer.next?`: takes out the next complete frame.
* `FrameBuffer.compact`: makes the room of taken frames free again.
* `FrameBuffer.pending`: the bytes that are in no frame yet.
-/

namespace GameShip

/-- A receive buffer of fixed capacity. -/
structure FrameBuffer where
  capacity : Nat
  /-- The bytes taken in since the last compaction, after those left by it. -/
  bytes : Array UInt8
  /-- How many of them have been taken out as frames. -/
  taken : Nat
  taken_le : taken ≤ bytes.size
  size_le : bytes.size ≤ capacity

/-- A chunk did not fit into the receive buffer. -/
structure Overrun where
  buffered : Nat
  incoming : Nat
  deriving DecidableEq, Repr

/-- Says how much there was and how much came. -/
def Overrun.message (e : Overrun) : String :=
  "receive buffer overrun: " ++ toString e.buffered ++ " bytes buffered, " ++
    toString e.incoming ++ " incoming"

namespace FrameBuffer

/-- The capacity of the receive buffer of a session. -/
def defaultCapacity : Nat := 64 * 1024

/-- A buffer without any bytes. -/
def empty (capacity : Nat := defaultCapacity) : FrameBuffer where
  capacity
  bytes := #[]
  taken := 0
  taken_le := Nat.le_refl 0
  size_le := Nat.zero_le capacity

instance : Inhabited FrameBuffer := ⟨.empty⟩

/-- The number of bytes that are in no frame yet. -/
def length (b : FrameBuffer) : Nat := b.bytes.size - b.taken

/-- The bytes that are in no frame yet. -/
def pending (b : FrameBuffer) : Bytes := b.bytes.toList.drop b.taken

/-- Takes in a chunk, decrypted if a cipher is given, or refuses the whole of it. -/
def push (b : FrameBuffer) (chunk : Bytes) (cipher : Option Rc4) :
    Except Overrun (FrameBuffer × Option Rc4) :=
  if h : b.bytes.size + chunk.length ≤ b.capacity then
    let plain := Rc4.through cipher chunk
    .ok ({ b with
      bytes := b.bytes ++ plain.1
      taken_le := by have := b.taken_le; simp; omega
      size_le := by simpa [plain] using h }, plain.2)
  else .error ⟨b.bytes.size, chunk.length⟩

/-- The pending bytes from one offset up to another. -/
def slice (b : FrameBuffer) (start stop : Nat) : Bytes :=
  (b.bytes.extract (b.taken + start) (b.taken + stop)).toList

/-- The next frame and the buffer without it, if the frame is complete and not too large. -/
def next? (b : FrameBuffer) : Option (Frame × FrameBuffer) :=
  match Frame.Header.ofBytes? (b.slice 0 Frame.headerSize) with
  | none => none
  | some header =>
    if h : header.extent ≤ Frame.maxSize ∧ header.extent ≤ b.length then
      some ({ opcode := header.opcode
              flags := header.flags
              flags2 := header.flags2
              payload := b.slice Frame.headerSize header.extent },
            { b with
              taken := b.taken + header.extent
              taken_le := by have := b.taken_le; have := h.2; unfold length at this; omega })
    else none

/-- Makes the room of taken frames free again. -/
def compact (b : FrameBuffer) : FrameBuffer where
  capacity := b.capacity
  bytes := if b.taken = 0 then b.bytes else b.bytes.extract b.taken b.bytes.size
  taken := 0
  taken_le := Nat.zero_le _
  size_le := by have := b.size_le; split <;> simp <;> omega

/-- Every frame that is taken out makes the pending bytes fewer by at least a header. -/
theorem length_next?_lt {b b' : FrameBuffer} {frame : Frame} (h : b.next? = some (frame, b')) :
    b'.length + Frame.headerSize ≤ b.length := by
  unfold next? at h
  split at h
  · cases h
  · rename_i header _
    split at h
    · rename_i hsize
      cases h
      have := header.headerSize_le_extent
      have := hsize.2
      simp only [length] at *
      omega
    · cases h

end FrameBuffer

end GameShip
