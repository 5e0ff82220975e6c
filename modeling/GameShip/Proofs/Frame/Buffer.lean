import GameShip.Frame.Buffer
import GameShip.Proofs.Cipher.KeyStream
import GameShip.Proofs.Frame.Split

/-!
# The receive buffer as a queue of bytes

Whatever is done with a receive buffer, it answers as a queue of bytes would that is cut by
`Frame.split?`. The queue is known from the history alone: from the chunks that were accepted, the
frames that were taken, and how many bytes have been held since the last compaction.

* `FrameBuffer.push_of_le`, `FrameBuffer.push_of_lt`, `FrameBuffer.map_next?`,
  `FrameBuffer.toList_compact`: what each operation does, in terms of the pending bytes.
* `FrameBuffer.Call`, `FrameBuffer.Receiver`: uses of a buffer beside a running cipher.
* `FrameBuffer.Intake`: the history of such uses, and what it lets one expect.
* `FrameBuffer.run_eq`: a receiver answers as its history lets one expect.
-/

namespace GameShip

namespace FrameBuffer

open GameShip.Frame (split? splitAll)

variable {b b' : FrameBuffer} {frame : Frame} {rest : Bytes}

@[simp] theorem length_pending (b : FrameBuffer) : b.pending.length = b.length := by
  simp [pending, length]

@[simp] theorem pending_empty (capacity : Nat) : (empty capacity).pending = [] := rfl

theorem slice_eq (b : FrameBuffer) (start stop : Nat) :
    b.slice start stop = (b.pending.drop start).take (stop - start) := by
  simp only [slice, pending, Array.toList_extract, List.extract_eq_take_drop, List.drop_drop]
  congr 1
  omega

/-- The buffer takes the first frame of its pending bytes and leaves those behind it. -/
theorem map_next? (b : FrameBuffer) :
    b.next?.map (fun r => (r.1, r.2.pending)) = split? b.pending := by
  rw [Frame.split?_eq_ofBytes?, next?, slice_eq, List.drop_zero, Nat.sub_zero]
  cases Frame.Header.ofBytes? (b.pending.take Frame.headerSize) with
  | none => rfl
  | some header =>
    dsimp only
    by_cases hfits : header.extent ≤ Frame.maxSize ∧ header.extent ≤ b.length
    · rw [dif_pos hfits, if_pos (by rwa [length_pending]), Option.map_some, slice_eq,
        ← List.drop_take]
      simp only [pending, List.drop_drop]
    · rw [dif_neg hfits, if_neg (by rwa [length_pending])]
      rfl

theorem split?_of_next? (h : b.next? = some (frame, b')) :
    split? b.pending = some (frame, b'.pending) := by
  rw [← map_next?, h]
  rfl

theorem next?_eq_none_iff : b.next? = none ↔ split? b.pending = none := by
  rw [← map_next?, Option.map_eq_none_iff]

theorem next?_eq_some (h : split? b.pending = some (frame, rest)) :
    ∃ b', b.next? = some (frame, b') ∧ b'.pending = rest := by
  rw [← map_next?, Option.map_eq_some_iff] at h
  obtain ⟨⟨f, b'⟩, hnext, heq⟩ := h
  cases heq
  exact ⟨b', hnext, rfl⟩

theorem bytes_of_next? (h : b.next? = some (frame, b')) :
    b'.bytes = b.bytes ∧ b'.capacity = b.capacity := by
  unfold next? at h
  split at h
  · cases h
  · split at h
    · cases h
      exact ⟨rfl, rfl⟩
    · cases h

/-- A chunk that fits comes in whole, behind the bytes that are pending. -/
theorem push_of_le {chunk : Bytes} (cipher : Option Rc4)
    (h : b.bytes.size + chunk.length ≤ b.capacity) :
    ∃ b', b.push chunk cipher = .ok (b', (Rc4.through cipher chunk).2) ∧
      b'.pending = b.pending ++ (Rc4.through cipher chunk).1 ∧
      b'.bytes.size = b.bytes.size + chunk.length ∧ b'.capacity = b.capacity := by
  unfold push
  rw [dif_pos h]
  refine ⟨_, rfl, ?_, by simp, rfl⟩
  simp only [pending, Array.toList_appendList]
  exact List.drop_append_of_le_length (by simpa using b.taken_le)

theorem push_of_lt {chunk : Bytes} (cipher : Option Rc4)
    (h : b.capacity < b.bytes.size + chunk.length) :
    b.push chunk cipher = .error ⟨b.bytes.size, chunk.length⟩ := by
  unfold push
  rw [dif_neg (Nat.not_le.mpr h)]

theorem toList_compact (b : FrameBuffer) : b.compact.bytes.toList = b.pending := by
  unfold compact pending
  dsimp only
  split
  · rename_i h
    rw [h, List.drop_zero]
  · rw [Array.toList_extract, List.extract_eq_take_drop, List.take_of_length_le (by simp)]

@[simp] theorem pending_compact (b : FrameBuffer) : b.compact.pending = b.pending := by
  rw [pending, toList_compact]
  rfl

@[simp] theorem size_compact (b : FrameBuffer) : b.compact.bytes.size = b.length := by
  rw [← Array.length_toList, toList_compact, length_pending]

@[simp] theorem capacity_compact (b : FrameBuffer) : b.compact.capacity = b.capacity := rfl

/-! ## Uses of a buffer -/

/-- A use of a receive buffer. A chunk that is encrypted goes through the running cipher. -/
inductive Call where
  | push (chunk : Bytes) (encrypted : Bool)
  | next
  | compact
  deriving DecidableEq, Repr

/-- What came of a use. -/
inductive Answer where
  | accepted
  | refused (error : Overrun)
  | frame (frame : Option Frame)
  | compacted
  deriving DecidableEq, Repr

/-- A receive buffer beside a running cipher. -/
structure Receiver where
  buffer : FrameBuffer
  cipher : Rc4

/-- One use of the buffer. -/
def Receiver.step (r : Receiver) : Call → Answer × Receiver
  | .push chunk encrypted =>
    match r.buffer.push chunk (if encrypted then some r.cipher else none) with
    | .ok (buffer, cipher) => (.accepted, { buffer, cipher := cipher.getD r.cipher })
    | .error e => (.refused e, r)
  | .next =>
    match r.buffer.next? with
    | some (frame, buffer) => (.frame (some frame), { r with buffer })
    | none => (.frame none, r)
  | .compact => (.compacted, { r with buffer := r.buffer.compact })

/-- One use after the other. -/
def Receiver.run (r : Receiver) : List Call → List Answer × Receiver
  | [] => ([], r)
  | call :: calls =>
    ((r.step call).1 :: ((r.step call).2.run calls).1, ((r.step call).2.run calls).2)

/-- The history of a receive buffer. -/
structure Intake where
  /-- The chunks that were accepted as they came, and whether they were encrypted. -/
  accepted : List (Bytes × Bool) := []
  /-- The frames that were taken. -/
  taken : List Frame := []
  /-- How many bytes the last compaction left, and how many have been accepted since. -/
  held : Nat := 0

namespace Intake

/-- How many bytes the frames took that were taken. -/
def consumed (i : Intake) : Nat := (i.taken.flatMap Frame.toBytes).length

/-- What the accepted chunks say, without the frames that were taken. -/
def unread (cipher : Rc4) (i : Intake) : Bytes := (cipher.decode i.accepted).1.drop i.consumed

/-- What a use should answer, and the history after it. The buffer has room for `capacity` bytes;
the cipher is the one it began with. -/
def step (capacity : Nat) (cipher : Rc4) (i : Intake) : Call → Answer × Intake
  | .push chunk encrypted =>
    if i.held + chunk.length ≤ capacity then
      (.accepted, { i with
        accepted := i.accepted ++ [(chunk, encrypted)]
        held := i.held + chunk.length })
    else (.refused ⟨i.held, chunk.length⟩, i)
  | .next =>
    match Frame.split? (i.unread cipher) with
    | some (frame, _) => (.frame (some frame), { i with taken := i.taken ++ [frame] })
    | none => (.frame none, i)
  | .compact => (.compacted, { i with held := (i.unread cipher).length })

/-- What uses should answer one after the other. -/
def run (capacity : Nat) (cipher : Rc4) (i : Intake) : List Call → List Answer × Intake
  | [] => ([], i)
  | call :: calls =>
    let (answer, i) := i.step capacity cipher call
    (answer :: (i.run capacity cipher calls).1, (i.run capacity cipher calls).2)

end Intake

/-- A receiver is where a history leads. -/
structure Receiver.Follows (capacity : Nat) (cipher : Rc4) (r : Receiver) (i : Intake) : Prop where
  pending : r.buffer.pending = i.unread cipher
  size : r.buffer.bytes.size = i.held
  running : r.cipher = (cipher.decode i.accepted).2
  capacity : r.buffer.capacity = capacity
  consumed_le : i.consumed ≤ (cipher.decode i.accepted).1.length

variable {capacity : Nat} {cipher : Rc4} {r : Receiver} {i : Intake}

theorem Intake.consumed_take (i : Intake) (frame : Frame) :
    consumed { i with taken := i.taken ++ [frame] } = i.consumed + frame.size := by
  simp [consumed]

theorem Intake.unread_take (h : Frame.split? (i.unread cipher) = some (frame, rest)) :
    unread cipher { i with taken := i.taken ++ [frame] } = rest := by
  rw [(Frame.size_of_split? h).2.2.2, unread, consumed_take, unread, List.drop_drop]

/-- A chunk that fits comes in decrypted, and the cipher goes on by it if it was encrypted. -/
theorem Receiver.step_push_of_le (chunk : Bytes) (encrypted : Bool)
    (h : r.buffer.bytes.size + chunk.length ≤ r.buffer.capacity) :
    ∃ b, r.step (.push chunk encrypted) =
        (.accepted, ⟨b, (r.cipher.decode [(chunk, encrypted)]).2⟩) ∧
      b.pending = r.buffer.pending ++ (r.cipher.decode [(chunk, encrypted)]).1 ∧
      b.bytes.size = r.buffer.bytes.size + chunk.length ∧ b.capacity = r.buffer.capacity := by
  obtain ⟨b, hpush, hb⟩ := push_of_le (if encrypted then some r.cipher else none) h
  rw [Rc4.decode_singleton]
  refine ⟨b, ?_, hb⟩
  simp only [Receiver.step, hpush]

theorem Receiver.step_push_of_lt (chunk : Bytes) (encrypted : Bool)
    (h : r.buffer.capacity < r.buffer.bytes.size + chunk.length) :
    r.step (.push chunk encrypted) = (.refused ⟨r.buffer.bytes.size, chunk.length⟩, r) := by
  simp only [Receiver.step, push_of_lt _ h]

theorem Receiver.Follows.push (H : r.Follows capacity cipher i) (chunk : Bytes) (encrypted : Bool) :
    (r.step (.push chunk encrypted)).1 = (i.step capacity cipher (.push chunk encrypted)).1 ∧
      (r.step (.push chunk encrypted)).2.Follows capacity cipher
        (i.step capacity cipher (.push chunk encrypted)).2 := by
  by_cases hfits : i.held + chunk.length ≤ capacity
  · obtain ⟨b, hstep, hpending, hsize, hcapacity⟩ :=
      r.step_push_of_le chunk encrypted (by rwa [H.size, H.capacity])
    have hdecode := cipher.decode_append i.accepted [(chunk, encrypted)]
    rw [← H.running] at hdecode
    simp only [hstep, Intake.step, if_pos hfits, true_and]
    refine ⟨?_, by rw [hsize, H.size], by rw [hdecode], hcapacity.trans H.capacity, ?_⟩
    · rw [hpending, H.pending, Intake.unread, Intake.unread, hdecode]
      exact (List.drop_append_of_le_length H.consumed_le).symm
    · rw [hdecode, List.length_append]
      exact Nat.le_add_right_of_le H.consumed_le
  · have hfull : r.buffer.capacity < r.buffer.bytes.size + chunk.length := by
      rw [H.size, H.capacity]
      exact Nat.lt_of_not_le hfits
    rw [r.step_push_of_lt chunk encrypted hfull]
    simp only [Intake.step, if_neg hfits, H.size, true_and]
    exact H

theorem Receiver.Follows.next (H : r.Follows capacity cipher i) :
    (r.step .next).1 = (i.step capacity cipher .next).1 ∧
      (r.step .next).2.Follows capacity cipher (i.step capacity cipher .next).2 := by
  cases hsplit : Frame.split? (i.unread cipher) with
  | none =>
    have hnext : r.buffer.next? = none := by rw [next?_eq_none_iff, H.pending, hsplit]
    simp only [Receiver.step, hnext, Intake.step, hsplit, true_and]
    exact H
  | some result =>
    obtain ⟨frame, rest⟩ := result
    obtain ⟨b, hnext, hrest⟩ := next?_eq_some (b := r.buffer) (by rw [H.pending, hsplit])
    obtain ⟨hbytes, hcapacity⟩ := bytes_of_next? hnext
    simp only [Receiver.step, hnext, Intake.step, hsplit, true_and]
    refine ⟨?_, by rw [hbytes, H.size], H.running, hcapacity.trans H.capacity, ?_⟩
    · rw [hrest, Intake.unread_take hsplit]
    · have hle := (Frame.size_of_split? hsplit).2.2.1
      have hconsumed := H.consumed_le
      rw [Intake.unread, List.length_drop] at hle
      rw [Intake.consumed_take]
      change _ ≤ (cipher.decode i.accepted).1.length
      omega

theorem Receiver.Follows.compact (H : r.Follows capacity cipher i) :
    (r.step .compact).1 = (i.step capacity cipher .compact).1 ∧
      (r.step .compact).2.Follows capacity cipher (i.step capacity cipher .compact).2 := by
  refine ⟨rfl, ?_, ?_, H.running, H.capacity, H.consumed_le⟩
  · exact (pending_compact _).trans H.pending
  · rw [Receiver.step, Intake.step]
    dsimp only
    rw [size_compact, ← length_pending, H.pending]

/-- What one use keeps: the receiver answers as its history lets one expect, and goes where the
history leads. -/
theorem Receiver.Follows.step (H : r.Follows capacity cipher i) (call : Call) :
    (r.step call).1 = (i.step capacity cipher call).1 ∧
      (r.step call).2.Follows capacity cipher (i.step capacity cipher call).2 := by
  cases call with
  | push chunk encrypted => exact H.push chunk encrypted
  | next => exact H.next
  | compact => exact H.compact

theorem Receiver.Follows.run (H : r.Follows capacity cipher i) (calls : List Call) :
    (r.run calls).1 = (i.run capacity cipher calls).1 ∧
      (r.run calls).2.Follows capacity cipher (i.run capacity cipher calls).2 := by
  induction calls generalizing r i with
  | nil => exact ⟨rfl, H⟩
  | cons call calls ih =>
    obtain ⟨hanswer, H'⟩ := H.step call
    obtain ⟨hanswers, H''⟩ := ih H'
    simp only [Receiver.run, Intake.run]
    exact ⟨by rw [hanswer, hanswers], H''⟩

theorem follows_empty (capacity : Nat) (cipher : Rc4) :
    Receiver.Follows capacity cipher ⟨.empty capacity, cipher⟩ {} :=
  ⟨rfl, rfl, rfl, rfl, Nat.le_refl 0⟩

/-- **The receive buffer is a queue of bytes.** After any uses of a buffer, each has been answered
as the history let one expect: a chunk is accepted exactly if it fits beside the bytes held since
the last compaction, and a frame is taken exactly as the queue is cut. The pending bytes are what
the accepted chunks say, each byte decrypted once and in order, without the frames that were taken.
So the next frame is the first of that queue, compaction leaves the queue as it is and holds no more
than it, and a chunk that is refused changes neither the buffer nor the cipher. -/
theorem run_eq (capacity : Nat) (cipher : Rc4) (calls : List Call) :
    let (answers, r) := Receiver.run ⟨.empty capacity, cipher⟩ calls
    let (expected, i) := Intake.run capacity cipher {} calls
    answers = expected ∧
      r.buffer.pending = (cipher.decode i.accepted).1.drop (i.taken.flatMap Frame.toBytes).length ∧
      r.cipher = (cipher.decode i.accepted).2 ∧
      r.buffer.next?.map (fun next => (next.1, next.2.pending)) = Frame.split? r.buffer.pending ∧
      (r.buffer.compact.pending = r.buffer.pending ∧
        r.buffer.compact.bytes.size = r.buffer.pending.length) ∧
      ∀ chunk encrypted,
        if i.held + chunk.length ≤ capacity then
          ∃ b, r.step (.push chunk encrypted) =
              (.accepted, ⟨b, (r.cipher.decode [(chunk, encrypted)]).2⟩) ∧
            b.pending = r.buffer.pending ++ (r.cipher.decode [(chunk, encrypted)]).1
        else r.step (.push chunk encrypted) = (.refused ⟨i.held, chunk.length⟩, r) := by
  obtain ⟨hanswers, H⟩ := (follows_empty capacity cipher).run calls
  refine ⟨hanswers, H.pending, H.running, map_next? _, ⟨pending_compact _, ?_⟩, ?_⟩
  · rw [size_compact, length_pending]
  · intro chunk encrypted
    split
    · rename_i hfits
      obtain ⟨b, hstep, hpending, -⟩ := Receiver.step_push_of_le chunk encrypted
        (by rwa [H.size, H.capacity])
      exact ⟨b, hstep, hpending⟩
    · rename_i hfull
      rw [← H.size]
      exact Receiver.step_push_of_lt chunk encrypted
        (by rw [H.size, H.capacity]; exact Nat.lt_of_not_le hfull)

end FrameBuffer

end GameShip
