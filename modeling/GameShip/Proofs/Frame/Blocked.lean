import GameShip.Proofs.Frame.Buffer

/-!
# Frames that are too large

A frame that claims to be larger than the receive buffer, or than any frame may be, is never taken
out. It stays at the head of the pending bytes, and no frame behind it is taken out either
(`FrameBuffer.Blocked.useAll`).

* `FrameBuffer.Blocked`: such a frame is the first in the buffer.
* `FrameBuffer.Use`: a use of a buffer, in which every chunk has a cipher of its own or none.
-/

namespace GameShip

namespace FrameBuffer

/-- The pending bytes begin with the size of a frame that is too large for the buffer, or larger
than 16 MiB. -/
structure Blocked (b : FrameBuffer) : Prop where
  sized : 4 ≤ b.pending.length
  oversized : min b.capacity (16 * 1024 * 1024) < Bytes.value (b.pending.take 4)

/-- A use of a receive buffer. A chunk may be encrypted, by whatever cipher. -/
inductive Use where
  | push (chunk : Bytes) (cipher : Option Rc4)
  | next
  | compact

/-- The frame that a use takes out, the bytes that it takes in, and what it leaves. -/
def use (b : FrameBuffer) : Use → Option Frame × Bytes × FrameBuffer
  | .push chunk cipher =>
    match b.push chunk cipher with
    | .ok (later, _) => (none, (Rc4.through cipher chunk).1, later)
    | .error _ => (none, [], b)
  | .next =>
    match b.next? with
    | some (frame, later) => (some frame, [], later)
    | none => (none, [], b)
  | .compact => (none, [], b.compact)

/-- The frames that uses take out, the bytes that they take in, and what they leave. -/
def useAll (b : FrameBuffer) : List Use → List Frame × Bytes × FrameBuffer
  | [] => ([], [], b)
  | u :: uses =>
    let (frame, gained, later) := b.use u
    let (frames, more, last) := later.useAll uses
    (frame.toList ++ frames, gained ++ more, last)

variable {b later : FrameBuffer}

theorem length_pending_le (b : FrameBuffer) : b.pending.length ≤ b.capacity := by
  rw [length_pending]
  exact Nat.le_trans (Nat.sub_le ..) b.size_le

/-- A use that takes out no frame leaves the pending bytes, and what it takes in is behind them. -/
theorem pending_use (b : FrameBuffer) (u : Use) (h : (b.use u).1 = none) :
    (b.use u).2.2.pending = b.pending ++ (b.use u).2.1 ∧ (b.use u).2.2.capacity = b.capacity := by
  cases u with
  | push chunk cipher =>
    rw [use]
    by_cases hfits : b.bytes.size + chunk.length ≤ b.capacity
    · obtain ⟨later, hpush, hpending, -, hcapacity⟩ := push_of_le cipher hfits
      rw [hpush]
      exact ⟨hpending, hcapacity⟩
    · rw [push_of_lt cipher (Nat.lt_of_not_le hfits)]
      exact ⟨(List.append_nil _).symm, rfl⟩
  | next =>
    rw [use] at h ⊢
    cases hnext : b.next? with
    | none => exact ⟨(List.append_nil _).symm, rfl⟩
    | some taken =>
      rw [hnext] at h
      cases h
  | compact => exact ⟨(pending_compact b).trans (List.append_nil _).symm, rfl⟩

namespace Blocked

/-- The frame would have to be pending as a whole, but no more can be pending than fits. -/
theorem next?_eq_none (h : b.Blocked) : b.next? = none := by
  have hlarge := h.oversized
  have hroom := b.length_pending_le
  rw [FrameBuffer.next?_eq_none_iff, Frame.split?_eq_none_iff]
  omega

theorem use_fst (h : b.Blocked) (u : Use) : (b.use u).1 = none := by
  cases u with
  | push chunk cipher =>
    rw [FrameBuffer.use]
    split <;> rfl
  | next => rw [FrameBuffer.use, h.next?_eq_none]
  | compact => rfl

/-- Nothing that comes behind the size changes it. -/
theorem of_isPrefix (h : b.Blocked) (hcapacity : later.capacity = b.capacity)
    (hpending : b.pending <+: later.pending) : later.Blocked := by
  obtain ⟨more, hmore⟩ := hpending
  have htake : later.pending.take 4 = b.pending.take 4 := by
    rw [← hmore, List.take_append_of_le_length h.sized]
  refine ⟨?_, ?_⟩
  · rw [← hmore, List.length_append]
    exact Nat.le_add_right_of_le h.sized
  · rw [htake, hcapacity]
    exact h.oversized

/-- What one use keeps. -/
theorem use (h : b.Blocked) (u : Use) : (b.use u).2.2.Blocked := by
  obtain ⟨hpending, hcapacity⟩ := b.pending_use u (h.use_fst u)
  exact h.of_isPrefix hcapacity ⟨_, hpending.symm⟩

/-- A blocked buffer takes in what fits, and hands out no frame any more. -/
theorem useAll (h : b.Blocked) (uses : List Use) :
    (b.useAll uses).1 = [] ∧
      (b.useAll uses).2.2.pending = b.pending ++ (b.useAll uses).2.1 ∧
      (b.useAll uses).2.2.capacity = b.capacity := by
  induction uses generalizing b with
  | nil => exact ⟨rfl, (List.append_nil _).symm, rfl⟩
  | cons u uses ih =>
    have hnone := h.use_fst u
    obtain ⟨hpending, hcapacity⟩ := b.pending_use u hnone
    obtain ⟨hframes, hpending', hcapacity'⟩ := ih (h.use u)
    refine ⟨?_, ?_, hcapacity'.trans hcapacity⟩
    · rw [FrameBuffer.useAll]
      dsimp only
      rw [hnone, hframes]
      rfl
    · rw [FrameBuffer.useAll]
      dsimp only
      rw [hpending', hpending, List.append_assoc]

end Blocked

end FrameBuffer

end GameShip
