import GameShip.Proofs.Frame.Buffer

/-!
# Delivery of frames in chunks

Frames that are written one after the other, encrypted or not, come out of a receive buffer as they
were, however their bytes are cut into chunks (`FrameBuffer.feed_toBytes`). What is left over after
all complete frames have been taken is less than a frame (`Frame.length_le_of_split?_eq_none`), so a
buffer with room for `capacity` bytes takes chunks of up to `size` bytes as long as no frame is
longer than `capacity - size + 1`; frames that are longer by one byte can overrun it.

* `FrameBuffer.takeAll`: takes frames until none is left.
* `FrameBuffer.feed`: takes in chunks, with all frames taken and the buffer compacted after each.
-/

namespace GameShip

namespace Frame

variable {queue more : Bytes} {frames : List Frame}

/-- What comes of a beginning of written frames is a beginning of those frames, and the bytes that
are left over go on with the frames that are left. -/
theorem splitAll_of_append_eq (hsize : ∀ f ∈ frames, f.size ≤ maxSize)
    (h : queue ++ more = frames.flatMap toBytes) :
    ∃ later, frames = (splitAll queue).1 ++ later ∧
      (splitAll queue).2 ++ more = later.flatMap toBytes := by
  fun_induction splitAll queue generalizing frames with
  | case1 queue hnone => exact ⟨frames, rfl, h⟩
  | case2 queue frame rest hsome ih =>
    have hsome := split?_append hsome more
    rw [h] at hsome
    cases frames with
    | nil => cases hsome
    | cons f frames =>
      rw [List.flatMap_cons, split?_toBytes_append (hsize f List.mem_cons_self)] at hsome
      obtain ⟨rfl, hrest⟩ := Prod.mk.inj (Option.some.inj hsome)
      obtain ⟨later, rfl, hlater⟩ := ih (fun g hg => hsize g (List.mem_cons_of_mem _ hg)) hrest.symm
      exact ⟨later, rfl, hlater⟩

/-- A beginning of written frames that holds no frame is shorter than the first of them. -/
theorem length_le_of_split?_eq_none {bound : Nat}
    (hsize : ∀ f ∈ frames, f.size ≤ bound + 1 ∧ f.size ≤ maxSize)
    (h : queue ++ more = frames.flatMap toBytes) (hnone : split? queue = none) :
    queue.length ≤ bound := by
  cases frames with
  | nil =>
    rw [List.flatMap_nil, List.append_eq_nil_iff] at h
    simp [h.1]
  | cons f frames =>
    obtain ⟨hbound, hmax⟩ := hsize f List.mem_cons_self
    apply Nat.le_of_lt_succ
    apply Nat.lt_of_lt_of_le _ hbound
    apply Nat.lt_of_not_le
    intro hle
    rw [List.flatMap_cons] at h
    -- the queue would reach over the whole first frame
    obtain ⟨rest, rfl⟩ : ∃ rest, queue = f.toBytes ++ rest := by
      obtain ⟨rest, hrest, -⟩ | ⟨rest, hrest, -⟩ := List.append_eq_append_iff.mp h
      · have hlen := congrArg List.length hrest
        rw [List.length_append, length_toBytes] at hlen
        have : rest = [] := List.eq_nil_of_length_eq_zero (by omega)
        exact ⟨[], by rw [hrest, this, List.append_nil, List.append_nil]⟩
      · exact ⟨rest, hrest⟩
    rw [split?_toBytes_append hmax] at hnone
    cases hnone

theorem length_le_length_flatMap_toBytes (frames : List Frame) :
    frames.length ≤ (frames.flatMap toBytes).length := by
  induction frames with
  | nil => exact Nat.le_refl 0
  | cons f frames ih =>
    have hsize := f.headerSize_le_size
    unfold headerSize at hsize
    rw [List.length_cons, List.flatMap_cons, List.length_append, length_toBytes]
    omega

end Frame

namespace FrameBuffer

/-- Takes frames until none is left. -/
def takeAll (b : FrameBuffer) : List Frame × FrameBuffer :=
  match _h : b.next? with
  | none => ([], b)
  | some (frame, rest) => (frame :: rest.takeAll.1, rest.takeAll.2)
termination_by b.length
decreasing_by
  all_goals
    have := length_next?_lt _h
    unfold Frame.headerSize at this
    omega

/-- Takes in chunks. After each, all frames are taken and the buffer is compacted. -/
def feed (b : FrameBuffer) (cipher : Option Rc4) :
    List Bytes → Except Overrun (List Frame × FrameBuffer)
  | [] => .ok ([], b)
  | chunk :: chunks => do
    let (b, cipher) ← b.push chunk cipher
    let (later, rest) ← b.takeAll.2.compact.feed cipher chunks
    return (b.takeAll.1 ++ later, rest)

variable {b b' : FrameBuffer} {cipher : Option Rc4} {frames : List Frame}

theorem takeAll_eq (b : FrameBuffer) :
    b.takeAll.1 = (Frame.splitAll b.pending).1 ∧
      b.takeAll.2.pending = (Frame.splitAll b.pending).2 ∧
      b.takeAll.2.capacity = b.capacity := by
  fun_induction takeAll b with
  | case1 b hnone =>
    rw [Frame.splitAll_of_none (next?_eq_none_iff.mp hnone)]
    exact ⟨rfl, rfl, rfl⟩
  | case2 b frame rest hsome ih =>
    rw [Frame.splitAll_of_some (split?_of_next? hsome)]
    obtain ⟨hframes, hpending, hcapacity⟩ := ih
    exact ⟨by rw [hframes], hpending, hcapacity.trans (bytes_of_next? hsome).2⟩

/-- One chunk that fits behind the bytes of a compacted buffer. -/
theorem feed_cons (cipher : Option Rc4) (chunk : Bytes) (chunks : List Bytes)
    (hcompact : b.bytes.size = b.pending.length)
    (hfits : b.pending.length + chunk.length ≤ b.capacity) :
    ∃ b' : FrameBuffer, b'.bytes.size = b'.pending.length ∧ b'.capacity = b.capacity ∧
      b'.pending = (Frame.splitAll (b.pending ++ (Rc4.through cipher chunk).1)).2 ∧
      b.feed cipher (chunk :: chunks) =
        (b'.feed (Rc4.through cipher chunk).2 chunks).map fun (later, rest) =>
          ((Frame.splitAll (b.pending ++ (Rc4.through cipher chunk).1)).1 ++ later, rest) := by
  rw [← hcompact] at hfits
  obtain ⟨c, hpush, hpending, -, hcapacity⟩ := push_of_le cipher hfits
  obtain ⟨hframes, hrest, hsame⟩ := takeAll_eq c
  rw [hpending] at hframes hrest
  refine ⟨c.takeAll.2.compact, ?_, ?_, ?_, ?_⟩
  · rw [size_compact, pending_compact, length_pending]
  · rw [capacity_compact, hsame, hcapacity]
  · rw [pending_compact, hrest]
  · rw [feed, hpush, ← hframes]
    dsimp only [bind, Except.bind]
    cases c.takeAll.2.compact.feed (Rc4.through cipher chunk).2 chunks with
    | error e => rfl
    | ok r => rfl

theorem feed_of_lt {chunk : Bytes} {chunks : List Bytes}
    (h : b.capacity < b.bytes.size + chunk.length) :
    b.feed cipher (chunk :: chunks) = .error ⟨b.bytes.size, chunk.length⟩ := by
  rw [feed, push_of_lt cipher h]
  rfl

/-- Chunks pile up as long as no frame is complete. -/
theorem feed_append (cipher : Option Rc4) {first : List Bytes} (chunks : List Bytes)
    (hcompact : b.bytes.size = b.pending.length)
    (hfits : b.pending.length + first.flatten.length ≤ b.capacity)
    (hnone : Frame.split? (b.pending ++ (Rc4.through cipher first.flatten).1) = none) :
    ∃ b' : FrameBuffer, b'.bytes.size = b.pending.length + first.flatten.length ∧
      b'.capacity = b.capacity ∧
      b.feed cipher (first ++ chunks) =
        b'.feed (Rc4.through cipher first.flatten).2 chunks := by
  induction first generalizing b cipher with
  | nil => exact ⟨b, hcompact, rfl, by simp⟩
  | cons chunk first ih =>
    rw [List.flatten_cons] at hfits hnone ⊢
    rw [Rc4.through_append, ← List.append_assoc] at hnone
    rw [List.length_append] at hfits ⊢
    obtain ⟨c, hcompact', hcapacity, hpending, hfeed⟩ :=
      feed_cons cipher chunk (first ++ chunks) hcompact (by omega)
    have hsplit : Frame.split? (b.pending ++ (Rc4.through cipher chunk).1) = none := by
      cases h : Frame.split? (b.pending ++ (Rc4.through cipher chunk).1) with
      | none => rfl
      | some r =>
        rw [Frame.split?_append h] at hnone
        cases hnone
    rw [Frame.splitAll_of_none hsplit] at hpending hfeed
    have hlength := congrArg List.length hpending
    rw [List.length_append, Rc4.length_through] at hlength
    obtain ⟨b', hsize', hcapacity', hrest⟩ :=
      ih (Rc4.through cipher chunk).2 hcompact' (by rw [hlength, hcapacity]; omega)
        (by rw [hpending]; exact hnone)
    refine ⟨b', by rw [hsize', hlength, Nat.add_assoc], hcapacity'.trans hcapacity, ?_⟩
    rw [List.cons_append, hfeed, hrest, Rc4.through_append]
    cases b'.feed (Rc4.through (Rc4.through cipher chunk).2 first.flatten).2 chunks with
    | error e => rfl
    | ok r => rfl

theorem eq_empty (hcompact : b.bytes.size = b.pending.length) (h : b.pending = []) :
    b = empty b.capacity := by
  rw [h, List.length_nil] at hcompact
  have htaken := b.taken_le
  obtain ⟨capacity, bytes, taken, _, _⟩ := b
  dsimp only at hcompact htaken
  obtain rfl := Array.eq_empty_of_size_eq_zero hcompact
  obtain rfl : taken = 0 := by omega
  rfl

/-- What is left over is less than a frame and leaves room for the next chunk. -/
theorem feed_of_size_le {limit : Nat} {chunks : List Bytes} (hlimit : limit ≤ b.capacity)
    (hsize : ∀ f ∈ frames, f.size ≤ b.capacity - limit + 1 ∧ f.size ≤ Frame.maxSize)
    (hchunks : ∀ chunk ∈ chunks, chunk.length ≤ limit)
    (hcompact : b.bytes.size = b.pending.length) (hnone : Frame.split? b.pending = none)
    (hstream : b.pending ++ (Rc4.through cipher chunks.flatten).1 = frames.flatMap Frame.toBytes) :
    b.feed cipher chunks = .ok (frames, empty b.capacity) := by
  induction chunks generalizing b cipher frames with
  | nil =>
    rw [List.flatten_nil, Rc4.through_nil, List.append_nil] at hstream
    cases frames with
    | nil => rw [feed, ← eq_empty hcompact hstream]
    | cons f frames =>
      rw [hstream, List.flatMap_cons,
        Frame.split?_toBytes_append (hsize f List.mem_cons_self).2] at hnone
      cases hnone
  | cons chunk chunks ih =>
    have hroom := Frame.length_le_of_split?_eq_none hsize hstream hnone
    have hchunk := hchunks chunk List.mem_cons_self
    obtain ⟨c, hcompact', hcapacity, hpending, hfeed⟩ :=
      feed_cons cipher chunk chunks hcompact (by omega)
    rw [List.flatten_cons, Rc4.through_append, ← List.append_assoc] at hstream
    obtain ⟨later, rfl, hlater⟩ :=
      Frame.splitAll_of_append_eq (fun f hf => (hsize f hf).2) hstream
    rw [← hpending] at hlater
    have hdone := ih (by rw [hcapacity]; exact hlimit)
      (fun f hf => by rw [hcapacity]; exact hsize f (List.mem_append_right _ hf))
      (fun chunk h => hchunks chunk (List.mem_cons_of_mem _ h)) hcompact'
      (by rw [hpending]; exact Frame.split?_splitAll _) hlater
    rw [hfeed, hdone, hcapacity]
    rfl

/-- A stream that begins with too many bytes of one frame overruns the buffer: they come in byte by
byte, then as many bytes as a chunk may have. -/
theorem exists_feed_eq_error {capacity limit : Nat} (hpos : 1 ≤ limit) (hlimit : limit ≤ capacity)
    (cipher : Option Rc4) {plain : Bytes} (hlength : capacity < plain.length)
    (hnone : Frame.split? (plain.take (capacity - limit + 1)) = none) :
    ∃ chunks : List Bytes, (∀ chunk ∈ chunks, chunk.length ≤ limit) ∧
      chunks.flatten = (Rc4.through cipher plain).1 ∧
      (empty capacity).feed cipher chunks = .error ⟨capacity - limit + 1, limit⟩ := by
  let stream := (Rc4.through cipher plain).1
  have hstream : stream.length = plain.length := Rc4.length_through cipher plain
  -- the bytes before the long chunk, and those from it on
  let early := (stream.take (capacity - limit + 1)).map fun b => [b]
  let late := stream.drop (capacity - limit + 1)
  have hearly : early.flatten = stream.take (capacity - limit + 1) := by
    rw [← List.flatMap_def, List.flatMap_singleton']
  have hpiled : early.flatten.length = capacity - limit + 1 := by
    rw [hearly, List.length_take]
    omega
  have hlong : (late.take limit).length = limit := by
    rw [List.length_take, List.length_drop]
    omega
  refine ⟨early ++ late.take limit :: (late.drop limit).map fun b => [b], ?_, ?_, ?_⟩
  · intro chunk hchunk
    rw [List.mem_append, List.mem_cons, List.mem_map, List.mem_map] at hchunk
    obtain ⟨b, -, rfl⟩ | rfl | ⟨b, -, rfl⟩ := hchunk
    · exact hpos
    · exact Nat.le_of_eq hlong
    · exact hpos
  · rw [List.flatten_append, List.flatten_cons, hearly, ← List.flatMap_def,
      List.flatMap_singleton', List.take_append_drop, List.take_append_drop]
  · obtain ⟨b', hsize, hcapacity, hfeed⟩ :=
      feed_append (b := empty capacity) cipher (late.take limit :: _) rfl
        (by rw [hpiled, pending_empty, List.length_nil]; change _ ≤ capacity; omega)
        (by rwa [pending_empty, List.nil_append, hearly, Rc4.take_through, Rc4.through_through])
    rw [pending_empty, List.length_nil, Nat.zero_add, hpiled] at hsize
    change b'.capacity = capacity at hcapacity
    rw [hfeed, feed_of_lt (by omega), hsize, hlong]

/-- **Written frames come out as they were written**, whether encrypted or not and however they are
cut into chunks of up to `limit` bytes, as long as none is longer than what a chunk leaves of the
buffer and one byte more. One byte more than that is too much. -/
theorem feed_toBytes (capacity limit : Nat) (hpos : 1 ≤ limit) (hlimit : limit ≤ capacity)
    (cipher : Option Rc4) :
    (∀ (frames : List Frame) (chunks : List Bytes),
      (∀ f ∈ frames, f.size ≤ min (capacity - limit + 1) (16 * 1024 * 1024)) →
      (∀ chunk ∈ chunks, chunk.length ≤ limit) →
      chunks.flatten = (Rc4.through cipher (frames.flatMap Frame.toBytes)).1 →
      (empty capacity).feed cipher chunks = .ok (frames, empty capacity)) ∧
    (8 ≤ capacity - limit + 2 → capacity - limit + 2 ≤ 16 * 1024 * 1024 →
      ∃ (frames : List Frame) (chunks : List Bytes),
        (∀ f ∈ frames, f.size = capacity - limit + 2) ∧
        (∀ chunk ∈ chunks, chunk.length ≤ limit) ∧
        chunks.flatten = (Rc4.through cipher (frames.flatMap Frame.toBytes)).1 ∧
        ∃ e, (empty capacity).feed cipher chunks = .error e) := by
  constructor
  · intro frames chunks hsize hchunks hstream
    apply feed_of_size_le hlimit _ hchunks rfl rfl
    · rw [hstream, Rc4.through_through, pending_empty, List.nil_append]
    · intro f hf
      exact Nat.le_min.mp (hsize f hf)
  · intro hmin hmax
    let frame : Frame := {
      opcode := ⟨0, 0⟩, flags := ⟨0⟩, flags2 := 0
      payload := List.replicate (capacity - limit + 2 - Frame.headerSize) 0 }
    have hframe : frame.size = capacity - limit + 2 := by
      simp only [frame, Frame.size, List.length_replicate, Frame.headerSize]
      omega
    have hframes : List.replicate (capacity + 1) frame = frame :: List.replicate capacity frame :=
      List.replicate_succ
    have hlength :=
      Frame.length_le_length_flatMap_toBytes (List.replicate (capacity + 1) frame)
    rw [List.length_replicate] at hlength
    obtain ⟨chunks, hchunks, hstream, hfeed⟩ :=
      exists_feed_eq_error hpos hlimit cipher hlength (by
        rw [hframes, List.flatMap_cons]
        exact Frame.split?_take_toBytes_append (hframe ▸ hmax) _ (by omega))
    refine ⟨List.replicate (capacity + 1) frame, chunks, ?_, hchunks, hstream, _, hfeed⟩
    intro f hf
    rw [List.eq_of_mem_replicate hf, hframe]

theorem feed_toBytes_twenty :
    (empty 20).feed none [[9, 0, 0, 0], [17, 11, 0, 2], [7, 8, 0, 0], [0, 11, 0, 0], [0]] =
        .ok ([⟨⟨17, 11⟩, ⟨0⟩, 2, [7]⟩, ⟨⟨11, 0⟩, ⟨0⟩, 0, []⟩], empty 20) ∧
      ∃ (frames : List Frame) (chunks : List Bytes),
        (∀ f ∈ frames, f.size = 18) ∧ (∀ chunk ∈ chunks, chunk.length ≤ 4) ∧
        chunks.flatten = (Rc4.through none (frames.flatMap Frame.toBytes)).1 ∧
        ∃ e, (empty 20).feed none chunks = .error e :=
  have h := feed_toBytes 20 4 (by decide) (by decide) none
  ⟨h.1 _ _ (by decide) (by decide) (by decide), h.2 (by decide) (by decide)⟩

end FrameBuffer

end GameShip
