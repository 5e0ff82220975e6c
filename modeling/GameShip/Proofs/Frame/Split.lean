import GameShip.Frame.Basic

/-!
# Cutting a queue of bytes into frames

What a receiver should take from the front of the bytes that have come in, said without a buffer. A
frame that can be taken can still be taken when more bytes have come (`Frame.split?_append`), so
what is taken from a queue does not depend on how it fills (`Frame.splitAll_append`). Written frames
are taken as they were written (`Frame.split?_toBytes_append`).

* `Frame.split?`: the first frame of a queue and the bytes behind it.
* `Frame.splitAll`: all frames of a queue and the bytes that are left over.
-/

namespace GameShip

namespace Frame

/-- The first frame of a queue of bytes and the bytes behind it. There is none while the header is
not complete, nor while the claimed size, which counts as eight at least, is more than there is or
more than sixteen mebibytes. -/
def split? (queue : Bytes) : Option (Frame × Bytes) :=
  if h : queue.length < 8 then none
  else
    let size := max (Bytes.value (queue.take 4)) 8
    if 16 * 1024 * 1024 < size ∨ queue.length < size then none
    else some ({
      opcode := ⟨queue[4], queue[5]⟩
      flags := ⟨queue[6]⟩
      flags2 := queue[7]
      payload := (queue.take size).drop 8 }, queue.drop size)

theorem ofBytes?_of_length_lt {queue : Bytes} (h : queue.length < 8) :
    Header.ofBytes? (queue.take headerSize) = none := by
  match queue with
  | [] | [_] | [_, _] | [_, _, _] | [_, _, _, _] | [_, _, _, _, _] | [_, _, _, _, _, _]
  | [_, _, _, _, _, _, _] => rfl
  | _ :: _ :: _ :: _ :: _ :: _ :: _ :: _ :: _ => simp only [List.length_cons] at h; omega

theorem ofBytes?_of_le_length {queue : Bytes} (h : 8 ≤ queue.length) :
    Header.ofBytes? (queue.take headerSize) =
      some ⟨Bytes.value (queue.take 4), ⟨queue[4], queue[5]⟩, ⟨queue[6]⟩, queue[7]⟩ := by
  match queue with
  | [] | [_] | [_, _] | [_, _, _] | [_, _, _, _] | [_, _, _, _, _] | [_, _, _, _, _, _]
  | [_, _, _, _, _, _, _] => simp at h
  | _ :: _ :: _ :: _ :: _ :: _ :: _ :: _ :: _ => rfl

theorem split?_eq_ofBytes? (queue : Bytes) :
    split? queue =
      match Header.ofBytes? (queue.take headerSize) with
      | none => none
      | some header =>
        if header.extent ≤ maxSize ∧ header.extent ≤ queue.length then
          some ({
            opcode := header.opcode
            flags := header.flags
            flags2 := header.flags2
            payload := (queue.take header.extent).drop headerSize }, queue.drop header.extent)
        else none := by
  by_cases hlen : queue.length < 8
  · rw [ofBytes?_of_length_lt hlen, split?, dif_pos hlen]
  · rw [ofBytes?_of_le_length (Nat.not_lt.mp hlen), split?, dif_neg hlen]
    dsimp only
    generalize hh : Header.mk _ _ _ _ = header
    have hextent : header.extent = max (Bytes.value (queue.take 4)) 8 := by
      rw [← hh]
      rfl
    have hmax : maxSize = 16 * 1024 * 1024 := rfl
    rw [← hextent]
    by_cases hfits : header.extent ≤ maxSize ∧ header.extent ≤ queue.length
    · rw [if_pos hfits, if_neg (by omega)]
      subst hh
      rfl
    · rw [if_neg hfits, if_pos (by omega)]

theorem split?_eq_none_iff {queue : Bytes} :
    split? queue = none ↔ queue.length < 8 ∨
      16 * 1024 * 1024 < max (Bytes.value (queue.take 4)) 8 ∨
      queue.length < max (Bytes.value (queue.take 4)) 8 := by
  unfold split?
  split
  · rename_i hlen
    exact ⟨fun _ => .inl hlen, fun _ => rfl⟩
  · rename_i hlen
    dsimp only
    split
    · rename_i hsize
      exact ⟨fun _ => .inr hsize, fun _ => rfl⟩
    · rename_i hsize
      exact ⟨fun h => absurd h (Option.some_ne_none _),
        fun h => absurd h (not_or.mpr ⟨hlen, hsize⟩)⟩

/-- The frame that is taken has the claimed size, and the rest begins where it ends. -/
theorem size_of_split? {queue rest : Bytes} {frame : Frame}
    (h : split? queue = some (frame, rest)) :
    frame.size = max (Bytes.value (queue.take 4)) 8 ∧ frame.size ≤ maxSize ∧
      frame.size ≤ queue.length ∧ rest = queue.drop frame.size := by
  unfold split? at h
  split at h
  · cases h
  · dsimp only at h
    generalize hs : max (Bytes.value (queue.take 4)) 8 = claimed at h
    split at h
    · cases h
    · rename_i hsize
      rw [not_or] at hsize
      cases h
      have hclaimed : headerSize + ((queue.take claimed).drop 8).length = claimed := by
        rw [List.length_drop, List.length_take, headerSize]
        omega
      rw [size, hclaimed]
      exact ⟨rfl, Nat.not_lt.mp hsize.1, Nat.not_lt.mp hsize.2, rfl⟩

theorem headerSize_le_size (frame : Frame) : headerSize ≤ frame.size := Nat.le_add_right ..

theorem length_split? {queue rest : Bytes} {frame : Frame}
    (h : split? queue = some (frame, rest)) : queue.length = frame.size + rest.length := by
  obtain ⟨-, -, hle, rfl⟩ := size_of_split? h
  rw [List.length_drop]
  omega

theorem length_lt_of_split? {queue rest : Bytes} {frame : Frame}
    (h : split? queue = some (frame, rest)) : rest.length < queue.length := by
  have hlen := length_split? h
  have hsize := frame.headerSize_le_size
  unfold headerSize at hsize
  omega

/-- A frame that can be taken can still be taken when more bytes have come. -/
theorem split?_append {queue rest : Bytes} {frame : Frame}
    (h : split? queue = some (frame, rest)) (more : Bytes) :
    split? (queue ++ more) = some (frame, rest ++ more) := by
  unfold split? at h ⊢
  split at h
  · cases h
  · rename_i hlen
    dsimp only at h
    split at h
    · cases h
    · rename_i hsize
      rw [not_or] at hsize
      cases h
      have h4 : (queue ++ more).take 4 = queue.take 4 := List.take_append_of_le_length (by omega)
      rw [dif_neg (by rw [List.length_append]; omega), h4,
        if_neg (by rw [List.length_append]; omega)]
      rw [List.take_append_of_le_length (by omega), List.drop_append_of_le_length (by omega)]
      simp only [List.getElem_append_left (show 4 < queue.length by omega),
        List.getElem_append_left (show 5 < queue.length by omega),
        List.getElem_append_left (show 6 < queue.length by omega),
        List.getElem_append_left (show 7 < queue.length by omega)]

/-- A frame that has come in whole could be taken before more bytes came. -/
theorem length_lt_of_split?_append {queue more rest : Bytes} {frame : Frame}
    (h : split? (queue ++ more) = some (frame, rest)) (hnone : split? queue = none) :
    queue.length < frame.size := by
  apply Nat.lt_of_not_le
  intro hle
  have hmin := frame.headerSize_le_size
  unfold headerSize at hmin
  obtain ⟨hclaimed, hwhole, -, -⟩ := size_of_split? h
  rw [List.take_append_of_le_length (by omega)] at hclaimed
  have hsmall : ¬ 16 * 1024 * 1024 < max (Bytes.value (queue.take 4)) 8 := by
    rw [← hclaimed]
    exact Nat.not_lt.mpr hwhole
  rw [split?_eq_none_iff, ← hclaimed] at hnone
  omega

/-- Bytes that are not part of a frame do not matter to it. -/
theorem split?_take {queue rest : Bytes} {frame : Frame} (h : split? queue = some (frame, rest))
    (n : Nat) : split? (queue.take (frame.size + n)) = some (frame, rest.take n) := by
  obtain ⟨-, -, hle, hrest⟩ := size_of_split? h
  have hcut := List.take_append_drop (frame.size + n) queue
  rw [← hcut] at h
  cases hsplit : split? (queue.take (frame.size + n)) with
  | none =>
    have hlt := length_lt_of_split?_append h hsplit
    rw [List.length_take] at hlt
    omega
  | some r =>
    obtain ⟨f, rest'⟩ := r
    rw [split?_append hsplit] at h
    obtain ⟨rfl, -⟩ := Prod.mk.inj (Option.some.inj h)
    rw [(size_of_split? hsplit).2.2.2, List.drop_take, hrest, Nat.add_sub_cancel_left]

theorem bound_four : Bytes.bound 4 = 4294967296 := rfl

/-- A written frame is taken as it was written. -/
theorem split?_toBytes_append {frame : Frame} (h : frame.size ≤ maxSize) (rest : Bytes) :
    split? (frame.toBytes ++ rest) = some (frame, rest) := by
  have hmin := frame.headerSize_le_size
  unfold maxSize at h
  unfold headerSize at hmin
  obtain ⟨a, b, c, d, hfield⟩ : ∃ a b c d, Bytes.ofNat 4 frame.size = [a, b, c, d] :=
    ⟨_, _, _, _, rfl⟩
  have hvalue : Bytes.value [a, b, c, d] = frame.size := by
    rw [← hfield, Bytes.value_ofNat, bound_four, Nat.mod_eq_of_lt (by omega)]
  have hpayload : frame.payload.length = frame.size - 8 := by simp [size, headerSize]
  have hbytes : frame.toBytes ++ rest = a :: b :: c :: d :: frame.opcode.kind ::
      frame.opcode.subtype :: frame.flags.bits :: frame.flags2 :: (frame.payload ++ rest) := by
    simp [toBytes, hfield]
  rw [hbytes, split?, dif_neg (by simp)]
  dsimp only
  have htake : List.take 4 (a :: b :: c :: d :: frame.opcode.kind :: frame.opcode.subtype ::
      frame.flags.bits :: frame.flags2 :: (frame.payload ++ rest)) = [a, b, c, d] := rfl
  rw [htake, hvalue, Nat.max_eq_left hmin, if_neg (by simp; omega)]
  obtain ⟨n, hn⟩ : ∃ n, frame.size = n + 8 := ⟨frame.size - 8, by omega⟩
  rw [hn] at hpayload ⊢
  simp [hpayload]

theorem split?_take_toBytes_append {frame : Frame} (h : frame.size ≤ maxSize) (rest : Bytes)
    {n : Nat} (hn : n < frame.size) : split? ((frame.toBytes ++ rest).take n) = none := by
  cases hsplit : split? ((frame.toBytes ++ rest).take n) with
  | none => rfl
  | some r =>
    have hlen := length_split? hsplit
    have hwhole := split?_append hsplit ((frame.toBytes ++ rest).drop n)
    rw [List.take_append_drop, split?_toBytes_append h] at hwhole
    rw [← (Prod.mk.inj (Option.some.inj hwhole)).1, List.length_take] at hlen
    omega

/-- All frames of a queue of bytes, and the bytes that are left over. -/
def splitAll (queue : Bytes) : List Frame × Bytes :=
  match _h : split? queue with
  | none => ([], queue)
  | some (frame, rest) => (frame :: (splitAll rest).1, (splitAll rest).2)
termination_by queue.length
decreasing_by all_goals exact length_lt_of_split? _h

theorem splitAll_of_none {queue : Bytes} (h : split? queue = none) :
    splitAll queue = ([], queue) := by
  rw [splitAll]
  split
  · rfl
  · simp_all

theorem splitAll_of_some {queue rest : Bytes} {frame : Frame}
    (h : split? queue = some (frame, rest)) :
    splitAll queue = (frame :: (splitAll rest).1, (splitAll rest).2) := by
  rw [splitAll]
  split
  · simp_all
  · rename_i h'
    rw [h] at h'
    cases h'
    rfl

theorem split?_splitAll (queue : Bytes) : split? (splitAll queue).2 = none := by
  fun_induction splitAll queue with
  | case1 queue h => exact h
  | case2 queue frame rest h ih => exact ih

/-- It does not matter whether the bytes come at once or bit by bit. -/
theorem splitAll_append (queue more : Bytes) :
    splitAll (queue ++ more) =
      ((splitAll queue).1 ++ (splitAll ((splitAll queue).2 ++ more)).1,
        (splitAll ((splitAll queue).2 ++ more)).2) := by
  fun_induction splitAll queue with
  | case1 queue h => rfl
  | case2 queue frame rest h ih =>
    rw [splitAll_of_some (split?_append h more), ih]
    rfl

end Frame

end GameShip
