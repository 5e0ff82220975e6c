import GameShip.Cipher.Key
import GameShip.Frame.Opcode
import GameShip.Proofs.Cipher.KeyStream
import GameShip.Proofs.Frame.Split

/-!
# What a client says

A client is heard up to its first logout, and encrypts once the ship has accepted a key from it. A
chunk is decrypted when it comes in, before any of its frames is handled, so the key of a frame is
for the chunks behind the one that completes this frame, wherever in its chunk the frame ends.

* `Reading.ofBytes`: what is read from decrypted bytes.
* `Reading.exchange?`: where the frame ends that brings the key, and that key.
* `Reading.boundary`: where the chunk ends that reaches to a position.
* `Reading.plaintext`: what the chunks of a client are decrypted to.
-/

namespace GameShip

/-- The key that a frame brings to a session that has none. -/
def Frame.sessionKey? (u : KeyUnwrapper) (frame : Frame) : Option Bytes :=
  if frame.opcode = Opcode.Client.keyExchange ∧ keyBlobSize ≤ frame.payload.length then
    (u (frame.payload.take keyBlobSize)).map (·.key.toBytes)
  else none

/-- What is read from the bytes of a client. -/
structure Reading where
  frames : List Frame
  /-- The last frame is a logout, so nothing more is read. -/
  closed : Bool
  /-- The bytes behind the frames. -/
  unread : Bytes
  deriving DecidableEq, Repr

namespace Reading

open GameShip.Frame (split?)

/-- All frames of a queue of bytes up to the first logout. -/
def ofBytes (queue : Bytes) : Reading :=
  match _h : split? queue with
  | none => { frames := [], closed := false, unread := queue }
  | some (frame, rest) =>
    if frame.opcode = Opcode.Client.logout then
      { frames := [frame], closed := true, unread := rest }
    else
      let later := ofBytes rest
      { later with frames := frame :: later.frames }
termination_by queue.length
decreasing_by exact Frame.length_lt_of_split? _h

/-- The end of the frame that brings the key, counted from the first of the frames, and the key. -/
def exchange? (u : KeyUnwrapper) : List Frame → Option (Nat × Bytes)
  | [] => none
  | frame :: frames =>
    match frame.sessionKey? u with
    | some key => some (frame.size, key)
    | none => (exchange? u frames).map fun (stop, key) => (frame.size + stop, key)

/-- The end of the first chunk that reaches to a position. -/
def boundary : Nat → List Bytes → Nat
  | _, [] => 0
  | position, chunk :: chunks =>
    if position ≤ chunk.length then chunk.length
    else chunk.length + boundary (position - chunk.length) chunks

/-- A stream that is encrypted from a position on. -/
def unlock (key : Bytes) (start : Nat) (stream : Bytes) : Bytes :=
  stream.take start ++ ((Rc4.ofKey key).apply (stream.drop start)).1

/-- What the chunks of a client are decrypted to. -/
def plaintext (u : KeyUnwrapper) (chunks : List Bytes) : Bytes :=
  match exchange? u (ofBytes chunks.flatten).frames with
  | none => chunks.flatten
  | some (stop, key) => unlock key (boundary stop chunks) chunks.flatten

/-- What is heard behind the key: the rest of the chunk that completes it as it came, and then the
later chunks, decrypted. -/
def behind (key : Bytes) (stop : Nat) (chunks : List Bytes) : Bytes :=
  unlock key (boundary stop chunks - stop) (chunks.flatten.drop stop)

/-- The cipher for the chunk that comes next. -/
def cipher (u : KeyUnwrapper) (chunks : List Bytes) : Option Rc4 :=
  (exchange? u (ofBytes chunks.flatten).frames).map fun (stop, key) =>
    (Rc4.ofKey key).advance (chunks.flatten.length - boundary stop chunks)

variable {u : KeyUnwrapper} {queue rest : Bytes} {frame : Frame}

theorem ofBytes_of_none (h : split? queue = none) : ofBytes queue = ⟨[], false, queue⟩ := by
  rw [ofBytes]
  split
  · rfl
  · simp_all

@[simp] theorem ofBytes_nil : ofBytes [] = ⟨[], false, []⟩ := ofBytes_of_none rfl

@[simp] theorem plaintext_nil (u : KeyUnwrapper) : plaintext u [] = [] := by
  simp [plaintext, exchange?]

@[simp] theorem cipher_nil (u : KeyUnwrapper) : cipher u [] = none := by
  simp [cipher, exchange?]

theorem ofBytes_of_logout (h : split? queue = some (frame, rest))
    (hlogout : frame.opcode = Opcode.Client.logout) : ofBytes queue = ⟨[frame], true, rest⟩ := by
  rw [ofBytes]
  split
  · simp_all
  · rename_i h'
    rw [h] at h'
    cases h'
    rw [if_pos hlogout]

theorem ofBytes_of_some (h : split? queue = some (frame, rest))
    (hlogout : frame.opcode ≠ Opcode.Client.logout) :
    ofBytes queue = { ofBytes rest with frames := frame :: (ofBytes rest).frames } := by
  rw [ofBytes]
  split
  · simp_all
  · rename_i h'
    rw [h] at h'
    cases h'
    rw [if_neg hlogout]

/-- What is read from more bytes of the client. -/
def extend (r : Reading) (more : Bytes) : Reading :=
  if r.closed then { r with unread := r.unread ++ more }
  else { ofBytes (r.unread ++ more) with frames := r.frames ++ (ofBytes (r.unread ++ more)).frames }

/-- It does not matter whether the bytes come at once or bit by bit. -/
theorem ofBytes_append (queue more : Bytes) :
    ofBytes (queue ++ more) = (ofBytes queue).extend more := by
  fun_induction ofBytes queue with
  | case1 queue h => rfl
  | case2 queue frame rest h hlogout =>
    rw [ofBytes_of_logout (Frame.split?_append h more) hlogout]
    rfl
  | case3 queue frame rest h hlogout later ih =>
    rw [ofBytes_of_some (Frame.split?_append h more) hlogout, ih]
    unfold extend
    dsimp only [later]
    split <;> rfl

theorem split?_unread (h : (ofBytes queue).closed = false) :
    split? (ofBytes queue).unread = none := by
  fun_induction ofBytes queue with
  | case1 queue hnone => exact hnone
  | case2 queue frame rest hsome hlogout => cases h
  | case3 queue frame rest hsome hlogout later ih => exact ih h

theorem length_ofBytes (queue : Bytes) :
    ((ofBytes queue).frames.flatMap Frame.toBytes).length + (ofBytes queue).unread.length =
      queue.length := by
  fun_induction ofBytes queue with
  | case1 queue hnone => exact Nat.zero_add _
  | case2 queue frame rest hsome hlogout => simp [Frame.length_split? hsome]
  | case3 queue frame rest hsome hlogout later ih =>
    rw [List.flatMap_cons, List.length_append, Frame.length_toBytes, Nat.add_assoc, ih,
      Frame.length_split? hsome]

/-! ## The key exchange -/

theorem key_exchange?_cons (frame : Frame) (frames : List Frame) :
    (exchange? u (frame :: frames)).map (·.2) =
      (frame.sessionKey? u).or ((exchange? u frames).map (·.2)) := by
  rw [exchange?]
  cases frame.sessionKey? u with
  | none => simp [Function.comp_def]
  | some key => rfl

theorem exchange?_append (frames more : List Frame) :
    exchange? u (frames ++ more) =
      (exchange? u frames).or ((exchange? u more).map fun (stop, key) =>
        ((frames.flatMap Frame.toBytes).length + stop, key)) := by
  induction frames with
  | nil => simp [exchange?]
  | cons frame frames ih =>
    rw [List.cons_append, exchange?, exchange?, ih]
    cases frame.sessionKey? u with
    | some key => rfl
    | none =>
      cases exchange? u frames with
      | some r => rfl
      | none => simp [Function.comp_def, Nat.add_assoc]

theorem stop_pos {frames : List Frame} {stop : Nat} {key : Bytes}
    (h : exchange? u frames = some (stop, key)) :
    0 < stop ∧ stop ≤ (frames.flatMap Frame.toBytes).length := by
  induction frames generalizing stop with
  | nil => cases h
  | cons frame frames ih =>
    have hsize := frame.headerSize_le_size
    unfold Frame.headerSize at hsize
    rw [List.flatMap_cons, List.length_append, Frame.length_toBytes]
    rw [exchange?] at h
    split at h
    · cases h
      omega
    · obtain ⟨⟨stop', key'⟩, hlater, heq⟩ := Option.map_eq_some_iff.mp h
      cases heq
      have := ih hlater
      omega

theorem size_le_stop {stop : Nat} {key : Bytes} (hsplit : split? queue = some (frame, rest))
    (h : exchange? u (ofBytes queue).frames = some (stop, key)) : frame.size ≤ stop := by
  obtain ⟨frames, hframes⟩ : ∃ frames, (ofBytes queue).frames = frame :: frames := by
    by_cases hlogout : frame.opcode = Opcode.Client.logout
    · rw [ofBytes_of_logout hsplit hlogout]
      exact ⟨_, rfl⟩
    · rw [ofBytes_of_some hsplit hlogout]
      exact ⟨_, rfl⟩
  rw [hframes, exchange?] at h
  split at h
  · cases h
    exact Nat.le_refl _
  · obtain ⟨⟨stop', key'⟩, -, heq⟩ := Option.map_eq_some_iff.mp h
    cases heq
    exact Nat.le_add_right ..

/-- A key that has come stays where it came. -/
theorem exchange?_ofBytes_append_of_some {stop : Nat} {key : Bytes}
    (h : exchange? u (ofBytes queue).frames = some (stop, key)) (more : Bytes) :
    stop ≤ queue.length ∧ exchange? u (ofBytes (queue ++ more)).frames = some (stop, key) := by
  have hstop := (stop_pos h).2
  have hlength := length_ofBytes queue
  refine ⟨by omega, ?_⟩
  rw [ofBytes_append]
  unfold extend
  split
  · exact h
  · rw [exchange?_append, h]
    rfl

/-- A key that has not come yet comes later. -/
theorem length_lt_of_exchange? {more : Bytes} {stop : Nat} {key : Bytes}
    (hnone : exchange? u (ofBytes queue).frames = none)
    (h : exchange? u (ofBytes (queue ++ more)).frames = some (stop, key)) :
    queue.length < stop := by
  rw [ofBytes_append] at h
  unfold extend at h
  split at h
  · rw [hnone] at h
    cases h
  · rename_i hopen
    rw [exchange?_append, hnone, Option.none_or, Option.map_eq_some_iff] at h
    obtain ⟨⟨stop', key'⟩, hlater, heq⟩ := h
    cases heq
    have hlength := length_ofBytes queue
    have hunread := split?_unread (Bool.eq_false_iff.mpr hopen)
    cases hsplit : split? ((ofBytes queue).unread ++ more) with
    | none =>
      rw [ofBytes_of_none hsplit] at hlater
      cases hlater
    | some r =>
      have hsize := Frame.length_lt_of_split?_append hsplit hunread
      have hstop := size_le_stop hsplit hlater
      omega

/-- The bytes up to the key are whole frames, and none of them is a logout. -/
theorem ofBytes_take_stop {stop : Nat} {key : Bytes}
    (h : exchange? u (ofBytes queue).frames = some (stop, key)) :
    (ofBytes (queue.take stop)).closed = false ∧ (ofBytes (queue.take stop)).unread = [] := by
  fun_induction ofBytes queue generalizing stop
  case case1 queue hnone => cases h
  case case2 queue frame rest hsome hlogout =>
    have hkey : frame.sessionKey? u = none := by
      rw [Frame.sessionKey?, hlogout]
      exact if_neg fun h => absurd h.1 (by decide)
    simp [exchange?, hkey] at h
  case case3 queue frame rest hsome hlogout later ih =>
    have htake := Frame.split?_take hsome
    dsimp only at h
    rw [exchange?] at h
    split at h
    · cases h
      have hwhole := htake 0
      rw [Nat.add_zero, List.take_zero] at hwhole
      rw [ofBytes_of_some hwhole hlogout, ofBytes_nil]
      exact ⟨rfl, rfl⟩
    · obtain ⟨⟨stop', key'⟩, hlater, heq⟩ := Option.map_eq_some_iff.mp h
      cases heq
      rw [ofBytes_of_some (htake stop') hlogout]
      exact ih hlater

/-! ## The chunk that completes the key -/

theorem boundary_append {position : Nat} {chunks : List Bytes} (hpos : 0 < position)
    (h : position ≤ chunks.flatten.length) (more : List Bytes) :
    boundary position (chunks ++ more) = boundary position chunks := by
  induction chunks generalizing position with
  | nil => simp at h; omega
  | cons chunk chunks ih =>
    rw [List.flatten_cons, List.length_append] at h
    rw [List.cons_append, boundary, boundary]
    split
    · rfl
    · rw [ih (by omega) (by omega)]

theorem boundary_le (position : Nat) (chunks : List Bytes) :
    boundary position chunks ≤ chunks.flatten.length := by
  induction chunks generalizing position with
  | nil => exact Nat.le_refl 0
  | cons chunk chunks ih =>
    rw [boundary, List.flatten_cons, List.length_append]
    split
    · omega
    · exact Nat.add_le_add_left (ih _) _

theorem le_boundary {position : Nat} {chunks : List Bytes} (h : position ≤ chunks.flatten.length) :
    position ≤ boundary position chunks := by
  induction chunks generalizing position with
  | nil => exact h
  | cons chunk chunks ih =>
    rw [List.flatten_cons, List.length_append] at h
    rw [boundary]
    split
    · assumption
    · have := @ih (position - chunk.length) (by omega)
      omega

theorem boundary_concat {position : Nat} {chunks : List Bytes} {chunk : Bytes}
    (h : chunks.flatten.length < position)
    (h' : position ≤ chunks.flatten.length + chunk.length) :
    boundary position (chunks ++ [chunk]) = (chunks ++ [chunk]).flatten.length := by
  induction chunks generalizing position with
  | nil =>
    rw [List.flatten_nil, List.length_nil, Nat.zero_add] at h'
    simp [boundary, h']
  | cons first chunks ih =>
    rw [List.flatten_cons, List.length_append] at h h'
    rw [List.cons_append, boundary, if_neg (by omega), ih (by omega) (by omega)]
    simp

theorem unlock_append {key : Bytes} {start : Nat} {stream : Bytes} (h : start ≤ stream.length)
    (more : Bytes) :
    unlock key start (stream ++ more) =
      unlock key start stream ++
        (((Rc4.ofKey key).advance (stream.length - start)).apply more).1 := by
  unfold unlock
  rw [List.take_append_of_le_length h, List.drop_append_of_le_length h, Rc4.apply_append,
    Rc4.apply_snd, List.length_drop, List.append_assoc]

theorem unlock_eq {key : Bytes} {start stop : Nat} {stream : Bytes} (h : stop ≤ start) :
    unlock key start stream = stream.take stop ++ unlock key (start - stop) (stream.drop stop) := by
  have hcut := List.take_append_drop stop (stream.take start)
  rw [List.take_take, Nat.min_eq_left h, List.drop_take] at hcut
  unfold unlock
  rw [List.drop_drop, Nat.add_sub_cancel' h, ← List.append_assoc, hcut]

/-- Streams that are the same up to the key are read alike exactly if what is behind the key is. -/
theorem ofBytes_take_append_inj {stop : Nat} {key stream rest rest' : Bytes}
    (hkey : exchange? u (ofBytes stream).frames = some (stop, key)) :
    ofBytes (stream.take stop ++ rest) = ofBytes (stream.take stop ++ rest') ↔
      ofBytes rest = ofBytes rest' := by
  obtain ⟨hopen, hunread⟩ := ofBytes_take_stop hkey
  rw [ofBytes_append, ofBytes_append]
  unfold extend
  rw [hopen, if_neg Bool.false_ne_true, if_neg Bool.false_ne_true, hunread, List.nil_append,
    List.nil_append]
  generalize ofBytes rest = r
  generalize ofBytes rest' = r'
  constructor
  · intro heq
    obtain ⟨hframes, hclosed, hunread⟩ := Reading.mk.inj heq
    cases r
    cases r'
    rw [Reading.mk.injEq]
    exact ⟨List.append_cancel_left hframes, hclosed, hunread⟩
  · rintro rfl
    rfl

theorem length_unlock (key : Bytes) (start : Nat) (stream : Bytes) :
    (unlock key start stream).length = stream.length := by
  rw [unlock, List.length_append, Rc4.length_apply, ← List.length_append, List.take_append_drop]

theorem length_plaintext (u : KeyUnwrapper) (chunks : List Bytes) :
    (plaintext u chunks).length = chunks.flatten.length := by
  unfold plaintext
  split
  · rfl
  · rw [length_unlock]

theorem unlock_length (key stream : Bytes) : unlock key stream.length stream = stream := by
  simp [unlock]

/-- A key that has come leaves the boundary where it is. -/
theorem boundary_of_some {chunks : List Bytes} {stop : Nat} {key : Bytes}
    (h : exchange? u (ofBytes chunks.flatten).frames = some (stop, key)) (more : List Bytes) :
    boundary stop (chunks ++ more) = boundary stop chunks :=
  boundary_append (stop_pos h).1 (exchange?_ofBytes_append_of_some h []).1 more

/-- A chunk that completes the key ends at the boundary. -/
theorem boundary_of_none {chunks : List Bytes} {chunk : Bytes} {stop : Nat} {key : Bytes}
    (hnone : exchange? u (ofBytes chunks.flatten).frames = none)
    (h : exchange? u (ofBytes (chunks.flatten ++ chunk)).frames = some (stop, key)) :
    boundary stop (chunks ++ [chunk]) = (chunks.flatten ++ chunk).length := by
  have hle := (exchange?_ofBytes_append_of_some h []).1
  rw [List.length_append] at hle
  rw [boundary_concat (length_lt_of_exchange? hnone h) hle, List.flatten_append,
    List.flatten_singleton]

/-- One more chunk is decrypted with the cipher that is there when it comes in. -/
theorem plaintext_concat (u : KeyUnwrapper) (chunks : List Bytes) (chunk : Bytes) :
    plaintext u (chunks ++ [chunk]) =
      plaintext u chunks ++ (Rc4.through (cipher u chunks) chunk).1 := by
  unfold plaintext cipher
  rw [List.flatten_append, List.flatten_singleton]
  cases hkey : exchange? u (ofBytes chunks.flatten).frames with
  | some e =>
    obtain ⟨stop, key⟩ := e
    rw [(exchange?_ofBytes_append_of_some hkey chunk).2]
    dsimp only
    rw [boundary_of_some hkey, unlock_append (boundary_le ..)]
    rfl
  | none =>
    cases hlater : exchange? u (ofBytes (chunks.flatten ++ chunk)).frames with
    | none => rfl
    | some e =>
      obtain ⟨stop, key⟩ := e
      dsimp only
      rw [boundary_of_none hkey hlater, unlock_length]
      rfl

theorem cipher_concat_flatten (u : KeyUnwrapper) (chunks : List Bytes) (chunk : Bytes) :
    cipher u (chunks ++ [chunk]) =
      (Rc4.through (cipher u chunks) chunk).2.or
        ((exchange? u (ofBytes (plaintext u (chunks ++ [chunk]))).frames).map fun e =>
          Rc4.ofKey e.2) := by
  rw [plaintext_concat]
  unfold plaintext cipher
  rw [List.flatten_append, List.flatten_singleton]
  cases hkey : exchange? u (ofBytes chunks.flatten).frames with
  | some e =>
    obtain ⟨stop, key⟩ := e
    rw [(exchange?_ofBytes_append_of_some hkey chunk).2, Option.map_some, Option.map_some]
    dsimp only [Rc4.through]
    rw [boundary_of_some hkey, Option.some_or, Rc4.apply_snd, Rc4.advance_advance,
      List.length_append, Nat.sub_add_comm (boundary_le ..)]
  | none =>
    dsimp only [Option.map_none, Rc4.through]
    rw [Option.none_or]
    cases hlater : exchange? u (ofBytes (chunks.flatten ++ chunk)).frames with
    | none => rfl
    | some e =>
      obtain ⟨stop, key⟩ := e
      rw [Option.map_some, Option.map_some]
      dsimp only
      rw [boundary_of_none hkey hlater, Nat.sub_self]
      rfl

theorem plaintext_of_none {chunks : List Bytes}
    (h : exchange? u (ofBytes chunks.flatten).frames = none) :
    plaintext u chunks = chunks.flatten := by
  rw [plaintext, h]

theorem plaintext_of_some {chunks : List Bytes} {stop : Nat} {key : Bytes}
    (h : exchange? u (ofBytes chunks.flatten).frames = some (stop, key)) :
    plaintext u chunks = chunks.flatten.take stop ++ behind key stop chunks := by
  have hle := (exchange?_ofBytes_append_of_some h []).1
  rw [plaintext, h]
  exact unlock_eq (le_boundary hle)

theorem exchange?_plaintext_of_none {chunks : List Bytes} (h : cipher u chunks = none) :
    exchange? u (ofBytes (plaintext u chunks)).frames = none := by
  have hkey := Option.map_eq_none_iff.mp h
  unfold plaintext
  rw [hkey]
  exact hkey

/-- The cipher goes on over a chunk, or is that of the first key in the frames of the chunk. -/
theorem cipher_concat {chunks : List Bytes} {chunk : Bytes} {more : List Frame}
    (hmore : (ofBytes (plaintext u (chunks ++ [chunk]))).frames =
      (ofBytes (plaintext u chunks)).frames ++ more) :
    cipher u (chunks ++ [chunk]) =
      (Rc4.through (cipher u chunks) chunk).2.or
        ((exchange? u more).map fun e => Rc4.ofKey e.2) := by
  rw [cipher_concat_flatten, hmore, exchange?_append]
  cases hcipher : cipher u chunks with
  | some c => rfl
  | none =>
    rw [exchange?_plaintext_of_none hcipher, Option.none_or, Option.map_map]
    rfl

end Reading

end GameShip
