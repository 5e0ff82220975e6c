import GameShip.Proofs.Text.Unicode
import GameShip.Wire.Reader

/-!
# What reads take

* `ReadM.Takes`: a read takes certain bytes off the front of what is left and gives a value.
* `ReadM.Fixed`: it always takes the same number of bytes, and fails only if there are fewer.

Each field is read back from its written form: `Reader.takes_u16`, `Reader.takes_location`,
`Reader.takes_ascii` and the others like them.
-/

namespace GameShip

/-- The number that is left of a number sent as binary16. -/
def Single.rounded (x : Single) : Single := (Half.ofSingle x).toSingle

def Rotation.rounded (r : Rotation) : Rotation :=
  ⟨r.x.rounded, r.y.rounded, r.z.rounded, r.w.rounded⟩

def Position.rounded (p : Position) : Position := ⟨p.x.rounded, p.y.rounded, p.z.rounded⟩

def Location.rounded (l : Location) : Location := ⟨l.rotation.rounded, l.position.rounded⟩

namespace ReadM

/-- The read takes exactly these bytes, whatever follows them, and gives this value. -/
def Takes {α : Type} (read : ReadM α) (bytes : Bytes) (a : α) : Prop :=
  ∀ (position : Nat) (rest : Bytes),
    read ⟨position, bytes ++ rest⟩ = .ok a ⟨position + bytes.length, rest⟩

/-- The read takes `width` bytes and gives what they stand for. It fails if there are fewer. -/
structure Fixed {α : Type} (read : ReadM α) (width : Nat) (decode : Bytes → α) : Prop where
  takes : ∀ {bytes : Bytes}, bytes.length = width → read.Takes bytes (decode bytes)
  short : ∀ {r : Reader}, r.rest.length < width → ∃ e later, read r = .error e later

variable {α β : Type} {x : ReadM α} {f : α → ReadM β} {a : α} {b : β} {bytes bytes' : Bytes}

theorem bind_of_ok {r later : Reader} (h : x r = .ok a later) : (x >>= f) r = f a later := by
  change EStateM.bind x f r = _
  rw [EStateM.bind, h]

theorem bind_of_error {r later : Reader} {e : ReadError} (h : x r = .error e later) :
    (x >>= f) r = .error e later := by
  change EStateM.bind x f r = _
  rw [EStateM.bind, h]

namespace Takes

theorem pure (a : α) : (Pure.pure a : ReadM α).Takes [] a := fun _ _ => rfl

theorem bind (hx : x.Takes bytes a) (hf : (f a).Takes bytes' b) :
    (x >>= f).Takes (bytes ++ bytes') b := fun position rest => by
  rw [List.append_assoc, bind_of_ok (hx position _), hf, List.length_append, Nat.add_assoc]

theorem map (hx : x.Takes bytes a) (g : α → β) :
    (do return g (← x) : ReadM β).Takes bytes (g a) := fun position rest => by
  rw [bind_of_ok (hx position rest)]
  rfl

theorem restoring (hx : x.Takes bytes a) : (ReadM.restoring x).Takes bytes a :=
  fun position rest => by rw [ReadM.restoring, hx]

end Takes

namespace Fixed

variable {width : Nat} {decode : Bytes → α}

theorem exactly (width : Nat) (error : Reader → ReadError) :
    (ReadM.exactly width error).Fixed width id where
  takes {bytes} h position rest := by
    subst h
    rw [ReadM.exactly]
    dsimp only
    rw [List.take_left, List.drop_left, if_pos rfl, id]
  short {r} h := by
    refine ⟨error r, r, if_neg ?_⟩
    rw [List.length_take]
    omega

/-- A body that is long enough is cut after `width` bytes. -/
theorem ok (hx : x.Fixed width decode) {r : Reader} (h : width ≤ r.rest.length) :
    x r = .ok (decode (r.rest.take width)) ⟨r.position + width, r.rest.drop width⟩ := by
  obtain ⟨position, rest⟩ := r
  have hlength : (rest.take width).length = width := List.length_take_of_le h
  have htakes := hx.takes hlength position (rest.drop width)
  rwa [List.take_append_drop, hlength] at htakes

theorem congr {decode' : Bytes → α} (hx : x.Fixed width decode)
    (h : ∀ bytes : Bytes, bytes.length = width → decode bytes = decode' bytes) :
    x.Fixed width decode' where
  takes hlength := h _ hlength ▸ hx.takes hlength
  short := hx.short

theorem pure (a : α) : (Pure.pure a : ReadM α).Fixed 0 fun _ => a where
  takes {bytes} h := by
    rw [List.length_eq_zero_iff.mp h]
    exact Takes.pure a
  short h := absurd h (Nat.not_lt_zero _)

theorem bind {width' : Nat} {decode' : α → Bytes → β} (hx : x.Fixed width decode)
    (hf : ∀ a, (f a).Fixed width' (decode' a)) :
    (x >>= f).Fixed (width + width') fun bytes =>
      decode' (decode (bytes.take width)) (bytes.drop width) where
  takes {bytes} h := by
    have hfront : (bytes.take width).length = width := List.length_take_of_le (by omega)
    have hback : (bytes.drop width).length = width' := by rw [List.length_drop, h]; omega
    have htakes := (hx.takes hfront).bind ((hf _).takes hback)
    rwa [List.take_append_drop] at htakes
  short {r} h := by
    by_cases hfront : width ≤ r.rest.length
    · have hback : (r.rest.drop width).length < width' := by rw [List.length_drop]; omega
      rw [bind_of_ok (hx.ok hfront)]
      exact (hf _).short hback
    · obtain ⟨e, later, herror⟩ := hx.short (Nat.lt_of_not_le hfront)
      exact ⟨e, later, bind_of_error herror⟩

theorem map (hx : x.Fixed width decode) (g : α → β) :
    (do return g (← x) : ReadM β).Fixed width fun bytes => g (decode bytes) where
  takes h := (hx.takes h).map g
  short h := by
    obtain ⟨e, later, herror⟩ := hx.short h
    exact ⟨e, later, bind_of_error herror⟩

end Fixed

end ReadM

namespace Reader

open ReadM

theorem fixed_number (width : Nat) : (number width).Fixed width Bytes.value :=
  (Fixed.exactly width fun _ => .truncated).map Bytes.value

theorem fixed_u8 : u8.Fixed 1 fun bytes => UInt8.ofNat (Bytes.value bytes) :=
  (fixed_number 1).map UInt8.ofNat

theorem fixed_u16 : u16.Fixed 2 fun bytes => UInt16.ofNat (Bytes.value bytes) :=
  (fixed_number 2).map UInt16.ofNat

theorem fixed_u32 : u32.Fixed 4 fun bytes => UInt32.ofNat (Bytes.value bytes) :=
  (fixed_number 4).map UInt32.ofNat

theorem fixed_u64 : u64.Fixed 8 fun bytes => UInt64.ofNat (Bytes.value bytes) :=
  (fixed_number 8).map UInt64.ofNat

theorem fixed_bytes (count : Nat) : (bytes count).Fixed count id :=
  Fixed.exactly count fun r => .endedAt r.position

theorem fixed_skip (count : Nat) : (skip count).Fixed count fun _ => () :=
  (fixed_bytes count).map fun _ => ()

theorem fixed_u24 : u24.Fixed 3 fun bytes => UInt32.ofNat (Bytes.value bytes) :=
  (fixed_bytes 3).map fun bytes => UInt32.ofNat (Bytes.value bytes)

theorem fixed_half : half.Fixed 2 fun bytes => Half.toSingle ⟨UInt16.ofNat (Bytes.value bytes)⟩ :=
  fixed_u16.map fun bits => Half.toSingle ⟨bits⟩

/-! ## Reading back what was written -/

theorem takes_u8 (v : UInt8) : u8.Takes (Wire.u8 v) v := by
  have h : u8.Takes (Wire.u8 v) _ := fixed_u8.takes rfl
  rwa [Wire.u8, Bytes.value, Bytes.value, Nat.mul_zero, Nat.add_zero, UInt8.ofNat_toNat] at h

theorem takes_u16 (v : UInt16) : u16.Takes (Wire.u16 v) v := by
  have hlt : v.toNat < Bytes.bound 2 := v.toNat_lt
  have h := fixed_u16.takes (Bytes.length_ofNat 2 v.toNat)
  rwa [Bytes.value_ofNat, Nat.mod_eq_of_lt hlt, UInt16.ofNat_toNat] at h

theorem takes_u32 (v : UInt32) : u32.Takes (Wire.u32 v) v := by
  have hlt : v.toNat < Bytes.bound 4 := v.toNat_lt
  have h := fixed_u32.takes (Bytes.length_ofNat 4 v.toNat)
  rwa [Bytes.value_ofNat, Nat.mod_eq_of_lt hlt, UInt32.ofNat_toNat] at h

theorem takes_u64 (v : UInt64) : u64.Takes (Wire.u64 v) v := by
  have hlt : v.toNat < Bytes.bound 8 := v.toNat_lt
  have h := fixed_u64.takes (Bytes.length_ofNat 8 v.toNat)
  rwa [Bytes.value_ofNat, Nat.mod_eq_of_lt hlt, UInt64.ofNat_toNat] at h

theorem takes_half (v : Single) : half.Takes (Wire.half v) v.rounded :=
  (takes_u16 (Half.ofSingle v).bits).map fun bits => Half.toSingle ⟨bits⟩

theorem takes_header (h : EntityHeader) : header.Takes (Wire.header h) h := by
  refine Takes.restoring ?_
  rw [Wire.header, List.append_assoc]
  exact (takes_u64 h.id).bind ((takes_u16 h.kind.code).bind ((takes_u16 h.unknown).map _))

theorem takes_rotation (r : Rotation) : rotation.Takes (Wire.rotation r) r.rounded := by
  rw [Wire.rotation, List.append_assoc, List.append_assoc]
  exact (takes_half r.x).bind ((takes_half r.y).bind ((takes_half r.z).bind
    ((takes_half r.w).map _)))

theorem takes_point (p : Position) : point.Takes (Wire.position p) p.rounded := by
  rw [Wire.position, List.append_assoc]
  exact (takes_half p.x).bind ((takes_half p.y).bind ((takes_half p.z).map _))

theorem takes_location (l : Location) : location.Takes (Wire.location l) l.rounded :=
  ((takes_rotation l.rotation).bind ((takes_point l.position).map _)).restoring

theorem takes_hidden (key : Obfuscation) (count : UInt32) :
    (hidden key).Takes (Wire.hidden key count) count := by
  have h := (takes_u32 (key.hide count)).map key.reveal
  rwa [Obfuscation.reveal_hide] at h

theorem takes_zeros (count : Nat) : (skip count).Takes (Bytes.zeros count) () :=
  (fixed_skip count).takes (Bytes.length_zeros count)

/-! ### Texts -/

variable {text : String}

theorem takes_fixedAscii (htext : NulFree text) {size : Nat} (hsize : text.utf8ByteSize ≤ size) :
    (fixedAscii size).Takes (Utf8.padded text size) text := by
  have h := ((fixed_bytes size).takes (Utf8.length_padded text size)).map Utf8.untilNul
  rwa [id, Utf8.untilNul_padded htext hsize] at h

theorem takes_fixedUtf16 (htext : NulFree text) {size : Nat}
    (hsize : (Utf16.units text).length ≤ size) (hcount : 2 * size < UInt64.size) :
    (fixedUtf16 size).Takes (Utf16.padded text size) text := by
  have hlength : (Utf16.padded text size).length = 2 * size % UInt64.size := by
    rw [Utf16.length_padded, Nat.mod_eq_of_lt hcount]
  have h := ((fixed_bytes _).takes hlength).map Utf16.untilNul
  rwa [id, Utf16.untilNul_padded htext hsize] at h

/-- The reader takes the text, then leaves out the zeros after it. -/
theorem takes_ascii (key : Obfuscation) (htext : NulFree text)
    (hsize : text.utf8ByteSize + 1 < UInt32.size) :
    (ascii key).Takes (Wire.ascii key text) text := by
  unfold ascii Wire.ascii
  by_cases hempty : text.isEmpty
  · rw [if_pos hempty, String.isEmpty_iff.mp hempty, ← List.append_nil (Wire.hidden key 0)]
    exact (takes_hidden key 0).bind (Takes.pure "")
  rw [if_neg hempty]
  dsimp only
  have hword : (UInt32.ofNat text.utf8ByteSize + 1).toNat = text.utf8ByteSize + 1 := by
    rw [← UInt32.ofNat_one, ← UInt32.ofNat_add, UInt32.toNat_ofNat_of_lt' hsize]
  have hpadding : text.utf8ByteSize % 4 ≤ 4 := (Nat.mod_lt _ (by decide)).le
  rw [Nat.add_sub_assoc hpadding, Utf8.padded_add le_rfl]
  refine (takes_hidden key _).bind ?_
  rw [hword]
  refine (takes_fixedAscii htext le_rfl).bind ?_
  rw [← List.append_nil (Bytes.zeros _)]
  exact (takes_zeros _).bind (Takes.pure text)

/-- The terminator is part of the field. A zero unit follows it if the field would not end on a
multiple of four bytes otherwise. -/
theorem takes_utf16 (key : Obfuscation) (htext : NulFree text)
    (hsize : (Utf16.units text).length + 1 < UInt32.size) :
    (utf16 key).Takes (Wire.utf16 key text) text := by
  have hword : (UInt32.ofNat ((Utf16.units text).length + 1)).toNat =
      (Utf16.units text).length + 1 := UInt32.toNat_ofNat_of_lt' hsize
  have hcount : 2 * ((Utf16.units text).length + 1) < UInt64.size := by
    rw [UInt32.size] at hsize
    rw [UInt64.size]
    omega
  refine (takes_hidden key _).bind ?_
  dsimp only
  rw [hword, if_neg (Nat.succ_ne_zero _), Utf16.padded_add (Nat.le_succ _)]
  refine (takes_fixedUtf16 htext (Nat.le_succ _) hcount).bind ?_
  rw [← List.append_nil (Bytes.zeros _)]
  rcases Nat.mod_two_eq_zero_or_one ((Utf16.units text).length + 1) with heven | hodd
  · rw [heven]
    exact Takes.pure text
  · rw [hodd]
    exact (takes_zeros 2).bind (Takes.pure text)

end Reader

end GameShip
