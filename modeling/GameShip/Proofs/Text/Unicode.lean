import GameShip.Text.Utf16
import GameShip.Text.Utf8
import Mathlib.Tactic.IntervalCases

/-!
# Texts read back

A text is read back from its UTF-8 bytes (`Utf8.decode_encode`) and from its UTF-16 units
(`Utf16.decode_units`), and one without a zero character from a field that is large enough for it
(`Utf8.untilNul_encode`, `Utf16.untilNul_toBytes`).
-/

namespace GameShip

/-- The text has no zero character, which would end it in a field. -/
def NulFree (text : String) : Prop := '\x00' ∉ text.toList

instance (text : String) : Decidable (NulFree text) :=
  inferInstanceAs (Decidable ('\x00' ∉ text.toList))

namespace Utf8

theorem toNat_byte {n : Nat} (h : n < 256) : (UInt8.ofNat n).toNat = n :=
  UInt8.toNat_ofNat_of_lt' h

theorem continued_cons {count : Nat} {low high b : UInt8} (h : low ≤ b ∧ b ≤ high)
    (value taken : Nat) (rest : Bytes) : continued (count + 1) low high value taken (b :: rest) =
      continued count 0x80 0xBF (64 * value + b.toNat % 64) (taken + 1) rest := if_pos h

theorem lead_one {n : Nat} (h : n < 0x80) : lead (UInt8.ofNat n) = some (n, 0, 0x80, 0xBF) := by
  have hbyte := toNat_byte (n := n) (by omega)
  rw [lead, if_pos (UInt8.lt_iff_toNat_lt.mpr (by rw [hbyte]; exact h)), hbyte]

/-- The first byte of a character of two bytes. -/
theorem lead_two {t : Nat} (hlow : 2 ≤ t) (hhigh : t < 32) :
    lead (UInt8.ofNat (t + 192)) = some (t, 1, 0x80, 0xBF) := by
  interval_cases t <;> rfl

/-- The first byte of a character of three bytes. -/
theorem lead_three {t : Nat} (h : t < 16) : lead (UInt8.ofNat (t + 224)) =
    some (t, 2, if t = 0 then 0xA0 else 0x80, if t = 13 then 0x9F else 0xBF) := by
  interval_cases t <;> rfl

/-- The first byte of a character of four bytes. -/
theorem lead_four {t : Nat} (h : t < 5) : lead (UInt8.ofNat (t + 240)) =
    some (t, 3, if t = 0 then 0x90 else 0x80, if t = 4 then 0x8F else 0xBF) := by
  interval_cases t <;> rfl

/-- A byte after the first one of a character. -/
theorem tail_byte (n : Nat) : (UInt8.ofNat (n % 64 + 128)).toNat = n % 64 + 128 :=
  toNat_byte (by omega)

theorem tail_mem (n : Nat) :
    0x80 ≤ UInt8.ofNat (n % 64 + 128) ∧ UInt8.ofNat (n % 64 + 128) ≤ 0xBF := by
  rw [UInt8.le_iff_toNat_le, UInt8.le_iff_toNat_le, tail_byte]
  simp only [UInt8.reduceToNat]
  omega

/-- The first character of an encoded text is taken whole. -/
theorem scalar_utf8EncodeChar (c : Char) (rest : Bytes) :
    ∃ b bs, String.utf8EncodeChar c = b :: bs ∧ scalar b (bs ++ rest) = (c, bs.length) := by
  have hvalid : c.val.toNat < 0xD800 ∨ 0xDFFF < c.val.toNat ∧ c.val.toNat < 0x110000 := c.valid
  have hback : Char.ofNat c.val.toNat = c := Char.ofNat_toNat c
  unfold String.utf8EncodeChar
  generalize c.val.toNat = v at hvalid hback
  dsimp only
  by_cases hone : v ≤ 0x7F
  · refine ⟨_, [], if_pos hone, ?_⟩
    rw [scalar, lead_one (by omega)]
    dsimp only [continued]
    rw [hback]
    rfl
  rw [if_neg hone]
  by_cases htwo : v ≤ 0x7FF
  · refine ⟨_, _, if_pos htwo, ?_⟩
    have hvalue : 64 * (v / 64 % 32) + (v % 64 + 128) % 64 = v := by omega
    rw [scalar, lead_two (by omega) (by omega)]
    dsimp only [List.cons_append]
    rw [continued_cons (tail_mem v), tail_byte, hvalue]
    dsimp only [continued]
    rw [hback]
    rfl
  rw [if_neg htwo]
  by_cases hthree : v ≤ 0xFFFF
  · refine ⟨_, _, if_pos hthree, ?_⟩
    have hvalue : 64 * (64 * (v / 4096 % 16) + (v / 64 % 64 + 128) % 64) +
        (v % 64 + 128) % 64 = v := by omega
    rw [scalar, lead_three (by omega)]
    dsimp only [List.cons_append]
    rw [continued_cons ?_, continued_cons (tail_mem v), tail_byte, tail_byte, hvalue]
    · dsimp only [continued]
      rw [hback]
      rfl
    · -- the range leaves out overlong forms and surrogates
      rw [UInt8.le_iff_toNat_le, UInt8.le_iff_toNat_le, tail_byte, apply_ite UInt8.toNat,
        apply_ite UInt8.toNat]
      simp only [UInt8.reduceToNat]
      constructor <;> split <;> omega
  · refine ⟨_, _, if_neg hthree, ?_⟩
    have hvalue : 64 * (64 * (64 * (v / 262144 % 8) + (v / 4096 % 64 + 128) % 64) +
        (v / 64 % 64 + 128) % 64) + (v % 64 + 128) % 64 = v := by omega
    rw [scalar, lead_four (by omega)]
    dsimp only [List.cons_append]
    rw [continued_cons ?_, continued_cons (tail_mem _), continued_cons (tail_mem v), tail_byte,
      tail_byte, tail_byte, hvalue]
    · dsimp only [continued]
      rw [hback]
      rfl
    · -- the range leaves out overlong forms and numbers above those of characters
      rw [UInt8.le_iff_toNat_le, UInt8.le_iff_toNat_le, tail_byte, apply_ite UInt8.toNat,
        apply_ite UInt8.toNat]
      simp only [UInt8.reduceToNat]
      constructor <;> split <;> omega

theorem chars_encode (cs : List Char) : chars (cs.flatMap String.utf8EncodeChar) = cs := by
  induction cs with
  | nil => simp [chars]
  | cons c cs ih =>
    obtain ⟨b, bs, hbytes, hscalar⟩ :=
      scalar_utf8EncodeChar c (cs.flatMap String.utf8EncodeChar)
    rw [List.flatMap_cons, hbytes, List.cons_append, chars, hscalar]
    dsimp only
    rw [List.drop_left, ih]

/-- A text is read back from its bytes. -/
theorem decode_encode (text : String) : decode (encode text) = text := by
  rw [decode, encode, chars_encode, String.ofList_toList]

theorem length_encode (text : String) : (encode text).length = text.utf8ByteSize := by
  have h : (String.ofList text.toList).toByteArray.size = (encode text).length := by
    rw [String.toByteArray_ofList]
    exact List.size_toByteArray
  rw [← h, String.ofList_toList, String.size_toByteArray]

/-- Only the zero character has a zero byte. -/
theorem ne_zero_of_mem_utf8EncodeChar {c : Char} (hc : c ≠ '\x00') {b : UInt8}
    (h : b ∈ String.utf8EncodeChar c) : b ≠ 0 := by
  have hpos : c.val.toNat ≠ 0 := fun hzero => hc (Char.ext (UInt32.toNat_inj.mp hzero))
  have hbyte : ∃ n, b = UInt8.ofNat n ∧ 0 < n ∧ n < 256 := by
    unfold String.utf8EncodeChar at h
    generalize c.val.toNat = v at hpos h
    dsimp only at h
    repeat' split at h
    all_goals simp only [List.mem_cons, List.not_mem_nil, or_false] at h
    all_goals rcases h with rfl | rfl | rfl | rfl
    all_goals exact ⟨_, rfl, by omega, by omega⟩
  obtain ⟨n, rfl, hn, hn'⟩ := hbyte
  intro hzero
  have := toNat_byte hn'
  rw [hzero] at this
  exact hn.ne this

theorem takeWhile_encode {text : String} (h : NulFree text) (bs : Bytes) :
    (encode text ++ bs).takeWhile (· ≠ 0) = encode text ++ bs.takeWhile (· ≠ 0) := by
  refine List.takeWhile_append_of_pos fun b hb => ?_
  obtain ⟨c, hmem, hb⟩ := List.mem_flatMap.mp hb
  exact decide_eq_true (ne_zero_of_mem_utf8EncodeChar (fun hc => h (hc ▸ hmem)) hb)

/-- A text is read back from a field, whether it fills the field or zeros follow. -/
theorem untilNul_encode {text : String} (h : NulFree text) (count : Nat) :
    untilNul (encode text ++ Bytes.zeros count) = text := by
  have hzeros : (Bytes.zeros count).takeWhile (· ≠ 0) = [] := by
    cases count <;> simp [Bytes.zeros, List.replicate_succ]
  rw [untilNul, takeWhile_encode h, hzeros, List.append_nil, decode_encode]

/-- A field that is large enough holds the whole text. -/
theorem padded_eq {text : String} {size : Nat} (h : text.utf8ByteSize ≤ size) :
    padded text size = encode text ++ Bytes.zeros (size - text.utf8ByteSize) := by
  have htake : (encode text).take size = encode text :=
    List.take_of_length_le ((length_encode text).trans_le h)
  rw [padded, htake, length_encode]

theorem untilNul_padded {text : String} {size : Nat} (h : NulFree text)
    (hsize : text.utf8ByteSize ≤ size) : untilNul (padded text size) = text := by
  rw [padded_eq hsize, untilNul_encode h]

/-- A larger field has more zeros at its end. -/
theorem padded_add {text : String} {size : Nat} (h : text.utf8ByteSize ≤ size) (count : Nat) :
    padded text (size + count) = padded text size ++ Bytes.zeros count := by
  rw [padded_eq h, padded_eq (h.trans (Nat.le_add_right size count)), Nat.sub_add_comm h,
    List.append_assoc, Bytes.zeros, Bytes.zeros, Bytes.zeros, List.replicate_append_replicate]

end Utf8

namespace Utf16

theorem toNat_unit {n : Nat} (h : n < 65536) : (UInt16.ofNat n).toNat = n :=
  UInt16.toNat_ofNat_of_lt' h

theorem isHigh_eq {n : Nat} (h : n < 65536) :
    isHigh (UInt16.ofNat n) = decide (0xD800 ≤ n ∧ n < 0xDC00) := by
  simp only [isHigh, UInt16.le_iff_toNat_le, UInt16.lt_iff_toNat_lt, toNat_unit h,
    UInt16.reduceToNat, Bool.decide_and]

theorem isLow_eq {n : Nat} (h : n < 65536) :
    isLow (UInt16.ofNat n) = decide (0xDC00 ≤ n ∧ n < 0xE000) := by
  simp only [isLow, UInt16.le_iff_toNat_le, UInt16.lt_iff_toNat_lt, toNat_unit h,
    UInt16.reduceToNat, Bool.decide_and]

theorem chars_plain {u : UInt16} (hhigh : isHigh u = false) (hlow : isLow u = false)
    (us : List UInt16) : chars (u :: us) = Char.ofNat u.toNat :: chars us := by
  cases us <;> simp [chars, hhigh, hlow]

theorem chars_pair {u v : UInt16} (hhigh : isHigh u = true) (hlow : isLow v = true)
    (us : List UInt16) : chars (u :: v :: us) = pair u v :: chars us := by
  simp [chars, hhigh, hlow]

/-- The units of a character are taken whole. -/
theorem chars_charUnits (c : Char) (us : List UInt16) :
    chars (charUnits c ++ us) = c :: chars us := by
  have hvalid : c.toNat < 0xD800 ∨ 0xDFFF < c.toNat ∧ c.toNat < 0x110000 := c.valid
  have hback : Char.ofNat c.toNat = c := Char.ofNat_toNat c
  unfold charUnits
  generalize c.toNat = n at hvalid hback
  dsimp only
  by_cases hplain : n < 0x10000
  · rw [if_pos hplain, List.singleton_append, chars_plain, toNat_unit hplain, hback]
    · rw [isHigh_eq hplain]
      exact decide_eq_false (by omega)
    · rw [isLow_eq hplain]
      exact decide_eq_false (by omega)
  · have hvalue : 0x10000 + (0xD800 + (n - 0x10000) / 1024 - 0xD800) * 1024 +
        (0xDC00 + (n - 0x10000) % 1024 - 0xDC00) = n := by omega
    rw [if_neg hplain, List.cons_append, List.singleton_append, chars_pair, pair,
      toNat_unit (by omega), toNat_unit (by omega), hvalue, hback]
    · rw [isHigh_eq (by omega)]
      exact decide_eq_true (by omega)
    · rw [isLow_eq (by omega)]
      exact decide_eq_true (by omega)

theorem chars_units (cs : List Char) : chars (cs.flatMap charUnits) = cs := by
  induction cs with
  | nil => rfl
  | cons c cs ih => rw [List.flatMap_cons, chars_charUnits, ih]

/-- A text is read back from its units. -/
theorem decode_units (text : String) : decode (units text) = text := by
  rw [decode, units, chars_units, String.ofList_toList]

/-- Only the zero character has a zero unit. -/
theorem ne_zero_of_mem_charUnits {c : Char} (hc : c ≠ '\x00') {u : UInt16}
    (h : u ∈ charUnits c) : u ≠ 0 := by
  have hpos : c.toNat ≠ 0 := fun hzero => hc (Char.ext (UInt32.toNat_inj.mp hzero))
  have hlimit : c.toNat < 0x110000 := by
    have : c.toNat < 0xD800 ∨ 0xDFFF < c.toNat ∧ c.toNat < 0x110000 := c.valid
    omega
  have hunit : ∃ n, u = UInt16.ofNat n ∧ 0 < n ∧ n < 65536 := by
    unfold charUnits at h
    generalize c.toNat = n at hpos hlimit h
    dsimp only at h
    split at h
    all_goals simp only [List.mem_cons, List.not_mem_nil, or_false] at h
    all_goals rcases h with rfl | rfl
    all_goals exact ⟨_, rfl, by omega, by omega⟩
  obtain ⟨n, rfl, hn, hn'⟩ := hunit
  intro hzero
  have := toNat_unit hn'
  rw [hzero] at this
  exact hn.ne this

theorem ofBytes_toBytes (us : List UInt16) : ofBytes (toBytes us) = us := by
  induction us with
  | nil => rfl
  | cons u us ih =>
    have hunit : UInt16.ofNat (Bytes.value (Bytes.ofNat 2 u.toNat)) = u := by
      have := u.toNat_lt
      rw [Bytes.value_ofNat, Bytes.bound, Bytes.bound, Bytes.bound,
        Nat.mod_eq_of_lt (by omega), UInt16.ofNat_toNat]
    change UInt16.ofNat (Bytes.value (Bytes.ofNat 2 u.toNat)) :: ofBytes (toBytes us) = u :: us
    rw [hunit, ih]

/-- A text is read back from the units of a field, whether it fills the field or zeros follow. -/
theorem untilNul_toBytes {text : String} (h : NulFree text) (count : Nat) :
    untilNul (toBytes (units text ++ List.replicate count 0)) = text := by
  have hunits : ∀ u ∈ units text, decide (u ≠ 0) = true := fun u hu => by
    obtain ⟨c, hmem, hu⟩ := List.mem_flatMap.mp hu
    exact decide_eq_true (ne_zero_of_mem_charUnits (fun hc => h (hc ▸ hmem)) hu)
  have hzeros : (List.replicate count (0 : UInt16)).takeWhile (· ≠ 0) = [] := by
    cases count <;> simp [List.replicate_succ]
  rw [untilNul, ofBytes_toBytes, List.takeWhile_append_of_pos hunits, hzeros, List.append_nil,
    decode_units]

/-- A field that is large enough holds the whole text. -/
theorem padded_eq {text : String} {size : Nat} (h : (units text).length ≤ size) :
    padded text size = toBytes (units text ++ List.replicate (size - (units text).length) 0) := by
  rw [padded, List.take_of_length_le h]

theorem untilNul_padded {text : String} {size : Nat} (h : NulFree text)
    (hsize : (units text).length ≤ size) : untilNul (padded text size) = text := by
  rw [padded_eq hsize, untilNul_toBytes h]

theorem toBytes_append (us vs : List UInt16) : toBytes (us ++ vs) = toBytes us ++ toBytes vs :=
  List.flatMap_append

theorem toBytes_zeros (count : Nat) :
    toBytes (List.replicate count 0) = Bytes.zeros (2 * count) := by
  induction count with
  | zero => rfl
  | succ count ih =>
    rw [List.replicate_succ, ← List.singleton_append, toBytes_append, ih, Nat.mul_succ,
      Nat.add_comm, Bytes.zeros, Bytes.zeros, ← List.replicate_append_replicate]
    rfl

/-- A larger field has more zeros at its end. -/
theorem padded_add {text : String} {size : Nat} (h : (units text).length ≤ size) (count : Nat) :
    padded text (size + count) = padded text size ++ Bytes.zeros (2 * count) := by
  rw [padded_eq h, padded_eq (h.trans (Nat.le_add_right size count)), Nat.sub_add_comm h,
    ← List.replicate_append_replicate, ← List.append_assoc, toBytes_append, toBytes_zeros]

end Utf16

end GameShip
