import GameShip.Proofs.Text.Unicode

/-!
# Any bytes as a text

A byte string need not be the encoding of a text. `Utf8.Piece` is what its first bytes can become:
a piece that is no character turns into U+FFFD, and anything else is a character whose value is in
range. Two facts about the texts of fields follow.

* `Utf8.nulFree_untilNul`: the text before the first zero byte has no zero character.
* `Utf8.utf8ByteSize_untilNul_le`: it takes up to three times the bytes of its field, as a U+FFFD
  may stand for a single byte.
-/

namespace GameShip.Utf8

/-- `value` holds the bits so far of a character of several bytes, of which `count` are to come.
Whatever these are, the character is in range. -/
def Promising : (count value : Nat) → Prop
  | 0, value => 0x80 ≤ value ∧ value.isValidChar
  | count + 1, value => ∀ bits < 64, Promising count (64 * value + bits)

/-- What the bytes of a text after some point may start with: a byte `b` and `length` others. -/
inductive Piece (b : UInt8) (length : Nat) : Char × Nat → Prop
  /-- The bytes break off, or are no character from the start. -/
  | broken {taken : Nat} (htaken : taken ≤ length) : Piece b length (replacement, taken)
  | single (hb : b.toNat < 0x80) : Piece b length (Char.ofNat b.toNat, 0)
  | several {value taken : Nat} (hvalue : Promising 0 value) (hpos : 0 < taken)
    (htaken : taken ≤ length) : Piece b length (Char.ofNat value, taken)

/-- The range of the byte after the first one leaves out overlong forms, surrogates and numbers
above those of characters. -/
theorem lead_eq_some {b low high : UInt8} {value count : Nat}
    (h : lead b = some (value, count, low, high)) :
    (value = b.toNat ∧ count = 0 ∧ b.toNat < 0x80) ∨
      ∃ more, count = more + 1 ∧
        ∀ s : UInt8, low ≤ s → s ≤ high → Promising more (64 * value + s.toNat % 64) := by
  simp only [lead, UInt8.lt_iff_toNat_lt, ← UInt8.toNat_inj, UInt8.reduceToNat] at h
  split_ifs at h
  all_goals rcases h with ⟨rfl, rfl, rfl, rfl⟩
  · exact .inl ⟨rfl, rfl, by assumption⟩
  all_goals
    refine .inr ⟨_, rfl, fun s hlow hhigh => ?_⟩
    simp only [UInt8.le_iff_toNat_le, UInt8.reduceToNat] at hlow hhigh
    simp only [Promising, Nat.isValidChar]
    omega

theorem piece_continued (b : UInt8) {count value : Nat} (h : Promising count value) {taken : Nat}
    (hpos : 0 < taken) (rest : Bytes) {length : Nat} (hlength : taken + rest.length ≤ length) :
    Piece b length (continued count 0x80 0xBF value taken rest) := by
  induction count generalizing value taken rest with
  | zero => exact .several h hpos (by omega)
  | succ count ih =>
    cases rest with
    | nil => exact .broken (by simpa using hlength)
    | cons s rest =>
      rw [List.length_cons] at hlength
      unfold continued
      split
      · exact ih (h _ (Nat.mod_lt _ (by decide))) (Nat.succ_pos taken) rest (by omega)
      · exact .broken (by omega)

theorem piece_scalar (b : UInt8) (rest : Bytes) : Piece b rest.length (scalar b rest) := by
  unfold scalar
  split
  case h_2 => exact .broken (Nat.zero_le _)
  case h_1 value count low high hlead =>
    obtain ⟨rfl, rfl, hb⟩ | ⟨more, rfl, hmore⟩ := lead_eq_some hlead
    · exact .single hb
    · cases rest with
      | nil => exact .broken (Nat.zero_le _)
      | cons s rest =>
        unfold continued
        split
        case isTrue hs =>
          exact piece_continued b (hmore s hs.1 hs.2) Nat.one_pos rest (Nat.add_comm _ _).le
        case isFalse => exact .broken (Nat.zero_le _)

theorem toNat_char {value : Nat} (h : value.isValidChar) : (Char.ofNat value).toNat = value := by
  rw [Char.ofNat, dif_pos h]
  rfl

namespace Piece

variable {b : UInt8} {length : Nat} {piece : Char × Nat}

/-- A zero character comes from a zero byte only. -/
theorem ne_nul (h : Piece b length piece) (hb : b ≠ 0) : piece.1 ≠ '\x00' := by
  intro hnul
  have hzero : piece.1.toNat = 0 := congrArg Char.toNat hnul
  cases h with
  | broken =>
    have hreplacement : replacement.toNat ≠ 0 := by decide
    exact hreplacement hzero
  | single hsmall =>
    rw [toNat_char (.inl (by omega))] at hzero
    exact hb (UInt8.toNat_inj.mp hzero)
  | several hvalue =>
    rw [toNat_char hvalue.2] at hzero
    have := hvalue.1
    omega

theorem taken_le (h : Piece b length piece) : piece.2 ≤ length := by
  cases h with
  | broken htaken => exact htaken
  | single => exact Nat.zero_le _
  | several _ _ htaken => exact htaken

/-- A U+FFFD takes three bytes, and only what stands for several bytes can take four. -/
theorem utf8Size_le (h : Piece b length piece) : piece.1.utf8Size ≤ 3 * (piece.2 + 1) := by
  cases h with
  | broken => exact Nat.le_mul_of_pos_right 3 (Nat.succ_pos _)
  | single hsmall =>
    have hval : (Char.ofNat b.toNat).val ≤ 127 := by
      rw [UInt32.le_iff_toNat_le]
      change (Char.ofNat b.toNat).toNat ≤ 127
      rw [toNat_char (.inl (by omega))]
      omega
    have hone : (Char.ofNat b.toNat).utf8Size = 1 := if_pos hval
    exact hone.trans_le (Nat.succ_le_succ (Nat.zero_le 2))
  | several _ hpos =>
    refine (Char.utf8Size_le_four _).trans ?_
    dsimp only
    omega

end Piece

/-- A zero character comes from a zero byte only. -/
theorem nul_notMem_chars {bs : Bytes} (h : 0 ∉ bs) : '\x00' ∉ chars bs := by
  induction bs using chars.induct with
  | case1 => simp [chars]
  | case2 b rest ih =>
    rw [List.mem_cons, not_or] at h
    rw [chars, List.mem_cons, not_or]
    exact ⟨((piece_scalar b rest).ne_nul (Ne.symm h.1)).symm,
      ih (mt List.mem_of_mem_drop h.2)⟩

theorem utf8ByteSize_decode_le (bs : Bytes) : (decode bs).utf8ByteSize ≤ 3 * bs.length := by
  rw [← length_encode, encode, decode, String.toList_ofList]
  induction bs using chars.induct with
  | case1 => simp [chars]
  | case2 b rest ih =>
    have hpiece := piece_scalar b rest
    have hsize := hpiece.utf8Size_le
    have htaken := hpiece.taken_le
    rw [List.length_drop] at ih
    rw [chars, List.flatMap_cons, List.length_append, String.length_utf8EncodeChar,
      List.length_cons]
    omega

@[simp] theorem untilNul_nil : untilNul [] = "" := by
  simp [untilNul, decode, chars]

/-- Nothing after the first zero byte of a field becomes part of its text. -/
theorem nulFree_untilNul (bs : Bytes) : NulFree (untilNul bs) := by
  rw [NulFree, untilNul, decode, String.toList_ofList]
  refine nul_notMem_chars fun hmem => ?_
  simpa using List.all_eq_true.mp List.all_takeWhile 0 hmem

theorem utf8ByteSize_untilNul_le (bs : Bytes) : (untilNul bs).utf8ByteSize ≤ 3 * bs.length :=
  (utf8ByteSize_decode_le _).trans
    (Nat.mul_le_mul_left 3 (List.takeWhile_prefix _).length_le)

-- each of two bytes that start no character becomes a U+FFFD, and nothing after a zero is read
example : (untilNul [0xFF, 0xFE, 0, 0x41]).utf8ByteSize = 6 := by
  cbv

end GameShip.Utf8
