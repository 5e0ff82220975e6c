import GameShip.Half
import Mathlib.Tactic.IntervalCases

/-!
# Short numbers there and back

A binary16 number that is widened and rounded again is the number it was, but for a signalling
NaN, which becomes quiet (`Half.ofSingle_toSingle`). Rounding gives no signalling NaN
(`Half.not_isSignalling_ofSingle`).
-/

namespace GameShip

namespace Single

variable {sign exponent fraction : Nat}

theorem toNat_ofParts (hsign : sign < 2) (hexponent : exponent < 0x100)
    (hfraction : fraction < 0x800000) : (ofParts sign exponent fraction).bits.toNat =
      sign * 0x80000000 + exponent * 0x800000 + fraction :=
  UInt32.toNat_ofNat_of_lt' (by rw [UInt32.size]; omega)

theorem sign_ofParts (hsign : sign < 2) (hexponent : exponent < 0x100)
    (hfraction : fraction < 0x800000) : (ofParts sign exponent fraction).sign = sign := by
  rw [Single.sign, toNat_ofParts hsign hexponent hfraction]
  omega

theorem exponent_ofParts (hsign : sign < 2) (hexponent : exponent < 0x100)
    (hfraction : fraction < 0x800000) :
    (ofParts sign exponent fraction).exponent = exponent := by
  rw [Single.exponent, toNat_ofParts hsign hexponent hfraction]
  omega

theorem fraction_ofParts (hsign : sign < 2) (hexponent : exponent < 0x100)
    (hfraction : fraction < 0x800000) :
    (ofParts sign exponent fraction).fraction = fraction := by
  rw [Single.fraction, toNat_ofParts hsign hexponent hfraction]
  omega

end Single

/-- Nothing is rounded away from a multiple of the unit. -/
theorem roundShift_shiftLeft (m shift : Nat) : roundShift (m <<< shift) shift = m := by
  have hunit : 0 < 1 <<< shift := by
    rw [Nat.one_shiftLeft]
    exact Nat.two_pow_pos shift
  have hproduct : m <<< shift = m * 1 <<< shift := by rw [Nat.one_shiftLeft, Nat.shiftLeft_eq]
  unfold roundShift
  dsimp only
  rw [hproduct, Nat.mul_mod_left, Nat.mul_div_cancel _ hunit, Nat.mul_zero, if_neg]
  simp [hunit.ne, hunit.not_gt]

namespace Half

/-- The number is a NaN, and the top bit of its payload, which marks a quiet one, is clear. -/
def IsSignalling (h : Half) : Prop := h.exponent = 31 ∧ 0 < h.fraction ∧ h.fraction < 0x200

instance (h : Half) : Decidable h.IsSignalling := inferInstanceAs (Decidable (_ ∧ _))

/-- A signalling NaN becomes the quiet one with the same sign and payload. Every other number
stays as it is. -/
def quiet (h : Half) : Half := if h.IsSignalling then ⟨h.bits + 0x200⟩ else h

variable (h : Half)

theorem sign_lt : h.sign < 2 := by
  have := h.bits.toNat_lt
  rw [sign]
  omega

theorem exponent_lt : h.exponent < 0x20 := Nat.mod_lt _ (by decide)

theorem fraction_lt : h.fraction < 0x400 := Nat.mod_lt _ (by decide)

theorem toNat_bits : h.bits.toNat = h.sign * 0x8000 + h.exponent * 0x400 + h.fraction := by
  rw [sign, exponent, fraction]
  omega

/-- The bit that makes a NaN quiet. -/
theorem quietBit_or {payload : Nat} (hlt : payload < 0x400) :
    0x200 ||| payload = if payload < 0x200 then 0x200 + payload else payload := by
  have hor : ∀ low < 0x200, 0x200 ||| low = 0x200 + low := fun low hlow =>
    (Nat.two_pow_add_eq_or_of_lt (i := 9) hlow 1).symm
  split
  · exact hor payload ‹_›
  · obtain ⟨low, rfl⟩ := Nat.exists_eq_add_of_le (Nat.le_of_not_lt ‹_›)
    rw [← hor low (by omega), ← Nat.or_assoc, Nat.or_self]

/-- A number is made up of its parts. -/
theorem mk_parts {body : Nat} (hbody : body = h.exponent * 0x400 + h.fraction) :
    (⟨UInt16.ofNat (h.sign * 0x8000 + body)⟩ : Half) = h := by
  rw [hbody, ← Nat.add_assoc, ← h.toNat_bits, UInt16.ofNat_toNat]

section OfParts

variable {sign exponent fraction : Nat}

theorem ofSingle_ofParts (hsign : sign < 2) (hexponent : exponent < 255)
    (hfraction : fraction < 0x800000) :
    ofSingle (Single.ofParts sign exponent fraction) = ⟨UInt16.ofNat (sign * 0x8000 +
      if 143 ≤ exponent then 0x7C00
      else if exponent ≤ 112 then
        if exponent < 102 then 0 else roundShift (0x800000 + fraction) (126 - exponent)
      else roundShift ((exponent - 112) * 0x800000 + fraction) 13)⟩ := by
  have hexponent' : exponent < 0x100 := hexponent.trans (by decide)
  unfold ofSingle magnitude
  rw [Single.sign_ofParts hsign hexponent' hfraction,
    Single.exponent_ofParts hsign hexponent' hfraction,
    Single.fraction_ofParts hsign hexponent' hfraction, if_neg hexponent.ne]

theorem ofSingle_ofParts_special (hsign : sign < 2) (hfraction : fraction < 0x800000) :
    ofSingle (Single.ofParts sign 255 fraction) = ⟨UInt16.ofNat (sign * 0x8000 +
      if fraction = 0 then 0x7C00 else 0x7C00 + (0x200 ||| fraction / 0x2000))⟩ := by
  unfold ofSingle
  rw [Single.sign_ofParts hsign (by decide) hfraction,
    Single.exponent_ofParts hsign (by decide) hfraction,
    Single.fraction_ofParts hsign (by decide) hfraction, if_pos rfl]

end OfParts

variable {h}

/-- Shifted to its leading bit, the fraction of a number below the normal range is a significand. -/
theorem significand_bounds (hfraction : h.fraction ≠ 0) :
    h.fraction.log2 < 10 ∧ 0x800000 ≤ h.fraction <<< (23 - h.fraction.log2) ∧
      h.fraction <<< (23 - h.fraction.log2) < 2 * 0x800000 := by
  have hlt := h.fraction_lt
  obtain ⟨top, htop⟩ : ∃ top, h.fraction.log2 = top := ⟨_, rfl⟩
  have hlow : 2 ^ top ≤ h.fraction := htop ▸ Nat.log2_self_le hfraction
  have hhigh : h.fraction < 2 ^ (top + 1) := htop ▸ Nat.lt_log2_self
  have hten : top < 10 := (Nat.pow_lt_pow_iff_right (by decide)).mp (hlow.trans_lt hlt)
  have hscale : 2 ^ top * 2 ^ (23 - top) = 0x800000 := by
    rw [← Nat.pow_add, Nat.add_sub_cancel' (by omega)]
  rw [htop, Nat.shiftLeft_eq]
  refine ⟨hten, ?_, ?_⟩
  · rw [← hscale]
    exact Nat.mul_le_mul_right _ hlow
  · rw [← hscale, ← Nat.mul_assoc, ← Nat.pow_succ']
    exact Nat.mul_lt_mul_of_pos_right hhigh (Nat.two_pow_pos _)

/-- A number below the normal range is a multiple of the smallest one, which the rounding counts
by. -/
theorem ofSingle_toSingle_subnormal (hexponent : h.exponent = 0) (hfraction : h.fraction ≠ 0) :
    ofSingle h.toSingle = h := by
  obtain ⟨hten, hge, hle⟩ := significand_bounds hfraction
  unfold toSingle
  rw [if_pos hexponent, if_neg hfraction]
  dsimp only
  rw [ofSingle_ofParts h.sign_lt (by omega) (by omega), if_neg (by omega), if_pos (by omega),
    if_neg (by omega)]
  refine h.mk_parts ?_
  rw [Nat.add_sub_cancel' hge, show 126 - (h.fraction.log2 + 103) = 23 - h.fraction.log2 by omega,
    roundShift_shiftLeft, hexponent, Nat.zero_mul, Nat.zero_add]

theorem ofSingle_toSingle_normal (hpos : h.exponent ≠ 0) (hfinite : h.exponent ≠ 31) :
    ofSingle h.toSingle = h := by
  have hexponent := h.exponent_lt
  have hfraction := h.fraction_lt
  have hexact : roundShift ((h.exponent + 112 - 112) * 0x800000 + h.fraction * 0x2000) 13 =
      h.exponent * 0x400 + h.fraction := by
    have hscaled : (h.exponent + 112 - 112) * 0x800000 + h.fraction * 0x2000 =
        (h.exponent * 0x400 + h.fraction) * 2 ^ 13 := by omega
    rw [hscaled, ← Nat.shiftLeft_eq, roundShift_shiftLeft]
  unfold toSingle
  rw [if_neg hpos, if_neg hfinite, ofSingle_ofParts h.sign_lt (by omega) (by omega),
    if_neg (by omega), if_neg (by omega), hexact]
  exact h.mk_parts rfl

theorem ofSingle_toSingle_special (hexponent : h.exponent = 31) :
    ofSingle h.toSingle = h.quiet := by
  have hlt := h.fraction_lt
  unfold toSingle
  rw [if_neg (by omega), if_pos hexponent, ofSingle_ofParts_special h.sign_lt (by omega),
    Nat.mul_div_cancel _ (by decide), quietBit_or hlt, quiet]
  by_cases hsignalling : h.IsSignalling
  · have hpos := hsignalling.2.1
    have hsum : h.sign * 0x8000 + (0x7C00 + (0x200 + h.fraction)) = h.bits.toNat + 0x200 := by
      rw [h.toNat_bits, hexponent]
      omega
    rw [if_pos hsignalling, if_pos hsignalling.2.2, if_neg (by omega), hsum, UInt16.ofNat_add,
      UInt16.ofNat_toNat]
    rfl
  · rw [if_neg hsignalling]
    refine h.mk_parts ?_
    rw [hexponent]
    rcases Nat.eq_zero_or_pos h.fraction with hzero | hpos
    · rw [if_pos (by rw [hzero]), hzero]
    · have hquiet : ¬h.fraction < 0x200 := fun hlow => hsignalling ⟨hexponent, hpos, hlow⟩
      rw [if_neg (by omega), if_neg hquiet]

/-- A number that is widened and rounded is the number it was, but a signalling NaN becomes
quiet. -/
theorem ofSingle_toSingle (h : Half) : ofSingle h.toSingle = h.quiet := by
  by_cases hspecial : h.exponent = 31
  · exact ofSingle_toSingle_special hspecial
  rw [quiet, if_neg fun hsignalling => hspecial hsignalling.1]
  by_cases hexponent : h.exponent = 0
  · by_cases hfraction : h.fraction = 0
    · rw [toSingle, if_pos hexponent, if_pos hfraction,
        ofSingle_ofParts h.sign_lt (by decide) (by decide)]
      exact h.mk_parts (by rw [hexponent, hfraction]; rfl)
    · exact ofSingle_toSingle_subnormal hexponent hfraction
  · exact ofSingle_toSingle_normal hexponent hspecial

theorem quiet_eq_self {h : Half} (hquiet : ¬h.IsSignalling) : h.quiet = h := if_neg hquiet

/-- No magnitude is beyond infinity. -/
theorem magnitude_le (x : Single) : magnitude x ≤ 0x7C00 := by
  have hround (m shift : Nat) : roundShift m shift ≤ m / 1 <<< shift + 1 := by
    unfold roundShift
    dsimp only
    split <;> omega
  have hfraction : x.fraction < 0x800000 := Nat.mod_lt _ (by decide)
  unfold magnitude
  split
  · exact le_rfl
  split
  · split
    · exact Nat.zero_le _
    · have hpow : 2 ^ 14 ≤ 2 ^ (126 - x.exponent) := Nat.pow_le_pow_right (by decide) (by omega)
      have hunit : 0x4000 ≤ 1 <<< (126 - x.exponent) := by rwa [Nat.one_shiftLeft]
      refine (hround _ _).trans ?_
      have hquotient : (0x800000 + x.fraction) / 1 <<< (126 - x.exponent) ≤
          (0x800000 + x.fraction) / 0x4000 := Nat.div_le_div_left hunit (by decide)
      omega
  · refine (hround _ _).trans ?_
    have hunit : 1 <<< 13 = 0x2000 := rfl
    rw [hunit]
    omega

/-- Rounding gives no signalling NaN. -/
theorem not_isSignalling_ofSingle (x : Single) : ¬(ofSingle x).IsSignalling := by
  rintro ⟨hexponent, hpos, hlow⟩
  have hsign : x.sign < 2 := by
    have := x.bits.toNat_lt
    rw [Single.sign]
    omega
  have hfraction : x.fraction < 0x800000 := Nat.mod_lt _ (by decide)
  have hmagnitude := magnitude_le x
  simp only [exponent, fraction, ofSingle, UInt16.toNat_ofNat'] at hexponent hpos hlow
  split at hexponent
  · split at hexponent
    · rename_i hnan hzero
      rw [if_pos hnan, if_pos hzero] at hpos
      omega
    · rename_i hnan hzero
      rw [if_pos hnan, if_neg hzero, quietBit_or (by omega)] at hlow
      split at hlow <;> omega
  · rename_i hnan
    rw [if_neg hnan] at hpos hlow
    omega

end Half

end GameShip
