import GameShip.Proofs.Movement.Half
import Mathlib.Algebra.Order.Field.Basic
import Mathlib.Tactic.Positivity
import Mathlib.Tactic.Ring

/-!
# The nearest short number

A binary32 number becomes the nearest binary16 number, of two the even one, and infinity from
halfway above the largest finite number on (`Half.ofSingle_nearest`). Everything is counted in
`2 ^ -149`, the smallest binary32 number, of which every finite number of either kind is a multiple.

* `Single.value`, `Half.value`: the value of a finite number, which widening keeps
  (`Half.toSingle_exact`).
* `Half.level`: the magnitudes of binary16 numbers, in the order of their bits.
* `Half.Nearest`: a magnitude is nearest to the one with the given bits.
-/

namespace GameShip

namespace Single

variable (x : Single)

def IsFinite : Prop := x.exponent ≠ 255

instance : Decidable x.IsFinite := inferInstanceAs (Decidable (_ ≠ _))

def IsInfinite : Prop := x.exponent = 255 ∧ x.fraction = 0

def IsNaN : Prop := x.exponent = 255 ∧ x.fraction ≠ 0

/-- The value of a finite number. -/
def value : ℚ :=
  (-1) ^ x.sign *
    if x.exponent = 0 then (x.fraction : ℚ) / 2 ^ 23 * 2 ^ (-126 : ℤ)
    else (1 + (x.fraction : ℚ) / 2 ^ 23) * 2 ^ ((x.exponent : ℤ) - 127)

/-- The magnitude of a finite number, counted in `2 ^ -149`. -/
def units : ℕ :=
  if x.exponent = 0 then x.fraction else (0x800000 + x.fraction) * 2 ^ (x.exponent - 1)

theorem sign_lt : x.sign < 2 := by
  have := x.bits.toNat_lt
  rw [sign]
  omega

theorem fraction_lt : x.fraction < 0x800000 := Nat.mod_lt _ (by decide)

theorem value_eq : x.value = (-1) ^ x.sign * (x.units / 2 ^ 149) := by
  unfold value units
  congr 1
  split
  · rw [zpow_neg]
    norm_num
    ring
  · rename_i hpos
    obtain ⟨e, he⟩ := Nat.exists_eq_add_one_of_ne_zero hpos
    have hscale : (2 : ℚ) ^ ((x.exponent : ℤ) - 127) = 2 ^ e / 2 ^ 126 := by
      rw [he, show ((e + 1 : ℕ) : ℤ) - 127 = (e : ℤ) - (126 : ℕ) by omega,
        zpow_sub₀ two_ne_zero, zpow_natCast, zpow_natCast]
    rw [hscale, he, Nat.add_sub_cancel]
    push_cast
    ring

end Single

/-- What rounding to a multiple of a power of two comes to: the outcome is at most half of the power
away, and even if it is exactly that far away. -/
theorem roundShift_spec (m shift : ℕ) :
    let q := roundShift m shift
    2 * m ≤ (2 * q + 1) * 2 ^ shift ∧ 2 * q * 2 ^ shift ≤ 2 * m + 2 ^ shift ∧
      (2 * m = (2 * q + 1) * 2 ^ shift ∨ 2 * q * 2 ^ shift = 2 * m + 2 ^ shift → q % 2 = 0) := by
  have hdiv := Nat.div_add_mod m (2 ^ shift)
  have hrest := Nat.mod_lt m (Nat.two_pow_pos shift)
  unfold roundShift
  rw [Nat.one_shiftLeft]
  dsimp only
  generalize 2 ^ shift = unit, m / 2 ^ shift = quotient, m % 2 ^ shift = rest at *
  subst hdiv
  split
  · rename_i hup
    simp only [Bool.or_eq_true, Bool.and_eq_true, decide_eq_true_eq, beq_iff_eq] at hup
    rw [show (2 * (quotient + 1) + 1) * unit = 2 * (unit * quotient) + 3 * unit by ring,
      show 2 * (quotient + 1) * unit = 2 * (unit * quotient) + 2 * unit by ring]
    omega
  · rename_i hdown
    simp only [Bool.or_eq_true, Bool.and_eq_true, decide_eq_true_eq, beq_iff_eq] at hdown
    rw [show (2 * quotient + 1) * unit = 2 * (unit * quotient) + unit by ring,
      show 2 * quotient * unit = 2 * (unit * quotient) by ring]
    omega

theorem le_roundShift {k m shift : ℕ} (h : k * 2 ^ shift ≤ m) : k ≤ roundShift m shift := by
  obtain ⟨hspec, -, -⟩ := roundShift_spec m shift
  have hk : 2 * k * 2 ^ shift ≤ (2 * roundShift m shift + 1) * 2 ^ shift := by
    rw [Nat.mul_assoc]
    omega
  have := Nat.le_of_mul_le_mul_right hk (Nat.two_pow_pos shift)
  omega

theorem roundShift_le {k m shift : ℕ} (h : m ≤ k * 2 ^ shift) : roundShift m shift ≤ k := by
  obtain ⟨-, hspec, -⟩ := roundShift_spec m shift
  have hk : 2 * roundShift m shift * 2 ^ shift ≤ (2 * k + 1) * 2 ^ shift := by
    rw [Nat.add_mul, Nat.mul_assoc 2 k, Nat.one_mul]
    omega
  have := Nat.le_of_mul_le_mul_right hk (Nat.two_pow_pos shift)
  omega

namespace Half

variable (h : Half)

def IsFinite : Prop := h.exponent ≠ 31

instance : Decidable h.IsFinite := inferInstanceAs (Decidable (_ ≠ _))

def IsInfinite : Prop := h.exponent = 31 ∧ h.fraction = 0

def IsNaN : Prop := h.exponent = 31 ∧ h.fraction ≠ 0

/-- The value of a finite number. -/
def value : ℚ :=
  (-1) ^ h.sign *
    if h.exponent = 0 then (h.fraction : ℚ) / 2 ^ 10 * 2 ^ (-14 : ℤ)
    else (1 + (h.fraction : ℚ) / 2 ^ 10) * 2 ^ ((h.exponent : ℤ) - 15)

/-- The bits without the sign. -/
def body : ℕ := h.exponent * 0x400 + h.fraction

/-- The magnitude of the numbers with the given body, counted in `2 ^ -149`. Infinity counts as the
first power of two that is too large. -/
def level (body : ℕ) : ℕ :=
  if body < 0x400 then body * 2 ^ 125
  else (0x400 + body % 0x400) * 2 ^ (body / 0x400 + 124)

/-! ## Magnitudes in order -/

section Level

variable {j r : ℕ}

/-- The numbers between two powers of two are equally far apart, and so are those up to the first
power of two in the normal range. -/
theorem level_add (hlow : j = 0 ∨ 0x400 ≤ r) (hhigh : r ≤ 0x800) :
    level (j * 0x400 + r) = r * 2 ^ (j + 125) := by
  unfold level
  rcases hhigh.lt_or_eq with hr | rfl
  · by_cases hsmall : r < 0x400
    · obtain rfl : j = 0 := hlow.resolve_right (Nat.not_le.mpr hsmall)
      rw [if_pos (by omega), Nat.zero_mul, Nat.zero_add]
    · rw [if_neg (by omega), show (j * 0x400 + r) % 0x400 = r - 0x400 by omega,
        show (j * 0x400 + r) / 0x400 + 124 = j + 125 by omega, Nat.add_sub_cancel' (by omega)]
  · rw [if_neg (by omega), show (j * 0x400 + 0x800) % 0x400 = 0 by omega,
      show (j * 0x400 + 0x800) / 0x400 + 124 = j + 125 + 1 by omega, Nat.pow_succ]
    ring

theorem level_strictMono : StrictMono level := by
  refine strictMono_nat_of_lt_succ fun b => ?_
  obtain ⟨j, r, rfl, hlow, hr⟩ : ∃ j r, b = j * 0x400 + r ∧ (j = 0 ∨ 0x400 ≤ r) ∧ r < 0x800 := by
    by_cases hb : b < 0x400
    · exact ⟨0, b, by omega, .inl rfl, by omega⟩
    · exact ⟨b / 0x400 - 1, 0x400 + b % 0x400, by omega, .inr (by omega), by omega⟩
  rw [level_add hlow (by omega), Nat.add_assoc, level_add (by omega) (by omega)]
  exact Nat.mul_lt_mul_of_pos_right (Nat.lt_succ_self r) (Nat.two_pow_pos _)

/-- The next number is no nearer than the one before it. -/
theorem le_level_succ (hlow : j = 0 ∨ 0x400 ≤ r) (hhigh : r ≤ 0x800) :
    (r + 1) * 2 ^ (j + 125) ≤ level (j * 0x400 + r + 1) := by
  rcases hhigh.lt_or_eq with hr | hr
  · have hstep : level (j * 0x400 + (r + 1)) = (r + 1) * 2 ^ (j + 125) := level_add (by omega) hr
    exact Nat.add_assoc .. ▸ hstep.ge
  · have hnext : j * 0x400 + r + 1 = (j + 1) * 0x400 + 0x401 := by omega
    have hpow : 2 ^ (j + 1 + 125) = 2 ^ (j + 125) * 2 := by rw [Nat.add_right_comm, Nat.pow_succ]
    rw [hnext, level_add (by omega) (by omega), hpow, hr]
    omega

end Level

/-- The magnitude `v`, counted in `2 ^ -149`, lies between the midpoints from the binary16 number
with the body `q` to its neighbours, and on a midpoint only if `q` is even. -/
structure Nearest (v q : ℕ) : Prop where
  above : 2 * v ≤ level q + level (q + 1)
  above_even : 2 * v = level q + level (q + 1) → q % 2 = 0
  below : ∀ p, p + 1 = q → level p + level q ≤ 2 * v
  below_even : ∀ p, p + 1 = q → level p + level q = 2 * v → q % 2 = 0

namespace Nearest

variable {v q b : ℕ}

theorem le_above (H : Nearest v q) (hb : q < b) : 2 * v ≤ level q + level b :=
  H.above.trans (Nat.add_le_add_left (level_strictMono.monotone hb) _)

theorem below_le (H : Nearest v q) (hb : b < q) : level b + level q ≤ 2 * v := by
  obtain ⟨p, rfl⟩ := Nat.exists_eq_add_one_of_ne_zero (Nat.ne_zero_of_lt hb)
  have hmono := level_strictMono.monotone (Nat.le_of_lt_succ hb)
  exact (Nat.add_le_add_right hmono _).trans (H.below p rfl)

/-- No other magnitude is nearer. -/
theorem dist_le (H : Nearest v q) (b : ℕ) : |(level q : ℤ) - v| ≤ |(level b : ℤ) - v| := by
  rcases lt_trichotomy b q with hb | rfl | hb
  · have hbelow := H.below_le hb
    have hmono := level_strictMono hb
    have habs := neg_abs_le ((level b : ℤ) - v)
    exact abs_le.mpr ⟨by omega, by omega⟩
  · exact le_rfl
  · have habove := H.le_above hb
    have hmono := level_strictMono hb
    have habs := le_abs_self ((level b : ℤ) - v)
    exact abs_le.mpr ⟨by omega, by omega⟩

/-- Of two magnitudes that are equally near the other one is odd. -/
theorem even_of_dist_eq (H : Nearest v q) (hb : b ≠ q)
    (hdist : |(level b : ℤ) - v| = |(level q : ℤ) - v|) : q % 2 = 0 ∧ b % 2 = 1 := by
  have hne : level b ≠ level q := level_strictMono.injective.ne hb
  have hmid : level b + level q = 2 * v := by
    rcases abs_eq_abs.mp hdist with heq | heq <;> omega
  rcases hb.lt_or_gt with hb | hb
  · obtain ⟨p, rfl⟩ := Nat.exists_eq_add_one_of_ne_zero (Nat.ne_zero_of_lt hb)
    have hbelow := H.below p rfl
    have hp : p ≤ b := level_strictMono.le_iff_le.mp (by omega)
    obtain rfl : p = b := Nat.le_antisymm hp (Nat.le_of_lt_succ hb)
    have heven := H.below_even p rfl hmid
    omega
  · have habove := H.above
    have hq : b ≤ q + 1 := level_strictMono.le_iff_le.mp (by omega)
    obtain rfl : b = q + 1 := Nat.le_antisymm hq hb
    have heven := H.above_even (by omega)
    omega

end Nearest

/-! ## The magnitude that is chosen -/

section Rounding

variable {j r w c shift v : ℕ}

/-- Where the numbers are equally far apart, the midpoints are half of that away. -/
theorem nearest_of_midpoints (hlow : j = 0 ∨ 0x400 ≤ r) (hhigh : r ≤ 0x800)
    (hup : 2 * v ≤ 2 * (r * 2 ^ (j + 125)) + 2 ^ (j + 125))
    (hup_even : 2 * v = 2 * (r * 2 ^ (j + 125)) + 2 ^ (j + 125) → r % 2 = 0)
    (hdown : 2 * (r * 2 ^ (j + 125)) ≤ 2 * v + 2 ^ (j + 125))
    (hdown_even : 2 * (r * 2 ^ (j + 125)) = 2 * v + 2 ^ (j + 125) → r % 2 = 0)
    (hfrom : j = 0 ∨ 0x400 * 2 ^ (j + 125) ≤ v) : Nearest v (j * 0x400 + r) := by
  have hstep := level_add hlow hhigh
  have hnext := le_level_succ hlow hhigh
  rw [Nat.succ_mul] at hnext
  have hunit : 0 < 2 ^ (j + 125) := Nat.two_pow_pos _
  have heven : r % 2 = 0 → (j * 0x400 + r) % 2 = 0 := by omega
  -- the number below is as far away as the one above, or `v` is not below this one at all
  have hbefore : ∀ p, p + 1 = j * 0x400 + r →
      level p + 2 ^ (j + 125) = r * 2 ^ (j + 125) ∨
        level p < r * 2 ^ (j + 125) ∧ r * 2 ^ (j + 125) ≤ v := by
    intro p hp
    by_cases hr : j ≠ 0 ∧ r = 0x400
    · refine .inr ⟨hstep ▸ level_strictMono (by omega), ?_⟩
      rw [hr.2]
      exact hfrom.resolve_left hr.1
    · obtain ⟨r, rfl⟩ : ∃ r', r = r' + 1 := ⟨r - 1, by omega⟩
      obtain rfl : p = j * 0x400 + r := by omega
      rw [level_add (by omega) (by omega), Nat.succ_mul]
      exact .inl rfl
  rw [← hstep] at hup hup_even hdown hdown_even hnext hbefore
  generalize 2 ^ (j + 125) = unit at *
  refine ⟨by omega, fun h => heven (hup_even (by omega)), fun p hp => ?_, fun p hp h => ?_⟩
  · have := hbefore p hp
    omega
  · have := hbefore p hp
    exact heven (hdown_even (by omega))

/-- To round where the numbers are equally far apart is to choose the nearest one. -/
theorem nearest_roundShift (hv : v = w * 2 ^ c) (hc : shift + c = j + 125)
    (hlow : j = 0 ∨ 0x400 * 2 ^ shift ≤ w) (hhigh : w ≤ 0x800 * 2 ^ shift) :
    Nearest v (roundShift (j * 0x400 * 2 ^ shift + w) shift) := by
  obtain ⟨habove, hbelow, heven⟩ := roundShift_spec (j * 0x400 * 2 ^ shift + w) shift
  have hfrom : j * 0x400 ≤ roundShift (j * 0x400 * 2 ^ shift + w) shift :=
    le_roundShift (Nat.le_add_right ..)
  obtain ⟨r, hr⟩ := Nat.exists_eq_add_of_le hfrom
  have hrlow : j = 0 ∨ 0x400 ≤ r := by
    refine hlow.imp_right fun hw => ?_
    have hge : j * 0x400 + 0x400 ≤ roundShift (j * 0x400 * 2 ^ shift + w) shift :=
      le_roundShift (by rw [Nat.add_mul]; omega)
    omega
  have hrhigh : r ≤ 0x800 := by
    have hle : roundShift (j * 0x400 * 2 ^ shift + w) shift ≤ j * 0x400 + 0x800 :=
      roundShift_le (by rw [Nat.add_mul]; omega)
    omega
  rw [hr] at habove hbelow heven ⊢
  -- the part of the outcome that stands for the numbers below falls out
  rw [show (2 * (j * 0x400 + r) + 1) * 2 ^ shift =
    2 * (j * 0x400 * 2 ^ shift) + (2 * r + 1) * 2 ^ shift by ring] at habove heven
  rw [show 2 * (j * 0x400 + r) * 2 ^ shift =
    2 * (j * 0x400 * 2 ^ shift) + 2 * r * 2 ^ shift by ring] at hbelow heven
  have hscale : 2 ^ (j + 125) = 2 ^ shift * 2 ^ c := by rw [← Nat.pow_add, hc]
  have hcpos : 0 < 2 ^ c := Nat.two_pow_pos c
  have hupper : 2 * (r * 2 ^ (j + 125)) + 2 ^ (j + 125) = (2 * r + 1) * 2 ^ shift * 2 ^ c := by
    rw [hscale]
    ring
  have hlower : 2 * (r * 2 ^ (j + 125)) = 2 * r * 2 ^ shift * 2 ^ c := by
    rw [hscale]
    ring
  have hlower' : 2 * v + 2 ^ (j + 125) = (2 * w + 2 ^ shift) * 2 ^ c := by
    rw [hv, hscale]
    ring
  have hv' : 2 * v = 2 * w * 2 ^ c := by rw [hv, Nat.mul_assoc]
  refine nearest_of_midpoints hrlow hrhigh ?_ (fun h => ?_) ?_ (fun h => ?_) ?_
  · rw [hv', hupper]
    exact Nat.mul_le_mul_right _ (by omega)
  · rw [hv', hupper] at h
    have := Nat.eq_of_mul_eq_mul_right hcpos h
    omega
  · rw [hlower, hlower']
    exact Nat.mul_le_mul_right _ (by omega)
  · rw [hlower, hlower'] at h
    have := Nat.eq_of_mul_eq_mul_right hcpos h
    omega
  · refine hlow.imp_right fun hw => ?_
    rw [hv, hscale, ← Nat.mul_assoc]
    exact Nat.mul_le_mul_right _ hw

end Rounding

/-- Nothing is nearer to less than half of the smallest number than zero. -/
theorem nearest_zero {v : ℕ} (hv : 2 * v < 2 ^ 125) : Nearest v 0 := by
  have hzero : level 0 = 0 := rfl
  have hone : level 1 = 2 ^ 125 := rfl
  refine ⟨?_, fun _ => rfl, fun p hp => by omega, fun p hp => by omega⟩
  rw [hzero, hone]
  omega

section Magnitude

variable (x : Single)

/-- Below exponent 102 the value is less than half of the smallest number. -/
theorem nearest_tiny (hexponent : x.exponent < 102) : Nearest x.units 0 := by
  have hfraction := x.fraction_lt
  refine nearest_zero ?_
  unfold Single.units
  split
  · omega
  · have hpow : 2 ^ (x.exponent - 1) ≤ 2 ^ 100 := Nat.pow_le_pow_right (by decide) (by omega)
    have hmul : (0x800000 + x.fraction) * 2 ^ (x.exponent - 1) < 0x1000000 * 2 ^ 100 :=
      Nat.mul_lt_mul_of_lt_of_le (by omega) hpow (by decide)
    omega

theorem nearest_subnormal (hlow : 102 ≤ x.exponent) (hhigh : x.exponent ≤ 112) :
    Nearest x.units (roundShift (0x800000 + x.fraction) (126 - x.exponent)) := by
  have hfraction := x.fraction_lt
  have hwide : 2 ^ 14 ≤ 2 ^ (126 - x.exponent) := Nat.pow_le_pow_right (by decide) (by omega)
  have hnearest : Nearest ((0x800000 + x.fraction) * 2 ^ (x.exponent - 1))
      (roundShift (0 * 0x400 * 2 ^ (126 - x.exponent) + (0x800000 + x.fraction))
        (126 - x.exponent)) :=
    nearest_roundShift rfl (by omega) (.inl rfl) (by omega)
  rw [Nat.zero_mul, Nat.zero_add] at hnearest
  rw [Single.units, if_neg (by omega)]
  exact hnearest

theorem nearest_normal (hlow : 112 < x.exponent) :
    Nearest x.units (roundShift ((x.exponent - 112) * 0x800000 + x.fraction) 13) := by
  have hfraction := x.fraction_lt
  rw [Single.units, if_neg (by omega), show (x.exponent - 112) * 0x800000 + x.fraction =
    (x.exponent - 113) * 0x400 * 2 ^ 13 + (0x800000 + x.fraction) by omega]
  exact nearest_roundShift rfl (by omega) (.inr (by omega)) (by omega)

/-- The magnitude that is chosen is the nearest one, unless that is too large. -/
theorem nearest_magnitude : ∃ q, Nearest x.units q ∧ magnitude x = min q 0x7C00 := by
  have hfraction := x.fraction_lt
  unfold magnitude
  split
  · have hge : 0x7C00 ≤ roundShift ((x.exponent - 112) * 0x800000 + x.fraction) 13 :=
      le_roundShift (by omega)
    exact ⟨_, nearest_normal x (by omega), (Nat.min_eq_right hge).symm⟩
  split
  · split
    · exact ⟨0, nearest_tiny x ‹_›, rfl⟩
    · have hwide : 2 ^ 14 ≤ 2 ^ (126 - x.exponent) := Nat.pow_le_pow_right (by decide) (by omega)
      have hle : roundShift (0x800000 + x.fraction) (126 - x.exponent) ≤ 0x7C00 :=
        roundShift_le (by omega)
      exact ⟨_, nearest_subnormal x (by omega) ‹_›, (Nat.min_eq_left hle).symm⟩
  · have hle : roundShift ((x.exponent - 112) * 0x800000 + x.fraction) 13 ≤ 0x7C00 :=
      roundShift_le (by omega)
    exact ⟨_, nearest_normal x (by omega), (Nat.min_eq_left hle).symm⟩

end Magnitude

/-! ## Bits -/

theorem body_eq : h.body = h.bits.toNat % 0x8000 := by
  have hbits := h.toNat_bits
  have hexponent := h.exponent_lt
  have hfraction := h.fraction_lt
  rw [body]
  omega

theorem isFinite_iff : h.IsFinite ↔ h.body < 0x7C00 := by
  have hexponent := h.exponent_lt
  have hfraction := h.fraction_lt
  rw [IsFinite, body]
  omega

theorem isInfinite_iff : h.IsInfinite ↔ h.body = 0x7C00 := by
  have hexponent := h.exponent_lt
  have hfraction := h.fraction_lt
  rw [IsInfinite, body]
  omega

/-- A number is known from its sign and its body. -/
theorem parts_ofNat {sign body : ℕ} (hsign : sign < 2) (hbody : body < 0x8000) :
    let h : Half := ⟨UInt16.ofNat (sign * 0x8000 + body)⟩
    h.sign = sign ∧ h.body = body := by
  intro h
  have hbits : h.bits.toNat = sign * 0x8000 + body :=
    UInt16.toNat_ofNat_of_lt' (by rw [UInt16.size]; omega)
  rw [body_eq, Half.sign, hbits]
  omega

/-! ## Values -/

theorem value_eq : h.value = (-1) ^ h.sign * (level h.body / 2 ^ 149) := by
  have hfraction := h.fraction_lt
  unfold value body level
  congr 1
  by_cases hzero : h.exponent = 0
  · rw [if_pos hzero, hzero, Nat.zero_mul, Nat.zero_add, if_pos hfraction, zpow_neg]
    norm_num
    ring
  · obtain ⟨e, he⟩ := Nat.exists_eq_add_one_of_ne_zero hzero
    have hscale : (2 : ℚ) ^ ((h.exponent : ℤ) - 15) = 2 ^ e / 2 ^ 14 := by
      rw [he, show ((e + 1 : ℕ) : ℤ) - 15 = (e : ℤ) - (14 : ℕ) by omega,
        zpow_sub₀ two_ne_zero, zpow_natCast, zpow_natCast]
    rw [if_neg hzero, if_neg (by omega), hscale, he,
      show ((e + 1) * 0x400 + h.fraction) % 0x400 = h.fraction by omega,
      show ((e + 1) * 0x400 + h.fraction) / 0x400 + 124 = e + 125 by omega]
    push_cast
    ring

/-- A finite number is widened without loss. -/
theorem toSingle_finite (hfinite : h.IsFinite) :
    h.toSingle.sign = h.sign ∧ h.toSingle.IsFinite ∧ h.toSingle.units = level h.body := by
  have hsign := h.sign_lt
  have hexponent := h.exponent_lt
  have hfraction := h.fraction_lt
  rw [IsFinite] at hfinite
  unfold toSingle Single.IsFinite Single.units body level
  by_cases hzero : h.exponent = 0
  · rw [if_pos hzero, hzero, Nat.zero_mul, Nat.zero_add, if_pos hfraction]
    by_cases hnone : h.fraction = 0
    · rw [if_pos hnone, Single.sign_ofParts hsign (by decide) (by decide),
        Single.exponent_ofParts hsign (by decide) (by decide),
        Single.fraction_ofParts hsign (by decide) (by decide), hnone]
      exact ⟨rfl, by decide, rfl⟩
    · obtain ⟨hten, hge, hlt⟩ := significand_bounds hnone
      rw [if_neg hnone]
      dsimp only
      rw [Single.sign_ofParts hsign (by omega) (by omega),
        Single.exponent_ofParts hsign (by omega) (by omega),
        Single.fraction_ofParts hsign (by omega) (by omega), if_neg (by omega),
        Nat.add_sub_cancel' hge, Nat.shiftLeft_eq, Nat.mul_assoc, ← Nat.pow_add]
      refine ⟨rfl, by omega, ?_⟩
      rw [show 23 - h.fraction.log2 + (h.fraction.log2 + 103 - 1) = 125 by omega]
  · rw [if_neg hzero, if_neg hfinite, Single.sign_ofParts hsign (by omega) (by omega),
      Single.exponent_ofParts hsign (by omega) (by omega),
      Single.fraction_ofParts hsign (by omega) (by omega), if_neg (by omega), if_neg (by omega),
      show (h.exponent * 0x400 + h.fraction) % 0x400 = h.fraction by omega,
      show (h.exponent * 0x400 + h.fraction) / 0x400 + 124 = 13 + (h.exponent + 111) by omega,
      show h.exponent + 112 - 1 = h.exponent + 111 by omega, Nat.pow_add 2 13, ← Nat.mul_assoc]
    refine ⟨rfl, by omega, ?_⟩
    congr 1
    omega

theorem toSingle_special (hspecial : h.exponent = 31) :
    h.toSingle.sign = h.sign ∧ h.toSingle.exponent = 255 ∧
      h.toSingle.fraction = h.fraction * 0x2000 := by
  have hsign := h.sign_lt
  have hfraction := h.fraction_lt
  unfold toSingle
  rw [if_neg (by omega), if_pos hspecial]
  exact ⟨Single.sign_ofParts hsign (by decide) (by omega),
    Single.exponent_ofParts hsign (by decide) (by omega),
    Single.fraction_ofParts hsign (by decide) (by omega)⟩

/-- To widen a number keeps its sign and its value. -/
theorem toSingle_exact :
    h.toSingle.sign = h.sign ∧
    (h.IsFinite → h.toSingle.IsFinite ∧ h.toSingle.value = h.value) ∧
    (h.IsInfinite → h.toSingle.IsInfinite) ∧
    (h.IsNaN → h.toSingle.IsNaN) := by
  by_cases hspecial : h.exponent = 31
  · obtain ⟨hsign, hexponent, hfraction⟩ := h.toSingle_special hspecial
    refine ⟨hsign, fun hfinite => absurd hspecial hfinite, fun hinf => ⟨hexponent, ?_⟩,
      fun hnan => ⟨hexponent, ?_⟩⟩
    · rw [hfraction, hinf.2]
    · rw [hfraction]
      exact Nat.mul_ne_zero hnan.2 (by decide)
  · obtain ⟨hsign, hfinite, hunits⟩ := h.toSingle_finite hspecial
    refine ⟨hsign, fun _ => ⟨hfinite, ?_⟩, fun hinf => absurd hinf.1 hspecial,
      fun hnan => absurd hnan.1 hspecial⟩
    rw [Single.value_eq, value_eq, hsign, hunits]

/-! ## Distances -/

section Distance

variable (x : Single)

theorem abs_value_eq : |x.value| = x.units / 2 ^ 149 := by
  rw [Single.value_eq, abs_mul, abs_neg_one_pow, one_mul, abs_of_nonneg (by positivity)]

theorem dist_value_eq : |h.value - x.value| =
    ((|(-1) ^ h.sign * (level h.body : ℤ) - (-1) ^ x.sign * (x.units : ℤ)| : ℤ) : ℚ) / 2 ^ 149 := by
  have hunit : (0 : ℚ) < 2 ^ 149 := by positivity
  rw [value_eq, Single.value_eq, ← mul_div_assoc, ← mul_div_assoc, ← sub_div, abs_div,
    abs_of_pos hunit]
  push_cast
  rfl

variable {x} {q : ℕ}

/-- What is nearest to the magnitude is nearest to the number, with its sign. -/
theorem Nearest.signed {v sign sign' b : ℕ} (H : Nearest v q) (hsign : sign < 2)
    (hsign' : sign' < 2) :
    |(-1) ^ sign * (level q : ℤ) - (-1) ^ sign * (v : ℤ)| ≤
        |(-1) ^ sign' * (level b : ℤ) - (-1) ^ sign * (v : ℤ)| ∧
      (|(-1) ^ sign' * (level b : ℤ) - (-1) ^ sign * (v : ℤ)| =
          |(-1) ^ sign * (level q : ℤ) - (-1) ^ sign * (v : ℤ)| →
        (-1) ^ sign' * (level b : ℤ) ≠ (-1) ^ sign * (level q : ℤ) → q % 2 = 0 ∧ b % 2 = 1) := by
  have hsame : ∀ c : ℕ, |(-1) ^ sign * (level c : ℤ) - (-1) ^ sign * (v : ℤ)| =
      |(level c : ℤ) - v| := fun c => by rw [← mul_sub, abs_mul, abs_neg_one_pow, one_mul]
  by_cases heq : sign' = sign
  · rw [heq, hsame, hsame]
    refine ⟨H.dist_le b, fun hdist hne => H.even_of_dist_eq (fun hb => hne ?_) hdist⟩
    rw [hb]
  · have hopposite : |(-1) ^ sign' * (level b : ℤ) - (-1) ^ sign * (v : ℤ)| = level b + v := by
      have hsum : |(level b : ℤ) + v| = level b + v := abs_of_nonneg (by positivity)
      obtain ⟨rfl, rfl⟩ | ⟨rfl, rfl⟩ : sign = 0 ∧ sign' = 1 ∨ sign = 1 ∧ sign' = 0 := by omega
      · rw [pow_one, pow_zero, ← hsum, ← abs_neg]
        ring_nf
      · rw [pow_one, pow_zero, ← hsum]
        ring_nf
    have hzero := H.dist_le 0
    have hlevel : level 0 = 0 := rfl
    rw [hlevel, Nat.cast_zero, zero_sub, abs_neg, Nat.abs_cast] at hzero
    rw [hopposite, hsame]
    refine ⟨by omega, fun hdist hne => ?_⟩
    -- only a zero can be as near with the wrong sign
    have hnone : level b = 0 := by omega
    obtain rfl : b = 0 := level_strictMono.injective hnone
    by_cases hq : q = 0
    · rw [hq, hlevel] at hne
      exact absurd (by simp) hne
    · refine H.even_of_dist_eq (Ne.symm hq) ?_
      rw [← hdist, hlevel, Nat.cast_zero, zero_sub, zero_add, abs_neg, Nat.abs_cast]

/-- The magnitude is nearer to the first power of two that is too large than to the largest finite
number, or halfway between them. -/
theorem Nearest.overflow_iff (H : Nearest x.units q) : 0x7C00 ≤ q ↔ 65520 ≤ |x.value| := by
  have hmid : level 0x7BFF + level 0x7C00 = 2 * (65520 * 2 ^ 149) := by decide
  have hvalue : 65520 ≤ |x.value| ↔ 65520 * 2 ^ 149 ≤ x.units := by
    rw [abs_value_eq, le_div_iff₀ (by positivity)]
    exact_mod_cast Iff.rfl
  rw [hvalue]
  generalize 65520 * 2 ^ 149 = half at hmid
  constructor
  · intro hq
    have hbelow := H.below_le (show 0x7BFF < q from hq)
    have hmono := level_strictMono.monotone hq
    omega
  · intro hv
    by_contra hq
    have habove := H.le_above (Nat.lt_of_not_le hq)
    have hmono := level_strictMono.monotone (show q ≤ 0x7BFF by omega)
    -- then it lies on the midpoint, and the largest finite number is odd
    obtain rfl : q = 0x7BFF := level_strictMono.injective (by omega)
    have heven := H.above_even (show 2 * x.units = level 0x7BFF + level 0x7C00 by omega)
    omega

end Distance

section Outcome

variable (x : Single)

theorem ofSingle_parts : (ofSingle x).sign = x.sign ∧ (ofSingle x).body =
    if x.exponent = 255 then
      if x.fraction = 0 then 0x7C00 else 0x7C00 + (0x200 ||| x.fraction / 0x2000)
    else magnitude x := by
  have hsign := x.sign_lt
  have hfraction := x.fraction_lt
  refine parts_ofNat hsign ?_
  rw [quietBit_or (by omega)]
  by_cases hspecial : x.exponent = 255
  · rw [if_pos hspecial]
    split_ifs <;> omega
  · obtain ⟨q, -, hq⟩ := nearest_magnitude x
    rw [if_neg hspecial, hq]
    omega

/-- A finite number becomes the nearest binary16 number, with its sign: infinity from halfway above
the largest finite one on, and else the number whose bits are even if another one is as near.
Infinity stays infinity and a NaN stays one, quiet and with the top bits of its payload. To widen
the outcome loses nothing. -/
theorem ofSingle_nearest (x : Single) :
    let h := ofSingle x
    h.sign = x.sign ∧
    (x.IsFinite →
      (h.IsInfinite ↔ 65520 ≤ |x.value|) ∧
      (|x.value| < 65520 → h.IsFinite ∧ ∀ other : Half, other.IsFinite →
        |h.value - x.value| ≤ |other.value - x.value| ∧
        (|other.value - x.value| = |h.value - x.value| → other.value ≠ h.value →
          h.bits.toNat % 2 = 0 ∧ other.bits.toNat % 2 = 1))) ∧
    (x.IsInfinite → h.IsInfinite) ∧
    (x.IsNaN → h.IsNaN ∧ h.fraction = 0x200 ||| x.fraction / 0x2000) ∧
    ∀ half : Half, half.toSingle.sign = half.sign ∧
      (half.IsFinite → half.toSingle.IsFinite ∧ half.toSingle.value = half.value) ∧
      (half.IsInfinite → half.toSingle.IsInfinite) ∧
      (half.IsNaN → half.toSingle.IsNaN) := by
  intro h
  obtain ⟨hsign, hbody⟩ : h.sign = x.sign ∧ h.body = _ := ofSingle_parts x
  refine ⟨hsign, fun hfinite => ?_, fun hinf => ?_, fun hnan => ?_, toSingle_exact⟩
  · obtain ⟨q, H, hq⟩ := nearest_magnitude x
    rw [if_neg hfinite, hq] at hbody
    rw [isInfinite_iff, hbody, ← H.overflow_iff]
    refine ⟨by omega, fun hsmall => ?_⟩
    have hlt : q < 0x7C00 := Nat.lt_of_not_le fun hle => hsmall.not_ge (H.overflow_iff.mp hle)
    rw [Nat.min_eq_left hlt.le] at hbody
    refine ⟨h.isFinite_iff.mpr (hbody ▸ hlt), fun other _ => ?_⟩
    obtain ⟨hnear, heven⟩ := H.signed (b := other.body) x.sign_lt other.sign_lt
    rw [dist_value_eq, dist_value_eq, hsign, hbody]
    refine ⟨div_le_div_of_nonneg_right (by exact_mod_cast hnear) (by positivity),
      fun hdist hne => ?_⟩
    have hparity := heven (by exact_mod_cast (div_left_inj' (by positivity)).mp hdist) ?_
    · have hbits := h.body_eq
      have hbits' := other.body_eq
      omega
    · refine fun heq => hne ?_
      rw [value_eq, value_eq, hsign, hbody, ← mul_div_assoc, ← mul_div_assoc]
      congr 1
      exact_mod_cast heq
  · rw [if_pos hinf.1, if_pos hinf.2] at hbody
    exact h.isInfinite_iff.mpr hbody
  · have hfraction := x.fraction_lt
    rw [if_pos hnan.1, if_neg hnan.2, body] at hbody
    have hlt := h.fraction_lt
    have hpayload : 0x200 ≤ (0x200 ||| x.fraction / 0x2000) ∧
        (0x200 ||| x.fraction / 0x2000) < 0x400 := by
      rw [quietBit_or (by omega)]
      split <;> omega
    rw [IsNaN]
    omega

/-- Halfway between the first two numbers above one, the second of which is even. -/
theorem ofSingle_nearest_tie :
    let x : Single := ⟨0x3F803000⟩
    let other : Half := ⟨0x3C01⟩
    ofSingle x = ⟨0x3C02⟩ ∧ |other.value - x.value| = |(ofSingle x).value - x.value| ∧
      (ofSingle x).bits.toNat % 2 = 0 ∧ other.bits.toNat % 2 = 1 := by
  intro x other
  have houtcome : ofSingle x = ⟨0x3C02⟩ := by decide
  have hfinite : x.IsFinite := by decide
  have hother : other.IsFinite := by decide
  have hx : x.value = 2051 / 2048 := by decide +kernel
  have hvalue : (ofSingle x).value = 1026 / 1024 := by decide +kernel
  have hvalue' : other.value = 1025 / 1024 := by decide +kernel
  have hdist : |other.value - x.value| = |(ofSingle x).value - x.value| := by
    rw [hx, hvalue, hvalue']
    norm_num
  obtain ⟨-, hnear⟩ := (ofSingle_nearest x).2.1 hfinite
  obtain ⟨-, hall⟩ := hnear (by rw [hx]; norm_num)
  exact ⟨houtcome, hdist, (hall other hother).2 hdist (by rw [hvalue, hvalue']; norm_num)⟩

end Outcome

end Half

end GameShip
