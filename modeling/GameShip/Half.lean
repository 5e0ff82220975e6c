/-!
# Short floating-point numbers

Positions and rotations are kept as binary32 numbers and travel as binary16 numbers. Both are
held by their bit patterns, so that every NaN payload is accounted for.

* `Single`, `Half`: a binary32 and a binary16 number.
* `Half.ofSingle`: the nearest binary16 number, a tie going to the even one.
* `Half.toSingle`: the same number as binary32.
-/

namespace GameShip

/-- A binary32 floating-point number, by its bit pattern. -/
structure Single where
  bits : UInt32
  deriving DecidableEq, Inhabited, Repr

/-- A binary16 floating-point number, by its bit pattern. -/
structure Half where
  bits : UInt16
  deriving DecidableEq, Inhabited, Repr

namespace Single

/-- Positive zero. -/
def zero : Single := ⟨0⟩

/-- One. -/
def one : Single := ⟨0x3F800000⟩

/-- The number is one of the two zeros. -/
def isZero (x : Single) : Bool := x.bits &&& 0x7FFFFFFF == 0

/-- The sign bit. -/
def sign (x : Single) : Nat := x.bits.toNat / 0x80000000

/-- The biased exponent, from 0 to 255. -/
def exponent (x : Single) : Nat := x.bits.toNat / 0x800000 % 0x100

/-- The 23 bits after the binary point. -/
def fraction (x : Single) : Nat := x.bits.toNat % 0x800000

/-- The number with the given sign bit, biased exponent and fraction. -/
def ofParts (sign exponent fraction : Nat) : Single :=
  ⟨UInt32.ofNat (sign * 0x80000000 + exponent * 0x800000 + fraction)⟩

end Single

/-- The integer nearest to `m` over the power of two `1 <<< shift`, a tie going to the even one. -/
def roundShift (m shift : Nat) : Nat :=
  let unit := 1 <<< shift
  let quotient := m / unit
  let rest := m % unit
  if 2 * rest > unit || (2 * rest == unit && quotient % 2 == 1) then quotient + 1
  else quotient

namespace Half

/-- The sign bit. -/
def sign (h : Half) : Nat := h.bits.toNat / 0x8000

/-- The biased exponent, from 0 to 31. -/
def exponent (h : Half) : Nat := h.bits.toNat / 0x400 % 0x20

/-- The ten bits after the binary point. -/
def fraction (h : Half) : Nat := h.bits.toNat % 0x400

/-- The bits of the magnitude nearest to a finite binary32 number. From the power of two after the
largest finite number on that is infinity, and nothing is left of what is below half of the
smallest one. Numbers below the normal range count in steps of the smallest one. A carry out of the
fraction moves on to the next exponent, up to infinity. -/
def magnitude (x : Single) : Nat :=
  if 143 ≤ x.exponent then 0x7C00
  else if x.exponent ≤ 112 then
    if x.exponent < 102 then 0
    else roundShift (0x800000 + x.fraction) (126 - x.exponent)
  else roundShift ((x.exponent - 112) * 0x800000 + x.fraction) 13

/-- The binary16 number nearest to a binary32 number. A NaN keeps its sign and the top ten bits
of its payload and becomes quiet. -/
def ofSingle (x : Single) : Half :=
  let body :=
    if x.exponent = 255 then
      if x.fraction = 0 then 0x7C00 else 0x7C00 + (0x200 ||| x.fraction / 0x2000)
    else magnitude x
  ⟨UInt16.ofNat (x.sign * 0x8000 + body)⟩

/-- The binary32 number of the same value. A NaN keeps its payload. -/
def toSingle (h : Half) : Single :=
  if h.exponent = 0 then
    if h.fraction = 0 then Single.ofParts h.sign 0 0
    else
      let top := h.fraction.log2
      Single.ofParts h.sign (top + 103) ((h.fraction <<< (23 - top)) - 0x800000)
  else if h.exponent = 31 then Single.ofParts h.sign 255 (h.fraction * 0x2000)
  else Single.ofParts h.sign (h.exponent + 112) (h.fraction * 0x2000)

end Half

end GameShip
