import GameShip.Half

/-!
# Numbers in JSON texts

* `Json.Literal`: a number as it is written.
* `Json.Magnitude`: a nonnegative number that a binary floating-point format can hold.
* `Json.Number`: the value of a literal, which is an integer of 64 bits where it can be, and
  otherwise a binary64 number.
* `Json.Number.toSingle`: the nearest binary32 number.

The binary64 number of a literal comes from as many digits as fit into 64 bits, scaled by a power
of ten, with one rounding for each step. It can differ from the nearest one in the last bit.
-/

namespace GameShip.Json

/-! ## Binary formats -/

/-- The number `mantissa * 2 ^ exponent`. -/
structure Magnitude where
  mantissa : Nat
  exponent : Int
  deriving DecidableEq, Inhabited, Repr

namespace Magnitude

/-- A magnitude as a quotient. -/
def toRatio (x : Magnitude) : Nat × Nat :=
  (x.mantissa <<< x.exponent.toNat, 1 <<< (-x.exponent).toNat)

/-- The integer nearest to `n / d`, a tie going to the even one. -/
def nearest (n d : Nat) : Nat :=
  let quotient := n / d
  let rest := n % d
  if 2 * rest > d || (2 * rest == d && quotient % 2 == 1) then quotient + 1 else quotient

/-- The magnitude nearest to `n / d` whose mantissa has at most the given number of bits and whose
exponent is no less than `least`; a tie goes to the even mantissa. There is no upper bound. -/
def round (bits : Nat) (least : Int) (n d : Nat) : Magnitude :=
  let mantissaAt (e : Int) : Nat := nearest (n <<< (-e).toNat) (d <<< e.toNat)
  let low : Int := (n.log2 : Int) - d.log2 - bits
  let fits := n <<< (-low).toNat < d <<< (low.toNat + bits)
  let exponent := max least (if fits then low else low + 1)
  ⟨mantissaAt exponent, exponent⟩

/-- The nearest binary64 magnitude. -/
def double (n d : Nat) : Magnitude := round 53 (-1074) n d

/-- The nearest binary32 magnitude. -/
def single (n d : Nat) : Magnitude := round 24 (-149) n d

/-- The magnitude is too large for a binary64 number. -/
def overflows (x : Magnitude) : Bool := x.toRatio.1 ≥ x.toRatio.2 <<< 1024

/-- The binary64 product. -/
def mul (x y : Magnitude) : Magnitude :=
  double (x.toRatio.1 * y.toRatio.1) (x.toRatio.2 * y.toRatio.2)

/-- The binary64 quotient. -/
def div (x y : Magnitude) : Magnitude :=
  double (x.toRatio.1 * y.toRatio.2) (x.toRatio.2 * y.toRatio.1)

/-- The binary64 magnitude of a power of ten. -/
def powerOfTen (k : Nat) : Magnitude := double (Nat.pow 10 k) 1

/-- The largest power of ten that is a binary64 number. -/
def maxPower : Nat := 308

/-- Divides by `10 ^ k`, in steps that a binary64 number can hold. -/
def scaleDown (x : Magnitude) (k : Nat) : Magnitude :=
  if k ≤ maxPower then x.div (powerOfTen k)
  else if x.mantissa = 0 then x
  else scaleDown (x.div (powerOfTen maxPower)) (k - maxPower)
termination_by k
decreasing_by simp only [maxPower] at *; omega

/-- Multiplies by a power of ten. A result that is too large is refused. -/
def scale (x : Magnitude) (exponent : Int) : Option Magnitude :=
  if exponent < 0 then some (x.scaleDown (-exponent).toNat)
  else if x.mantissa = 0 then some x
  else if exponent.toNat > maxPower then none
  else
    let y := x.mul (powerOfTen exponent.toNat)
    if y.overflows then none else some y

end Magnitude

/-- The binary32 number nearest to `n / d`, with a sign. One that is too large becomes
infinite. -/
def singleOfRatio (negative : Bool) (n d : Nat) : Single :=
  let x := Magnitude.single n d
  let bits :=
    if x.mantissa < 0x800000 then x.mantissa
    else (x.exponent + 149).toNat * 0x800000 + x.mantissa
  ⟨UInt32.ofNat ((if negative then 0x80000000 else 0) + min bits 0x7F800000)⟩

/-! ## Literals -/

/-- A number as it is written. -/
structure Literal where
  negative : Bool
  /-- The digits before the point. -/
  whole : List Nat
  /-- The digits after the point, none if there is no point. -/
  fraction : List Nat
  exponent : Option Int
  deriving DecidableEq, Inhabited, Repr

/-- The digits that a text begins with, and the text after them. -/
def digits (text : List Char) : List Nat × List Char :=
  ((text.takeWhile (·.isDigit)).map fun c => c.toNat - '0'.toNat, text.dropWhile (·.isDigit))

/-- An exponent of this size is out of the range of all formats, also for a number of so many
digits as a text can hold. -/
def maxExponent : Nat := 0x80000000

/-- The exponent that digits stand for. One that is larger than the largest counts as that. -/
def exponentOf (ds : List Nat) : Nat := ds.foldl (fun n d => min (10 * n + d) maxExponent) 0

/-- The exponent that a text begins with, if there is one. -/
def Literal.exponentPart : List Char → Option (Option Int × List Char)
  | c :: rest =>
    if c = 'e' ∨ c = 'E' then
      let (negative, rest) : Bool × List Char := match rest with
        | '-' :: rest => (true, rest)
        | '+' :: rest => (false, rest)
        | _ => (false, rest)
      let (ds, rest) := digits rest
      if ds = [] then none
      else some (some (if negative then -(exponentOf ds : Int) else exponentOf ds), rest)
    else some (none, c :: rest)
  | [] => some (none, [])

/-- The fraction that a text begins with, if there is one. -/
def Literal.fractionPart : List Char → Option (List Nat × List Char)
  | '.' :: rest =>
    let (ds, rest) := digits rest
    if ds = [] then none else some (ds, rest)
  | rest => some ([], rest)

/-- The number that a text begins with, and the text after it. -/
def Literal.parse (text : List Char) : Option (Literal × List Char) := do
  let (negative, text) : Bool × List Char := match text with
    | '-' :: rest => (true, rest)
    | _ => (false, text)
  let (whole, text) := digits text
  if whole = [] ∨ (whole.length > 1 ∧ whole.head? = some 0) then none
  let (fraction, text) ← fractionPart text
  let (exponent, text) ← exponentPart text
  return ({ negative, whole, fraction, exponent }, text)

/-! ## Values -/

/-- The value of a literal. -/
inductive Number where
  | natural (n : Nat)
  /-- The number `-n`, where `n` is at least one. -/
  | negative (n : Nat)
  | real (sign : Bool) (magnitude : Magnitude)
  deriving DecidableEq, Inhabited, Repr

namespace Number

/-- Appends digits to a number as long as it fits into 64 bits. Gives the number and how many
digits were appended. -/
def accumulate : (n : Nat) → List Nat → Nat × Nat
  | n, [] => (n, 0)
  | n, d :: ds =>
    if 10 * n + d < UInt64.size then
      let (n, count) := accumulate (10 * n + d) ds
      (n, count + 1)
    else (n, 0)

/-- The value of a literal, unless it is too large. A whole number of 64 bits is exact; minus zero
is none. Digits of the whole part that do not fit count as zeros, those of the fraction as
nothing. -/
def ofLiteral? (l : Literal) : Option Number :=
  let (n, count) := accumulate 0 l.whole
  let missing := l.whole.length - count
  if l.fraction = [] ∧ l.exponent = none ∧ missing = 0 ∧
      (l.negative = false ∨ (0 < n ∧ n ≤ 0x8000000000000000)) then
    some (if l.negative then .negative n else .natural n)
  else
    let (n, places) := accumulate n l.fraction
    let exponent := (missing : Int) - places + l.exponent.getD 0
    ((Magnitude.double n 1).scale exponent).map (.real l.negative)

/-- The nearest binary32 number. -/
def toSingle : Number → Single
  | .natural n => singleOfRatio false n 1
  | .negative n => singleOfRatio true n 1
  | .real sign x => singleOfRatio sign x.toRatio.1 x.toRatio.2

/-- The value as an integer below `bound`. -/
def below? (bound : Nat) : Number → Option Nat
  | .natural n => if n < bound then some n else none
  | _ => none

end Number

end GameShip.Json
