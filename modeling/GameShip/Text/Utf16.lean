import GameShip.Bytes

/-!
# Text as UTF-16

* `Utf16.units`: the code units of a text.
* `Utf16.decode`: the text of any unit string, with U+FFFD in place of each lone surrogate.
* `Utf16.padded`, `Utf16.untilNul`: a text in a field of a fixed number of units.
-/

namespace GameShip.Utf16

/-- The code units of a character: one, or a surrogate pair above U+FFFF. -/
def charUnits (c : Char) : List UInt16 :=
  let n := c.toNat
  if n < 0x10000 then [UInt16.ofNat n]
  else [UInt16.ofNat (0xD800 + (n - 0x10000) / 1024), UInt16.ofNat (0xDC00 + (n - 0x10000) % 1024)]

/-- The code units of a text. -/
def units (text : String) : List UInt16 := text.toList.flatMap charUnits

/-- The unit is the first half of a surrogate pair. -/
def isHigh (u : UInt16) : Bool := 0xD800 ≤ u && u < 0xDC00

/-- The unit is the second half of a surrogate pair. -/
def isLow (u : UInt16) : Bool := 0xDC00 ≤ u && u < 0xE000

/-- The character that a surrogate pair stands for. -/
def pair (high low : UInt16) : Char :=
  Char.ofNat (0x10000 + (high.toNat - 0xD800) * 1024 + (low.toNat - 0xDC00))

/-- The characters of a unit string. A surrogate without its other half becomes U+FFFD. -/
def chars : List UInt16 → List Char
  | [] => []
  | [u] => [if isHigh u || isLow u then '\uFFFD' else Char.ofNat u.toNat]
  | u :: v :: rest =>
    if isHigh u && isLow v then pair u v :: chars rest
    else (if isHigh u || isLow u then '\uFFFD' else Char.ofNat u.toNat) :: chars (v :: rest)

/-- The text of any unit string. -/
def decode (us : List UInt16) : String := String.ofList (chars us)

/-- The units as bytes, least significant byte first. -/
def toBytes (us : List UInt16) : Bytes := us.flatMap fun u => Bytes.ofNat 2 u.toNat

/-- The units that pairs of bytes stand for. A last odd byte is dropped. -/
def ofBytes : Bytes → List UInt16
  | a :: b :: rest => UInt16.ofNat (Bytes.value [a, b]) :: ofBytes rest
  | _ => []

/-- The first `size` units of a text, filled up with zeros to exactly that many units. -/
def padded (text : String) (size : Nat) : Bytes :=
  let us := (units text).take size
  toBytes (us ++ List.replicate (size - us.length) 0)

/-- The text before the first zero unit. -/
def untilNul (bs : Bytes) : String := decode ((ofBytes bs).takeWhile (· ≠ 0))

@[simp] theorem length_toBytes (us : List UInt16) : (toBytes us).length = 2 * us.length := by
  induction us with
  | nil => rfl
  | cons u us ih =>
    have : toBytes (u :: us) = Bytes.ofNat 2 u.toNat ++ toBytes us := rfl
    rw [this, List.length_append, ih, Bytes.length_ofNat, List.length_cons]
    omega

@[simp] theorem length_padded (text : String) (size : Nat) :
    (padded text size).length = 2 * size := by
  simp only [padded, length_toBytes, List.length_append, List.length_take, List.length_replicate]
  omega

end GameShip.Utf16
