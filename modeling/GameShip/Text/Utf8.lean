import GameShip.Bytes

/-!
# Text as UTF-8

* `Utf8.encode`: the UTF-8 bytes of a text.
* `Utf8.decode`: the text of any byte string, with U+FFFD in place of each ill-formed piece.
* `Utf8.decode?`: the text of a well-formed byte string.
* `Utf8.padded`, `Utf8.untilNul`: a text in a field of fixed size.
-/

namespace GameShip.Utf8

/-- The UTF-8 bytes of a text. -/
def encode (text : String) : Bytes := text.toList.flatMap String.utf8EncodeChar

/-- Stands for a piece of input that is no character. -/
def replacement : Char := '\uFFFD'

/-- For the first byte of a character: the value bits it holds, how many bytes follow, and the
range of the first of those. The other bytes after it range over `80..BF`. -/
def lead (b : UInt8) : Option (Nat × Nat × UInt8 × UInt8) :=
  if b < 0x80 then some (b.toNat, 0, 0x80, 0xBF)
  else if b < 0xC2 then none
  else if b < 0xE0 then some (b.toNat % 32, 1, 0x80, 0xBF)
  else if b = 0xE0 then some (b.toNat % 16, 2, 0xA0, 0xBF)
  else if b = 0xED then some (b.toNat % 16, 2, 0x80, 0x9F)
  else if b < 0xF0 then some (b.toNat % 16, 2, 0x80, 0xBF)
  else if b = 0xF0 then some (b.toNat % 8, 3, 0x90, 0xBF)
  else if b < 0xF4 then some (b.toNat % 8, 3, 0x80, 0xBF)
  else if b = 0xF4 then some (b.toNat % 8, 3, 0x80, 0x8F)
  else none

/-- Takes `count` more bytes of a character, the first of them between `low` and `high`. Gives
the character and the number of bytes taken; at a byte that does not fit it stops there. -/
def continued : (count : Nat) → (low high : UInt8) → (value taken : Nat) → Bytes → Char × Nat
  | 0, _, _, value, taken, _ => (Char.ofNat value, taken)
  | _ + 1, _, _, _, taken, [] => (replacement, taken)
  | count + 1, low, high, value, taken, b :: rest =>
    if low ≤ b ∧ b ≤ high then
      continued count 0x80 0xBF (64 * value + b.toNat % 64) (taken + 1) rest
    else (replacement, taken)

/-- The character that starts with byte `b`, and how many bytes of `rest` belong to it. -/
def scalar (b : UInt8) (rest : Bytes) : Char × Nat :=
  match lead b with
  | some (value, count, low, high) => continued count low high value 0 rest
  | none => (replacement, 0)

/-- The characters of a byte string. Each longest prefix of a character that does not go on as
one becomes a single U+FFFD. -/
def chars : Bytes → List Char
  | [] => []
  | b :: rest => (scalar b rest).1 :: chars (rest.drop (scalar b rest).2)
termination_by bs => bs.length
decreasing_by simp only [List.length_drop, List.length_cons]; omega

/-- The text of any byte string. -/
def decode (bs : Bytes) : String := String.ofList (chars bs)

/-- The text of a well-formed byte string, which is one that is the encoding of a text. -/
def decode? (bs : Bytes) : Option String :=
  if encode (decode bs) = bs then some (decode bs) else none

/-- The first `size` bytes of a text, filled up with zeros to exactly that size. -/
def padded (text : String) (size : Nat) : Bytes :=
  let bytes := (encode text).take size
  bytes ++ Bytes.zeros (size - bytes.length)

/-- The text before the first zero byte. -/
def untilNul (bs : Bytes) : String := decode (bs.takeWhile (· ≠ 0))

@[simp] theorem length_padded (text : String) (size : Nat) : (padded text size).length = size := by
  simp only [padded, List.length_append, List.length_take, Bytes.length_zeros]
  omega

end GameShip.Utf8
