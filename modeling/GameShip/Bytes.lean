/-!
# Byte strings

* `Bytes`: a byte string.
* `Bytes.ofNat`, `Bytes.value`: the little-endian form of a number in a given width, and back.
* `Bytes.bound`: how many numbers have a form of a given width.
-/

namespace GameShip

/-- A byte string. -/
abbrev Bytes := List UInt8

namespace Bytes

/-- A run of zero bytes. -/
def zeros (count : Nat) : Bytes := List.replicate count 0

/-- The lowest `width` bytes of a number, least significant first. -/
def ofNat : (width value : Nat) → Bytes
  | 0, _ => []
  | width + 1, value => UInt8.ofNat value :: ofNat width (value / 256)

/-- How many numbers have a form of `width` bytes. -/
def bound : (width : Nat) → Nat
  | 0 => 1
  | width + 1 => 256 * bound width

/-- The number a byte string stands for, least significant byte first. -/
def value : Bytes → Nat
  | [] => 0
  | b :: rest => b.toNat + 256 * value rest

@[simp] theorem length_zeros (count : Nat) : (zeros count).length = count :=
  List.length_replicate

@[simp] theorem length_ofNat (width value : Nat) : (ofNat width value).length = width := by
  induction width generalizing value with
  | zero => rfl
  | succ width ih => simp [ofNat, ih]

theorem value_lt (bs : Bytes) : value bs < bound bs.length := by
  induction bs with
  | nil => exact Nat.zero_lt_one
  | cons b bs ih =>
    have := b.toNat_lt
    simp only [value, List.length_cons, bound]
    omega

/-- An array to which a byte string is added grows by its length. -/
@[simp] theorem size_append (array : Array UInt8) (bs : Bytes) :
    (array ++ bs).size = array.size + bs.length := by
  rw [← Array.length_toList, Array.toList_appendList, List.length_append, Array.length_toList]

/-- Reading back the bytes of a number gives the number modulo the bound of its width. -/
theorem value_ofNat (width n : Nat) : value (ofNat width n) = n % bound width := by
  induction width generalizing n with
  | zero => exact (Nat.mod_one n).symm
  | succ width ih =>
    have byte : (UInt8.ofNat n).toNat = n % 256 := UInt8.toNat_ofNat'
    rw [ofNat, value, ih, bound, Nat.mod_mul, byte]

/-- A byte string is the little-endian form of the number it stands for. -/
theorem ofNat_value (bs : Bytes) : ofNat bs.length (value bs) = bs := by
  induction bs with
  | nil => rfl
  | cons b bs ih =>
    have hb := b.toNat_lt
    have hdiv : (b.toNat + 256 * value bs) / 256 = value bs := by omega
    have hmod : UInt8.ofNat (b.toNat + 256 * value bs) = b := by
      apply UInt8.toNat_inj.mp
      rw [UInt8.toNat_ofNat']
      omega
    simp [ofNat, value, hdiv, hmod, ih]

end Bytes

end GameShip
