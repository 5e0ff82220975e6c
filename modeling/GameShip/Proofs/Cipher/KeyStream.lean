import GameShip.Cipher.Rc4
import Mathlib.Data.List.Zip

/-!
# The key stream of a cipher

A cipher joins each byte with one byte of its key stream (`apply_eq`), so what it does to a run of
bytes depends only on where in the key stream it stands (`keyStream_add`, `apply_append`), and
doing it twice undoes it (`apply_apply`). Two ciphers agree on a run of bytes exactly if they have
the same key stream over its length (`apply_apply_iff`).

* `Rc4.advance`, `Rc4.keyStream`, `Rc4.byteAt`: the key stream as such.
* `Rc4.decode`: one cipher over chunks of which only some are encrypted.
-/

namespace GameShip

namespace Rc4

/-- The cipher after `count` more bytes. -/
def advance : (cipher : Rc4) → (count : Nat) → Rc4
  | cipher, 0 => cipher
  | cipher, count + 1 => cipher.next.2.advance count

/-- The next `count` bytes of the key stream. -/
def keyStream : (cipher : Rc4) → (count : Nat) → Bytes
  | _, 0 => []
  | cipher, count + 1 => cipher.next.1 :: cipher.next.2.keyStream count

/-- The byte of the key stream at a position. -/
def byteAt (cipher : Rc4) (position : Nat) : UInt8 := (cipher.advance position).next.1

/-- What stands in chunks of which those marked are encrypted, all with one cipher. -/
def decode : Rc4 → List (Bytes × Bool) → Bytes × Rc4
  | cipher, [] => ([], cipher)
  | cipher, (chunk, false) :: chunks =>
    (chunk ++ (cipher.decode chunks).1, (cipher.decode chunks).2)
  | cipher, (chunk, true) :: chunks =>
    ((cipher.apply chunk).1 ++ ((cipher.apply chunk).2.decode chunks).1,
      ((cipher.apply chunk).2.decode chunks).2)

variable (cipher : Rc4)

@[simp] theorem length_keyStream (n : Nat) : (cipher.keyStream n).length = n := by
  induction n generalizing cipher with
  | zero => rfl
  | succ n ih => simp [keyStream, ih]

theorem advance_advance (m n : Nat) : (cipher.advance m).advance n = cipher.advance (m + n) := by
  induction m generalizing cipher with
  | zero => simp [advance]
  | succ m ih => rw [Nat.succ_add, advance, ih, advance]

theorem keyStream_add (m n : Nat) :
    cipher.keyStream (m + n) = cipher.keyStream m ++ (cipher.advance m).keyStream n := by
  induction m generalizing cipher with
  | zero => simp [keyStream, advance]
  | succ m ih => simp only [Nat.succ_add, keyStream, ih, advance, List.cons_append]

theorem keyStream_advance (start count : Nat) :
    (cipher.advance start).keyStream count = (List.range' start count).map cipher.byteAt := by
  induction count generalizing start with
  | zero => rfl
  | succ count ih =>
    have hnext : (cipher.advance start).next.2 = cipher.advance (start + 1) :=
      (cipher.advance_advance start 1).symm ▸ rfl
    rw [keyStream, hnext, ih, List.range'_succ, List.map_cons, byteAt]

theorem take_keyStream (m n : Nat) : (cipher.keyStream (m + n)).take m = cipher.keyStream m := by
  rw [keyStream_add, List.take_left' (length_keyStream ..)]

theorem drop_keyStream (m n : Nat) :
    (cipher.keyStream (m + n)).drop m = (cipher.advance m).keyStream n := by
  rw [keyStream_add, List.drop_left' (length_keyStream ..)]

/-- Each byte is joined with its own byte of the key stream. -/
theorem apply_eq (data : Bytes) :
    cipher.apply data =
      (data.zipWith (· ^^^ ·) (cipher.keyStream data.length), cipher.advance data.length) := by
  induction data generalizing cipher with
  | nil => rfl
  | cons b data ih => simp [ih, keyStream, advance]

theorem apply_snd (data : Bytes) : (cipher.apply data).2 = cipher.advance data.length := by
  rw [apply_eq]

/-- How a run of bytes is cut does not matter to a cipher. -/
theorem apply_append (a b : Bytes) :
    cipher.apply (a ++ b) =
      ((cipher.apply a).1 ++ ((cipher.apply a).2.apply b).1, ((cipher.apply a).2.apply b).2) := by
  induction a generalizing cipher with
  | nil => rfl
  | cons x a ih => simp [ih]

/-- A byte is left as it is by two key bytes exactly if these are the same. -/
theorem zipWith_xor_eq_self_iff {data k k' : Bytes} (hk : k.length = data.length)
    (hk' : k'.length = data.length) :
    data.zipWith (· ^^^ ·) (k.zipWith (· ^^^ ·) k') = data ↔ k = k' := by
  induction data generalizing k k' with
  | nil =>
    rw [List.length_nil, List.length_eq_zero_iff] at hk hk'
    simp [hk, hk']
  | cons b data ih =>
    obtain ⟨x, k, rfl⟩ := List.exists_cons_of_length_eq_add_one hk
    obtain ⟨y, k', rfl⟩ := List.exists_cons_of_length_eq_add_one hk'
    simp only [List.length_cons, Nat.add_right_cancel_iff] at hk hk'
    simp only [List.zipWith_cons_cons, List.cons.injEq, ih hk hk', and_congr_left_iff]
    intro _
    constructor
    · intro h
      rw [← UInt8.xor_zero (a := b), UInt8.xor_assoc, UInt8.zero_xor, UInt8.xor_right_inj] at h
      exact UInt8.xor_eq_zero_iff.mp h
    · rintro rfl
      rw [UInt8.xor_self, UInt8.xor_zero]

theorem zipWith_zipWith_xor (a b c : Bytes) :
    (a.zipWith (· ^^^ ·) b).zipWith (· ^^^ ·) c = a.zipWith (· ^^^ ·) (b.zipWith (· ^^^ ·) c) := by
  rw [List.zipWith_zipWith_left, List.zipWith_zipWith_right]
  simp only [UInt8.xor_assoc]

/-- A cipher undoes other key bytes exactly if they are the next of its own. -/
theorem apply_zipWith_eq_iff {data k : Bytes} (hk : k.length = data.length) :
    (cipher.apply (data.zipWith (· ^^^ ·) k)).1 = data ↔ k = cipher.keyStream data.length := by
  have hlength : (data.zipWith (· ^^^ ·) k).length = data.length := by simp [hk]
  rw [apply_eq, hlength, zipWith_zipWith_xor, zipWith_xor_eq_self_iff hk (by simp)]

/-- A cipher undoes another exactly if their key streams agree over the length of the data. -/
theorem apply_apply_iff (other : Rc4) (data : Bytes) :
    (other.apply (cipher.apply data).1).1 = data ↔
      cipher.keyStream data.length = other.keyStream data.length := by
  rw [apply_eq cipher, apply_zipWith_eq_iff other (by simp)]

theorem apply_apply (data : Bytes) : (cipher.apply (cipher.apply data).1).1 = data :=
  (apply_apply_iff cipher cipher data).mpr rfl

theorem decode_append (chunks more : List (Bytes × Bool)) :
    cipher.decode (chunks ++ more) =
      ((cipher.decode chunks).1 ++ ((cipher.decode chunks).2.decode more).1,
        ((cipher.decode chunks).2.decode more).2) := by
  induction chunks generalizing cipher with
  | nil => rfl
  | cons chunk chunks ih =>
    obtain ⟨chunk, encrypted⟩ := chunk
    cases encrypted <;> simp [decode, ih]

theorem decode_singleton (chunk : Bytes) (encrypted : Bool) :
    cipher.decode [(chunk, encrypted)] =
      ((through (if encrypted then some cipher else none) chunk).1,
        (through (if encrypted then some cipher else none) chunk).2.getD cipher) := by
  cases encrypted <;> simp [decode, through]

/-- How the key stream of a key of sixteen zeros begins. -/
theorem keyStream_ofKey_zeros :
    (ofKey (List.replicate 16 0)).keyStream 16 =
      [222, 24, 137, 65, 163, 55, 93, 58, 138, 6, 30, 103, 87, 110, 146, 109] := by
  decide +kernel

/-! ## A cipher that may not be there -/

@[simp] theorem through_nil (cipher : Option Rc4) : through cipher [] = ([], cipher) := by
  cases cipher <;> rfl

theorem through_append (cipher : Option Rc4) (a b : Bytes) :
    through cipher (a ++ b) =
      ((through cipher a).1 ++ (through (through cipher a).2 b).1,
        (through (through cipher a).2 b).2) := by
  cases cipher with
  | none => rfl
  | some cipher => simp only [through, apply_append]

theorem through_through (cipher : Option Rc4) (data : Bytes) :
    (through cipher (through cipher data).1).1 = data := by
  cases cipher with
  | none => rfl
  | some cipher => exact apply_apply cipher data

theorem take_through (cipher : Option Rc4) (data : Bytes) (n : Nat) :
    (through cipher data).1.take n = (through cipher (data.take n)).1 := by
  have hcut := congrArg Prod.fst (through_append cipher (data.take n) (data.drop n))
  rw [List.take_append_drop] at hcut
  by_cases h : n ≤ data.length
  · have hlen : (through cipher (data.take n)).1.length = n := by simp [h]
    rw [hcut, List.take_append_of_le_length (by omega), List.take_of_length_le (by omega)]
  · rw [List.take_of_length_le (by simp; omega), List.take_of_length_le (by omega)]

end Rc4

end GameShip
