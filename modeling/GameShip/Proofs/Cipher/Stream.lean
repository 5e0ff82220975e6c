import GameShip.Proofs.Cipher.KeyStream
import Mathlib.Data.List.FinRange

/-!
# What a cipher does to a stream

The table of a cipher is mixed by exchanges alone, so it holds every byte once, whatever the key is
and however much of the key stream is used up (`Rc4.perm_advance`). The cuts of a stream do not
matter, neither to what becomes of it nor to the cipher, and a second cipher of the same key gives
it back (`Rc4.applyEach_ofKey`).

* `Rc4.applyEach`: one cipher is applied to chunks, one after the other.
-/

namespace GameShip

namespace Rc4

/-- Joins chunks with the key stream, one after the other. -/
def applyEach : Rc4 → List Bytes → List Bytes × Rc4
  | cipher, [] => ([], cipher)
  | cipher, chunk :: chunks =>
    ((cipher.apply chunk).1 :: ((cipher.apply chunk).2.applyEach chunks).1,
      ((cipher.apply chunk).2.applyEach chunks).2)

/-! ## The table -/

theorem toList_identity : identity.toList = (List.range 256).map UInt8.ofNat := by
  rw [identity, Vector.toList_ofFn, List.ofFn_eq_map, ← List.map_coe_finRange_eq_range,
    List.map_map]
  rfl

theorem perm_exchange (table : Vector UInt8 256) (a b : UInt8) :
    (exchange table a b).toList.Perm table.toList :=
  (Vector.swap_perm a.toNat_lt b.toNat_lt).toList

theorem perm_schedule (key : Bytes) : (schedule key).toList.Perm identity.toList := by
  unfold schedule
  split
  · exact .refl _
  · refine List.foldlRecOn (motive := fun state : UInt8 × Vector UInt8 256 =>
      state.2.toList.Perm identity.toList) _ _ (.refl _) ?_
    intro state hstate i _
    exact (perm_exchange ..).trans hstate

theorem perm_next (cipher : Rc4) : cipher.next.2.table.toList.Perm cipher.table.toList :=
  perm_exchange ..

theorem perm_advance (cipher : Rc4) (n : Nat) :
    (cipher.advance n).table.toList.Perm cipher.table.toList := by
  induction n generalizing cipher with
  | zero => exact .refl _
  | succ n ih => exact (ih cipher.next.2).trans cipher.perm_next

/-! ## The stream -/

variable (cipher : Rc4)

theorem flatten_applyEach (chunks : List Bytes) :
    (cipher.applyEach chunks).1.flatten = (cipher.apply chunks.flatten).1 := by
  induction chunks generalizing cipher with
  | nil => rfl
  | cons chunk chunks ih => rw [applyEach, List.flatten_cons, ih, List.flatten_cons, apply_append]

theorem applyEach_snd (chunks : List Bytes) :
    (cipher.applyEach chunks).2 = (cipher.apply chunks.flatten).2 := by
  induction chunks generalizing cipher with
  | nil => rfl
  | cons chunk chunks ih => rw [applyEach, ih, List.flatten_cons, apply_append]

theorem lengths_applyEach (chunks : List Bytes) :
    (cipher.applyEach chunks).1.map List.length = chunks.map List.length := by
  induction chunks generalizing cipher with
  | nil => rfl
  | cons chunk chunks ih => rw [applyEach, List.map_cons, ih, length_apply, List.map_cons]

/-- **What a cipher does to a stream.** Whatever the key, the table holds every byte once, at the
start and after any bytes. Applied to chunks one after the other, the cipher turns each into one of
the same length, and comes to the same as if it were applied to the whole at once. A second cipher
of the key that is applied to the outcome, however that is cut, gives back what there was. -/
theorem applyEach_ofKey (key : Bytes) :
    (∀ data : Bytes,
      ((ofKey key).apply data).2.table.toList.Perm ((List.range 256).map UInt8.ofNat)) ∧
    ∀ chunks : List Bytes,
      let whole := (ofKey key).apply chunks.flatten
      let pieces := (ofKey key).applyEach chunks
      (pieces.1.flatten = whole.1 ∧ pieces.2 = whole.2) ∧
        pieces.1.map List.length = chunks.map List.length ∧
        ∀ recut : List Bytes, recut.flatten = pieces.1.flatten →
          ((ofKey key).applyEach recut).1.flatten = chunks.flatten ∧
            ((ofKey key).applyEach recut).2 = pieces.2 := by
  refine ⟨fun data => ?_, fun chunks => ?_⟩
  · rw [apply_snd, ← toList_identity]
    exact (perm_advance ..).trans (perm_schedule key)
  · refine ⟨⟨flatten_applyEach .., applyEach_snd ..⟩, lengths_applyEach .., fun recut hrecut => ?_⟩
    rw [flatten_applyEach] at hrecut
    constructor
    · rw [flatten_applyEach, hrecut, apply_apply]
    · rw [applyEach_snd, hrecut, applyEach_snd, apply_snd, apply_snd, length_apply]

/-- Two chunks that are encrypted are decrypted from three. -/
theorem applyEach_ofKey_zeros :
    let key : Bytes := List.replicate 16 0
    let chunks : List Bytes := [[8, 0], [0, 0, 3]]
    let recut : List Bytes := [[214], [24, 137, 65], [160]]
    recut.flatten = ((ofKey key).applyEach chunks).1.flatten ∧
      ((ofKey key).applyEach recut).1.flatten = [8, 0, 0, 0, 3] := by
  intro key chunks recut
  have hrecut : recut.flatten = ((ofKey key).applyEach chunks).1.flatten := by
    have hkey := (ofKey key).take_keyStream 5 11
    rw [keyStream_ofKey_zeros] at hkey
    have hlength : chunks.flatten.length = 5 := rfl
    rw [flatten_applyEach, apply_eq, hlength, ← hkey]
    rfl
  obtain ⟨-, -, hback⟩ := (applyEach_ofKey key).2 chunks
  exact ⟨hrecut, (hback recut hrecut).1⟩

end Rc4

end GameShip
