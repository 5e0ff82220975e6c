import GameShip.Proofs.Movement.Half
import GameShip.Proofs.Wire.Accepted
import Mathlib.Data.List.Basic

/-!
# Fields at their places

A read of fixed width gives what the bytes at certain places stand for, and what is written for it
are these bytes again. Only binary16 numbers may come out otherwise, as a signalling NaN becomes
quiet.

* `Half.row`, `Half.quieted`: binary16 numbers side by side, and their bytes without signalling
  NaNs.
* `EntityHeader.ofBytes`, `Location.ofBytes`, `Bytes.words`: what bytes stand for, with
  `Reader.fixed_header`, `Reader.fixed_location`, `Reader.fixed_words` for the reads, and
  `Wire.header_ofBytes`, `Wire.location_ofBytes`, `Wire.words_words` for the written form.
-/

namespace GameShip

open ReadM

namespace ReadM

variable {α β : Type} {x : ReadM α} {width : Nat} {decode : Bytes → α}

theorem run_eq_ok_iff {body : Bytes} {a : α} :
    x.run body = .ok a ↔ ∃ later, x (Reader.ofBytes body) = .ok a later :=
  ⟨exists_of_run, fun ⟨_, h⟩ => run_of_ok h⟩

theorem Takes.run {bytes : Bytes} {a : α} (hx : x.Takes bytes a) (rest : Bytes) :
    x.run (bytes ++ rest) = .ok a :=
  run_of_ok (hx 0 rest)

namespace Fixed

theorem restoring (hx : x.Fixed width decode) : (ReadM.restoring x).Fixed width decode where
  takes h := (hx.takes h).restoring
  short {r} h := by
    obtain ⟨e, later, herror⟩ := hx.short h
    exact ⟨e, r, by rw [ReadM.restoring, herror]⟩

/-- A read that begins with one of fixed width goes on with what the first bytes stand for. -/
theorem bind_eq_ok_iff (hx : x.Fixed width decode) {f : α → ReadM β} {r later : Reader} {b : β} :
    (x >>= f) r = .ok b later ↔ width ≤ r.rest.length ∧
      f (decode (r.rest.take width)) ⟨r.position + width, r.rest.drop width⟩ = .ok b later := by
  by_cases h : width ≤ r.rest.length
  · rw [bind_of_ok (hx.ok h), and_iff_right h]
  · obtain ⟨e, stopped, herror⟩ := hx.short (Nat.lt_of_not_le h)
    rw [bind_of_error herror]
    constructor
    · intro hok
      cases hok
    · intro hok
      exact absurd hok.1 h

theorem run_eq_ok_iff (hx : x.Fixed width decode) {body : Bytes} {a : α} :
    x.run body = .ok a ↔ width ≤ body.length ∧ a = decode (body.take width) := by
  by_cases h : width ≤ body.length
  · rw [run_of_ok (hx.ok (r := Reader.ofBytes body) h), and_iff_right h, Except.ok.injEq, eq_comm]
    rfl
  · obtain ⟨e, stopped, herror⟩ := hx.short (r := Reader.ofBytes body) (Nat.lt_of_not_le h)
    rw [ReadM.run, herror]
    constructor
    · intro hok
      cases hok
    · intro hok
      exact absurd hok.1 h

/-- Where a read takes only the written form of what it gives, the written form of what bytes stand
for are these bytes. -/
theorem write_decode (hx : x.Fixed width decode) {write : α → Bytes}
    (hrest : ∀ {r later : Reader} {a : α}, x r = .ok a later → r.rest = write a ++ later.rest)
    {bytes : Bytes} (h : bytes.length = width) : write (decode bytes) = bytes := by
  have htaken := hrest (hx.takes h 0 [])
  dsimp only at htaken
  rwa [List.append_nil, List.append_nil, eq_comm] at htaken

end Fixed

end ReadM

/-! ## Parts of a byte string -/

namespace Bytes

variable {bytes : Bytes} {start stop : Nat}

theorem bound_mono {width width' : Nat} (h : width ≤ width') : bound width ≤ bound width' := by
  induction h with
  | refl => exact le_rfl
  | step _ ih => exact ih.trans (Nat.le_mul_of_pos_left _ (by decide))

theorem extract_eq (bytes : Bytes) (start stop : Nat) :
    bytes.extract start stop = (bytes.take stop).drop start := by
  rw [List.extract_eq_take_drop, List.drop_take]

theorem extract_append (h : stop ≤ bytes.length) (rest : Bytes) :
    (bytes ++ rest).extract start stop = bytes.extract start stop := by
  rw [extract_eq, List.take_append_of_le_length h, ← extract_eq]

theorem extract_take {count : Nat} (h : stop ≤ count) (bytes : Bytes) :
    (bytes.take count).extract start stop = bytes.extract start stop := by
  rw [extract_eq, List.take_take, Nat.min_eq_left h, ← extract_eq]

theorem extract_append_extract {first second third : Nat} (h : first ≤ second)
    (h' : second ≤ third) (bytes : Bytes) :
    bytes.extract first second ++ bytes.extract second third = bytes.extract first third := by
  obtain ⟨size, rfl⟩ := Nat.exists_eq_add_of_le h
  obtain ⟨size', rfl⟩ := Nat.exists_eq_add_of_le h'
  rw [List.extract_eq_take_drop, List.extract_eq_take_drop, List.extract_eq_take_drop,
    Nat.add_sub_cancel_left, Nat.add_sub_cancel_left, Nat.add_assoc, Nat.add_sub_cancel_left,
    List.take_add, List.drop_drop]

theorem extract_extract {first last : Nat} (h : start + last ≤ stop) (bytes : Bytes) :
    (bytes.extract start stop).extract first last =
      bytes.extract (start + first) (start + last) := by
  rw [extract_eq, extract_eq, List.take_drop, List.take_take, Nat.min_eq_left h, List.drop_drop,
    ← extract_eq]

theorem length_extract (h : stop ≤ bytes.length) :
    (bytes.extract start stop).length = stop - start := by
  rw [extract_eq, List.length_drop, List.length_take, Nat.min_eq_left h]

end Bytes

theorem Wire.u16_ofNat_value {bytes : Bytes} (h : bytes.length = 2) :
    u16 (UInt16.ofNat (Bytes.value bytes)) = bytes :=
  Reader.fixed_u16.write_decode Reader.rest_of_u16 h

theorem Wire.u32_ofNat_value {bytes : Bytes} (h : bytes.length = 4) :
    u32 (UInt32.ofNat (Bytes.value bytes)) = bytes :=
  Reader.fixed_u32.write_decode Reader.rest_of_u32 h

/-! ## Binary16 numbers side by side -/

namespace Half

/-- The number that two bytes stand for. -/
def ofBytes (bytes : Bytes) : Half := ⟨UInt16.ofNat (Bytes.value bytes)⟩

/-- The two bytes of a number. -/
def toBytes (h : Half) : Bytes := Wire.u16 h.bits

/-- The numbers in a row of bytes, of which each has two. -/
def row : Bytes → List Half
  | a :: b :: rest => ofBytes [a, b] :: row rest
  | _ => []

/-- A row of numbers in which signalling NaNs have become quiet. -/
def quieted (bytes : Bytes) : Bytes := (row bytes).flatMap fun h => h.quiet.toBytes

variable {bytes : Bytes}

theorem toBytes_ofBytes (h : bytes.length = 2) : (ofBytes bytes).toBytes = bytes :=
  Wire.u16_ofNat_value h

theorem flatMap_row (h : bytes.length % 2 = 0) : (row bytes).flatMap toBytes = bytes := by
  fun_induction row bytes with
  | case1 a b rest ih =>
    have hrest : rest.length % 2 = 0 := by
      rw [List.length_cons, List.length_cons] at h
      omega
    rw [List.flatMap_cons, toBytes_ofBytes rfl, ih hrest]
    rfl
  | case2 bytes hshort =>
    match bytes, h with
    | [], _ => rfl
    | a :: b :: rest, _ => exact absurd rfl (hshort a b rest)

theorem row_append {front : Bytes} (h : front.length % 2 = 0) (rest : Bytes) :
    row (front ++ rest) = row front ++ row rest := by
  fun_induction row front with
  | case1 a b front ih =>
    have hfront : front.length % 2 = 0 := by
      rw [List.length_cons, List.length_cons] at h
      omega
    rw [List.cons_append, List.cons_append, row, ih hfront, List.cons_append]
  | case2 front hshort =>
    match front, h with
    | [], _ => rfl
    | a :: b :: front, _ => exact absurd rfl (hshort a b front)

theorem quieted_append {front : Bytes} (h : front.length % 2 = 0) (rest : Bytes) :
    quieted (front ++ rest) = quieted front ++ quieted rest := by
  rw [quieted, row_append h, List.flatMap_append, quieted, quieted]

/-- A row without signalling NaNs stays as it is. -/
theorem quieted_eq_self (h : bytes.length % 2 = 0) (hquiet : ∀ x ∈ row bytes, ¬x.IsSignalling) :
    quieted bytes = bytes := by
  have hsame : ∀ x ∈ row bytes, x.quiet.toBytes = x.toBytes := fun x hx => by
    rw [quiet_eq_self (hquiet x hx)]
  rw [quieted, List.flatMap_congr hsame, flatMap_row h]

end Half

/-! ## What bytes stand for -/

/-- The header that twelve bytes stand for. -/
def EntityHeader.ofBytes (bytes : Bytes) : EntityHeader where
  id := UInt64.ofNat (Bytes.value (bytes.extract 0 8))
  kind := ⟨UInt16.ofNat (Bytes.value (bytes.extract 8 10))⟩
  unknown := UInt16.ofNat (Bytes.value (bytes.extract 10 12))

theorem EntityHeader.id_ofBytes_eq_zero_iff {bytes : Bytes} (h : 8 ≤ bytes.length) :
    (ofBytes bytes).id = 0 ↔ Bytes.value (bytes.extract 0 8) = 0 := by
  have hlt := Bytes.value_lt (bytes.extract 0 8)
  rw [Bytes.length_extract h] at hlt
  rw [← UInt64.toNat_inj, ofBytes, UInt64.toNat_ofNat_of_lt' hlt]
  rfl

/-- The rotation that four binary16 numbers stand for. -/
def Rotation.ofBytes (bytes : Bytes) : Rotation :=
  match Half.row bytes with
  | [x, y, z, w] => ⟨x.toSingle, y.toSingle, z.toSingle, w.toSingle⟩
  | _ => {}

/-- The point that three binary16 numbers stand for. -/
def Position.ofBytes (bytes : Bytes) : Position :=
  match Half.row bytes with
  | [x, y, z] => ⟨x.toSingle, y.toSingle, z.toSingle⟩
  | _ => {}

/-- The location that seven binary16 numbers stand for. -/
def Location.ofBytes (bytes : Bytes) : Location :=
  ⟨.ofBytes (bytes.extract 0 8), .ofBytes (bytes.extract 8 14)⟩

/-- The words in a row of bytes, of which each has four. -/
def Bytes.words : Bytes → List UInt32
  | a :: b :: c :: d :: rest => UInt32.ofNat (value [a, b, c, d]) :: words rest
  | _ => []

namespace Reader

theorem fixed_header : header.Fixed 12 EntityHeader.ofBytes := by
  refine Fixed.congr (Fixed.restoring (fixed_u64.bind fun id => fixed_u16.bind fun kind =>
    fixed_u16.map fun unknown => EntityHeader.mk id ⟨kind⟩ unknown)) fun bytes h => ?_
  match bytes, h with
  | [_, _, _, _, _, _, _, _, _, _, _, _], _ => rfl

theorem fixed_rotation : rotation.Fixed 8 Rotation.ofBytes := by
  refine Fixed.congr (fixed_half.bind fun x => fixed_half.bind fun y => fixed_half.bind fun z =>
    fixed_half.map fun w => Rotation.mk x y z w) fun bytes h => ?_
  match bytes, h with
  | [_, _, _, _, _, _, _, _], _ => rfl

theorem fixed_point : point.Fixed 6 Position.ofBytes := by
  refine Fixed.congr (fixed_half.bind fun x => fixed_half.bind fun y =>
    fixed_half.map fun z => Position.mk x y z) fun bytes h => ?_
  match bytes, h with
  | [_, _, _, _, _, _], _ => rfl

theorem fixed_location : location.Fixed 14 Location.ofBytes := by
  refine Fixed.congr (Fixed.restoring (fixed_rotation.bind fun rotation =>
    fixed_point.map fun position => Location.mk rotation position)) fun bytes h => ?_
  match bytes, h with
  | [_, _, _, _, _, _, _, _, _, _, _, _, _, _], _ => rfl

theorem fixed_words (count : Nat) : (words count).Fixed (4 * count) Bytes.words := by
  induction count with
  | zero =>
    refine (Fixed.pure []).congr fun bytes h => ?_
    rw [List.length_eq_zero_iff.mp h]
    rfl
  | succ count ih =>
    rw [Nat.mul_succ, Nat.add_comm (4 * count)]
    refine Fixed.congr (fixed_u32.bind fun word => ih.map (word :: ·)) fun bytes h => ?_
    match bytes, h with
    | _ :: _ :: _ :: _ :: _, _ => rfl
    | [], h | [_], h | [_, _], h | [_, _, _], h =>
      simp only [List.length_cons, List.length_nil] at h
      omega

end Reader

theorem Bytes.length_words {bytes : Bytes} {count : Nat} (h : bytes.length = 4 * count) :
    bytes.words.length = count :=
  (Reader.rest_of_words ((Reader.fixed_words count).takes h 0 [])).1

namespace Wire

variable {bytes : Bytes}

theorem header_ofBytes (h : bytes.length = 12) : header (.ofBytes bytes) = bytes :=
  Reader.fixed_header.write_decode Reader.rest_of_header h

theorem words_words {count : Nat} (h : bytes.length = 4 * count) :
    bytes.words.flatMap u32 = bytes :=
  (Reader.fixed_words count).write_decode (fun hread => (Reader.rest_of_words hread).2) h

theorem half_toSingle (h : Half) : half h.toSingle = h.quiet.toBytes := by
  rw [half, Half.ofSingle_toSingle, Half.toBytes]

theorem rotation_ofBytes (h : bytes.length = 8) :
    rotation (.ofBytes bytes) = Half.quieted bytes := by
  match bytes, h with
  | [_, _, _, _, _, _, _, _], _ =>
    simp [Rotation.ofBytes, Half.row, Half.quieted, rotation, half_toSingle]

theorem position_ofBytes (h : bytes.length = 6) :
    position (.ofBytes bytes) = Half.quieted bytes := by
  match bytes, h with
  | [_, _, _, _, _, _], _ =>
    simp [Position.ofBytes, Half.row, Half.quieted, position, half_toSingle]

theorem location_ofBytes (h : bytes.length = 14) :
    location (.ofBytes bytes) = Half.quieted bytes := by
  have hlength : (bytes.extract 0 8).length = 8 := Bytes.length_extract (by omega)
  have hbytes : bytes = bytes.extract 0 8 ++ bytes.extract 8 14 := by
    rw [Bytes.extract_append_extract (by decide) (by decide), List.extract_eq_take_drop,
      List.drop_zero, List.take_of_length_le h.le]
  rw [location, Location.ofBytes, rotation_ofBytes hlength,
    position_ofBytes (Bytes.length_extract h.ge), ← Half.quieted_append (by rw [hlength]), ← hbytes]

end Wire

end GameShip
