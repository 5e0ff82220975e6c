import GameShip.Proofs.Wire.Layout
import GameShip.Ship.Handler

/-!
# Movement records there and back

* `MovementRecord.ofBytes`, `MovementRecord.fixed_read`: what the bytes of a full record stand for.
* `MovementRecord.takes_toBytes`: a record that is written and read again is the same but for what
  rounding takes from its numbers.
* `MovementRecord.ending`, `MovementRecord.toBytes_normalized_ofBytes`: the normal form of a record,
  by its bytes.
-/

namespace GameShip

open ReadM

/-! ## Rounding twice -/

theorem Wire.half_rounded (x : Single) : half x.rounded = half x := by
  rw [half, half, Single.rounded, Half.ofSingle_toSingle,
    Half.quiet_eq_self (Half.not_isSignalling_ofSingle x)]

theorem Wire.rotation_rounded (r : Rotation) : rotation r.rounded = rotation r := by
  rw [rotation, rotation, Rotation.rounded, half_rounded, half_rounded, half_rounded, half_rounded]

theorem Wire.position_rounded (p : Position) : position p.rounded = position p := by
  rw [position, position, Position.rounded, half_rounded, half_rounded, half_rounded]

namespace MovementRecord

/-- What is left of a record whose numbers are sent as binary16. -/
def rounded (d : MovementRecord) : MovementRecord :=
  { d with
    rotation := d.rotation.rounded
    position := d.position.rounded
    unknownPosition := d.unknownPosition.rounded }

theorem toBytes_rounded (d : MovementRecord) : d.rounded.toBytes = d.toBytes := by
  rw [toBytes, toBytes, rounded, Wire.rotation_rounded, Wire.position_rounded,
    Wire.position_rounded]

open Reader in
theorem takes_toBytes (d : MovementRecord) : read.Takes d.toBytes d.rounded := by
  refine Takes.restoring ?_
  simp only [toBytes, List.append_assoc]
  exact (takes_header d.entity1).bind ((takes_header d.entity2).bind ((takes_u32 d.timestamp).bind
    ((takes_rotation d.rotation).bind ((takes_point d.position).bind ((takes_u16 d.unknown2).bind
      ((takes_point d.unknownPosition).bind ((takes_u16 d.unknown3).bind
        ((takes_u32 d.unknown4).map _))))))))

/-! ## The normal form -/

theorem normalized_rounded (d : MovementRecord) : d.rounded.normalized = d.normalized.rounded := rfl

/-- A record in normal form that names an entity in second place names one in first place too. -/
theorem normalized_normalized (d : MovementRecord) : d.normalized.normalized = d.normalized := by
  unfold normalized
  dsimp only
  by_cases h : d.entity1.id = 0 ∧ d.entity2.id ≠ 0
  · rw [if_pos h, if_neg fun hagain => hagain.2 hagain.1]
  · rw [if_neg h, if_neg h]

/-- The normal form of a record, written and read, has itself as normal form. -/
theorem toBytes_normalized_rounded (d : MovementRecord) :
    d.normalized.rounded.normalized.toBytes = d.normalized.toBytes := by
  rw [normalized_rounded, normalized_normalized, toBytes_rounded]

/-! ## What bytes stand for -/

/-- The record that the bytes of its full form stand for. -/
def ofBytes (bytes : Bytes) : MovementRecord where
  entity1 := .ofBytes (bytes.extract 0 0x0C)
  entity2 := .ofBytes (bytes.extract 0x0C 0x18)
  timestamp := UInt32.ofNat (Bytes.value (bytes.extract 0x18 0x1C))
  rotation := .ofBytes (bytes.extract 0x1C 0x24)
  position := .ofBytes (bytes.extract 0x24 0x2A)
  unknown2 := UInt16.ofNat (Bytes.value (bytes.extract 0x2A 0x2C))
  unknownPosition := .ofBytes (bytes.extract 0x2C 0x32)
  unknown3 := UInt16.ofNat (Bytes.value (bytes.extract 0x32 0x34))
  unknown4 := UInt32.ofNat (Bytes.value (bytes.extract 0x34 0x38))

open Reader in
theorem fixed_read : read.Fixed size ofBytes := by
  refine Fixed.congr (Fixed.restoring (fixed_header.bind fun entity1 =>
    fixed_header.bind fun entity2 => fixed_u32.bind fun timestamp =>
    fixed_rotation.bind fun rotation => fixed_point.bind fun position =>
    fixed_u16.bind fun unknown2 => fixed_point.bind fun unknownPosition =>
    fixed_u16.bind fun unknown3 => fixed_u32.map fun unknown4 =>
      MovementRecord.mk entity1 entity2 timestamp rotation position unknown2 unknownPosition
        unknown3 unknown4)) fun bytes h => ?_
  -- the last field takes all that is left, and there is no more than that
  have hlast : bytes.extract 0x34 0x38 = bytes.drop 0x34 :=
    List.take_of_length_le (by rw [List.length_drop, h]; decide)
  rw [ofBytes, hlast]
  simp only [List.extract_eq_take_drop, List.drop_drop, Nat.reduceAdd, Nat.reduceSub,
    List.drop_zero]

variable {payload : Bytes}

/-- Only the first bytes matter. -/
theorem ofBytes_take (payload : Bytes) : ofBytes (payload.take size) = ofBytes payload := by
  unfold ofBytes
  simp (disch := decide) only [Bytes.extract_take]

theorem run_read_eq_ok_iff {d : MovementRecord} :
    read.run payload = .ok d ↔ size ≤ payload.length ∧ d = ofBytes payload := by
  rw [fixed_read.run_eq_ok_iff, ofBytes_take]

/-- The bytes of the normal form of a record. The header of the second entity stands in place of the
first one where only that one is missing, no time stamp is left, and signalling NaNs have become
quiet. -/
def ending (payload : Bytes) : Bytes :=
  (if Bytes.value (payload.extract 0 8) = 0 ∧ Bytes.value (payload.extract 0x0C 0x14) ≠ 0 then
    payload.extract 0x0C 0x18
  else payload.extract 0 0x0C) ++
    payload.extract 0x0C 0x18 ++ Bytes.zeros 4 ++ Half.quieted (payload.extract 0x1C 0x2A) ++
    payload.extract 0x2A 0x2C ++ Half.quieted (payload.extract 0x2C 0x32) ++
    payload.extract 0x32 0x38

theorem length_part (h : size ≤ payload.length) {start stop : Nat} (hstop : stop ≤ 0x38) :
    (payload.extract start stop).length = stop - start :=
  Bytes.length_extract (hstop.trans h)

/-- The header that the normal form of a record has in first place. -/
theorem header_normalized_ofBytes (h : size ≤ payload.length) :
    Wire.header (ofBytes payload).normalized.entity1 =
      if Bytes.value (payload.extract 0 8) = 0 ∧ Bytes.value (payload.extract 0x0C 0x14) ≠ 0 then
        payload.extract 0x0C 0x18
      else payload.extract 0 0x0C := by
  have hfirst : (payload.extract 0 0x0C).length = 12 := length_part h (by decide)
  have hsecond : (payload.extract 0x0C 0x18).length = 12 := length_part h (by decide)
  have hid : (ofBytes payload).entity1.id = 0 ↔ Bytes.value (payload.extract 0 8) = 0 := by
    rw [ofBytes, EntityHeader.id_ofBytes_eq_zero_iff (by rw [hfirst]; decide),
      Bytes.extract_extract (by decide)]
  have hid' : (ofBytes payload).entity2.id = 0 ↔ Bytes.value (payload.extract 0x0C 0x14) = 0 := by
    rw [ofBytes, EntityHeader.id_ofBytes_eq_zero_iff (by rw [hsecond]; decide),
      Bytes.extract_extract (by decide)]
  rw [normalized, apply_ite Wire.header]
  simp only [ne_eq, hid, hid']
  rw [ofBytes, Wire.header_ofBytes hfirst, Wire.header_ofBytes hsecond]

theorem toBytes_normalized_ofBytes (h : size ≤ payload.length) :
    (ofBytes payload).normalized.toBytes = ending payload := by
  have hsecond : Wire.header (ofBytes payload).entity2 = payload.extract 0x0C 0x18 :=
    Wire.header_ofBytes (length_part h (by decide))
  have htimestamp : Wire.u32 0 = Bytes.zeros 4 := by decide
  have hlocation : Half.quieted (payload.extract 0x1C 0x2A) =
      Wire.rotation (ofBytes payload).rotation ++ Wire.position (ofBytes payload).position := by
    rw [ofBytes, Wire.rotation_ofBytes (length_part h (by decide)),
      Wire.position_ofBytes (length_part h (by decide)),
      ← Half.quieted_append (by rw [length_part h (by decide)]),
      Bytes.extract_append_extract (by decide) (by decide)]
  have hunknown2 : Wire.u16 (ofBytes payload).unknown2 = payload.extract 0x2A 0x2C :=
    Wire.u16_ofNat_value (length_part h (by decide))
  have hunknownPosition : Wire.position (ofBytes payload).unknownPosition =
      Half.quieted (payload.extract 0x2C 0x32) := Wire.position_ofBytes (length_part h (by decide))
  have hlast : payload.extract 0x32 0x38 =
      Wire.u16 (ofBytes payload).unknown3 ++ Wire.u32 (ofBytes payload).unknown4 := by
    rw [ofBytes, Wire.u16_ofNat_value (length_part h (by decide)),
      Wire.u32_ofNat_value (length_part h (by decide)),
      Bytes.extract_append_extract (by decide) (by decide)]
  rw [ending, ← header_normalized_ofBytes h, ← hsecond, ← htimestamp, hlocation, ← hunknown2,
    ← hunknownPosition, hlast]
  simp only [toBytes, List.append_assoc]
  rfl

theorem length_ending (h : size ≤ payload.length) : (ending payload).length = size := by
  rw [← toBytes_normalized_ofBytes h, length_toBytes]

/-- Bytes in normal form are those of their own normal form. -/
theorem ending_ending (h : size ≤ payload.length) : ending (ending payload) = ending payload := by
  have hread : read.run (ending payload) = .ok (ofBytes payload).normalized.rounded := by
    have htakes := (takes_toBytes (ofBytes payload).normalized).run []
    rwa [toBytes_normalized_ofBytes h, List.append_nil] at htakes
  obtain ⟨hlength, hrecord⟩ := run_read_eq_ok_iff.mp hread
  rw [← toBytes_normalized_ofBytes hlength, ← hrecord, toBytes_normalized_rounded,
    toBytes_normalized_ofBytes h]

end MovementRecord

end GameShip
