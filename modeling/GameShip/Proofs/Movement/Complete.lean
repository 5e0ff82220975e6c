import GameShip.Proofs.Movement.Packed
import GameShip.Proofs.Movement.Record

/-!
# Packed updates that carry a full record

* `MovementFlags.Complete`: every field follows, the last one in its long form.
* `MovementRecord.loadParts_all`: the fields one after the other make the record that the bytes of
  its full form stand for.
* `PackedMovement.agrees_full`: behind its prologue such an update is the full form of its record.
-/

namespace GameShip

/-! ## The written form -/

namespace MovementFlags

/-- Every field follows, the last one in its long form. -/
structure Complete (flags : MovementFlags) : Prop where
  all : ∀ f, flags.has f = true
  long : flags.short = false

/-- The flags that are written: the low 24 bits of the word. -/
def low (flags : MovementFlags) : MovementFlags := ⟨flags.bits &&& 0xFFFFFF⟩

variable {flags : MovementFlags}

theorem has_low (flags : MovementFlags) (f : MovementField) : flags.low.has f = flags.has f := by
  have hmask : 0xFFFFFF &&& f.mask = f.mask := by
    cases f <;> decide
  rw [has, low, UInt32.and_assoc, hmask, has]

theorem short_low (flags : MovementFlags) : flags.low.short = flags.short := by
  have hmask : 0xFFFFFF &&& shortMask = shortMask := by decide
  rw [short, low, UInt32.and_assoc, hmask, short]

theorem low_eq (flags : MovementFlags) :
    flags.low = ⟨UInt32.ofNat (flags.bits.toNat % Bytes.bound 3)⟩ := by
  refine congrArg mk (UInt32.toNat_inj.mp ?_)
  have hlt : flags.bits.toNat % Bytes.bound 3 < UInt32.size :=
    (Nat.mod_le _ _).trans_lt (UInt32.toNat_lt _)
  rw [UInt32.toNat_and, UInt32.toNat_ofNat_of_lt' hlt]
  exact Nat.and_two_pow_sub_one_eq_mod _ 24

namespace Complete

theorem low (h : flags.Complete) : flags.low.Complete where
  all f := (has_low flags f).trans (h.all f)
  long := (short_low flags).trans h.long

theorem announced_eq (h : flags.Complete) : flags.announced = MovementField.all :=
  List.filter_eq_self.mpr fun f _ => h.all f

theorem encodedLength_eq (h : flags.Complete) : flags.encodedLength = MovementRecord.size := by
  rw [flags.encodedLength_eq, h.announced_eq, h.long]
  rfl

end Complete

end MovementFlags

/-- The fields one after the other are the full form of a record. -/
theorem MovementRecord.flatMap_write (d : MovementRecord) :
    MovementField.all.flatMap (MovementField.write false d) = d.toBytes := by
  simp only [MovementField.all, MovementField.write, List.flatMap_cons, List.flatMap_nil, toBytes,
    Wire.header, Wire.rotation, Wire.position, List.append_assoc, List.append_nil,
    Bool.false_eq_true, if_false]

/-! ## What bytes stand for -/

theorem Rotation.ofBytes_eq {bytes : Bytes} (h : bytes.length = 8) :
    ofBytes bytes =
      ⟨(Half.ofBytes (bytes.extract 0 2)).toSingle, (Half.ofBytes (bytes.extract 2 4)).toSingle,
        (Half.ofBytes (bytes.extract 4 6)).toSingle,
        (Half.ofBytes (bytes.extract 6 8)).toSingle⟩ := by
  match bytes, h with
  | [_, _, _, _, _, _, _, _], _ => rfl

theorem Position.ofBytes_eq {bytes : Bytes} (h : bytes.length = 6) :
    ofBytes bytes =
      ⟨(Half.ofBytes (bytes.extract 0 2)).toSingle, (Half.ofBytes (bytes.extract 2 4)).toSingle,
        (Half.ofBytes (bytes.extract 4 6)).toSingle⟩ := by
  match bytes, h with
  | [_, _, _, _, _, _], _ => rfl

/-- The fields one after the other make the record that the bytes stand for. -/
theorem MovementRecord.loadParts_all {bytes : Bytes} (h : size ≤ bytes.length) :
    ({} : MovementRecord).loadParts (MovementField.parts false MovementField.all bytes) =
      ofBytes bytes := by
  have hrotation : (bytes.extract 0x1C 0x24).length = 8 := length_part h (by decide)
  have hposition : (bytes.extract 0x24 0x2A).length = 6 := length_part h (by decide)
  have hunknown : (bytes.extract 0x2C 0x32).length = 6 := length_part h (by decide)
  rw [ofBytes, Rotation.ofBytes_eq hrotation, Position.ofBytes_eq hposition,
    Position.ofBytes_eq hunknown]
  simp (disch := decide) only [Bytes.extract_extract, EntityHeader.ofBytes, Half.ofBytes,
    Nat.reduceAdd]
  simp only [List.extract_eq_take_drop, Nat.reduceSub, List.drop_zero, loadParts,
    MovementField.all, MovementField.parts, MovementField.width, MovementField.load,
    List.foldl_cons, List.foldl_nil, List.drop_drop, Nat.reduceAdd, Bool.false_eq_true, if_false]

/-! ## Agreement -/

namespace PackedMovement

/-- What stands in front of the fields of an update. -/
def prologue (padding : Bytes) (flags : MovementFlags) : Bytes :=
  padding ++ Bytes.ofNat 3 flags.bits.toNat

variable {flags : MovementFlags} {padding : Bytes}

theorem length_prologue (hpadding : padding.length = paddingSize) (flags : MovementFlags) :
    (prologue padding flags).length = prologueSize := by
  rw [prologue, List.length_append, hpadding, Bytes.length_ofNat, prologueSize]

theorem ofBody_prologue (hpadding : padding.length = paddingSize) (flags : MovementFlags) :
    MovementFlags.ofBody (prologue padding flags) = flags.low := by
  rw [MovementFlags.ofBody, prologue, List.drop_left' hpadding,
    List.take_of_length_le (Bytes.length_ofNat _ _).le, Bytes.value_ofNat, MovementFlags.low_eq]

theorem toBytes_of_complete (h : flags.Complete) (d : MovementRecord) :
    toBytes ⟨flags, d⟩ = prologue (Bytes.zeros paddingSize) flags ++ d.toBytes := by
  have hfields : fieldBytes ⟨flags, d⟩ = d.toBytes := by
    rw [fieldBytes_eq, h.announced_eq, h.long, MovementRecord.flatMap_write]
  rw [toBytes, hfields, prologue]

theorem ofFields_of_complete (h : flags.Complete) {fields : Bytes}
    (hfields : MovementRecord.size ≤ fields.length) :
    ofFields flags fields = ⟨flags, MovementRecord.ofBytes fields⟩ := by
  rw [ofFields, h.announced_eq, h.long, MovementRecord.loadParts_all hfields]

/-- An update with every field takes the bytes of a full record, and what they stand for. -/
theorem ofBytes_prologue (h : flags.Complete) (hpadding : padding.length = paddingSize)
    {body : Bytes} (hbody : MovementRecord.size ≤ body.length) :
    ofBytes (prologue padding flags ++ body) =
      .ok (⟨flags.low, MovementRecord.ofBytes body⟩, prologueSize + MovementRecord.size) := by
  obtain ⟨front, hfront⟩ :
      ∃ front, prologue padding flags ++ body.take MovementRecord.size = front := ⟨_, rfl⟩
  have hprologue := length_prologue hpadding flags
  have htake : (body.take MovementRecord.size).length = MovementRecord.size :=
    List.length_take_of_le hbody
  have hflags : MovementFlags.ofBody front = flags.low := by
    rw [← hfront, ofBody_append hprologue.ge, ofBody_prologue hpadding]
  have hlength : front.length = prologueSize + MovementRecord.size := by
    rw [← hfront, List.length_append, hprologue, htake]
  have hread := ofBytes_append front (by rw [hflags, h.low.encodedLength_eq, hlength])
    (body.drop MovementRecord.size)
  rwa [hflags, hlength, ← hfront, List.append_assoc, List.take_append_drop,
    List.drop_left' hprologue, ofFields_of_complete h.low htake.ge,
    MovementRecord.ofBytes_take] at hread

theorem ofBytes_prologue_of_short (h : flags.Complete) (hpadding : padding.length = paddingSize)
    {body : Bytes} (hbody : body.length < MovementRecord.size) :
    ∃ e, ofBytes (prologue padding flags ++ body) = .error e := by
  have hprologue := length_prologue hpadding flags
  refine ofBytes_of_short fun hfits => ?_
  rw [ofBody_append hprologue.ge, ofBody_prologue hpadding, h.low.encodedLength_eq,
    List.length_append, hprologue] at hfits
  omega

/-- Behind its prologue, an update with every field in its long form is the full form of its
record.

* It is written as the prologue and the full form.
* Bytes behind such a prologue are read as an update exactly if they are read as a full record, and
  both reads give the same record, bit by bit. -/
theorem agrees_full (h : flags.Complete) :
    (∀ d : MovementRecord,
      toBytes ⟨flags, d⟩ = prologue (Bytes.zeros paddingSize) flags ++ d.toBytes) ∧
    ∀ padding, padding.length = paddingSize →
      (prologue padding flags).length = 9 ∧
      ∀ body : Bytes,
        ((∃ m count, ofBytes (prologue padding flags ++ body) = .ok (m, count)) ↔
          ∃ d, MovementRecord.read.run body = .ok d) ∧
        ∀ m count d, ofBytes (prologue padding flags ++ body) = .ok (m, count) →
          MovementRecord.read.run body = .ok d → m.record = d := by
  refine ⟨toBytes_of_complete h, fun padding hpadding => ⟨length_prologue hpadding flags, ?_⟩⟩
  intro body
  by_cases hbody : MovementRecord.size ≤ body.length
  · have hread := ofBytes_prologue h hpadding hbody
    have hfull := MovementRecord.run_read_eq_ok_iff.mpr ⟨hbody, rfl⟩
    refine ⟨iff_of_true ⟨_, _, hread⟩ ⟨_, hfull⟩, fun m count d hm hd => ?_⟩
    obtain ⟨rfl, -⟩ := Prod.mk.inj (Except.ok.inj (hread.symm.trans hm))
    exact Except.ok.inj (hfull.symm.trans hd)
  · obtain ⟨e, herror⟩ := ofBytes_prologue_of_short h hpadding (Nat.lt_of_not_le hbody)
    have hnone : ∀ m count, ofBytes (prologue padding flags ++ body) ≠ .ok (m, count) :=
      fun m count hm => by cases herror.symm.trans hm
    exact ⟨iff_of_false (fun ⟨m, count, hm⟩ => hnone m count hm)
        fun ⟨d, hd⟩ => hbody (MovementRecord.run_read_eq_ok_iff.mp hd).1,
      fun m count d hm => absurd hm (hnone m count)⟩

/-- A signalling NaN in the rotation, behind flags of which the highest one is not written. -/
theorem agrees_full_nan :
    let flags : MovementFlags := ⟨0x800FFFFF⟩
    let body : Bytes := Bytes.zeros 0x1C ++ [0x01, 0x7C] ++ Bytes.zeros 0x1A
    flags.Complete ∧
      ∃ m count d, ofBytes ([1, 2, 3, 4, 5, 6, 0xFF, 0xFF, 0x0F] ++ body) = .ok (m, count) ∧
        MovementRecord.read.run body = .ok d ∧ m.record = d ∧
        d.rotation.x = Half.toSingle ⟨0x7C01⟩ ∧
        toBytes ⟨flags, d⟩ = [0, 0, 0, 0, 0, 0, 0xFF, 0xFF, 0x0F] ++ d.toBytes := by
  intro flags body
  have hcomplete : flags.Complete := {
    all := by
      intro f
      cases f <;> decide
    long := by decide }
  obtain ⟨hwrites, hreads⟩ := agrees_full hcomplete
  obtain ⟨-, hreads⟩ := hreads [1, 2, 3, 4, 5, 6] rfl
  obtain ⟨haccepts, hagree⟩ := hreads body
  have hlength : MovementRecord.size ≤ body.length := by decide
  have hfull := MovementRecord.run_read_eq_ok_iff.mpr ⟨hlength, rfl⟩
  have hprologue : prologue [1, 2, 3, 4, 5, 6] flags = [1, 2, 3, 4, 5, 6, 0xFF, 0xFF, 0x0F] := by
    decide
  have hprologue' : prologue (Bytes.zeros paddingSize) flags =
      [0, 0, 0, 0, 0, 0, 0xFF, 0xFF, 0x0F] := by
    decide
  rw [hprologue] at haccepts hagree
  rw [hprologue'] at hwrites
  obtain ⟨m, count, hm⟩ := haccepts.mpr ⟨_, hfull⟩
  exact ⟨hcomplete, m, count, _, hm, hfull, hagree m count _ hm hfull, by decide, hwrites _⟩

end PackedMovement

end GameShip
