import GameShip.Movement.Packed
import GameShip.Proofs.Movement.Half
import GameShip.Proofs.Wire.Reading
import Mathlib.Data.List.Basic

/-!
# Packed movement updates there and back

* `MovementField.bits`, `MovementField.load`: a field of a record, and the record with a field as
  it came in. Reading and writing are put in terms of these two.
* `MovementFlags.announced`, `MovementField.parts`: the fields that follow, and the bytes of each.
* `PackedMovement.Canonical`: an update that its written form keeps in full.
* `PackedMovement.reads_writes`: which bodies are updates, what is read from them, and what is
  written for it.
-/

namespace GameShip

namespace MovementField

/-- The bits of a field of a record. -/
def bits (d : MovementRecord) : MovementField → Nat
  | .entity1Id => d.entity1.id.toNat
  | .entity1Kind => d.entity1.kind.code.toNat
  | .entity1Unknown => d.entity1.unknown.toNat
  | .entity2Id => d.entity2.id.toNat
  | .entity2Kind => d.entity2.kind.code.toNat
  | .entity2Unknown => d.entity2.unknown.toNat
  | .timestamp => d.timestamp.toNat
  | .rotationX => d.rotation.x.bits.toNat
  | .rotationY => d.rotation.y.bits.toNat
  | .rotationZ => d.rotation.z.bits.toNat
  | .rotationW => d.rotation.w.bits.toNat
  | .positionX => d.position.x.bits.toNat
  | .positionY => d.position.y.bits.toNat
  | .positionZ => d.position.z.bits.toNat
  | .unknown2 => d.unknown2.toNat
  | .unknownX => d.unknownPosition.x.bits.toNat
  | .unknownY => d.unknownPosition.y.bits.toNat
  | .unknownZ => d.unknownPosition.z.bits.toNat
  | .unknown3 => d.unknown3.toNat
  | .unknown4 => d.unknown4.toNat

/-- The number of bytes of a field. The last one has a short form. -/
def width (short : Bool) : MovementField → Nat
  | .entity1Id | .entity2Id => 8
  | .timestamp => 4
  | .unknown4 => if short then 1 else 4
  | _ => 2

/-- The field travels as a binary16 number. -/
def isHalf : MovementField → Bool
  | .rotationX | .rotationY | .rotationZ | .rotationW | .positionX | .positionY | .positionZ
  | .unknownX | .unknownY | .unknownZ => true
  | _ => false

/-- The record in which a field is as it came in, by the number that its bytes stand for. -/
def load (d : MovementRecord) (n : Nat) : MovementField → MovementRecord
  | .entity1Id => { d with entity1.id := UInt64.ofNat n }
  | .entity1Kind => { d with entity1.kind := ⟨UInt16.ofNat n⟩ }
  | .entity1Unknown => { d with entity1.unknown := UInt16.ofNat n }
  | .entity2Id => { d with entity2.id := UInt64.ofNat n }
  | .entity2Kind => { d with entity2.kind := ⟨UInt16.ofNat n⟩ }
  | .entity2Unknown => { d with entity2.unknown := UInt16.ofNat n }
  | .timestamp => { d with timestamp := UInt32.ofNat n }
  | .rotationX => { d with rotation.x := Half.toSingle ⟨UInt16.ofNat n⟩ }
  | .rotationY => { d with rotation.y := Half.toSingle ⟨UInt16.ofNat n⟩ }
  | .rotationZ => { d with rotation.z := Half.toSingle ⟨UInt16.ofNat n⟩ }
  | .rotationW => { d with rotation.w := Half.toSingle ⟨UInt16.ofNat n⟩ }
  | .positionX => { d with position.x := Half.toSingle ⟨UInt16.ofNat n⟩ }
  | .positionY => { d with position.y := Half.toSingle ⟨UInt16.ofNat n⟩ }
  | .positionZ => { d with position.z := Half.toSingle ⟨UInt16.ofNat n⟩ }
  | .unknown2 => { d with unknown2 := UInt16.ofNat n }
  | .unknownX => { d with unknownPosition.x := Half.toSingle ⟨UInt16.ofNat n⟩ }
  | .unknownY => { d with unknownPosition.y := Half.toSingle ⟨UInt16.ofNat n⟩ }
  | .unknownZ => { d with unknownPosition.z := Half.toSingle ⟨UInt16.ofNat n⟩ }
  | .unknown3 => { d with unknown3 := UInt16.ofNat n }
  | .unknown4 => { d with unknown4 := UInt32.ofNat n }

/-- The bits that a field has once a number came in for it. -/
def received (f : MovementField) (n : Nat) : Nat :=
  if f.isHalf then (Half.toSingle ⟨UInt16.ofNat n⟩).bits.toNat else n

/-- The number that goes out for the bits of a field. -/
def sent (f : MovementField) (n : Nat) : Nat :=
  if f.isHalf then (Half.ofSingle ⟨UInt32.ofNat n⟩).bits.toNat else n

/-- The bytes of a field, with a signalling NaN made quiet. -/
def quieted (f : MovementField) (bytes : Bytes) : Bytes :=
  if f.isHalf then Wire.u16 (Half.quiet ⟨UInt16.ofNat (Bytes.value bytes)⟩).bits else bytes

variable {f g : MovementField} {short : Bool} {d e : MovementRecord} {n : Nat}

theorem mem_all (f : MovementField) : f ∈ all := by
  cases f <;> decide

theorem nodup_all : all.Nodup := by
  decide

/-- Fields are read in the order of their flags. -/
theorem readOrder_eq : readOrder = all := rfl

/-- Fields are written in the order in which they are read. -/
theorem writeOrder_eq : writeOrder = all := rfl

/-- Every field is counted, but the last. -/
theorem all_eq : all = widths.map (·.1) ++ [.unknown4] := rfl

theorem width_of_mem_widths {field : MovementField × Nat} (h : field ∈ widths) (short : Bool) :
    field.1.width short = field.2 := by
  revert field
  cases short <;> decide

/-- The flags are bits, one after the other. -/
theorem mask_eq (f : MovementField) : f.mask = 1 <<< UInt32.ofNat (all.idxOf f) := by
  cases f <;> decide

@[simp] theorem length_write (short : Bool) (d : MovementRecord) (f : MovementField) :
    (f.write short d).length = f.width short := by
  cases f <;> cases short <;> simp [write, width, Wire.u64, Wire.u32, Wire.u16, Wire.u8, Wire.half]

theorem bits_load_of_ne (h : f ≠ g) : f.bits (g.load d n) = f.bits d := by
  cases g <;> cases f <;> first | rfl | exact absurd rfl h

theorem bits_load_self (h : n < Bytes.bound (f.width short)) :
    f.bits (f.load d n) = f.received n := by
  cases f with
  | entity1Id | entity2Id => exact UInt64.toNat_ofNat_of_lt' h
  | timestamp => exact UInt32.toNat_ofNat_of_lt' h
  | rotationX | rotationY | rotationZ | rotationW | positionX | positionY | positionZ
  | unknownX | unknownY | unknownZ => rfl
  | entity1Kind | entity1Unknown | entity2Kind | entity2Unknown | unknown2 | unknown3 =>
    exact UInt16.toNat_ofNat_of_lt' h
  | unknown4 =>
    cases short with
    | false => exact UInt32.toNat_ofNat_of_lt' h
    | true => exact UInt32.toNat_ofNat_of_lt' (Nat.lt_trans h (by decide))

/-- A record is determined by its fields. -/
theorem ext_bits (h : ∀ f, bits d f = bits e f) : d = e := by
  have header : ∀ {a b : EntityHeader}, a.id.toNat = b.id.toNat →
      a.kind.code.toNat = b.kind.code.toNat → a.unknown.toNat = b.unknown.toNat → a = b := by
    rintro ⟨_, ⟨_⟩, _⟩ ⟨_, ⟨_⟩, _⟩ hid hkind hunknown
    cases UInt64.toNat_inj.mp hid
    cases UInt16.toNat_inj.mp hkind
    cases UInt16.toNat_inj.mp hunknown
    rfl
  have single : ∀ {a b : Single}, a.bits.toNat = b.bits.toNat → a = b := by
    rintro ⟨_⟩ ⟨_⟩ hbits
    cases UInt32.toNat_inj.mp hbits
    rfl
  obtain ⟨header1, header2, time, ⟨rx, ry, rz, rw⟩, ⟨px, py, pz⟩, u2, ⟨ux, uy, uz⟩, u3, u4⟩ := d
  obtain ⟨header1', header2', time', ⟨rx', ry', rz', rw'⟩, ⟨px', py', pz'⟩, u2',
    ⟨ux', uy', uz'⟩, u3', u4'⟩ := e
  simp only [MovementRecord.mk.injEq, Rotation.mk.injEq, Position.mk.injEq]
  exact ⟨header (h .entity1Id) (h .entity1Kind) (h .entity1Unknown),
    header (h .entity2Id) (h .entity2Kind) (h .entity2Unknown),
    UInt32.toNat_inj.mp (h .timestamp),
    ⟨single (h .rotationX), single (h .rotationY), single (h .rotationZ), single (h .rotationW)⟩,
    ⟨single (h .positionX), single (h .positionY), single (h .positionZ)⟩,
    UInt16.toNat_inj.mp (h .unknown2),
    ⟨single (h .unknownX), single (h .unknownY), single (h .unknownZ)⟩,
    UInt16.toNat_inj.mp (h .unknown3), UInt32.toNat_inj.mp (h .unknown4)⟩

open Reader ReadM in
theorem fixed_read (f : MovementField) (short : Bool) (d : MovementRecord) :
    (f.read short d).Fixed (f.width short) fun bytes => f.load d (Bytes.value bytes) := by
  cases f with
  | entity1Id | entity2Id => exact fixed_u64.map _
  | timestamp => exact fixed_u32.map _
  | rotationX | rotationY | rotationZ | rotationW | positionX | positionY | positionZ
  | unknownX | unknownY | unknownZ => exact fixed_half.map _
  | entity1Kind | entity1Unknown | entity2Kind | entity2Unknown | unknown2 | unknown3 =>
    exact fixed_u16.map _
  | unknown4 =>
    cases short with
    | false => exact fixed_u32.map _
    | true =>
      refine (fixed_u8.map _).congr fun bytes h => ?_
      have hlt : Bytes.value bytes < UInt8.size := by
        have := Bytes.value_lt bytes
        rwa [h] at this
      dsimp only [load]
      rw [UInt8.toUInt32_ofNat' hlt]

theorem sent_single (h : f.isHalf = true) (x : Single) :
    f.sent x.bits.toNat = (Half.ofSingle x).bits.toNat := by
  rw [sent, if_pos h, UInt32.ofNat_toNat]

theorem write_eq (f : MovementField) (short : Bool) (d : MovementRecord) :
    f.write short d = Bytes.ofNat (f.width short) (f.sent (f.bits d)) := by
  cases f with
  | rotationX | rotationY | rotationZ | rotationW | positionX | positionY | positionZ
  | unknownX | unknownY | unknownZ =>
    exact congrArg (Bytes.ofNat 2) (Eq.symm (sent_single rfl _))
  | unknown4 => cases short <;> rfl
  | _ => rfl

theorem width_of_half (h : f.isHalf = true) (short : Bool) : f.width short = 2 := by
  cases f <;> first | rfl | cases h

/-- A field that is no binary16 number fits into its bytes. The short form of the last one does
not hold every value. -/
theorem bits_lt (hhalf : ¬f.isHalf = true)
    (hshort : f = .unknown4 → short = true → f.bits d < 0x100) :
    f.bits d < Bytes.bound (f.width short) := by
  cases f with
  | entity1Id | entity2Id => exact UInt64.toNat_lt _
  | timestamp => exact UInt32.toNat_lt _
  | rotationX | rotationY | rotationZ | rotationW | positionX | positionY | positionZ
  | unknownX | unknownY | unknownZ => exact absurd rfl hhalf
  | entity1Kind | entity1Unknown | entity2Kind | entity2Unknown | unknown2 | unknown3 =>
    exact UInt16.toNat_lt _
  | unknown4 =>
    cases short with
    | false => exact UInt32.toNat_lt _
    | true => exact hshort rfl rfl

theorem sent_received (f : MovementField) (n : Nat) : f.sent (f.received n) =
    if f.isHalf then (Half.quiet ⟨UInt16.ofNat n⟩).bits.toNat else n := by
  unfold received
  split
  · rw [sent_single ‹_›, Half.ofSingle_toSingle]
  · rw [sent, if_neg ‹_›]

/-- What goes out for a field that came in. -/
theorem ofNat_sent_received {bytes : Bytes} (h : bytes.length = f.width short) :
    Bytes.ofNat (f.width short) (f.sent (f.received (Bytes.value bytes))) = f.quieted bytes := by
  rw [sent_received]
  unfold quieted
  split
  · rw [width_of_half ‹_›]
    rfl
  · rw [← h, Bytes.ofNat_value]

end MovementField

/-- The record in which fields are as they came in, by the bytes of each. -/
def MovementRecord.loadParts (d : MovementRecord) (parts : List (MovementField × Bytes)) :
    MovementRecord :=
  parts.foldl (fun d part => part.1.load d (Bytes.value part.2)) d

namespace MovementRecord

variable {f : MovementField} {d : MovementRecord} {parts : List (MovementField × Bytes)}
  {bytes : Bytes} {short : Bool}

theorem bits_loadParts_of_notMem (h : f ∉ parts.map Prod.fst) :
    f.bits (d.loadParts parts) = f.bits d := by
  induction parts generalizing d with
  | nil => rfl
  | cons part parts ih =>
    rw [List.map_cons, List.mem_cons, not_or] at h
    exact (ih h.2).trans (MovementField.bits_load_of_ne h.1)

theorem bits_loadParts_of_mem (hnodup : (parts.map Prod.fst).Nodup) (h : (f, bytes) ∈ parts)
    (hlength : bytes.length = f.width short) :
    f.bits (d.loadParts parts) = f.received (Bytes.value bytes) := by
  induction parts generalizing d with
  | nil => exact absurd h List.not_mem_nil
  | cons part parts ih =>
    rw [List.map_cons, List.nodup_cons] at hnodup
    rcases List.mem_cons.mp h with rfl | h
    · have hlt : Bytes.value bytes < Bytes.bound (f.width short) := hlength ▸ Bytes.value_lt bytes
      exact (bits_loadParts_of_notMem hnodup.1).trans (MovementField.bits_load_self hlt)
    · exact ih hnodup.2 h

end MovementRecord

namespace MovementField

/-- The bytes of each of the listed fields, which follow one another. -/
def parts (short : Bool) : List MovementField → Bytes → List (MovementField × Bytes)
  | [], _ => []
  | f :: fs, bytes => (f, bytes.take (f.width short)) :: parts short fs (bytes.drop (f.width short))

/-- The number of bytes of the listed fields. -/
def extent (short : Bool) (fs : List MovementField) : Nat :=
  fs.foldr (fun f n => f.width short + n) 0

variable {short : Bool} {fs : List MovementField} {bytes : Bytes}

theorem map_fst_parts (short : Bool) (fs : List MovementField) (bytes : Bytes) :
    (parts short fs bytes).map Prod.fst = fs := by
  induction fs generalizing bytes with
  | nil => rfl
  | cons f fs ih => rw [parts, List.map_cons, ih]

theorem length_of_mem_parts {part : MovementField × Bytes}
    (hlength : bytes.length = extent short fs) (h : part ∈ parts short fs bytes) :
    part.2.length = part.1.width short := by
  induction fs generalizing bytes with
  | nil => exact absurd h List.not_mem_nil
  | cons f fs ih =>
    rw [extent, List.foldr_cons, ← extent] at hlength
    rcases List.mem_cons.mp h with rfl | h
    · exact List.length_take_of_le (by omega)
    · exact ih (by rw [List.length_drop]; omega) h

/-- Fields that are written one after the other are the parts of what was written. -/
theorem parts_write (short : Bool) (d : MovementRecord) (fs : List MovementField) :
    parts short fs (fs.flatMap (write short d)) = fs.map fun f => (f, f.write short d) := by
  induction fs with
  | nil => rfl
  | cons f fs ih =>
    rw [parts, List.flatMap_cons, List.map_cons, ← length_write short d f, List.take_left,
      List.drop_left, ih]

theorem length_flatMap_write (short : Bool) (d : MovementRecord) (fs : List MovementField) :
    (fs.flatMap (write short d)).length = extent short fs := by
  induction fs with
  | nil => rfl
  | cons f fs ih => rw [List.flatMap_cons, List.length_append, length_write, ih]; rfl

end MovementField

namespace MovementFlags

/-- The word of flags in a body. -/
def ofBody (body : Bytes) : MovementFlags :=
  ⟨UInt32.ofNat (Bytes.value ((body.drop PackedMovement.paddingSize).take 3))⟩

/-- The fields that follow. -/
def announced (flags : MovementFlags) : List MovementField := MovementField.all.filter flags.has

variable {flags : MovementFlags}

theorem nodup_announced (flags : MovementFlags) : flags.announced.Nodup :=
  MovementField.nodup_all.filter _

theorem mem_announced_iff {f : MovementField} : f ∈ flags.announced ↔ flags.has f = true :=
  List.mem_filter.trans (and_iff_right f.mem_all)

/-- Counting fields by their flags adds up what the announced ones take. -/
theorem foldl_widths {fields : List (MovementField × Nat)}
    (hfields : fields ⊆ MovementField.widths) (size : Nat) (last : List MovementField) :
    fields.foldl (fun size field => if flags.has field.1 then size + field.2 else size) size +
        MovementField.extent flags.short last =
      size + MovementField.extent flags.short ((fields.map (·.1)).filter flags.has ++ last) := by
  induction fields generalizing size with
  | nil => rfl
  | cons field fields ih =>
    obtain ⟨hfield, hfields⟩ := List.cons_subset.mp hfields
    rw [List.foldl_cons, ih hfields, List.map_cons]
    by_cases h : flags.has field.1 = true
    · rw [if_pos h, List.filter_cons_of_pos h, List.cons_append, MovementField.extent,
        MovementField.extent, List.foldr_cons, MovementField.width_of_mem_widths hfield,
        Nat.add_assoc]
    · rw [if_neg h, List.filter_cons_of_neg h]

/-- What is counted for the announced fields is what they take. -/
theorem encodedLength_eq (flags : MovementFlags) :
    flags.encodedLength = MovementField.extent flags.short flags.announced := by
  rw [announced, MovementField.all_eq, List.filter_append,
    ← Nat.zero_add (MovementField.extent _ _), ← foldl_widths (List.Subset.refl _), encodedLength]
  by_cases h : flags.has .unknown4 = true
  · rw [if_pos h, List.filter_cons_of_pos h]
    rfl
  · rw [if_neg h, List.filter_cons_of_neg h]
    rfl

theorem fixed_readFields (flags : MovementFlags) (fs : List MovementField) (d : MovementRecord) :
    (PackedMovement.readFields flags fs d).Fixed
      (MovementField.extent flags.short (fs.filter flags.has))
      fun bytes => d.loadParts (MovementField.parts flags.short (fs.filter flags.has) bytes) := by
  induction fs generalizing d with
  | nil => exact ReadM.Fixed.pure d
  | cons f fs ih =>
    rw [PackedMovement.readFields]
    by_cases h : flags.has f = true
    · rw [if_pos h, List.filter_cons_of_pos h]
      exact (f.fixed_read flags.short d).bind ih
    · rw [if_neg h, pure_bind, List.filter_cons_of_neg h]
      exact ih d

end MovementFlags

namespace PackedMovement

open ReadM

/-- An update that its written form keeps in full. -/
structure Canonical (m : PackedMovement) : Prop where
  /-- The word of flags has 24 bits. -/
  word : m.flags.bits < 0x1000000
  /-- Fields that are not announced are zero. -/
  absent : ∀ f, m.flags.has f = false → f.bits m.record = 0
  /-- Numbers that travel as binary16 are such numbers, and none is a signalling NaN. -/
  half : ∀ f, m.flags.has f = true → f.isHalf = true →
    ∃ h : Half, ¬h.IsSignalling ∧ f.bits m.record = h.toSingle.bits.toNat
  /-- The short form of the last field has one byte. -/
  short : m.flags.has .unknown4 = true → m.flags.short = true → m.record.unknown4 < 0x100

/-- The update that the announced fields of a body make. -/
def ofFields (flags : MovementFlags) (fields : Bytes) : PackedMovement :=
  ⟨flags, ({} : MovementRecord).loadParts (MovementField.parts flags.short flags.announced fields)⟩

/-- Reads the announced fields. -/
def readAnnounced (flags : MovementFlags) : ReadM PackedMovement := do
  return PackedMovement.mk flags (← readFields flags MovementField.readOrder {})

theorem fixed_readAnnounced (flags : MovementFlags) :
    (readAnnounced flags).Fixed flags.encodedLength (ofFields flags) := by
  rw [flags.encodedLength_eq, readAnnounced, MovementField.readOrder_eq]
  exact (flags.fixed_readFields MovementField.all {}).map (PackedMovement.mk flags)

variable {body : Bytes} {m : PackedMovement}

theorem read_ofBytes (body : Bytes) (h : prologueSize ≤ body.length) :
    read (Reader.ofBytes body) =
      readAnnounced (.ofBody body) ⟨prologueSize, body.drop prologueSize⟩ := by
  rw [prologueSize] at h
  have hskip := (Reader.fixed_skip paddingSize).ok (r := Reader.ofBytes body)
    (Nat.le_of_add_right_le h)
  have hword : 3 ≤ (body.drop paddingSize).length := by
    rw [List.length_drop]
    omega
  rw [read, bind_of_ok hskip, bind_of_ok (Reader.fixed_u24.ok hword)]
  dsimp only
  rw [List.drop_drop]
  rfl

theorem read_of_short (h : body.length < prologueSize) :
    ∃ e later, read (Reader.ofBytes body) = .error e later := by
  rw [prologueSize] at h
  by_cases hpadding : paddingSize ≤ body.length
  · have hskip := (Reader.fixed_skip paddingSize).ok (r := Reader.ofBytes body) hpadding
    have hword : (body.drop paddingSize).length < 3 := by
      rw [List.length_drop]
      omega
    obtain ⟨e, later, herror⟩ := Reader.fixed_u24.short
      (r := ⟨0 + paddingSize, body.drop paddingSize⟩) hword
    exact ⟨e, later, (bind_of_ok hskip).trans (bind_of_error herror)⟩
  · obtain ⟨e, later, herror⟩ := (Reader.fixed_skip paddingSize).short
      (r := Reader.ofBytes body) (Nat.lt_of_not_le hpadding)
    exact ⟨e, later, bind_of_error herror⟩

theorem ofBody_append {front : Bytes} (h : prologueSize ≤ front.length) (rest : Bytes) :
    MovementFlags.ofBody (front ++ rest) = .ofBody front := by
  rw [prologueSize] at h
  rw [MovementFlags.ofBody, List.drop_append_of_le_length (by omega),
    List.take_append_of_le_length (by rw [List.length_drop]; omega), MovementFlags.ofBody]

/-- A body that ends with its announced fields is read, and nothing after it. -/
theorem ofBytes_append (front : Bytes)
    (h : front.length = prologueSize + (MovementFlags.ofBody front).encodedLength)
    (rest : Bytes) : ofBytes (front ++ rest) =
      .ok (ofFields (.ofBody front) (front.drop prologueSize), front.length) := by
  have hprologue : prologueSize ≤ front.length := h ▸ Nat.le_add_right _ _
  have hlength : (front.drop prologueSize).length = (MovementFlags.ofBody front).encodedLength := by
    rw [List.length_drop, h, Nat.add_sub_cancel_left]
  have hread := read_ofBytes (front ++ rest)
    (by rw [List.length_append]; exact Nat.le_add_right_of_le hprologue)
  rw [ofBody_append hprologue, List.drop_append_of_le_length hprologue,
    (fixed_readAnnounced _).takes hlength, hlength, ← h] at hread
  rw [ofBytes, ReadM.run, bind_of_ok hread]
  rfl

/-- What follows the announced fields has no influence. -/
theorem ofBytes_take
    (hfields : prologueSize + (MovementFlags.ofBody body).encodedLength ≤ body.length)
    (rest : Bytes) :
    ofBytes (body.take (prologueSize + (MovementFlags.ofBody body).encodedLength) ++ rest) =
      .ok (ofFields (.ofBody body)
        ((body.take (prologueSize + (MovementFlags.ofBody body).encodedLength)).drop prologueSize),
        prologueSize + (MovementFlags.ofBody body).encodedLength) := by
  obtain ⟨size, hsize⟩ : ∃ n, prologueSize + (MovementFlags.ofBody body).encodedLength = n :=
    ⟨_, rfl⟩
  rw [hsize] at hfields ⊢
  have hlength : (body.take size).length = size := List.length_take_of_le hfields
  have hflags : MovementFlags.ofBody body = .ofBody (body.take size) := by
    have hprologue : prologueSize ≤ (body.take size).length := by omega
    rw [← ofBody_append hprologue (body.drop size), List.take_append_drop]
  have hread := ofBytes_append (body.take size) (by rw [← hflags, hsize, hlength]) rest
  rwa [← hflags, hlength] at hread

theorem ofBytes_of_short (h : ¬(prologueSize ≤ body.length ∧
    prologueSize + (MovementFlags.ofBody body).encodedLength ≤ body.length)) :
    ∃ e, ofBytes body = .error e := by
  have hread : ∃ e later, read (Reader.ofBytes body) = .error e later := by
    by_cases hprologue : prologueSize ≤ body.length
    · rw [read_ofBytes body hprologue]
      refine (fixed_readAnnounced _).short ?_
      rw [List.length_drop]
      have := not_and.mp h hprologue
      omega
    · exact read_of_short (Nat.lt_of_not_le hprologue)
  obtain ⟨e, later, herror⟩ := hread
  refine ⟨e, ?_⟩
  rw [ofBytes, ReadM.run, bind_of_error herror]

/-! ## From bytes to bytes -/

theorem fieldBytes_eq (m : PackedMovement) :
    m.fieldBytes = m.flags.announced.flatMap (MovementField.write m.flags.short m.record) := by
  unfold fieldBytes MovementFlags.announced
  rw [MovementField.writeOrder_eq]
  induction MovementField.all with
  | nil => rfl
  | cons f fs ih =>
    by_cases h : m.flags.has f = true
    · rw [List.flatMap_cons, ih, if_pos h, List.filter_cons_of_pos h, List.flatMap_cons]
    · rw [List.flatMap_cons, ih, if_neg h, List.filter_cons_of_neg h, List.nil_append]

/-- A field that the flags do not announce is left at zero. -/
theorem bits_ofFields_of_not_has {flags : MovementFlags} {f : MovementField}
    (h : flags.has f = false) (fields : Bytes) : f.bits (ofFields flags fields).record = 0 := by
  refine (MovementRecord.bits_loadParts_of_notMem ?_).trans (by cases f <;> rfl)
  rw [MovementField.map_fst_parts, MovementFlags.mem_announced_iff, h]
  decide

/-- A field that the flags announce is as its bytes say. -/
theorem bits_ofFields_of_mem {flags : MovementFlags} {f : MovementField} {fields bytes : Bytes}
    (hpart : (f, bytes) ∈ MovementField.parts flags.short flags.announced fields)
    (hlength : bytes.length = f.width flags.short) :
    f.bits (ofFields flags fields).record = f.received (Bytes.value bytes) := by
  refine MovementRecord.bits_loadParts_of_mem ?_ hpart hlength
  rw [MovementField.map_fst_parts]
  exact flags.nodup_announced

/-- The announced fields go out as they came in, but signalling NaNs become quiet. -/
theorem fieldBytes_ofFields {flags : MovementFlags} {fields : Bytes}
    (h : fields.length = flags.encodedLength) : (ofFields flags fields).fieldBytes =
      (MovementField.parts flags.short flags.announced fields).flatMap
        fun part => part.1.quieted part.2 := by
  have hfst := MovementField.map_fst_parts flags.short flags.announced fields
  rw [fieldBytes_eq]
  change flags.announced.flatMap _ = _
  rw [← hfst, List.flatMap_map, hfst]
  refine List.flatMap_congr fun part hpart => ?_
  have hlength := MovementField.length_of_mem_parts (h.trans flags.encodedLength_eq) hpart
  rw [MovementField.write_eq, ← MovementField.ofNat_sent_received hlength]
  exact congrArg (fun n => Bytes.ofNat _ (part.1.sent n)) (bits_ofFields_of_mem hpart hlength)

/-! ## From updates to updates -/

namespace Canonical

variable {f : MovementField}

/-- What is written for an announced field is read back. -/
theorem received_write (hm : m.Canonical) (h : m.flags.has f = true) :
    f.received (Bytes.value (f.write m.flags.short m.record)) = f.bits m.record := by
  rw [MovementField.write_eq, Bytes.value_ofNat]
  by_cases hhalf : f.isHalf = true
  · obtain ⟨x, hquiet, hbits⟩ := hm.half f h hhalf
    have hlt : x.bits.toNat < Bytes.bound 2 := x.bits.toNat_lt
    rw [hbits, MovementField.sent_single hhalf, Half.ofSingle_toSingle, Half.quiet, if_neg hquiet,
      MovementField.width_of_half hhalf, Nat.mod_eq_of_lt hlt, MovementField.received,
      if_pos hhalf, UInt16.ofNat_toNat]
  · have hlt : f.bits m.record < Bytes.bound (f.width m.flags.short) := by
      refine MovementField.bits_lt hhalf fun hlast hshort => ?_
      subst hlast
      exact UInt32.lt_iff_toNat_lt.mp (hm.short h hshort)
    rw [MovementField.sent, if_neg hhalf, Nat.mod_eq_of_lt hlt, MovementField.received,
      if_neg hhalf]

theorem ofFields_fieldBytes (hm : m.Canonical) : ofFields m.flags m.fieldBytes = m := by
  have hrecord : (ofFields m.flags m.fieldBytes).record = m.record := by
    refine MovementField.ext_bits fun f => ?_
    by_cases h : m.flags.has f = true
    · have hpart : (f, f.write m.flags.short m.record) ∈
          MovementField.parts m.flags.short m.flags.announced m.fieldBytes := by
        rw [fieldBytes_eq, MovementField.parts_write]
        exact List.mem_map_of_mem (MovementFlags.mem_announced_iff.mpr h)
      rw [bits_ofFields_of_mem hpart (MovementField.length_write _ _ f), hm.received_write h]
    · rw [Bool.not_eq_true] at h
      rw [bits_ofFields_of_not_has h, hm.absent f h]
  obtain ⟨flags, record⟩ := m
  exact congrArg (PackedMovement.mk flags) hrecord

end Canonical

theorem length_toBytes (m : PackedMovement) :
    m.toBytes.length = prologueSize + m.flags.encodedLength := by
  rw [toBytes, List.length_append, List.length_append, Bytes.length_zeros, Bytes.length_ofNat,
    fieldBytes_eq, MovementField.length_flatMap_write, prologueSize,
    MovementFlags.encodedLength_eq]

theorem drop_toBytes (m : PackedMovement) : m.toBytes.drop prologueSize = m.fieldBytes :=
  List.drop_left' (by rw [List.length_append, Bytes.length_zeros, Bytes.length_ofNat]; rfl)

theorem ofBody_toBytes (hword : m.flags.bits < 0x1000000) :
    MovementFlags.ofBody m.toBytes = m.flags := by
  have hlt : m.flags.bits.toNat < Bytes.bound 3 := UInt32.lt_iff_toNat_lt.mp hword
  have htake : (m.toBytes.drop paddingSize).take 3 = Bytes.ofNat 3 m.flags.bits.toNat := by
    rw [toBytes, List.append_assoc, List.drop_left' (Bytes.length_zeros _),
      List.take_left' (Bytes.length_ofNat _ _)]
  rw [MovementFlags.ofBody, htake, Bytes.value_ofNat, Nat.mod_eq_of_lt hlt, UInt32.ofNat_toNat]

theorem toBytes_ofFields {fields : Bytes} (h : prologueSize ≤ body.length)
    (hfields : fields.length = (MovementFlags.ofBody body).encodedLength) :
    (ofFields (.ofBody body) fields).toBytes =
      Bytes.zeros paddingSize ++ (body.drop paddingSize).take 3 ++
        (MovementField.parts (MovementFlags.ofBody body).short
          (MovementFlags.ofBody body).announced fields).flatMap
            fun part => part.1.quieted part.2 := by
  obtain ⟨word, hword⟩ : ∃ word, (body.drop paddingSize).take 3 = word := ⟨_, rfl⟩
  have hthree : word.length = 3 := by
    rw [prologueSize] at h
    rw [← hword, List.length_take, List.length_drop]
    omega
  have hlt : Bytes.value word < Bytes.bound 3 := hthree ▸ Bytes.value_lt word
  have hback : Bytes.ofNat 3 (MovementFlags.ofBody body).bits.toNat = word := by
    rw [MovementFlags.ofBody, hword, UInt32.toNat_ofNat_of_lt' (hlt.trans (by decide)), ← hthree,
      Bytes.ofNat_value]
  rw [toBytes, fieldBytes_ofFields hfields, hword]
  exact congrArg (Bytes.zeros paddingSize ++ · ++ _) hback

/-- Reading and writing agree.

* A body is an update exactly if the announced fields fit into it. They alone are read, what the
  flags do not announce is zero, and the update is written as it came in, but for the padding,
  which is cleared, and for signalling NaNs, which become quiet.
* An update that its written form keeps in full is read back, whatever follows it. -/
theorem reads_writes :
    (∀ body : Bytes,
      let flags := MovementFlags.ofBody body
      let size := prologueSize + flags.encodedLength
      ((∃ m count, ofBytes body = .ok (m, count)) ↔
        prologueSize ≤ body.length ∧ size ≤ body.length) ∧
      ∀ m count, ofBytes body = .ok (m, count) →
        m.flags = flags ∧ count = size ∧
        (∀ rest, ofBytes (body.take size ++ rest) = .ok (m, count)) ∧
        (∀ f, flags.has f = false → f.bits m.record = 0) ∧
        m.toBytes = Bytes.zeros paddingSize ++ (body.drop paddingSize).take 3 ++
          (MovementField.parts flags.short flags.announced
            ((body.take size).drop prologueSize)).flatMap fun part => part.1.quieted part.2) ∧
    ∀ m : PackedMovement, m.Canonical → ∀ rest,
      ofBytes (m.toBytes ++ rest) = .ok (m, prologueSize + m.flags.encodedLength) := by
  refine ⟨fun body => ?_, fun m hm rest => ?_⟩
  · intro flags size
    by_cases h : prologueSize ≤ body.length ∧ size ≤ body.length
    · have htake := ofBytes_take h.2
      have hread := htake (body.drop size)
      rw [List.take_append_drop] at hread
      refine ⟨iff_of_true ⟨_, _, hread⟩ h, fun m count hm => ?_⟩
      obtain ⟨rfl, rfl⟩ := Prod.mk.inj (Except.ok.inj (hread.symm.trans hm))
      refine ⟨rfl, rfl, htake, fun f hf => bits_ofFields_of_not_has hf _, toBytes_ofFields h.1 ?_⟩
      rw [List.length_drop, List.length_take_of_le h.2, Nat.add_sub_cancel_left]
    · obtain ⟨e, herror⟩ := ofBytes_of_short h
      have hnone : ∀ m count, ofBytes body ≠ .ok (m, count) := fun m count hm => by
        cases herror.symm.trans hm
      exact ⟨iff_of_false (fun ⟨m, count, hm⟩ => hnone m count hm) h,
        fun m count hm => absurd hm (hnone m count)⟩
  · have hflags := ofBody_toBytes hm.word
    have hlength := length_toBytes m
    have hread := ofBytes_append m.toBytes (by rw [hflags, hlength]) rest
    rwa [hflags, drop_toBytes, hm.ofFields_fieldBytes, hlength] at hread

/-- A signalling NaN in a body with the short form of the last field, and an update of the same
two fields that is read back. -/
theorem reads_writes_rotation :
    let body : Bytes := [1, 2, 3, 4, 5, 6, 0x80, 0, 0x18, 0x01, 0x7C, 0x2A, 0xFF]
    let quiet : Bytes := [0, 0, 0, 0, 0, 0, 0x80, 0, 0x18, 0x01, 0x7E, 0x2A]
    let turn : PackedMovement := ⟨⟨0x180080⟩, { rotation := { x := .one }, unknown4 := 0x2A }⟩
    (∃ m, ofBytes body = .ok (m, 12) ∧ m.toBytes = quiet) ∧
      turn.Canonical ∧ ofBytes (turn.toBytes ++ [0xFF]) = .ok (turn, 12) := by
  intro body quiet turn
  obtain ⟨hbody, hupdate⟩ := reads_writes
  obtain ⟨hreads, hall⟩ := hbody body
  obtain ⟨m, count, hm⟩ := hreads.mpr (by decide)
  obtain ⟨-, hcount, -, -, hbytes⟩ := hall m count hm
  have hcanonical : turn.Canonical := {
    word := by decide
    absent := by
      intro f
      cases f <;> decide
    half := by
      intro f hhas hhalf
      obtain rfl : f = .rotationX := by
        revert hhas hhalf
        cases f <;> decide
      exact ⟨⟨0x3C00⟩, by decide, by decide⟩
    short := by decide }
  have hsize : count = 12 := hcount.trans (by decide)
  have hlength : prologueSize + turn.flags.encodedLength = 12 := by decide
  exact ⟨⟨m, hsize ▸ hm, hbytes.trans (by decide)⟩, hcanonical,
    hlength ▸ hupdate turn hcanonical [0xFF]⟩

end PackedMovement

end GameShip
