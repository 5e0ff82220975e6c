import GameShip.Object.Basic
import GameShip.Proofs.Wire.Layout

/-!
# Objects in captured packets

* `WorldObject.extent`, `WorldObject.ofBytes`: how many bytes of a capture make up the object, and
  what they stand for.
* `WorldObject.Replayable`: a capture in which the object stands as it would be written.
* `WorldObject.Canonical`: an object that its binary form keeps in full.
* `WorldObject.ofCapture_toBytes`: which captures are accepted, and when reading and writing undo
  each other.
-/

namespace GameShip

open ReadM

/-- The number is one that binary16 has as well, and no signalling NaN. -/
def Single.Exact (x : Single) : Prop := ∃ h : Half, ¬h.IsSignalling ∧ x = h.toSingle

theorem Single.Exact.rounded {x : Single} (h : x.Exact) : x.rounded = x := by
  obtain ⟨half, hquiet, rfl⟩ := h
  rw [Single.rounded, Half.ofSingle_toSingle, Half.quiet_eq_self hquiet]

/-- The seven numbers that make up a location. -/
def Location.components (l : Location) : List Single :=
  [l.rotation.x, l.rotation.y, l.rotation.z, l.rotation.w,
    l.position.x, l.position.y, l.position.z]

theorem Location.rounded_of_exact {l : Location} (h : ∀ x ∈ l.components, x.Exact) :
    l.rounded = l := by
  simp only [components, List.forall_mem_cons] at h
  obtain ⟨rx, ry, rz, rw', px, py, pz, -⟩ := h
  simp only [rounded, Rotation.rounded, Position.rounded, rx.rounded, ry.rounded, rz.rounded,
    rw'.rounded, px.rounded, py.rounded, pz.rounded]

/-- A field that holds a text and zeros after it is written as it was read. -/
theorem Utf8.padded_untilNul {field : Bytes} {text : String}
    (htext : field.takeWhile (· ≠ 0) = encode text)
    (hzero : ∀ b ∈ field.dropWhile (· ≠ 0), b = 0) :
    padded (untilNul field) field.length = field := by
  have hsplit : encode text ++ field.dropWhile (· ≠ 0) = field := by
    rw [← htext, List.takeWhile_append_dropWhile]
  have hzeros : field.dropWhile (· ≠ 0) = Bytes.zeros (field.length - text.utf8ByteSize) := by
    refine List.eq_replicate_iff.mpr ⟨?_, hzero⟩
    have hlength := congrArg List.length hsplit
    rw [List.length_append, length_encode] at hlength
    omega
  have hsize : text.utf8ByteSize ≤ field.length := by
    rw [← length_encode, ← hsplit, List.length_append]
    exact Nat.le_add_right _ _
  rw [untilNul, htext, decode_encode, padded_eq hsize, ← hzeros, hsplit]

namespace WorldObject

/-- The number of bytes from the start of a capture to the end of its object, which has as many
things as a word in front of them says. -/
def extent (capture : Bytes) : Nat := 96 + 4 * Bytes.value (capture.extract 92 96)

/-- The object that the bytes of a capture stand for. -/
def ofBytes (capture : Bytes) : WorldObject where
  header := .ofBytes (capture.extract 8 20)
  location := .ofBytes (capture.extract 20 34)
  name := Utf8.untilNul (capture.extract 36 88)
  thingFlag := UInt32.ofNat (Bytes.value (capture.extract 88 92))
  things := Bytes.words (capture.extract 96 (extent capture))

variable {capture front : Bytes} {object : WorldObject}

/-- The fields of a capture, one after the other. -/
theorem ofCapture_eq (capture : Bytes) : ofCapture capture = ReadM.run (do
    let _ ← exactly 8 fun _ => .truncated
    let header ← Reader.header
    let location ← Reader.location
    let _ ← exactly 2 fun _ => .truncated
    let name ← exactly nameSize fun _ => .truncated
    let thingFlag ← Reader.u32
    let count ← Reader.u32
    let things ← Reader.words count.toNat
    return WorldObject.mk header location (Utf8.untilNul name) thingFlag things) capture := rfl

theorem extent_eq (capture : Bytes) :
    extent capture = 96 + 4 * (UInt32.ofNat (Bytes.value ((capture.drop 92).take 4))).toNat := by
  have hvalue : Bytes.value ((capture.drop 92).take 4) < Bytes.bound 4 :=
    (Bytes.value_lt _).trans_le (Bytes.bound_mono (List.length_take_le _ _))
  rw [UInt32.toNat_ofNat_of_lt' hvalue]
  rfl

/-- A capture is accepted if it goes as far as its object does. -/
theorem ofCapture_eq_ok_iff :
    ofCapture capture = .ok object ↔
      extent capture ≤ capture.length ∧ object = ofBytes capture := by
  have hfield (size : Nat) := Fixed.exactly size fun _ => ReadError.truncated
  rw [ofCapture_eq, run_eq_ok_iff, ofBytes, extent_eq]
  simp only [(hfield _).bind_eq_ok_iff, Reader.fixed_header.bind_eq_ok_iff,
    Reader.fixed_location.bind_eq_ok_iff, Reader.fixed_u32.bind_eq_ok_iff,
    (Reader.fixed_words _).bind_eq_ok_iff, Reader.ofBytes, List.drop_drop, List.length_drop,
    List.extract_eq_take_drop, Nat.add_sub_cancel_left, nameSize, id_eq, Nat.reduceAdd,
    Nat.reduceSub]
  generalize (UInt32.ofNat (Bytes.value ((capture.drop 92).take 4))).toNat = count
  constructor
  · rintro ⟨later, -, -, -, -, -, -, hcount, hthings, hobject⟩
    cases hobject
    refine ⟨?_, rfl⟩
    omega
  · rintro ⟨hlength, rfl⟩
    refine ⟨_, ?_, ?_, ?_, ?_, ?_, ?_, ?_, ?_, rfl⟩
    all_goals omega

theorem exists_ofCapture_iff :
    (∃ object, ofCapture capture = .ok object) ↔ extent capture ≤ capture.length :=
  ⟨fun ⟨_, h⟩ => (ofCapture_eq_ok_iff.mp h).1, fun h => ⟨_, ofCapture_eq_ok_iff.mpr ⟨h, rfl⟩⟩⟩

/-! ## What follows an object -/

theorem extent_append (h : 96 ≤ front.length) (rest : Bytes) :
    extent (front ++ rest) = extent front := by
  rw [extent, Bytes.extract_append h, extent]

theorem ofBytes_append (h : extent front ≤ front.length) (rest : Bytes) :
    ofBytes (front ++ rest) = ofBytes front := by
  have hle {stop : Nat} (hstop : stop ≤ 96) : stop ≤ front.length := by
    rw [extent] at h
    omega
  rw [ofBytes, ofBytes, extent_append (hle le_rfl), Bytes.extract_append h]
  simp only [Bytes.extract_append (hle (by decide : 20 ≤ 96)),
    Bytes.extract_append (hle (by decide : 34 ≤ 96)),
    Bytes.extract_append (hle (by decide : 88 ≤ 96)),
    Bytes.extract_append (hle (by decide : 92 ≤ 96))]

/-- What follows the object in a capture says nothing about it. -/
theorem ofCapture_take_append (h : ofCapture capture = .ok object) (rest : Bytes) :
    ofCapture (capture.take (extent capture) ++ rest) = .ok object := by
  obtain ⟨hlength, rfl⟩ := ofCapture_eq_ok_iff.mp h
  have hfront : (capture.take (extent capture)).length = extent capture :=
    List.length_take_of_le hlength
  have hle : 96 ≤ (capture.take (extent capture)).length := by
    rw [hfront]
    exact Nat.le_add_right _ _
  -- the word with the number of things stands in front of them, so it is not cut off
  have hextent : extent (capture.take (extent capture)) = extent capture := by
    conv_rhs => rw [← List.take_append_drop (extent capture) capture, extent_append hle]
  have hobject : ofBytes (capture.take (extent capture)) = ofBytes capture := by
    conv_rhs => rw [← List.take_append_drop (extent capture) capture,
      ofBytes_append (hextent.trans hfront.symm).le]
  refine ofCapture_eq_ok_iff.mpr ⟨?_, ?_⟩
  · rw [extent_append hle, hextent, List.length_append, hfront]
    exact Nat.le_add_right _ _
  · rw [ofBytes_append (hextent.trans hfront.symm).le, hobject]

/-! ## Writing what was read -/

/-- The object stands in the capture as it would be written: zeros fill it up, its name is a text,
and no number of its location is a signalling NaN. -/
structure Replayable (capture : Bytes) : Prop where
  gap : capture.extract 34 36 = Bytes.zeros 2
  name : ∃ text, (capture.extract 36 88).takeWhile (· ≠ 0) = Utf8.encode text
  filled : ∀ b ∈ (capture.extract 36 88).dropWhile (· ≠ 0), b = 0
  quiet : ∀ h ∈ Half.row (capture.extract 20 34), ¬h.IsSignalling

namespace Replayable

variable (H : Replayable capture) (hlength : extent capture ≤ capture.length)

include hlength in
theorem length_part {start stop : Nat} (hstop : stop ≤ 96) :
    (capture.extract start stop).length = stop - start :=
  Bytes.length_extract ((hstop.trans (Nat.le_add_right _ _)).trans hlength)

include H hlength

theorem location_ofBytes :
    Wire.location (.ofBytes (capture.extract 20 34)) = capture.extract 20 34 := by
  rw [Wire.location_ofBytes (length_part hlength (by decide)),
    Half.quieted_eq_self (by rw [length_part hlength (by decide)]) H.quiet]

theorem padded_untilNul :
    Utf8.padded (Utf8.untilNul (capture.extract 36 88)) nameSize = capture.extract 36 88 := by
  obtain ⟨text, htext⟩ := H.name
  have hpadded := Utf8.padded_untilNul htext H.filled
  rwa [length_part hlength (by decide)] at hpadded

theorem toBytes_ofBytes : (ofBytes capture).toBytes = capture.extract 8 (extent capture) := by
  have hpart {start stop : Nat} (hstop : stop ≤ 96) :
      (capture.extract start stop).length = stop - start := length_part hlength hstop
  have hextent : 96 ≤ extent capture := Nat.le_add_right _ _
  have hthings : (capture.extract 96 (extent capture)).length =
      4 * Bytes.value (capture.extract 92 96) := by
    rw [Bytes.length_extract hlength, extent, Nat.add_sub_cancel_left]
  change Wire.header (.ofBytes (capture.extract 8 20)) ++
    Wire.location (.ofBytes (capture.extract 20 34)) ++ Bytes.zeros 2 ++
    Utf8.padded (Utf8.untilNul (capture.extract 36 88)) nameSize ++
    Wire.u32 (UInt32.ofNat (Bytes.value (capture.extract 88 92))) ++
    Wire.u32 (UInt32.ofNat (Bytes.words (capture.extract 96 (extent capture))).length) ++
    (Bytes.words (capture.extract 96 (extent capture))).flatMap Wire.u32 = _
  rw [Bytes.length_words hthings, Wire.header_ofBytes (hpart (by decide)),
    H.location_ofBytes hlength, H.padded_untilNul hlength, ← H.gap,
    Wire.u32_ofNat_value (hpart (by decide)), Wire.u32_ofNat_value (hpart (by decide)),
    Wire.words_words hthings]
  -- each field begins where the one before it ends
  rw [Bytes.extract_append_extract (by decide) (by decide),
    Bytes.extract_append_extract (by decide) (by decide),
    Bytes.extract_append_extract (by decide) (by decide),
    Bytes.extract_append_extract (by decide) (by decide),
    Bytes.extract_append_extract (by decide) (by decide),
    Bytes.extract_append_extract (by decide) hextent]

end Replayable

/-! ## Reading what was written -/

/-- The binary form keeps the object in full: its name fits, each number of its location is one of
binary16, and the number of its things fits in a word. -/
structure Canonical (object : WorldObject) : Prop where
  name : NulFree object.name
  size_name : object.name.utf8ByteSize ≤ nameSize
  exact_location : ∀ x ∈ object.location.components, x.Exact
  length_things : object.things.length < UInt32.size

theorem Canonical.ofCapture_append (H : object.Canonical) (hfront : front.length = 8)
    (rest : Bytes) : ofCapture (front ++ object.toBytes ++ rest) = .ok object := by
  have hcount : (UInt32.ofNat object.things.length).toNat = object.things.length :=
    UInt32.toNat_ofNat_of_lt' H.length_things
  have hobject : WorldObject.mk object.header object.location.rounded
      (Utf8.untilNul (Utf8.padded object.name nameSize)) object.thingFlag object.things =
        object := by
    rw [Utf8.untilNul_padded H.name H.size_name, Location.rounded_of_exact H.exact_location]
  have hbytes : front ++ object.toBytes = front ++ (Wire.header object.header ++
      (Wire.location object.location ++ (Bytes.zeros 2 ++ (Utf8.padded object.name nameSize ++
        (Wire.u32 object.thingFlag ++ (Wire.u32 (UInt32.ofNat object.things.length) ++
          object.things.flatMap Wire.u32)))))) := by
    simp only [toBytes, List.append_assoc]
  rw [ofCapture_eq, hbytes]
  refine Takes.run ?_ rest
  refine ((Fixed.exactly _ _).takes hfront).bind ((Reader.takes_header _).bind
    ((Reader.takes_location _).bind (((Fixed.exactly _ _).takes (Bytes.length_zeros 2)).bind
      (((Fixed.exactly _ _).takes (Utf8.length_padded _ _)).bind ((Reader.takes_u32 _).bind
        ((Reader.takes_u32 _).bind ?_))))))
  have hthings := (Reader.takes_words object.things).map fun things =>
    WorldObject.mk object.header object.location.rounded
      (Utf8.untilNul (Utf8.padded object.name nameSize)) object.thingFlag things
  rwa [hobject, ← hcount] at hthings

/-- A capture is accepted exactly if it goes as far as its object does, and what follows says
nothing. An object is written as it stood in a replayable capture, and a canonical object comes back
from its binary form, whatever stands around it. -/
theorem ofCapture_toBytes :
    (∀ capture : Bytes,
      ((∃ object, ofCapture capture = .ok object) ↔ extent capture ≤ capture.length) ∧
      ∀ object, ofCapture capture = .ok object →
        (∀ rest, ofCapture (capture.take (extent capture) ++ rest) = .ok object) ∧
        (Replayable capture → object.toBytes = capture.extract 8 (extent capture))) ∧
    ∀ object : WorldObject, object.Canonical → ∀ front rest : Bytes, front.length = 8 →
      ofCapture (front ++ object.toBytes ++ rest) = .ok object := by
  refine ⟨fun capture => ⟨exists_ofCapture_iff, fun object hobject => ⟨?_, fun H => ?_⟩⟩,
    fun object H front rest hfront => H.ofCapture_append hfront rest⟩
  · exact ofCapture_take_append hobject
  · obtain ⟨hlength, rfl⟩ := ofCapture_eq_ok_iff.mp hobject
    exact H.toBytes_ofBytes hlength

/-- A door with one thing. Its name is not plain ASCII, and one of its numbers is a NaN. -/
def door : WorldObject where
  header := { id := 7, kind := .object, unknown := 3 }
  location := { position := { x := Half.toSingle ⟨0x3C00⟩, y := Half.toSingle ⟨0xFE01⟩ } }
  name := "Tür"
  thingFlag := 5
  things := [9]

/-- A captured packet with the door, and a byte more. -/
def doorCapture : Bytes :=
  [0x6C, 0, 0, 0, 0x08, 0x0B, 0, 0] ++ [7, 0, 0, 0, 0, 0, 0, 0, 6, 0, 3, 0] ++
    [0, 0, 0, 0, 0, 0, 0, 0, 0, 0x3C, 1, 0xFE, 0, 0] ++ [0, 0] ++
    ([0x54, 0xC3, 0xBC, 0x72] ++ Bytes.zeros 48) ++ [5, 0, 0, 0, 1, 0, 0, 0, 9, 0, 0, 0] ++ [0xFF]

theorem ofCapture_toBytes_door :
    (Replayable doorCapture ∧ ofCapture doorCapture = .ok door ∧
      door.toBytes = doorCapture.extract 8 100) ∧
    door.Canonical ∧
      ofCapture (Bytes.zeros 8 ++ door.toBytes ++ [0xFF]) = .ok door := by
  have hquiet : ∀ h ∈ Half.row (doorCapture.extract 20 34), ¬h.IsSignalling := by decide
  have hfilled : ∀ b ∈ (doorCapture.extract 36 88).dropWhile (· ≠ 0), b = 0 := by decide +kernel
  have hcapture : Replayable doorCapture := ⟨rfl, ⟨"Tür", by decide⟩, hfilled, hquiet⟩
  have hcanonical : door.Canonical := by
    refine ⟨by decide, by decide, fun x hx => ?_, by decide⟩
    have hrow : door.location.components =
        (Half.row (doorCapture.extract 20 34)).map Half.toSingle := by decide
    rw [hrow] at hx
    obtain ⟨h, hmem, rfl⟩ := List.mem_map.mp hx
    exact ⟨h, hquiet h hmem, rfl⟩
  have hbytes : doorCapture = [0x6C, 0, 0, 0, 0x08, 0x0B, 0, 0] ++ door.toBytes ++ [0xFF] := by
    decide
  have hdoor : ofCapture doorCapture = .ok door := by
    rw [hbytes]
    exact ofCapture_toBytes.2 door hcanonical _ _ rfl
  exact ⟨⟨hcapture, hdoor, ((ofCapture_toBytes.1 doorCapture).2 door hdoor).2 hcapture⟩,
    hcanonical, ofCapture_toBytes.2 door hcanonical _ _ rfl⟩

end WorldObject

end GameShip
