import GameShip.Packet
import GameShip.Proofs.Text.Unicode
import GameShip.Proofs.Wire.Layout

/-!
# The body that makes a character appear

The body consists of fields of fixed width. Where a field stands depends neither on the names nor
on anything else, and the names can be told only from their own fields
(`CharacterSpawn.layout_toBytes`).

* `Bytes.Adjacent`: fields one after the other, with where each begins and how wide it is.
* `SpawnField`: the fields of the body.
-/

namespace GameShip

/-! ## Fields side by side -/

namespace Bytes

variable {ι : Type} {start width : ι → Nat}

/-- The fields fill the room from one offset to another: the first begins there, and each of the
others where the one before it ends. -/
def Adjacent (start width : ι → Nat) : (first : Nat) → List ι → (last : Nat) → Prop
  | first, [], last => first = last
  | first, f :: fields, last => start f = first ∧ Adjacent start width (first + width f) fields last

instance decidableAdjacent : (first : Nat) → (fields : List ι) → (last : Nat) →
    Decidable (Adjacent start width first fields last)
  | first, [], last => inferInstanceAs (Decidable (first = last))
  | first, f :: fields, last =>
    have := decidableAdjacent (first + width f) fields last
    inferInstanceAs (Decidable (_ ∧ _))

variable {write : ι → Bytes} {fields : List ι} {first last : Nat} {f : ι}

theorem length_flatMap (hwidth : ∀ f, (write f).length = width f)
    (h : Adjacent start width first fields last) :
    first + (fields.flatMap write).length = last := by
  induction fields generalizing first with
  | nil => exact h
  | cons f fields ih =>
    rw [List.flatMap_cons, List.length_append, hwidth, ← Nat.add_assoc]
    exact ih h.2

/-- Every field stands where it begins. -/
theorem extract_flatMap (hwidth : ∀ f, (write f).length = width f) (front : Bytes)
    (h : Adjacent start width front.length fields last) (hf : f ∈ fields) :
    (front ++ fields.flatMap write).extract (start f) (start f + width f) = write f := by
  induction fields generalizing front with
  | nil => cases hf
  | cons next fields ih =>
    obtain ⟨hfirst, hrest⟩ := h
    rw [List.flatMap_cons]
    rcases List.mem_cons.mp hf with rfl | hf
    · rw [hfirst, List.extract_eq_take_drop, List.drop_left, Nat.add_sub_cancel_left, ← hwidth,
        List.take_left]
    · rw [← List.append_assoc]
      refine ih _ ?_ hf
      rwa [List.length_append, hwidth]

/-- Every byte belongs to a field. -/
theorem exists_field (h : Adjacent start width first fields last) {i : Nat} (hle : first ≤ i)
    (hlt : i < last) : ∃ f ∈ fields, start f ≤ i ∧ i < start f + width f := by
  induction fields generalizing first with
  | nil => exact absurd (h ▸ hle) (Nat.not_le.mpr hlt)
  | cons next fields ih =>
    obtain ⟨hfirst, hrest⟩ := h
    by_cases hend : i < first + width next
    · exact ⟨next, List.mem_cons_self, by omega, by omega⟩
    · obtain ⟨f, hf, hplace⟩ := ih hrest (by omega)
      exact ⟨f, List.mem_cons_of_mem _ hf, hplace⟩

theorem getElem?_of_extract_eq {bytes other : Bytes} {first last i : Nat}
    (h : bytes.extract first last = other.extract first last) (hle : first ≤ i) (hlt : i < last) :
    bytes[i]? = other[i]? := by
  obtain ⟨n, rfl⟩ := Nat.exists_eq_add_of_le hle
  have hget : (bytes.extract first last)[n]? = (other.extract first last)[n]? := by rw [h]
  rwa [List.extract_eq_take_drop, List.extract_eq_take_drop, List.getElem?_take_of_lt (by omega),
    List.getElem?_take_of_lt (by omega), List.getElem?_drop, List.getElem?_drop] at hget

end Bytes

/-! ## The fields of the body -/

/-- The first units of a text, filled up with zeros. -/
def Utf16.fitted (text : String) (size : Nat) : List UInt16 :=
  (units text).take size ++ List.replicate (size - (units text).length) 0

theorem Utf16.ofBytes_padded (text : String) (size : Nat) :
    ofBytes (padded text size) = fitted text size := by
  have hfill : size - ((units text).take size).length = size - (units text).length := by
    rw [List.length_take]
    omega
  rw [padded, ofBytes_toBytes, hfill, fitted]

/-- A field of the body. -/
inductive SpawnField where
  /-- By this header other packets mean the character. -/
  | header
  | location
  | afterLocation
  /-- What kind of thing appears. -/
  | model
  | afterModel
  /-- Whether the client controls the character. -/
  | control
  | afterControl
  | playerId
  | afterPlayerId
  | name
  | afterName
  | appearance
  | title
  | afterTitle
  | nickname
  | afterNickname
  deriving DecidableEq

namespace SpawnField

def start : SpawnField → Nat
  | header => 0x00
  | location => 0x0C
  | afterLocation => 0x1A
  | model => 0x1C
  | afterModel => 0x3C
  | control => 0x50
  | afterControl => 0x54
  | playerId => 0x58
  | afterPlayerId => 0x5C
  | name => 0x68
  | afterName => 0x88
  | appearance => 0x8C
  | title => 0x1BC
  | afterTitle => 0x1FC
  | nickname => 0x204
  | afterNickname => 0x224

def width : SpawnField → Nat
  | header => EntityHeader.size
  | location => Location.size
  | afterLocation => 2
  | model => 32
  | afterModel => 20
  | control | afterControl | playerId | afterName => 4
  | afterPlayerId => 12
  | name | nickname => 2 * 16
  | appearance => CharacterSpawn.appearanceSize
  | title => 2 * 32
  | afterTitle => 8
  | afterNickname => 64

/-- What is written into the field. -/
def write (spawn : CharacterSpawn) : SpawnField → Bytes
  | header => Wire.header { id := spawn.playerId.toUInt64, kind := .player }
  | location => Wire.location spawn.location
  | afterLocation => Bytes.zeros 2
  | model => Utf8.padded "Character" 32
  | afterModel =>
    Wire.u16 1 ++ Wire.u16 0 ++ Wire.u32 602 ++ Wire.u32 1 ++ Wire.u32 53 ++ Wire.u32 0
  | control => Wire.u32 (if spawn.isSelf then 47 else 39)
  | afterControl => Wire.u16 559 ++ Wire.u16 306
  | playerId => Wire.u32 spawn.playerId
  | afterPlayerId => Bytes.zeros 12
  | name => Utf16.padded spawn.name 16
  | afterName => Bytes.zeros 4
  | appearance => Bytes.zeros CharacterSpawn.appearanceSize
  | title => Utf16.padded "" 32
  | afterTitle => Wire.u32 0 ++ Wire.u32 0
  | nickname => Utf16.padded spawn.nickname 16
  | afterNickname => Bytes.zeros 64

def all : List SpawnField :=
  [header, location, afterLocation, model, afterModel, control, afterControl, playerId,
    afterPlayerId, name, afterName, appearance, title, afterTitle, nickname, afterNickname]

theorem mem_all (f : SpawnField) : f ∈ all := by cases f <;> decide

theorem adjacent_all : Bytes.Adjacent start width 0 all CharacterSpawn.size := by decide

theorem length_write (spawn : CharacterSpawn) (f : SpawnField) :
    (f.write spawn).length = f.width := by
  cases f with
  | model => exact Utf8.length_padded "Character" 32
  | name => exact Utf16.length_padded spawn.name 16
  | title => exact Utf16.length_padded "" 32
  | nickname => exact Utf16.length_padded spawn.nickname 16
  | appearance => exact Bytes.length_zeros _
  | _ => rfl

/-- Only the two names are written into their fields. -/
theorem write_eq {f : SpawnField} (hname : f ≠ name) (hnickname : f ≠ nickname)
    (spawn : CharacterSpawn) (name' nickname' : String) :
    f.write { spawn with name := name', nickname := nickname' } = f.write spawn := by
  cases f with
  | name => exact absurd rfl hname
  | nickname => exact absurd rfl hnickname
  | _ => rfl

end SpawnField

namespace CharacterSpawn

open SpawnField

variable (spawn : CharacterSpawn)

theorem toBytes_eq : spawn.toBytes = all.flatMap (write spawn) := by
  unfold toBytes all
  simp only [List.flatMap_cons, List.flatMap_nil, List.append_nil]
  dsimp only [write]
  simp only [List.append_assoc]

theorem length_toBytes : spawn.toBytes.length = size := by
  rw [toBytes_eq, ← Bytes.length_flatMap (length_write spawn) adjacent_all, Nat.zero_add]

theorem extract_toBytes (f : SpawnField) :
    spawn.toBytes.extract f.start (f.start + f.width) = f.write spawn := by
  rw [toBytes_eq]
  exact Bytes.extract_flatMap (length_write spawn) [] adjacent_all f.mem_all

theorem extract_eq (f : SpawnField) {first last : Nat} {bytes : Bytes} (hfirst : f.start = first)
    (hlast : f.start + f.width = last) (hwrite : f.write spawn = bytes) :
    spawn.toBytes.extract first last = bytes := by
  rw [← hfirst, ← hlast, extract_toBytes, hwrite]

/-- Outside the fields of the names there is no trace of them. -/
theorem getElem?_toBytes (name' nickname' : String) (i : Nat) :
    (SpawnField.name.start ≤ i ∧ i < SpawnField.name.start + SpawnField.name.width) ∨
      (SpawnField.nickname.start ≤ i ∧
        i < SpawnField.nickname.start + SpawnField.nickname.width) ∨
      { spawn with name := name', nickname := nickname' }.toBytes[i]? = spawn.toBytes[i]? := by
  by_cases hend : i < size
  · obtain ⟨f, -, hle, hlt⟩ := Bytes.exists_field adjacent_all (Nat.zero_le i) hend
    by_cases hname : f = .name
    · exact .inl (hname ▸ ⟨hle, hlt⟩)
    by_cases hnickname : f = .nickname
    · exact .inr (.inl (hnickname ▸ ⟨hle, hlt⟩))
    · have hsame := write_eq hname hnickname spawn name' nickname'
      rw [← extract_toBytes, ← extract_toBytes] at hsame
      exact .inr (.inr (Bytes.getElem?_of_extract_eq hsame hle hlt))
  · have hlength (other : CharacterSpawn) : other.toBytes[i]? = none :=
      List.getElem?_eq_none (other.length_toBytes ▸ Nat.not_lt.mp hend)
    exact .inr (.inr ((hlength _).trans (hlength spawn).symm))

/-- **The layout of the body.** It has its size, whatever the names are, and every field stands at
its own place. The fields of the names hold the first sixteen units of them, be it half of a
surrogate pair, and zeros if there are fewer. Bodies that are made for other names differ nowhere
else. -/
theorem layout_toBytes :
    let body := spawn.toBytes
    body.length = size ∧
      (∀ f : SpawnField, body.extract f.start (f.start + f.width) = f.write spawn) ∧
      body.extract 0x00 0x0C = Wire.header { id := spawn.playerId.toUInt64, kind := .player } ∧
      body.extract 0x0C 0x1A = Wire.location spawn.location ∧
      body.extract 0x58 0x5C = Wire.u32 spawn.playerId ∧
      Utf16.ofBytes (body.extract 0x68 0x88) = Utf16.fitted spawn.name 16 ∧
      body.extract 0x1BC 0x1FC = Bytes.zeros 64 ∧
      Utf16.ofBytes (body.extract 0x204 0x224) = Utf16.fitted spawn.nickname 16 ∧
      ∀ (name nickname : String) (i : Nat),
        (0x68 ≤ i ∧ i < 0x88) ∨ (0x204 ≤ i ∧ i < 0x224) ∨
          { spawn with name, nickname }.toBytes[i]? = body[i]? := by
  have hname : spawn.toBytes.extract 0x68 0x88 = Utf16.padded spawn.name 16 :=
    spawn.extract_eq .name rfl rfl rfl
  have hnickname : spawn.toBytes.extract 0x204 0x224 = Utf16.padded spawn.nickname 16 :=
    spawn.extract_eq .nickname rfl rfl rfl
  have htitle : SpawnField.title.write spawn = Bytes.zeros 64 := Utf16.toBytes_zeros 32
  refine ⟨spawn.length_toBytes, spawn.extract_toBytes, spawn.extract_eq .header rfl rfl rfl,
    spawn.extract_eq .location rfl rfl rfl, spawn.extract_eq .playerId rfl rfl rfl, ?_,
    spawn.extract_eq .title rfl rfl htitle, ?_, spawn.getElem?_toBytes⟩
  · rw [hname]
    exact Utf16.ofBytes_padded spawn.name 16
  · rw [hnickname]
    exact Utf16.ofBytes_padded spawn.nickname 16

-- only the first half of the last character fits
example : Utf16.fitted "ABCDEFGHIJKLMNO𝄞" 16 = (Utf16.units "ABCDEFGHIJKLMNO").concat 0xD834 := by
  decide

end CharacterSpawn

end GameShip
