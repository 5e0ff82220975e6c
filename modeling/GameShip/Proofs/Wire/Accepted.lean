import GameShip.Proofs.Text.Lossy
import GameShip.Proofs.Wire.Reading

/-!
# What accepted reads took

A read that succeeds tells what the reader had in front of it: the written form of the value for a
field whose bytes and values correspond (`Reader.rest_of_u32`, `Reader.rest_of_header`,
`Reader.rest_of_words`), and the parts of a text for one behind a disguised length
(`Reader.exists_of_ascii`).

* `AsciiField`: the parts of such a text. A client may send any bytes as text and padding.
-/

namespace GameShip

open ReadM

theorem Obfuscation.hide_reveal (key : Obfuscation) (word : UInt32) :
    key.hide (key.reveal word) = word := by
  rw [hide, reveal, UInt32.sub_add_cancel, UInt32.xor_assoc, UInt32.xor_self, UInt32.xor_zero]

namespace ReadM

variable {α β : Type} {x : ReadM α} {f : α → ReadM β} {r later : Reader} {a : α} {b : β}

theorem exists_of_bind (h : (x >>= f) r = .ok b later) :
    ∃ a mid, x r = .ok a mid ∧ f a mid = .ok b later := by
  cases hx : x r with
  | ok a mid => exact ⟨a, mid, rfl, by rwa [bind_of_ok hx] at h⟩
  | error e mid =>
    rw [bind_of_error hx] at h
    cases h

theorem exists_of_map {g : α → β} (h : (do return g (← x) : ReadM β) r = .ok b later) :
    ∃ a, x r = .ok a later ∧ b = g a := by
  obtain ⟨a, mid, hx, hreturn⟩ := exists_of_bind h
  cases hreturn
  exact ⟨a, hx, rfl⟩

theorem of_restoring (h : restoring x r = .ok a later) : x r = .ok a later := by
  unfold restoring at h
  split at h
  case h_1 hx => rwa [hx]
  case h_2 => cases h

theorem run_of_ok {body : Bytes} (h : x (Reader.ofBytes body) = .ok a later) :
    x.run body = .ok a := by
  rw [run, h]

theorem exists_of_run {body : Bytes} (h : x.run body = .ok a) :
    ∃ later, x (Reader.ofBytes body) = .ok a later := by
  unfold run at h
  split at h
  case h_1 later hx =>
    cases h
    exact ⟨later, hx⟩
  case h_2 => cases h

theorem Fixed.exists_of_ok {width : Nat} {decode : Bytes → α} (hx : x.Fixed width decode)
    (h : x r = .ok a later) :
    ∃ bytes : Bytes, bytes.length = width ∧ a = decode bytes ∧ r.rest = bytes ++ later.rest := by
  by_cases hwidth : width ≤ r.rest.length
  · rw [hx.ok hwidth] at h
    cases h
    exact ⟨_, List.length_take_of_le hwidth, rfl, (List.take_append_drop _ _).symm⟩
  · obtain ⟨e, stopped, herror⟩ := hx.short (Nat.lt_of_not_le hwidth)
    rw [herror] at h
    cases h

end ReadM

namespace Reader

variable {r later : Reader}

theorem exists_of_number {width n : Nat} (h : number width r = .ok n later) :
    n < Bytes.bound width ∧ r.rest = Bytes.ofNat width n ++ later.rest := by
  obtain ⟨bytes, rfl, rfl, hrest⟩ := (fixed_number width).exists_of_ok h
  exact ⟨Bytes.value_lt bytes, by rw [Bytes.ofNat_value, hrest]⟩

theorem rest_of_u16 {v : UInt16} (h : u16 r = .ok v later) :
    r.rest = Wire.u16 v ++ later.rest := by
  obtain ⟨n, hnumber, rfl⟩ := exists_of_map h
  obtain ⟨hn, hrest⟩ := exists_of_number hnumber
  rw [hrest, Wire.u16, UInt16.toNat_ofNat_of_lt' hn]

theorem rest_of_u32 {v : UInt32} (h : u32 r = .ok v later) :
    r.rest = Wire.u32 v ++ later.rest := by
  obtain ⟨n, hnumber, rfl⟩ := exists_of_map h
  obtain ⟨hn, hrest⟩ := exists_of_number hnumber
  rw [hrest, Wire.u32, UInt32.toNat_ofNat_of_lt' hn]

theorem rest_of_u64 {v : UInt64} (h : u64 r = .ok v later) :
    r.rest = Wire.u64 v ++ later.rest := by
  obtain ⟨n, hnumber, rfl⟩ := exists_of_map h
  obtain ⟨hn, hrest⟩ := exists_of_number hnumber
  rw [hrest, Wire.u64, UInt64.toNat_ofNat_of_lt' hn]

theorem rest_of_header {v : EntityHeader} (h : header r = .ok v later) :
    r.rest = Wire.header v ++ later.rest := by
  obtain ⟨id, afterId, hid, h⟩ := exists_of_bind (of_restoring h)
  obtain ⟨kind, afterKind, hkind, h⟩ := exists_of_bind h
  obtain ⟨unknown, hunknown, rfl⟩ := exists_of_map h
  rw [rest_of_u64 hid, rest_of_u16 hkind, rest_of_u16 hunknown, Wire.header, List.append_assoc,
    List.append_assoc]

theorem rest_of_hidden {key : Obfuscation} {count : UInt32}
    (h : hidden key r = .ok count later) : r.rest = Wire.hidden key count ++ later.rest := by
  obtain ⟨word, hword, rfl⟩ := exists_of_map h
  rw [rest_of_u32 hword, Wire.hidden, key.hide_reveal]

theorem rest_of_words {count : Nat} {words' : List UInt32}
    (h : words count r = .ok words' later) :
    words'.length = count ∧ r.rest = words'.flatMap Wire.u32 ++ later.rest := by
  induction count generalizing r words' with
  | zero =>
    cases h
    exact ⟨rfl, rfl⟩
  | succ count ih =>
    obtain ⟨word, mid, hword, h⟩ := exists_of_bind h
    obtain ⟨others, hothers, rfl⟩ := exists_of_map h
    obtain ⟨hlength, hrest⟩ := ih hothers
    exact ⟨congrArg Nat.succ hlength, by
      rw [rest_of_u32 hword, hrest, List.flatMap_cons, List.append_assoc]⟩

theorem takes_words (values : List UInt32) :
    (words values.length).Takes (values.flatMap Wire.u32) values := by
  induction values with
  | nil => exact Takes.pure []
  | cons v values ih =>
    rw [List.flatMap_cons]
    exact (takes_u32 v).bind (ih.map _)

end Reader

/-- A text behind its disguised length, as a client may send it: any bytes as text, and any bytes
that fill it up. The length counts one byte more than there are, and nothing follows a zero. -/
structure AsciiField where
  length : UInt32
  content : Bytes
  padding : Bytes
  length_content : content.length = length.toNat - 1
  length_padding : padding.length = if length = 0 then 0 else 4 - content.length % 4

namespace AsciiField

def toBytes (key : Obfuscation) (f : AsciiField) : Bytes :=
  Wire.hidden key f.length ++ f.content ++ f.padding

/-- The text that is read from a field. -/
def text (f : AsciiField) : String := Utf8.untilNul f.content

theorem takes_toBytes (key : Obfuscation) (f : AsciiField) :
    (Reader.ascii key).Takes (f.toBytes key) f.text := by
  have hcontent := f.length_content
  have hpadding := f.length_padding
  rw [toBytes, List.append_assoc]
  refine (Reader.takes_hidden key f.length).bind ?_
  cases hlength : f.length.toNat with
  | zero =>
    rw [hlength] at hcontent
    rw [if_pos (UInt32.toNat_inj.mp hlength)] at hpadding
    rw [text, List.length_eq_zero_iff.mp hcontent, List.length_eq_zero_iff.mp hpadding,
      Utf8.untilNul_nil]
    exact Takes.pure ""
  | succ size =>
    have hpos : f.length ≠ 0 := fun hzero => by
      rw [hzero] at hlength
      cases hlength
    rw [hlength, Nat.add_sub_cancel] at hcontent
    rw [if_neg hpos, hcontent] at hpadding
    refine (((Reader.fixed_bytes size).takes hcontent).map Utf8.untilNul).bind ?_
    rw [← List.append_nil f.padding]
    exact ((Reader.fixed_skip _).takes hpadding).bind (Takes.pure _)

end AsciiField

theorem Reader.exists_of_ascii {key : Obfuscation} {text : String} {r later : Reader}
    (h : Reader.ascii key r = .ok text later) :
    ∃ f : AsciiField, f.text = text ∧ r.rest = f.toBytes key ++ later.rest := by
  obtain ⟨length, mid, hlength, h⟩ := exists_of_bind h
  have hrest := rest_of_hidden hlength
  cases hsize : length.toNat with
  | zero =>
    have hzero : length = 0 := UInt32.toNat_inj.mp hsize
    rw [hsize] at h
    cases h
    refine ⟨⟨length, [], [], by rw [hsize]; rfl, by rw [if_pos hzero]; rfl⟩, Utf8.untilNul_nil, ?_⟩
    rw [hrest, AsciiField.toBytes, List.append_nil, List.append_nil]
  | succ size =>
    have hpos : length ≠ 0 := fun hzero => by
      rw [hzero] at hsize
      cases hsize
    rw [hsize] at h
    obtain ⟨text, afterText, htext, h⟩ := exists_of_bind h
    obtain ⟨⟨⟩, afterPadding, hskip, h⟩ := exists_of_bind h
    cases h
    obtain ⟨content, hbytes, rfl⟩ := exists_of_map htext
    obtain ⟨_, hcontent, rfl, htextRest⟩ := (fixed_bytes size).exists_of_ok hbytes
    obtain ⟨padding, hpadding, -, hpaddingRest⟩ := (fixed_skip _).exists_of_ok hskip
    refine ⟨⟨length, content, padding, ?_, ?_⟩, rfl, ?_⟩
    · rw [hcontent, hsize, Nat.add_sub_cancel]
    · rw [if_neg hpos, hpadding, hcontent]
    · rw [hrest, htextRest, hpaddingRest, AsciiField.toBytes, List.append_assoc, List.append_assoc]

end GameShip
