import GameShip.Movement.Action
import GameShip.Proofs.Wire.Accepted

/-!
# Actions as they come in and as they are passed on

* `MovementAction.Sent`: the parts of an action as a client may send it, and the action that they
  make up.
* `MovementAction.Fits`: an action whose written form holds all of it.
* `MovementAction.readRelayed`: how another player reads the written form.
* `MovementAction.read_relayed`: which payloads are accepted, and that the copy that is passed on
  for one means the same.

The command is written behind its new length, not the one that came in. It may be shorter, as it
ends at a zero byte, and longer, as a U+FFFD takes three bytes.
-/

namespace GameShip

open ReadM

namespace Reader

/-- Goes on only if `count` words may still follow. -/
def ifRoom {α : Type} (count : Nat) (next : ReadM α) : ReadM α := do
  if count > (← left) / 4 then throw (.tooManyThings count (← here))
  next

variable {α : Type} {count : Nat} {next : ReadM α} {a : α}

theorem ifRoom_eq (r : Reader) : ifRoom count next r =
    if r.rest.length / 4 < count then .error (.tooManyThings count r.position) r else next r := by
  unfold ifRoom
  rw [bind_of_ok (show left r = .ok r.rest.length r from rfl)]
  dsimp only
  split
  · rfl
  · rfl

theorem takes_ifRoom {bytes : Bytes} (h : next.Takes bytes a) (hroom : 4 * count ≤ bytes.length) :
    (ifRoom count next).Takes bytes a := fun position rest => by
  rw [ifRoom_eq, if_neg, h]
  rw [List.length_append]
  omega

theorem of_ifRoom {r later : Reader} (h : ifRoom count next r = .ok a later) :
    next r = .ok a later := by
  rw [ifRoom_eq] at h
  split at h
  · cases h
  · exact h

end Reader

theorem Wire.length_words (words : List UInt32) :
    (words.flatMap u32).length = 4 * words.length := by
  induction words with
  | nil => rfl
  | cons word words ih =>
    rw [List.flatMap_cons, List.length_append, ih, u32, Bytes.length_ofNat, List.length_cons]
    omega

namespace MovementAction

/-- The parts of an action as a client may send it. The header in front is left out. -/
structure Sent where
  addressee : Bytes
  performer : EntityHeader
  preData : Bytes
  command : AsciiField
  rest : Bytes
  things : List UInt32
  finalData : Bytes
  length_addressee : addressee.length = EntityHeader.size
  length_preData : preData.length = 40
  length_rest : rest.length = 4
  length_things : things.length < UInt32.size
  length_finalData : finalData.length = 4

namespace Sent

def toBytes (p : Sent) : Bytes :=
  p.addressee ++ (Wire.header p.performer ++ (p.preData ++ (p.command.toBytes inbound ++
    (p.rest ++ (Wire.hidden inbound (UInt32.ofNat p.things.length) ++
      (p.things.flatMap Wire.u32 ++ p.finalData))))))

/-- The action that the parts make up. -/
def action (p : Sent) : MovementAction where
  performer := p.performer
  preData := p.preData
  command := p.command.text
  rest := p.rest
  things := p.things
  finalData := p.finalData

theorem takes_toBytes (p : Sent) : read.Takes p.toBytes p.action := by
  refine ((Reader.fixed_skip _).takes p.length_addressee).bind ?_
  refine (Reader.takes_header p.performer).bind ?_
  refine ((Reader.fixed_bytes 40).takes p.length_preData).bind ?_
  refine (p.command.takes_toBytes inbound).bind ?_
  refine ((Reader.fixed_bytes 4).takes p.length_rest).bind ?_
  refine (Reader.takes_hidden inbound _).bind ?_
  rw [UInt32.toNat_ofNat_of_lt' p.length_things]
  refine Reader.takes_ifRoom ((Reader.takes_words p.things).bind ?_) ?_
  · exact ((Reader.fixed_bytes 4).takes p.length_finalData).map _
  · rw [List.length_append, Wire.length_words]
    exact Nat.le_add_right _ _

end Sent

/-- An accepted payload starts with the parts of the action that is read. -/
theorem exists_of_read {r later : Reader} {a : MovementAction} (h : read r = .ok a later) :
    ∃ p : Sent, p.action = a ∧ r.rest = p.toBytes ++ later.rest := by
  obtain ⟨⟨⟩, afterAddressee, haddressee, h⟩ := exists_of_bind h
  obtain ⟨performer, afterPerformer, hperformer, h⟩ := exists_of_bind h
  obtain ⟨preData, afterPreData, hpreData, h⟩ := exists_of_bind h
  obtain ⟨command, afterCommand, hcommand, h⟩ := exists_of_bind h
  obtain ⟨rest, afterRest, hrest, h⟩ := exists_of_bind h
  obtain ⟨count, afterCount, hcount, h⟩ := exists_of_bind h
  obtain ⟨things, afterThings, hthings, h⟩ := exists_of_bind (Reader.of_ifRoom h)
  obtain ⟨finalData, hfinalData, rfl⟩ := exists_of_map h
  obtain ⟨addressee, length_addressee, -, haddresseeRest⟩ :=
    (Reader.fixed_skip _).exists_of_ok haddressee
  obtain ⟨_, length_preData, rfl, hpreDataRest⟩ := (Reader.fixed_bytes 40).exists_of_ok hpreData
  obtain ⟨commandField, rfl, hcommandRest⟩ := Reader.exists_of_ascii hcommand
  obtain ⟨_, length_rest, rfl, hrestRest⟩ := (Reader.fixed_bytes 4).exists_of_ok hrest
  obtain ⟨hlength, hthingsRest⟩ := Reader.rest_of_words hthings
  obtain ⟨_, length_finalData, rfl, hfinalDataRest⟩ :=
    (Reader.fixed_bytes 4).exists_of_ok hfinalData
  refine ⟨⟨addressee, performer, preData, commandField, rest, things, finalData,
    length_addressee, length_preData, length_rest, ?_, length_finalData⟩, rfl, ?_⟩
  · rw [hlength]
    exact count.toNat_lt
  · rw [haddresseeRest, Reader.rest_of_header hperformer, hpreDataRest, hcommandRest, hrestRest,
      Reader.rest_of_hidden hcount, hthingsRest, hfinalDataRest, Sent.toBytes]
    dsimp only
    rw [hlength, UInt32.ofNat_toNat]
    simp only [List.append_assoc]

/-- Every part of the action has room in its field. -/
structure Fits (a : MovementAction) : Prop where
  preData : a.preData.length = 40
  nulFree : NulFree a.command
  command : a.command.utf8ByteSize + 1 < UInt32.size
  rest : a.rest.length = 4
  things : a.things.length < UInt32.size
  finalData : a.finalData.length = 4

theorem Sent.length_content_le (p : Sent) : p.command.content.length ≤ p.toBytes.length := by
  simp only [toBytes, AsciiField.toBytes, List.length_append]
  omega

/-- Each byte of the command becomes up to three. -/
theorem Sent.fits_action (p : Sent) (h : p.toBytes.length < 1 <<< 30) : p.action.Fits where
  preData := p.length_preData
  nulFree := Utf8.nulFree_untilNul _
  command := by
    have hcontent := p.length_content_le
    have hsize : p.action.command.utf8ByteSize ≤ 3 * p.command.content.length :=
      Utf8.utf8ByteSize_untilNul_le _
    rw [UInt32.size]
    omega
  rest := p.length_rest
  things := p.length_things
  finalData := p.length_finalData

/-- Reads an action that is passed on: who acts, then what the client sent. -/
def readRelayed : ReadM (EntityHeader × MovementAction) := do
  let sender ← Reader.header
  let performer ← Reader.header
  let preData ← Reader.bytes 40
  let command ← Reader.ascii outbound
  let rest ← Reader.bytes 4
  let things ← Reader.words (← Reader.hidden outbound).toNat
  let finalData ← Reader.bytes 4
  return (sender, { performer, preData, command, rest, things, finalData })

theorem Fits.takes_toBytes {a : MovementAction} (h : a.Fits) (sender : EntityHeader) :
    readRelayed.Takes (a.toBytes sender) (sender, a) := by
  simp only [toBytes, List.append_assoc]
  refine (Reader.takes_header sender).bind ?_
  refine (Reader.takes_header a.performer).bind ?_
  refine ((Reader.fixed_bytes 40).takes h.preData).bind ?_
  refine (Reader.takes_ascii outbound h.nulFree h.command).bind ?_
  refine ((Reader.fixed_bytes 4).takes h.rest).bind ?_
  refine (Reader.takes_hidden outbound _).bind ?_
  rw [UInt32.toNat_ofNat_of_lt' h.things]
  refine (Reader.takes_words a.things).bind ?_
  exact ((Reader.fixed_bytes 4).takes h.finalData).map _

/-- A payload is accepted exactly if it starts with the parts of an action. What is passed on for
it, under any sender, is read to the end as that sender and the same action. -/
theorem read_relayed (payload : Bytes) :
    (∀ a, read.run payload = .ok a ↔ ∃ p : Sent, p.toBytes <+: payload ∧ p.action = a) ∧
      (payload.length < 1 <<< 30 → ∀ (a : MovementAction) (sender : EntityHeader),
        read.run payload = .ok a →
          readRelayed (Reader.ofBytes (a.toBytes sender)) =
            .ok (sender, a) ⟨(a.toBytes sender).length, []⟩) := by
  have haccepted : ∀ a, read.run payload = .ok a ↔
      ∃ p : Sent, p.toBytes <+: payload ∧ p.action = a := by
    intro a
    constructor
    · intro h
      obtain ⟨later, hread⟩ := exists_of_run h
      obtain ⟨p, haction, hpayload⟩ := exists_of_read hread
      exact ⟨p, ⟨later.rest, hpayload.symm⟩, haction⟩
    · rintro ⟨p, ⟨trailing, rfl⟩, rfl⟩
      exact run_of_ok (p.takes_toBytes 0 trailing)
  refine ⟨haccepted, fun hpayload a sender h => ?_⟩
  obtain ⟨p, hbegins, rfl⟩ := (haccepted a).mp h
  have hfits : p.action.Fits := p.fits_action (hbegins.length_le.trans_lt hpayload)
  have htakes := hfits.takes_toBytes sender 0 []
  rwa [List.append_nil, Nat.zero_add] at htakes

/-- The command of the action starts with a byte that is no character, and holds a zero byte. -/
def sitting : Sent where
  addressee := Bytes.zeros 12
  performer := { id := 7 }
  preData := Bytes.zeros 40
  command := ⟨6, [0xFF, 0x41, 0x42, 0, 0x43], [1, 2, 3], by decide, by decide⟩
  rest := Bytes.zeros 4
  things := [8, 9]
  finalData := Bytes.zeros 4
  length_addressee := by decide
  length_preData := by decide
  length_rest := by decide
  length_things := by decide
  length_finalData := by decide

theorem read_relayed_sitting : (sitting.toBytes ++ [10]).length < 1 <<< 30 ∧
    read.run (sitting.toBytes ++ [10]) = .ok sitting.action ∧
    sitting.action.command = "\uFFFDAB" ∧
    readRelayed (Reader.ofBytes (sitting.action.toBytes { id := 5 })) =
      .ok ({ id := 5 }, sitting.action) ⟨(sitting.action.toBytes { id := 5 }).length, []⟩ := by
  have hsize : (sitting.toBytes ++ [10]).length < 1 <<< 30 := by decide
  have hread : read.run (sitting.toBytes ++ [10]) = .ok sitting.action :=
    ((read_relayed _).1 _).mpr ⟨sitting, List.prefix_append _ _, rfl⟩
  have hchars : Utf8.chars [0xFF, 0x41, 0x42] = ['\uFFFD', 'A', 'B'] := by
    simp [Utf8.chars, Utf8.scalar, Utf8.lead, Utf8.continued, Utf8.replacement]
  have hcommand : sitting.action.command = "\uFFFDAB" := congrArg String.ofList hchars
  exact ⟨hsize, hread, hcommand, (read_relayed _).2 hsize _ _ hread⟩

end MovementAction

end GameShip
