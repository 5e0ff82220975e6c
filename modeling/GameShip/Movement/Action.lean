import GameShip.Wire.Reader

/-!
# Actions of characters

* `MovementAction`: a character does something, such as sitting down.
* `ActionUpdate`: what a character does has changed.

Each is read as a client sends it and written as others receive it: a header that names whom the
copy is about comes first in place of the one that the client put there.
-/

namespace GameShip

/-- A character does something that a command names. -/
structure MovementAction where
  performer : EntityHeader
  preData : Bytes
  command : String
  rest : Bytes
  things : List UInt32
  finalData : Bytes
  deriving DecidableEq, Repr

namespace MovementAction

/-- Disguises counts that clients send. -/
def inbound : Obfuscation := ⟨0x922D, 0x45⟩

/-- Disguises counts that clients receive. -/
def outbound : Obfuscation := ⟨0x4315, 0x7A⟩

/-- Reads an action as a client sends it. The number of things is checked against the room that
is left before any of them is read. -/
def read : ReadM MovementAction := do
  Reader.skip EntityHeader.size
  let performer ← Reader.header
  let preData ← Reader.bytes 40
  let command ← Reader.ascii inbound
  let rest ← Reader.bytes 4
  let count := (← Reader.hidden inbound).toNat
  if count > (← Reader.left) / 4 then throw (.tooManyThings count (← Reader.here))
  let things ← Reader.words count
  let finalData ← Reader.bytes 4
  return { performer, preData, command, rest, things, finalData }

/-- The body that other players receive, with `sender` as the one who acts. -/
def toBytes (a : MovementAction) (sender : EntityHeader) : Bytes :=
  Wire.header sender ++ Wire.header a.performer ++ a.preData ++ Wire.ascii outbound a.command ++
    a.rest ++ Wire.hidden outbound (UInt32.ofNat a.things.length) ++ a.things.flatMap Wire.u32 ++
    a.finalData

end MovementAction

/-- What a character does has changed. -/
structure ActionUpdate where
  actor : EntityHeader
  data : Bytes
  deriving DecidableEq, Repr

namespace ActionUpdate

/-- Reads an update as a client sends it. -/
def read : ReadM ActionUpdate := do
  Reader.skip EntityHeader.size
  let actor ← Reader.header
  let data ← Reader.bytes 32
  return { actor, data }

/-- The body that the player whom `recipient` names receives. -/
def toBytes (a : ActionUpdate) (recipient : EntityHeader) : Bytes :=
  Wire.header recipient ++ Wire.header a.actor ++ a.data

end ActionUpdate

end GameShip
