import GameShip.Frame.Basic
import GameShip.Object.Basic

/-!
# Packets the ship sends

* `Packet`: the packets with a body of their own form.
* `Packet.opcode`, `Packet.flags`, `Packet.body`: how they are put into a frame.
-/

namespace GameShip

/-- How a client shows a message. -/
inductive MessageKind where
  | goldenTicker
  | adminMessage
  | adminMessageInstant
  | systemMessage
  | genericMessage
  deriving DecidableEq, Inhabited, Repr

/-- The number that stands for a kind of message. -/
def MessageKind.code (k : MessageKind) : UInt32 := UInt32.ofNat k.ctorIdx

/-- What makes a character appear for a client. -/
structure CharacterSpawn where
  playerId : UInt32
  location : Location
  name : String
  nickname : String
  /-- The client that receives the packet controls this character. -/
  isSelf : Bool
  deriving DecidableEq, Inhabited, Repr

namespace CharacterSpawn

/-- The size of the part that describes looks and class levels, which is left zero. -/
def appearanceSize : Nat := 0x130

/-- The size of the body. -/
def size : Nat := 0x8C + appearanceSize + 0xA8

/-- The body that makes a character appear. -/
def toBytes (spawn : CharacterSpawn) : Bytes :=
  Wire.header { id := spawn.playerId.toUInt64, kind := .player } ++
    Wire.location spawn.location ++ Bytes.zeros 2 ++ Utf8.padded "Character" 32 ++
    Wire.u16 1 ++ Wire.u16 0 ++ Wire.u32 602 ++ Wire.u32 1 ++ Wire.u32 53 ++ Wire.u32 0 ++
    Wire.u32 (if spawn.isSelf then 47 else 39) ++ Wire.u16 559 ++ Wire.u16 306 ++
    Wire.u32 spawn.playerId ++ Bytes.zeros 12 ++ Utf16.padded spawn.name 16 ++ Bytes.zeros 4 ++
    Bytes.zeros appearanceSize ++ Utf16.padded "" 32 ++ Wire.u32 0 ++ Wire.u32 0 ++
    Utf16.padded spawn.nickname 16 ++ Bytes.zeros 64

end CharacterSpawn

/-- A packet the ship sends. -/
inductive Packet where
  /-- Greets a new connection. -/
  | welcome
  /-- Says all it has to say by its opcode. -/
  | bare (opcode : Opcode)
  | systemMessage (text : String) (kind : MessageKind)
  /-- Moves the client through the teleporter `source`. -/
  | teleportTransfer (source : EntityHeader) (destination : Location)
  | characterSpawn (spawn : CharacterSpawn)
  | objectSpawn (object : WorldObject)
  deriving DecidableEq, Repr

namespace Packet

/-- Disguises the length of a system message. -/
def messageKey : Obfuscation := ⟨0x78F7, 0xA2⟩

def opcode : Packet → Opcode
  | .welcome => Opcode.Server.welcome
  | .bare opcode => opcode
  | .systemMessage .. => Opcode.Server.systemMessage
  | .teleportTransfer .. => Opcode.Server.teleportTransfer
  | .characterSpawn _ => Opcode.Server.characterSpawn
  | .objectSpawn _ => Opcode.Server.objectSpawn

def flags : Packet → PacketFlags
  | .systemMessage .. => .packed
  | .teleportTransfer .. => .objectRelated
  | _ => .none

/-- The payload of the frame. -/
def body : Packet → Bytes
  | .welcome => Wire.u16 3 ++ Wire.u16 201 ++ Wire.u16 0 ++ Wire.u16 0
  | .bare _ => []
  | .systemMessage text kind => Wire.utf16 messageKey text ++ Wire.u32 kind.code
  | .teleportTransfer source destination =>
    Bytes.zeros EntityHeader.size ++ Wire.header source ++ Wire.location destination ++
      Bytes.zeros 2
  | .characterSpawn spawn => spawn.toBytes
  | .objectSpawn object => object.toBytes

/-- The frame that carries a packet. -/
def frame (p : Packet) : Frame := { opcode := p.opcode, flags := p.flags, payload := p.body }

end Packet

end GameShip
