import GameShip.Wire.Reader

/-!
# What a frame is about

* `Opcode`: the kind and subtype of a frame, with the ones that clients and the ship use.
* `PacketFlags`: the flag byte of a frame.
-/

namespace GameShip

/-- Says what a frame is about, by its kind and subtype. -/
structure Opcode where
  kind : UInt8
  subtype : UInt8
  deriving DecidableEq, Inhabited, Repr

namespace Opcode

/-- A byte as two digits to base sixteen. -/
def hexByte (b : UInt8) : String :=
  (if b < 16 then "0" else "") ++ hexDigits b.toNat

/-- The written form of an opcode, such as `0x03:0x2B`. -/
def display (op : Opcode) : String := "0x" ++ hexByte op.kind ++ ":0x" ++ hexByte op.subtype

/-- The name of an opcode in a table of names. -/
def nameIn (table : List (Opcode × String)) (op : Opcode) : String :=
  (table.lookup op).getD "Unknown"

/-! ## Sent by clients -/

namespace Client

def pingResponse : Opcode := ⟨0x03, 0x0C⟩
def movement : Opcode := ⟨0x04, 0x07⟩
def movementAction : Opcode := ⟨0x04, 0x08⟩
def actionUpdate : Opcode := ⟨0x04, 0x3C⟩
def movementEnd : Opcode := ⟨0x04, 0x71⟩
def keyExchange : Opcode := ⟨0x11, 0x0B⟩
def clientTime : Opcode := ⟨0x11, 0x0D⟩
def guildInfoRequest : Opcode := ⟨0x11, 0x1D⟩
def logout : Opcode := ⟨0x11, 0x2B⟩
def characterCreateOne : Opcode := ⟨0x11, 0x41⟩
def characterCreateTwo : Opcode := ⟨0x11, 0x54⟩

/-- Every opcode a client sends that has a name. -/
def names : List (Opcode × String) := [
  (pingResponse, "PingResponse"),
  (movement, "Movement"),
  (movementAction, "MovementAction"),
  (actionUpdate, "ActionUpdate"),
  (movementEnd, "MovementEnd"),
  (keyExchange, "KeyExchange"),
  (clientTime, "ClientTime"),
  (guildInfoRequest, "GuildInfoRequest"),
  (logout, "Logout"),
  (characterCreateOne, "CharacterCreateOne"),
  (characterCreateTwo, "CharacterCreateTwo")]

end Client

/-! ## Sent by the ship -/

namespace Server

def welcome : Opcode := ⟨0x03, 0x08⟩
def unlockControls : Opcode := ⟨0x03, 0x2B⟩
def teleportTransfer : Opcode := ⟨0x04, 0x02⟩
def movement : Opcode := ⟨0x04, 0x07⟩
def movementEnd : Opcode := ⟨0x04, 0x71⟩
def movementAction : Opcode := ⟨0x04, 0x80⟩
def actionUpdate : Opcode := ⟨0x04, 0x81⟩
def characterSpawn : Opcode := ⟨0x08, 0x04⟩
def objectSpawn : Opcode := ⟨0x08, 0x0B⟩
def keyExchangeResponse : Opcode := ⟨0x11, 0x0C⟩
def serverTime : Opcode := ⟨0x11, 0x0E⟩
def characterCreateOneResponse : Opcode := ⟨0x11, 0x42⟩
def characterCreateTwoResponse : Opcode := ⟨0x11, 0x55⟩
def systemMessage : Opcode := ⟨0x19, 0x01⟩

/-- Every opcode the ship sends that has a name. -/
def names : List (Opcode × String) := [
  (welcome, "Welcome"),
  (unlockControls, "UnlockControls"),
  (teleportTransfer, "TeleportTransfer"),
  (movement, "Movement"),
  (movementEnd, "MovementEnd"),
  (movementAction, "MovementAction"),
  (actionUpdate, "ActionUpdate"),
  (characterSpawn, "CharacterSpawn"),
  (objectSpawn, "ObjectSpawn"),
  (keyExchangeResponse, "KeyExchangeResponse"),
  (serverTime, "ServerTime"),
  (characterCreateOneResponse, "CharacterCreateOneResponse"),
  (characterCreateTwoResponse, "CharacterCreateTwoResponse"),
  (systemMessage, "SystemMessage")]

end Server

end Opcode

/-- The flag byte of a frame. Bits without a name are kept. -/
structure PacketFlags where
  bits : UInt8 := 0
  deriving DecidableEq, Inhabited, Repr

namespace PacketFlags

def none : PacketFlags := ⟨0⟩

def packed : PacketFlags := ⟨0x04⟩

def flag10 : PacketFlags := ⟨0x10⟩

def fullMovement : PacketFlags := ⟨0x20⟩

def objectRelated : PacketFlags := ⟨0x40⟩

/-- The bits set in either of two flag bytes. -/
def union (a b : PacketFlags) : PacketFlags := ⟨a.bits ||| b.bits⟩

/-- Every flag that has a name. -/
def all : PacketFlags := ((packed.union flag10).union fullMovement).union objectRelated

end PacketFlags

end GameShip
