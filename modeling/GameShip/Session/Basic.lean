import GameShip.Frame.Buffer
import GameShip.Movement.Packed
import GameShip.Net.Address
import GameShip.Packet
import GameShip.SendQueue
import GameShip.Session.Dump
import GameShip.World.Reference

/-!
# Sessions

All that the ship keeps about one connection: the two buffers, the cipher of each direction, and
who plays where.

* `Session.receive`, `Session.nextFrame?`: from the bytes of the client to its frames.
* `Session.send`: from a frame to the bytes that wait to be sent.
* `Session.setKey`, `Session.close`: the changes in the life of a connection.
* `Session.applyMovement`: follows the character.
-/

namespace GameShip

/-- The account of a player. -/
structure User where
  playerId : UInt32
  username : String
  deriving DecidableEq, Inhabited, Repr

/-- The character that a session plays. -/
structure Character where
  id : UInt32
  name : String
  deriving DecidableEq, Inhabited, Repr

/-- All that the ship keeps about one connection. -/
structure Session where
  id : ClientId
  address : Option SocketAddress := none
  /-- What came in and is in no frame yet, decrypted. -/
  inbox : FrameBuffer := .empty
  inCipher : Option Rc4 := none
  /-- What waits to be sent, encrypted. -/
  outbox : SendQueue := .empty
  outCipher : Option Rc4 := none
  closed : Bool := false
  dump : Option Dump := none
  user : Option User := none
  character : Option Character := none
  /-- The map that the session occupies. -/
  map : Option MapRef := none
  location : Location := {}
  lastPosition : Position := {}
  movementTimestamp : UInt32 := 0

namespace Session

/-- A connection of which nothing is known yet. -/
def new (id : ClientId) : Session := { id }

instance : Inhabited Session := ⟨.new 0⟩

/-- The key exchange is done. -/
def encrypted (s : Session) : Bool := s.inCipher.isSome

/-- Encrypts both directions with a key from the next byte on. -/
def setKey (s : Session) (key : Bytes) : Session :=
  { s with inCipher := some (Rc4.ofKey key), outCipher := some (Rc4.ofKey key) }

/-- Marks the session as closed: it hands out no more frames and sends nothing more. -/
def close (s : Session) : Session := { s with closed := true }

/-- The header by which other clients know this player. -/
def playerHeader (s : Session) : Option EntityHeader :=
  s.user.map fun user => { id := user.playerId.toUInt64, kind := .player }

/-- Takes in bytes of the client, or refuses them if there is no room. -/
def receive (s : Session) (data : Bytes) : Bool × Session :=
  match s.inbox.push data s.inCipher with
  | .ok (inbox, inCipher) => (true, { s with inbox, inCipher })
  | .error _ => (false, s)

/-- Adds a frame to the record of the session, if there is one. -/
def record (s : Session) (opcode : Opcode) (direction : Direction) (frame : Bytes) : Session :=
  { s with dump := s.dump.map fun dump => dump.record opcode direction frame }

/-- The disk, on which all that the session has recorded has been written. -/
def written (s : Session) (disk : Disk) : Disk :=
  match s.dump with
  | some dump => (dump.flush disk).2
  | none => disk

/-- The next complete frame. Nothing comes out of a closed session. -/
def nextFrame? (s : Session) : Option (Frame × Session) :=
  if s.closed then none
  else
    match s.inbox.next? with
    | some (frame, inbox) =>
      some (frame, { s with inbox }.record frame.opcode .client frame.toBytes)
    | none => none

/-- Makes the room of taken frames free again. -/
def compact (s : Session) : Session := { s with inbox := s.inbox.compact }

/-- Adds the bytes of a frame that is sent to the record, if they reach to its opcode. -/
def recordSent (s : Session) (packet : Bytes) : Session :=
  match packet with
  | _ :: _ :: _ :: _ :: kind :: subtype :: _ => s.record ⟨kind, subtype⟩ .ship packet
  | _ => s

/-- Encrypts the bytes of a frame and puts them into the queue. The key stream goes on also if
the queue refuses them. -/
def enqueue (s : Session) (packet : Bytes) : Session :=
  let (data, outCipher) := Rc4.through s.outCipher packet
  match s.outbox.push data with
  | .ok outbox => { s with outbox, outCipher }
  | .error _ => { s with outCipher }

/-- Sends bytes that form a complete frame. A closed session sends nothing. -/
def send (s : Session) (packet : Bytes) : Session :=
  if s.closed then s else (s.recordSent packet).enqueue packet

/-- Sends a frame. -/
def sendFrame (s : Session) (frame : Frame) : Session := s.send frame.toBytes

/-- Sends a packet. -/
def sendPacket (s : Session) (packet : Packet) : Session := s.sendFrame packet.frame

/-- Hands all that waits to be sent to a connection that takes everything. -/
def drain (s : Session) : Bytes × Session :=
  let (bytes, outbox) := s.outbox.drain
  (bytes, { s with outbox })

/-- Takes over the fields of a movement update that its flags announce. -/
def applyMovement (s : Session) (m : PackedMovement) : Session :=
  let pick {α : Type} (field : MovementField) (announced current : α) : α :=
    if m.flags.has field then announced else current
  let rotation := s.location.rotation
  let position := s.location.position
  { s with
    movementTimestamp := pick .timestamp m.record.timestamp s.movementTimestamp
    location := {
      rotation := {
        x := pick .rotationX m.record.rotation.x rotation.x
        y := pick .rotationY m.record.rotation.y rotation.y
        z := pick .rotationZ m.record.rotation.z rotation.z
        w := pick .rotationW m.record.rotation.w rotation.w }
      position := {
        x := pick .positionX m.record.position.x position.x
        y := pick .positionY m.record.position.y position.y
        z := pick .positionZ m.record.position.z position.z } }
    lastPosition := {
      x := pick .unknownX m.record.unknownPosition.x s.lastPosition.x
      y := pick .unknownY m.record.unknownPosition.y s.lastPosition.y
      z := pick .unknownZ m.record.unknownPosition.z s.lastPosition.z } }

/-- The session plays a character in a map, so it hears what happens there. -/
def hears (s : Session) (map : MapRef) : Bool :=
  !s.closed && s.character.isSome && s.map == some map

@[simp] theorem inbox_record (s : Session) (opcode : Opcode) (direction : Direction)
    (frame : Bytes) : (s.record opcode direction frame).inbox = s.inbox := rfl

@[simp] theorem inbox_recordSent (s : Session) (packet : Bytes) :
    (s.recordSent packet).inbox = s.inbox := by
  unfold recordSent
  split <;> simp

@[simp] theorem inbox_enqueue (s : Session) (packet : Bytes) :
    (s.enqueue packet).inbox = s.inbox := by
  unfold enqueue
  split
  split <;> rfl

@[simp] theorem inbox_send (s : Session) (packet : Bytes) : (s.send packet).inbox = s.inbox := by
  unfold send
  split <;> simp

@[simp] theorem inbox_sendFrame (s : Session) (frame : Frame) :
    (s.sendFrame frame).inbox = s.inbox := inbox_send ..

@[simp] theorem inbox_sendPacket (s : Session) (packet : Packet) :
    (s.sendPacket packet).inbox = s.inbox := inbox_send ..

@[simp] theorem inbox_setKey (s : Session) (key : Bytes) : (s.setKey key).inbox = s.inbox := rfl

@[simp] theorem inbox_close (s : Session) : s.close.inbox = s.inbox := rfl

@[simp] theorem inbox_applyMovement (s : Session) (m : PackedMovement) :
    (s.applyMovement m).inbox = s.inbox := rfl

/-- Each frame that is handed out leaves fewer pending bytes. -/
theorem length_nextFrame?_lt {s s' : Session} {frame : Frame}
    (h : s.nextFrame? = some (frame, s')) : s'.inbox.length < s.inbox.length := by
  unfold nextFrame? at h
  split at h
  · cases h
  · split at h
    · rename_i inbox hnext
      cases h
      have := FrameBuffer.length_next?_lt hnext
      simp [Frame.headerSize] at *
      omega
    · cases h

end Session

end GameShip
