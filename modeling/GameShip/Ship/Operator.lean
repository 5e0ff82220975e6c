import GameShip.Ship.Basic

/-!
# What an operator can do

Each operation acts on the ship and may fail. One that fails leaves the ship as far as it has got.

* `Ship.sendTo`, `Ship.sendRaw`, `Ship.sendFile`, `Ship.sendDirectory`, `Ship.announce`: sends.
* `Ship.kick`, `Ship.kickAll`: ends sessions.
* `Ship.teleport`, `Ship.moveToMap`, `Ship.changeMap`: moves a session.
* `Ship.spawnClone`, `Ship.spawnObject`: shows something new.
-/

namespace GameShip

/-- An action on the ship that may fail. -/
abbrev Operation := EStateM WorldError Ship

namespace Ship

/-- The session of a connection, whether it is closed or not. -/
def anySession (id : ClientId) : Operation Session := do
  match (← get).sessions[id]? with
  | some session => return session
  | none => throw (.sessionNotFound id)

/-- The session of a connection, which must not be closed. -/
def liveSession (id : ClientId) : Operation Session := do
  let session ← anySession id
  if session.closed then throw (.sessionNotFound id)
  return session

/-- Puts a session in the place of the one of its connection. -/
def store (session : Session) : Operation Unit := modify (·.putSession session)

/-- The disk, on which all that has been recorded so far has been written. -/
def currentDisk : Operation Disk := do
  modify (·.flushDumps)
  return (← get).disk

/-- The result of an access to files. -/
def fromDisk {α : Type} (access : Disk → Except FileError α) : Operation α := do
  match access (← currentDisk) with
  | .ok a => return a
  | .error e => throw (.file e)

/-- Acts on the object registry. -/
def onObjects {α : Type} (act : ObjectRegistry → Disk → α × ObjectRegistry) : Operation α := do
  let disk ← currentDisk
  let ship ← get
  let (a, objects) := act ship.world.objects disk
  set { ship with world := { ship.world with objects } }
  return a

/-! ## Sending -/

/-- Sends a frame. -/
def sendTo (id : ClientId) (frame : Frame) : Operation Unit := do
  store ((← liveSession id).sendFrame frame)

/-- Sends bytes that form a complete frame. -/
def sendRaw (id : ClientId) (packet : Bytes) : Operation Unit := do
  store ((← liveSession id).send packet)

/-- A captured frame with its size field set to its size. -/
def withSize (capture : Bytes) : Bytes := Bytes.ofNat 4 capture.length ++ capture.drop 4

/-- Sends a frame that stands in a file. -/
def sendFile (id : ClientId) (path : String) : Operation Unit := do
  let capture ← fromDisk (·.read path)
  if capture.length < Frame.headerSize then throw (.file .shorterThanHeader)
  sendRaw id (withSize capture)

/-- Sends files one after the other, up to the first that cannot be sent. -/
def sendFiles (id : ClientId) : List String → Operation Unit
  | [] => return
  | path :: paths => do
    sendFile id path
    sendFiles id paths

/-- The paths of the files in a directory, in the order of the names. -/
def filePaths (disk : Disk) (path : String) : Except FileError (List String) := do
  let entries := Disk.sorted (← disk.list path)
  return (entries.map fun (name, _) => Disk.join path name).filter disk.isFile

/-- Sends every file of a directory, in the order of the names. Says how many there were. -/
def sendDirectory (id : ClientId) (path : String) : Operation Nat := do
  let _ ← liveSession id
  let paths ← fromDisk (filePaths · path)
  sendFiles id paths
  return paths.length

/-- The session receives announcements. -/
def isAddressed (s : Session) : Bool := s.character.isSome && !s.closed

/-- Sends a message to every session that has a character. Says how many got it. -/
def announce (text : String) (kind : MessageKind) : Operation Nat := do
  let ship ← get
  let addressed := ship.sessions.values.filter isAddressed
  set { ship with
    sessions := ship.sessions.map fun _ s =>
      if isAddressed s then s.sendPacket (.systemMessage text kind) else s }
  return addressed.length

/-! ## Ending sessions -/

/-- Takes a session out of the world and closes it. -/
def kick (id : ClientId) : Operation Unit := do
  let session ← anySession id
  let ship ← get
  let (session, world) := ship.world.detach session
  set { ship.putSession session.close with world }

/-- Takes every session out of the world and closes it. -/
def kickAll : Operation Unit := do
  for id in SessionTable.ids (← get).sessions do
    kick id

/-! ## Moving sessions -/

/-- The object through which every teleport goes. It stands in the lobby. -/
def teleporterId : UInt64 := 443

/-- Moves a session within its map. -/
def teleport (id : ClientId) (destination : Location) : Operation Unit := do
  let teleporter ← onObjects fun objects disk =>
    objects.objectIn disk ZoneRegistry.lobby teleporterId
  let session ← liveSession id
  store ({ session with location := destination }.sendPacket
    (.teleportTransfer teleporter.header destination))

/-- The result of an access to the zones. -/
def fromZones {α : Type} (access : ZoneRegistry → Except WorldError α) : Operation α := do
  match access (← get).world.zones with
  | .ok a => return a
  | .error e => throw e

/-- Moves a session into a map. It appears where the map says, and is shown the objects of the
map before it can act again. The map is looked up before the session leaves its own. -/
def moveToMap (id : ClientId) (ref : MapRef) : Operation Location := do
  let session ← liveSession id
  let map ← fromZones (·.map ref)
  modify fun ship => { ship with world := ship.world.leaveMap session.map id }
  let (location, zones) ← fromZones (·.spawnClient ref id)
  modify fun ship => { ship with world := { ship.world with zones } }
  let objects ← onObjects fun objects disk => objects.objectsOf disk map.name
  let session := { ← liveSession id with map := some ref, location }
  let session := objects.foldl (fun s object => s.sendPacket (.objectSpawn object)) session
  store (session.sendPacket (.bare Opcode.Server.unlockControls))
  return location

/-- What a generated map is asked for by. -/
structure MapRequest where
  zoneId : UInt32
  variantId : UInt32
  kind : MapKind
  flags : MapFlags
  generation : Generation

/-- The instance for the generated maps of a zone and variant. -/
def MapRequest.instanceName (request : MapRequest) : String :=
  "tpinstance_" ++ toString request.zoneId.toNat ++ "_" ++ toString request.variantId.toNat

/-- The map that a request asks for. -/
def MapRequest.map (request : MapRequest) : GameMap where
  name := generatedMapName
  zoneId := request.zoneId
  variantId := request.variantId
  kind := request.kind
  flags := request.flags
  generation := some request.generation

/-- Moves a session into a generated map, which is made first if it is not there. -/
def changeMap (id : ClientId) (request : MapRequest) : Operation Location := do
  modify fun ship =>
    let zones := (ship.world.zones.create request.instanceName request.map).2
    { ship with world := { ship.world with zones } }
  moveToMap id ⟨request.instanceName, generatedMapName⟩

/-! ## Showing something new -/

/-- Where clones appear along each axis for which zero is given. -/
def clonePosition : Position := { x := ⟨0xBED60008⟩, y := ⟨0x380205FF⟩, z := ⟨0x43066000⟩ }

/-- The way clones face. -/
def cloneRotation : Rotation := { y := .one }

/-- The least number of a player that is only a clone. -/
def firstCloneId : UInt32 := 12345678

/-- The number of a clone: the one drawn, if it can be one. -/
def cloneId (draw : UInt32) : UInt32 :=
  if firstCloneId ≤ draw then draw else firstCloneId + draw

/-- Shows a session a character that nobody else sees. Gives its number. -/
def spawnClone (id : ClientId) (name : String) (position : Position) (draw : UInt32) :
    Operation UInt32 := do
  let session ← liveSession id
  let pick (given default : Single) : Single := if given.isZero then default else given
  let location : Location := {
    rotation := cloneRotation
    position := {
      x := pick position.x clonePosition.x
      y := pick position.y clonePosition.y
      z := pick position.z clonePosition.z } }
  let playerId := cloneId draw
  store (session.sendPacket
    (.characterSpawn { playerId, location, name, nickname := name, isSelf := false }))
  return playerId

/-- Creates an object beside a session and shows it to all in that map. Gives its number. -/
def spawnObject (id : ClientId) (name : String) (location : Location) (draw : UInt64) :
    Operation UInt64 := do
  let session ← liveSession id
  let zone ← match session.map with
    | some ref => GameMap.name <$> fromZones (·.map ref)
    | none => pure ZoneRegistry.lobby
  let object := WorldObject.named ((← get).world.objects.unusedId draw) name location
  let present (s : Session) : Session := s.sendPacket (.objectSpawn object)
  store (present session)
  match session.map with
  | some ref =>
    modify fun ship =>
      { ship with sessions := SessionTable.broadcast ship.sessions ref id present }
  | none => pure ()
  let _ ← onObjects fun objects disk => objects.insert disk zone object
  return object.id

end Ship

end GameShip
