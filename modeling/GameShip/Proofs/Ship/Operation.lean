import GameShip.Ship.Operator

/-!
# What operations come to

Each of the larger operations in one equation: when it fails, and what it leaves if it does not.

* `Ship.after`: what an operation leaves, also if it fails.
* `Ship.answer?`: what it answers.
* `Ship.sendFile_eq`, `Ship.kick_eq`, `Ship.moveToMap_eq` and so on: the equations.
-/

namespace GameShip

namespace Ship

/-- The ship that an operation leaves, also if it fails. -/
def after {α : Type} (ship : Ship) (operation : Operation α) : Ship :=
  match operation ship with
  | .ok _ later => later
  | .error _ later => later

/-- What an operation answers, if it does not fail. -/
def answer? {α : Type} (ship : Ship) (operation : Operation α) : Option α :=
  match operation ship with
  | .ok a _ => some a
  | .error .. => none

variable {α β : Type} {ship later : Ship} {id : ClientId}

theorem after_of_ok {x : Operation α} {a : α} (h : x ship = .ok a later) :
    ship.after x = later := by
  rw [after, h]

theorem after_of_error {x : Operation α} {e : WorldError} (h : x ship = .error e later) :
    ship.after x = later := by
  rw [after, h]

theorem answer?_eq_some {x : Operation α} {a : α} :
    ship.answer? x = some a ↔ x ship = .ok a (ship.after x) := by
  unfold answer? after
  cases x ship <;> simp

theorem bind_of_ok {x : Operation α} {f : α → Operation β} {a : α} (h : x ship = .ok a later) :
    (x >>= f) ship = f a later := by
  change EStateM.bind x f ship = _
  rw [EStateM.bind, h]

theorem bind_of_error {x : Operation α} {f : α → Operation β} {e : WorldError}
    (h : x ship = .error e later) : (x >>= f) ship = .error e later := by
  change EStateM.bind x f ship = _
  rw [EStateM.bind, h]

/-! ## Looking up -/

/-- The session of a connection, if it is not closed. -/
def live? (ship : Ship) (id : ClientId) : Option Session := ship.sessions[id]?.filter (!·.closed)

theorem live?_eq_some {s : Session} :
    ship.live? id = some s ↔ ship.sessions[id]? = some s ∧ s.closed = false := by
  rw [live?, Option.filter_eq_some_iff, Bool.not_eq_true']

theorem anySession_eq (ship : Ship) (id : ClientId) :
    anySession id ship = match ship.sessions[id]? with
      | some s => .ok s ship
      | none => .error (.sessionNotFound id) ship := by
  change (match ship.sessions[id]? with
    | some s => pure s
    | none => throw (.sessionNotFound id) : Operation Session) ship = _
  cases ship.sessions[id]? <;> rfl

theorem liveSession_eq (ship : Ship) (id : ClientId) :
    liveSession id ship = match ship.live? id with
      | some s => .ok s ship
      | none => .error (.sessionNotFound id) ship := by
  have hany := anySession_eq ship id
  unfold liveSession live?
  cases hs : ship.sessions[id]? with
  | none =>
    rw [hs] at hany
    rw [bind_of_error hany]
    rfl
  | some s =>
    rw [hs] at hany
    rw [bind_of_ok hany, Option.filter_some]
    cases s.closed <;> rfl

theorem bind_liveSession (ship : Ship) (id : ClientId) (f : Session → Operation β) :
    (liveSession id >>= f) ship = match ship.live? id with
      | some s => f s ship
      | none => .error (.sessionNotFound id) ship := by
  have hlive := liveSession_eq ship id
  cases hs : ship.live? id with
  | none =>
    rw [hs] at hlive
    exact bind_of_error hlive
  | some s =>
    rw [hs] at hlive
    exact bind_of_ok hlive

theorem fromZones_eq (ship : Ship) (access : ZoneRegistry → Except WorldError α) :
    fromZones access ship = match access ship.world.zones with
      | .ok a => .ok a ship
      | .error e => .error e ship := by
  change (match access ship.world.zones with
    | .ok a => pure a
    | .error e => throw e : Operation α) ship = _
  cases access ship.world.zones <;> rfl

theorem bind_fromZones (ship : Ship) (access : ZoneRegistry → Except WorldError α)
    (f : α → Operation β) :
    (fromZones access >>= f) ship = match access ship.world.zones with
      | .ok a => f a ship
      | .error e => .error e ship := by
  have hzones := fromZones_eq ship access
  cases h : access ship.world.zones with
  | error e =>
    rw [h] at hzones
    exact bind_of_error hzones
  | ok a =>
    rw [h] at hzones
    exact bind_of_ok hzones

/-! ## Parts of a ship -/

/-- Puts other zones in the place of those of the ship. -/
def withZones (ship : Ship) (zones : ZoneRegistry) : Ship :=
  { ship with world := { ship.world with zones } }

/-- Puts another object registry in the place of that of the ship. -/
def withObjects (ship : Ship) (objects : ObjectRegistry) : Ship :=
  { ship with world := { ship.world with objects } }

/-- Changes a session, if there is one. -/
def adjust (ship : Ship) (id : ClientId) (f : Session → Session) : Ship :=
  match ship.sessions[id]? with
  | some s => ship.putSession (f s)
  | none => ship

/-- Takes a client out of a map that it may be in. -/
def leaveMap (ship : Ship) (map : Option MapRef) (id : ClientId) : Ship :=
  { ship with world := ship.world.leaveMap map id }

theorem withZones_leaveMap (ship : Ship) (map : Option MapRef) (id : ClientId)
    (zones : ZoneRegistry) : (ship.leaveMap map id).withZones zones = ship.withZones zones := by
  cases map <;> rfl

theorem onObjects_eq (ship : Ship) (act : ObjectRegistry → Disk → α × ObjectRegistry) :
    onObjects act ship =
      let flushed := ship.flushDumps
      let done := act flushed.world.objects flushed.disk
      .ok done.1 (flushed.withObjects done.2) := rfl

/-! ## Sending -/

/-- A frame that stands in a file. -/
def captured (ship : Ship) (path : String) : Except FileError Bytes :=
  match ship.flushDumps.disk.read path with
  | .error e => .error e
  | .ok capture =>
    if capture.length < Frame.headerSize then .error .shorterThanHeader else .ok (withSize capture)

/-- The packet that shows a clone. -/
def clone (name : String) (position : Position) (draw : UInt32) : Packet :=
  let pick (given default : Single) : Single := if given.isZero then default else given
  let location : Location := {
    rotation := cloneRotation
    position := {
      x := pick position.x clonePosition.x
      y := pick position.y clonePosition.y
      z := pick position.z clonePosition.z } }
  .characterSpawn { playerId := cloneId draw, location, name, nickname := name, isSelf := false }

/-- The object through which every teleport goes. -/
def teleporter (ship : Ship) : WorldObject × ObjectRegistry :=
  ship.flushDumps.world.objects.objectIn ship.flushDumps.disk ZoneRegistry.lobby teleporterId

theorem sendRaw_eq (ship : Ship) (id : ClientId) (packet : Bytes) :
    sendRaw id packet ship = match ship.live? id with
      | none => .error (.sessionNotFound id) ship
      | some s => .ok () (ship.putSession (s.send packet)) := by
  unfold sendRaw
  rw [bind_liveSession]
  cases ship.live? id <;> rfl

theorem bind_fromDisk (ship : Ship) (access : Disk → Except FileError α)
    (f : α → Operation β) :
    (fromDisk access >>= f) ship = match access ship.flushDumps.disk with
      | .ok a => f a ship.flushDumps
      | .error e => .error (.file e) ship.flushDumps := by
  have hdisk : fromDisk access ship = match access ship.flushDumps.disk with
      | .ok a => .ok a ship.flushDumps
      | .error e => .error (.file e) ship.flushDumps := by
    change (match access ship.flushDumps.disk with
      | .ok a => pure a
      | .error e => throw (.file e) : Operation α) ship.flushDumps = _
    cases access ship.flushDumps.disk <;> rfl
  cases h : access ship.flushDumps.disk with
  | error e =>
    rw [h] at hdisk
    exact bind_of_error hdisk
  | ok a =>
    rw [h] at hdisk
    exact bind_of_ok hdisk

theorem sendFile_eq (ship : Ship) (id : ClientId) (path : String) :
    sendFile id path ship = match ship.captured path with
      | .error e => .error (.file e) ship.flushDumps
      | .ok packet => sendRaw id packet ship.flushDumps := by
  unfold sendFile captured
  rw [bind_fromDisk]
  cases ship.flushDumps.disk.read path with
  | error e => rfl
  | ok capture =>
    dsimp only
    by_cases h : capture.length < Frame.headerSize
    · rw [if_pos h, if_pos h]
      rfl
    · rw [if_neg h, if_neg h]

theorem sendDirectory_eq (ship : Ship) (id : ClientId) (path : String) :
    sendDirectory id path ship = match ship.live? id with
      | none => .error (.sessionNotFound id) ship
      | some _ => match filePaths ship.flushDumps.disk path with
        | .error e => .error (.file e) ship.flushDumps
        | .ok paths => ((fun _ => paths.length) <$> sendFiles id paths) ship.flushDumps := by
  unfold sendDirectory
  rw [bind_liveSession]
  cases ship.live? id with
  | none => rfl
  | some s =>
    dsimp only
    rw [bind_fromDisk]
    cases filePaths ship.flushDumps.disk path with
    | error e => rfl
    | ok paths =>
      dsimp only
      rw [map_eq_pure_bind]

theorem teleport_eq (ship : Ship) (id : ClientId) (destination : Location) :
    teleport id destination ship =
      let loaded := ship.flushDumps.withObjects ship.teleporter.2
      match loaded.live? id with
      | none => .error (.sessionNotFound id) loaded
      | some s => .ok () (loaded.putSession ({ s with location := destination }.sendPacket
          (.teleportTransfer ship.teleporter.1.header destination))) := by
  unfold teleport
  rw [bind_of_ok (onObjects_eq _ _), bind_liveSession]
  dsimp only [teleporter]
  cases live? (withObjects _ _) id <;> rfl

theorem spawnClone_eq (ship : Ship) (id : ClientId) (name : String) (position : Position)
    (draw : UInt32) :
    spawnClone id name position draw ship = match ship.live? id with
      | none => .error (.sessionNotFound id) ship
      | some s =>
        .ok (cloneId draw) (ship.putSession (s.sendPacket (clone name position draw))) := by
  unfold spawnClone
  rw [bind_liveSession]
  cases ship.live? id <;> rfl

/-! ## Ending a session -/

theorem kick_eq (ship : Ship) (id : ClientId) :
    kick id ship = match ship.sessions[id]? with
      | some s =>
        let gone := ship.world.detach s
        .ok () { ship.putSession gone.1.close with world := gone.2 }
      | none => .error (.sessionNotFound id) ship := by
  have hany := anySession_eq ship id
  unfold kick
  cases hs : ship.sessions[id]? with
  | none =>
    rw [hs] at hany
    exact bind_of_error hany
  | some s =>
    rw [hs] at hany
    exact bind_of_ok hany

/-! ## Moving a session -/

/-- Shows a session the objects of a map in which it arrives. -/
def arrive (s : Session) (ref : MapRef) (location : Location) (objects : List WorldObject) :
    Session :=
  let shown := objects.foldl (fun s object => s.sendPacket (.objectSpawn object))
    { s with map := some ref, location }
  shown.sendPacket (.bare Opcode.Server.unlockControls)

theorem moveToMap_eq (ship : Ship) (id : ClientId) (ref : MapRef) :
    moveToMap id ref ship = match ship.live? id with
      | none => .error (.sessionNotFound id) ship
      | some s => match ship.world.zones.map ref with
        | .error e => .error e ship
        | .ok map =>
          let left := ship.leaveMap s.map id
          match left.world.zones.spawnClient ref id with
          | .error e => .error e left
          | .ok (location, zones) =>
            let flushed := (ship.withZones zones).flushDumps
            let found := flushed.world.objects.objectsOf flushed.disk map.name
            let loaded := flushed.withObjects found.2
            match loaded.live? id with
            | none => .error (.sessionNotFound id) loaded
            | some s => .ok location (loaded.putSession (arrive s ref location found.1)) := by
  unfold moveToMap
  rw [bind_liveSession]
  cases ship.live? id with
  | none => rfl
  | some s =>
    dsimp only
    rw [bind_fromZones]
    cases ship.world.zones.map ref with
    | error e => rfl
    | ok map =>
      dsimp only
      have hleave : (modify fun ship => ship.leaveMap s.map id : Operation Unit) ship =
          .ok () (ship.leaveMap s.map id) := rfl
      refine (bind_of_ok hleave).trans ?_
      rw [bind_fromZones]
      cases (ship.leaveMap s.map id).world.zones.spawnClient ref id with
      | error e => rfl
      | ok entered =>
        have henter : (modify (·.withZones entered.2) : Operation Unit)
            (ship.leaveMap s.map id) = .ok () ((ship.leaveMap s.map id).withZones entered.2) := rfl
        refine (bind_of_ok henter).trans ?_
        rw [withZones_leaveMap, bind_of_ok (onObjects_eq _ _), bind_liveSession]
        dsimp only
        cases live? (withObjects _ _) id <;> rfl

/-! ## Showing a new object -/

/-- The zone to which an object belongs that is created beside a session. -/
def zoneOf (ship : Ship) (s : Session) : Except WorldError String :=
  match s.map with
  | some ref => (ship.world.zones.map ref).map (·.name)
  | none => .ok ZoneRegistry.lobby

/-- Shows an object to a session and to all that hear what happens in its map. -/
def present (ship : Ship) (id : ClientId) (s : Session) (object : WorldObject) : Ship :=
  let send (s : Session) : Session := s.sendPacket (.objectSpawn object)
  let shown := ship.putSession (send s)
  match s.map with
  | some ref => { shown with sessions := SessionTable.broadcast shown.sessions ref id send }
  | none => shown

theorem spawnObject_eq (ship : Ship) (id : ClientId) (name : String) (location : Location)
    (draw : UInt64) :
    spawnObject id name location draw ship = match ship.live? id with
      | none => .error (.sessionNotFound id) ship
      | some s => match ship.zoneOf s with
        | .error e => .error e ship
        | .ok zone =>
          let object := WorldObject.named (ship.world.objects.unusedId draw) name location
          let flushed := (ship.present id s object).flushDumps
          .ok object.id
            (flushed.withObjects (flushed.world.objects.insert flushed.disk zone object).2) := by
  unfold spawnObject
  rw [bind_liveSession]
  cases ship.live? id with
  | none => rfl
  | some s =>
    dsimp only
    unfold zoneOf present
    cases s.map with
    | none => rfl
    | some ref =>
      dsimp only
      rw [map_eq_pure_bind, bind_assoc, bind_fromZones]
      cases ship.world.zones.map ref <;> rfl

end Ship

end GameShip
