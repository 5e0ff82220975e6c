import GameShip.Proofs.Ship.Operation

/-!
# What a ship goes through

* `Ship.Call`: one thing that happens to a ship.
* `Ship.perform`, `Ship.step`, `Ship.run`: what it does, what the ship is after it, and after many
  of them.
* `Ship.framesOf`: the frames that are handed to handlers for one client.
* `Context.Handled`: frames of a session are handled one after the other.
-/

namespace GameShip

/-- Frames of a session are handled one after the other: each is taken from what is left when the
handler of the one before it is done. -/
inductive Context.Handled (handlers : HandlerTable) : Context → List Frame → Context → Prop
  | nil (ctx : Context) : Handled handlers ctx [] ctx
  | cons {ctx later : Context} {frame : Frame} {session : Session} {frames : List Frame}
      (hnext : ctx.session.nextFrame? = some (frame, session))
      (hlater : Handled handlers (handlers.dispatch { ctx with session } frame) frames later) :
      Handled handlers ctx (frame :: frames) later

/-- All frames are handled that way, until none is complete. -/
theorem Context.handled_dispatchAll (handlers : HandlerTable) (ctx : Context) :
    let done := ctx.dispatchAll handlers
    Handled handlers ctx done.1 done.2 ∧ done.2.session.nextFrame? = none := by
  fun_induction dispatchAll handlers ctx with
  | case1 ctx hnone => exact ⟨.nil ctx, hnone⟩
  | case2 ctx frame session hsome frames later hlater ih =>
    rw [hlater] at ih
    exact ⟨.cons hsome ih.1, ih.2⟩

namespace Ship

/-- One thing that happens to a ship. Random numbers that it draws are part of it. -/
inductive Call where
  /-- A new connection. -/
  | connect (id : ClientId) (address : SocketAddress)
  /-- Bytes came in on a connection. -/
  | receive (id : ClientId) (data : Bytes) (clock : UInt64)
  /-- A connection is gone. -/
  | disconnect (id : ClientId)
  | sendTo (id : ClientId) (frame : Frame)
  | sendRaw (id : ClientId) (packet : Bytes)
  | sendFile (id : ClientId) (path : String)
  | sendDirectory (id : ClientId) (path : String)
  | announce (text : String) (kind : MessageKind)
  | kick (id : ClientId)
  | kickAll
  | teleport (id : ClientId) (destination : Location)
  | moveToMap (id : ClientId) (ref : MapRef)
  | changeMap (id : ClientId) (request : MapRequest)
  | spawnClone (id : ClientId) (name : String) (position : Position) (draw : UInt32)
  | spawnObject (id : ClientId) (name : String) (location : Location) (draw : UInt64)
  /-- An instance is created for a map where nobody is yet. -/
  | createInstance (name : String) (map : GameMap) (hempty : map.clients = [])
  /-- A map where nobody is yet is added to an instance. -/
  | addMap (name : String) (map : GameMap) (hempty : map.clients = [])
  /-- A connection is given bytes that wait for it. -/
  | write (id : ClientId) (outcomes : List WriteOutcome)
  /-- The account and the character of a player become known. -/
  | identify (id : ClientId) (user : Option User) (character : Option Character)
  /-- The files of the disk change. -/
  | replaceDisk (disk : Disk)

/-- The connection that a call opens. -/
def Call.connection? : Call → Option ClientId
  | .connect id _ => some id
  | _ => none

/-- The connections whose sessions a call may open, close or remove, or change in how they hear
their clients. -/
def Call.concerns : Call → ClientId → Prop
  | .connect id _, c | .receive id _ _, c | .disconnect id, c | .kick id, c => c = id
  | .kickAll, _ => True
  | _, _ => False

/-- The connections that calls open, in their order. -/
def connections (calls : List Call) : List ClientId := calls.filterMap Call.connection?

/-- What a call does to the ship, also if it fails. -/
def perform (ship : Ship) : Call → Ship
  | .connect id address => ship.connect id address
  | .receive id data clock => (ship.receive id data clock).2
  | .disconnect id => ship.disconnect id
  | .sendTo id frame => ship.after (Ship.sendTo id frame)
  | .sendRaw id packet => ship.after (Ship.sendRaw id packet)
  | .sendFile id path => ship.after (Ship.sendFile id path)
  | .sendDirectory id path => ship.after (Ship.sendDirectory id path)
  | .announce text kind => ship.after (Ship.announce text kind)
  | .kick id => ship.after (Ship.kick id)
  | .kickAll => ship.after Ship.kickAll
  | .teleport id destination => ship.after (Ship.teleport id destination)
  | .moveToMap id ref => ship.after (Ship.moveToMap id ref)
  | .changeMap id request => ship.after (Ship.changeMap id request)
  | .spawnClone id name position draw => ship.after (Ship.spawnClone id name position draw)
  | .spawnObject id name location draw => ship.after (Ship.spawnObject id name location draw)
  | .createInstance name map _ => ship.withZones (ship.world.zones.create name map).2
  | .addMap name map _ =>
    ship.withZones ((ship.world.zones.addMap name map).toOption.getD ship.world.zones)
  | .write id outcomes =>
    ship.adjust id fun s => { s with outbox := (s.outbox.egress outcomes).2 }
  | .identify id user character => ship.adjust id fun s => { s with user, character }
  | .replaceDisk disk => { ship with disk }

/-- What the ship is after a call. All that was recorded has been written. A run is not to be
computed where only its parts are compared, so this is not unfolded unless it is asked for. -/
@[irreducible] def step (ship : Ship) (call : Call) : Ship := (ship.perform call).flushDumps

/-- What the ship is after many calls. -/
def run (ship : Ship) (calls : List Call) : Ship := calls.foldl step ship

/-- A ship with the standard handlers to which nothing has happened yet. -/
def start (u : KeyUnwrapper) (resources : String) (dumpRoot : Option DiskPath := none)
    (disk : Disk := {}) : Ship :=
  { world := .new resources, handlers := .standard u, dumpRoot, disk }

/-- The frames that a call hands to handlers for a client. -/
def handed (ship : Ship) (client : ClientId) : Call → List Frame
  | .receive id data clock => if id = client then (ship.receive id data clock).1 else []
  | _ => []

/-- The frames that calls hand to handlers for a client, in their order. -/
def framesOf (ship : Ship) (client : ClientId) : List Call → List Frame
  | [] => []
  | call :: calls => ship.handed client call ++ (ship.step call).framesOf client calls

theorem run_append (ship : Ship) (calls calls' : List Call) :
    ship.run (calls ++ calls') = (ship.run calls).run calls' := List.foldl_append

theorem framesOf_append (ship : Ship) (client : ClientId) (calls calls' : List Call) :
    ship.framesOf client (calls ++ calls') =
      ship.framesOf client calls ++ (ship.run calls).framesOf client calls' := by
  induction calls generalizing ship with
  | nil => rfl
  | cons call calls ih =>
    rw [List.cons_append, framesOf, framesOf, ih, List.append_assoc]
    rfl

theorem connections_append (calls calls' : List Call) :
    connections (calls ++ calls') = connections calls ++ connections calls' :=
  List.filterMap_append

theorem connections_cons (call : Call) (calls : List Call) :
    connections (call :: calls) = call.connection?.toList ++ connections calls := by
  unfold connections
  rw [List.filterMap_cons]
  cases call.connection? <;> rfl

end Ship

end GameShip
