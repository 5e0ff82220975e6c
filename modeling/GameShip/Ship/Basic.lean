import GameShip.Ship.Handler

/-!
# The ship

* `Ship`: every session, the world, the handlers, and the disk.
* `Ship.connect`, `Ship.receive`, `Ship.disconnect`: what happens on a connection.
* `Context.dispatchAll`: hands every complete frame of a session to its handler, in order.
* `Ship.flushDumps`: writes what sessions have recorded to the disk. That is done before the disk is
  looked at or changed, and before a session is gone.
-/

namespace GameShip

/-- Every session, the world, the handlers, and the disk. -/
structure Ship where
  sessions : SessionTable := {}
  world : World
  handlers : HandlerTable
  /-- The directory for packet dumps, if frames are to be recorded. -/
  dumpRoot : Option DiskPath := none
  disk : Disk := {}
  /-- What recording handlers have noted, the last entry first. -/
  journal : List JournalEntry := []

/-- Hands every complete frame of a session to its handler, one after the other. Gives the frames
as well. -/
def Context.dispatchAll (handlers : HandlerTable) (ctx : Context) : List Frame × Context :=
  match _h : ctx.session.nextFrame? with
  | none => ([], ctx)
  | some (frame, session) =>
    let (frames, ctx) := (handlers.dispatch { ctx with session } frame).dispatchAll handlers
    (frame :: frames, ctx)
termination_by ctx.session.inbox.length
decreasing_by simpa using Session.length_nextFrame?_lt _h

namespace Ship

/-- Takes a session out, lets something happen, and puts it back. -/
def withSession {α : Type} (ship : Ship) (id : ClientId) (clock : UInt64)
    (act : Context → α × Context) : Option (α × Ship) :=
  match ship.sessions[id]? with
  | none => none
  | some session =>
    let (a, ctx) := act
      { session
        others := ship.sessions.erase id
        world := ship.world
        clock
        journal := ship.journal }
    some (a, { ship with
      sessions := SessionTable.put ctx.others ctx.session
      world := ctx.world
      journal := ctx.journal })

/-- The disk, with all on it that the session of a connection has recorded. -/
def diskWith (ship : Ship) (id : ClientId) : Disk :=
  match ship.sessions[id]? with
  | some session => session.written ship.disk
  | none => ship.disk

/-- A record for a session, if frames are to be recorded and its directory can be made. -/
def newDump (ship : Ship) (id : ClientId) : Option (Dump × Disk) := do
  let directory := (← ship.dumpRoot) ++ [toString id]
  let disk ← (ship.diskWith id).createDirectory directory
  return ({ directory }, disk)

/-- A new connection. It is greeted at once. A session that has the same number is replaced. -/
def connect (ship : Ship) (id : ClientId) (address : SocketAddress) : Ship :=
  let session := { Session.new id with address := some address }
  let (session, disk) := match ship.newDump id with
    | some (dump, disk) => ({ session with dump := some dump }, disk)
    | none => (session, ship.diskWith id)
  { ship with sessions := SessionTable.put ship.sessions (session.sendPacket .welcome), disk }

/-- Bytes came in on a connection. Gives the frames that were handed to handlers. -/
def receive (ship : Ship) (id : ClientId) (data : Bytes) (clock : UInt64) : List Frame × Ship :=
  let act (ctx : Context) : List Frame × Context :=
    let (frames, ctx) :=
      { ctx with session := (ctx.session.receive data).2 }.dispatchAll ship.handlers
    (frames, { ctx with session := ctx.session.compact })
  (ship.withSession id clock act).getD ([], ship)

/-- A connection is gone. What its session has recorded is on the disk. -/
def disconnect (ship : Ship) (id : ClientId) : Ship :=
  match ship.sessions[id]? with
  | none => ship
  | some session =>
    { ship with
      sessions := ship.sessions.erase id
      world := (ship.world.detach session).2
      disk := session.written ship.disk }

/-- The connection is to be torn down. -/
def isClosed (ship : Ship) (id : ClientId) : Bool :=
  (ship.sessions[id]?.map (·.closed)).getD true

/-- How many bytes wait to be sent on a connection. -/
def outbound (ship : Ship) (id : ClientId) : Option Nat :=
  ship.sessions[id]?.map (·.outbox.length)

/-- Hands one frame to the handler for its opcode. There may be no such session or handler. -/
def handle (ship : Ship) (id : ClientId) (frame : Frame) (clock : UInt64) :
    Option (Except HandlerError Unit × Ship) := do
  let h ← ship.handlers.get? frame.opcode
  ship.withSession id clock fun ctx => h.handle ctx frame.flags frame.payload

/-- Puts a session in the place of the one of its connection. -/
def putSession (ship : Ship) (s : Session) : Ship :=
  { ship with sessions := SessionTable.put ship.sessions s }

/-- Writes what the record of a session holds to the disk. -/
def flushDump (ship : Ship) (id : ClientId) : Ship :=
  match ship.sessions[id]? with
  | none => ship
  | some session =>
    match session.dump with
    | none => ship
    | some dump =>
      let (dump, disk) := dump.flush ship.disk
      { ship.putSession { session with dump := some dump } with disk }

/-- Writes what the records of all sessions hold to the disk. -/
def flushDumps (ship : Ship) : Ship :=
  (SessionTable.ids ship.sessions).foldl (fun ship id => ship.flushDump id) ship

end Ship

end GameShip
