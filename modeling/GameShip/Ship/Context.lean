import GameShip.World.Basic

/-!
# What a handler sees

While a frame is handled, its session is taken out of the table of sessions.

* `Context`: that session, the others, the world, the time.
* `HandlerError`: why a frame could not be handled.
* `Context.reply`, `Context.broadcast`, `Context.closeSession`: what a handler can do.
-/

namespace GameShip

/-- An entry that a recording handler has made. -/
structure JournalEntry where
  tag : String
  client : ClientId
  flags : PacketFlags
  payload : Bytes
  deriving DecidableEq, Repr

/-- What a handler sees and can change. -/
structure Context where
  /-- The session from which the frame came. -/
  session : Session
  /-- Every other session. -/
  others : SessionTable
  world : World
  /-- The time in milliseconds. -/
  clock : UInt64
  /-- What recording handlers have noted, the last entry first. -/
  journal : List JournalEntry

/-- Why a key exchange was refused. -/
inductive KeyExchangeError where
  | alreadyDone
  | badBlob
  deriving DecidableEq, Repr

/-- Why a frame could not be handled. -/
inductive HandlerError where
  | decode (cause : ReadError)
  | missingUser (id : ClientId)
  | keyExchange (cause : KeyExchangeError)
  | world (cause : WorldError)
  deriving DecidableEq, Repr

/-- The text that explains an error, where it is not that of its cause. -/
def HandlerError.message? : HandlerError → Option String
  | .missingUser id => some (ClientId.display id ++ " has no user yet")
  | .keyExchange .alreadyDone => some "key exchange failed: session already has a key"
  | .keyExchange .badBlob => some "key exchange failed: could not unwrap the key blob"
  | .decode _ | .world _ => none

namespace Context

/-- Sends a frame to the session. -/
def reply (ctx : Context) (frame : Frame) : Context :=
  { ctx with session := ctx.session.sendFrame frame }

/-- Changes every other session that hears what happens in the map of the session. -/
def broadcast (ctx : Context) (f : Session → Session) : Context :=
  match ctx.session.map with
  | some map => { ctx with others := ctx.others.broadcast map ctx.session.id f }
  | none => ctx

/-- The sessions that a broadcast reaches. -/
def audience (ctx : Context) : List ClientId :=
  match ctx.session.map with
  | some map => ctx.others.audience map ctx.session.id
  | none => []

/-- Takes the session out of the world and closes it. -/
def closeSession (ctx : Context) : Context :=
  let (session, world) := ctx.world.detach ctx.session
  { ctx with session := session.close, world }

@[simp] theorem inbox_reply (ctx : Context) (frame : Frame) :
    (ctx.reply frame).session.inbox = ctx.session.inbox := Session.inbox_sendFrame ..

@[simp] theorem session_broadcast (ctx : Context) (f : Session → Session) :
    (ctx.broadcast f).session = ctx.session := by
  unfold broadcast
  split <;> rfl

@[simp] theorem inbox_closeSession (ctx : Context) :
    ctx.closeSession.session.inbox = ctx.session.inbox := rfl

end Context

end GameShip
