import GameShip.Cipher.Key
import GameShip.Movement.Action
import GameShip.Ship.Context

/-!
# Handlers

* `Handler`: what the ship can do with a frame.
* `Handler.perform`: does it, step by step. What was done before a step that fails stays done.
* `Handler.run`: what the steps come to. A handler that fails has changed nothing.
* `HandlerTable`: which handler is for which opcode.
* `HandlerTable.dispatch`: hands a frame to its handler, whatever comes of it.
-/

namespace GameShip

/-- How a recording handler ends. -/
inductive RecorderEnd where
  | succeed
  | missingUser
  | sessionNotFound
  | closeSession
  deriving DecidableEq, Inhabited, Repr

/-- What the ship can do with a frame. -/
inductive Handler where
  /-- Takes note that the client is there. -/
  | ping
  | keyExchange (unwrapper : KeyUnwrapper)
  /-- Answers the time of the client with that and the time of the ship. -/
  | clientTime
  | logout
  /-- Answers with a run of zeros. -/
  | zeroReply (opcode : Opcode) (size : Nat)
  /-- Follows the character and passes the update on as it came. -/
  | movement
  /-- Passes the last record of a movement on in its normal form. -/
  | movementEnd
  | movementAction
  | actionUpdate
  /-- Notes every frame in the journal. -/
  | recorder (tag : String) (ending : RecorderEnd)

/-- The record that others receive when a movement ends. A record that names its entity only in
second place names it in both, and the time stamp is left out. -/
def MovementRecord.normalized (d : MovementRecord) : MovementRecord :=
  { d with
    entity1 := if d.entity1.id = 0 ∧ d.entity2.id ≠ 0 then d.entity2 else d.entity1
    timestamp := 0 }

/-- A handler at work. What it has changed stays also if it fails after that. -/
abbrev HandlerM := EStateM HandlerError Context

namespace HandlerM

/-- What a handler reads from a frame, if that could be read. -/
def decode {α : Type} (content : Except ReadError α) : HandlerM α :=
  match content with
  | .ok a => return a
  | .error e => throw (.decode e)

theorem bind_decode {α : Type} (content : Except ReadError α) (f : α → HandlerM Unit)
    (ctx : Context) : (decode content >>= f) ctx =
      match content with
      | .ok a => f a ctx
      | .error e => .error (.decode e) ctx := by
  cases content <;> rfl

theorem bind_get (f : Context → HandlerM Unit) (ctx : Context) : (get >>= f) ctx = f ctx ctx := rfl

end HandlerM

namespace Handler

open HandlerM

/-- Does what the handler is for, one step after the other. -/
def perform (flags : PacketFlags) (payload : Bytes) : Handler → HandlerM Unit
  | .ping => return
  | .keyExchange unwrapper => do
    if (← get).session.encrypted then throw (.keyExchange .alreadyDone)
    else
      let blob ← decode ((Reader.bytes keyBlobSize).run payload)
      match unwrapper blob with
      | none => throw (.keyExchange .badBlob)
      | some material =>
        modify fun ctx => { ctx with session := ctx.session.setKey material.key.toBytes }
        -- the answer is the first encrypted frame
        modify (·.reply
          { opcode := Opcode.Server.keyExchangeResponse, payload := material.token.toBytes })
  | .clientTime => do
    let time ← decode (Reader.u64.run payload)
    modify fun ctx => ctx.reply
      { opcode := Opcode.Server.serverTime, payload := Wire.u64 time ++ Wire.u64 ctx.clock }
  | .logout => modify (·.closeSession)
  | .zeroReply opcode size => modify (·.reply { opcode, payload := Bytes.zeros size })
  | .movement => do
    let (m, _) ← decode (PackedMovement.ofBytes payload)
    modify fun ctx => { ctx with session := ctx.session.applyMovement m }
    let frame : Frame := { opcode := Opcode.Server.movement, flags, payload }
    modify (·.broadcast (·.sendFrame frame))
  | .movementEnd => do
    let d ← decode (MovementRecord.read.run payload)
    let frame : Frame :=
      { opcode := Opcode.Server.movementEnd
        flags := .objectRelated
        payload := d.normalized.toBytes }
    modify (·.broadcast (·.sendFrame frame))
  | .movementAction => do
    let action ← decode (MovementAction.read.run payload)
    let session := (← get).session
    match session.playerHeader with
    | none => throw (.missingUser session.id)
    | some sender =>
      let frame : Frame :=
        { opcode := Opcode.Server.movementAction
          flags := .union .packed .objectRelated
          payload := action.toBytes sender }
      modify (·.broadcast (·.sendFrame frame))
  | .actionUpdate => do
    let update ← decode (ActionUpdate.read.run payload)
    modify (·.broadcast fun other =>
      match other.playerHeader with
      | none => other
      | some recipient =>
        other.sendFrame
          { opcode := Opcode.Server.actionUpdate
            flags := .objectRelated
            payload := update.toBytes recipient })
  | .recorder tag ending => do
    modify fun ctx => { ctx with journal := ⟨tag, ctx.session.id, flags, payload⟩ :: ctx.journal }
    let id := (← get).session.id
    match ending with
    | .succeed => return
    | .missingUser => throw (.missingUser id)
    | .sessionNotFound => throw (.world (.sessionNotFound id))
    | .closeSession => modify (·.closeSession)

/-- Runs the handler. What it has changed stays also if it fails. -/
def handle (h : Handler) (ctx : Context) (flags : PacketFlags) (payload : Bytes) :
    Except HandlerError Unit × Context :=
  match h.perform flags payload ctx with
  | .ok () later => (.ok (), later)
  | .error e later => (.error e, later)

/-- What comes of an attempt to agree on a key with the client. -/
def runKeyExchange (unwrapper : KeyUnwrapper) (ctx : Context) (payload : Bytes) :
    Except HandlerError Context :=
  if ctx.session.encrypted then .error (.keyExchange .alreadyDone)
  else
    match (Reader.bytes keyBlobSize).run payload with
    | .error e => .error (.decode e)
    | .ok blob =>
      match unwrapper blob with
      | none => .error (.keyExchange .badBlob)
      | some material =>
        .ok ({ ctx with session := ctx.session.setKey material.key.toBytes }.reply
          { opcode := Opcode.Server.keyExchangeResponse, payload := material.token.toBytes })

/-- What comes of a handler: all that it is for, or nothing and an error. -/
def run (ctx : Context) (flags : PacketFlags) (payload : Bytes) :
    Handler → Except HandlerError Context
  | .ping => .ok ctx
  | .keyExchange unwrapper => runKeyExchange unwrapper ctx payload
  | .clientTime =>
    match Reader.u64.run payload with
    | .error e => .error (.decode e)
    | .ok time =>
      .ok (ctx.reply
        { opcode := Opcode.Server.serverTime, payload := Wire.u64 time ++ Wire.u64 ctx.clock })
  | .logout => .ok ctx.closeSession
  | .zeroReply opcode size => .ok (ctx.reply { opcode, payload := Bytes.zeros size })
  | .movement =>
    match PackedMovement.ofBytes payload with
    | .error e => .error (.decode e)
    | .ok (m, _) =>
      let frame : Frame := { opcode := Opcode.Server.movement, flags, payload }
      .ok ({ ctx with session := ctx.session.applyMovement m }.broadcast (·.sendFrame frame))
  | .movementEnd =>
    match MovementRecord.read.run payload with
    | .error e => .error (.decode e)
    | .ok d =>
      let frame : Frame :=
        { opcode := Opcode.Server.movementEnd
          flags := .objectRelated
          payload := d.normalized.toBytes }
      .ok (ctx.broadcast (·.sendFrame frame))
  | .movementAction =>
    match MovementAction.read.run payload with
    | .error e => .error (.decode e)
    | .ok action =>
      match ctx.session.playerHeader with
      | none => .error (.missingUser ctx.session.id)
      | some sender =>
        let frame : Frame :=
          { opcode := Opcode.Server.movementAction
            flags := .union .packed .objectRelated
            payload := action.toBytes sender }
        .ok (ctx.broadcast (·.sendFrame frame))
  | .actionUpdate =>
    match ActionUpdate.read.run payload with
    | .error e => .error (.decode e)
    | .ok update =>
      .ok (ctx.broadcast fun other =>
        match other.playerHeader with
        | none => other
        | some recipient =>
          other.sendFrame
            { opcode := Opcode.Server.actionUpdate
              flags := .objectRelated
              payload := update.toBytes recipient })
  | .recorder _ .succeed => .ok ctx
  | .recorder _ .missingUser => .error (.missingUser ctx.session.id)
  | .recorder _ .sessionNotFound => .error (.world (.sessionNotFound ctx.session.id))
  | .recorder _ .closeSession => .ok ctx.closeSession

/-- What a handler notes, also if it fails after that. -/
def note (ctx : Context) (flags : PacketFlags) (payload : Bytes) : Handler → Context
  | .recorder tag _ =>
    { ctx with journal := ⟨tag, ctx.session.id, flags, payload⟩ :: ctx.journal }
  | _ => ctx

theorem perform_keyExchange (unwrapper : KeyUnwrapper) (ctx : Context) (flags : PacketFlags)
    (payload : Bytes) : perform flags payload (.keyExchange unwrapper) ctx =
      match runKeyExchange unwrapper ctx payload with
      | .ok later => .ok () later
      | .error e => .error e ctx := by
  simp only [perform, bind_get, runKeyExchange]
  by_cases h : ctx.session.encrypted = true
  · rw [if_pos h, if_pos h]
    rfl
  · rw [if_neg h, if_neg h, bind_decode]
    cases (Reader.bytes keyBlobSize).run payload with
    | error e => rfl
    | ok blob =>
      dsimp only
      cases unwrapper blob <;> rfl

/-- **The steps of a handler in one piece**. Nothing but what it notes is changed before the last
of the steps that can fail. -/
theorem handle_eq (h : Handler) (ctx : Context) (flags : PacketFlags) (payload : Bytes) :
    h.handle ctx flags payload =
      match h.run (h.note ctx flags payload) flags payload with
      | .ok later => (.ok (), later)
      | .error e => (.error e, h.note ctx flags payload) := by
  cases h with
  | keyExchange unwrapper =>
    rw [handle, perform_keyExchange]
    simp only [run, note]
    cases runKeyExchange unwrapper ctx payload <;> rfl
  | ping | logout | zeroReply => rfl
  | recorder tag ending => cases ending <;> rfl
  | clientTime =>
    simp only [handle, perform, bind_decode, run, note]
    cases Reader.u64.run payload <;> rfl
  | movement =>
    simp only [handle, perform, bind_decode, run, note]
    cases PackedMovement.ofBytes payload <;> rfl
  | movementEnd =>
    simp only [handle, perform, bind_decode, run, note]
    cases MovementRecord.read.run payload <;> rfl
  | actionUpdate =>
    simp only [handle, perform, bind_decode, run, note]
    cases ActionUpdate.read.run payload <;> rfl
  | movementAction =>
    simp only [handle, perform, bind_decode, run, note]
    cases MovementAction.read.run payload with
    | error e => rfl
    | ok action =>
      simp only [bind_get]
      cases ctx.session.playerHeader <;> rfl

theorem inbox_runKeyExchange {unwrapper : KeyUnwrapper} {ctx ctx' : Context} {payload : Bytes}
    (h : runKeyExchange unwrapper ctx payload = .ok ctx') :
    ctx'.session.inbox = ctx.session.inbox := by
  simp only [runKeyExchange] at h
  repeat' split at h
  all_goals cases h
  simp

/-- A handler takes no bytes out of the receive buffer of the session. -/
theorem inbox_run {h : Handler} {ctx ctx' : Context} {flags : PacketFlags} {payload : Bytes}
    (hrun : h.run ctx flags payload = .ok ctx') : ctx'.session.inbox = ctx.session.inbox := by
  cases h with
  | keyExchange unwrapper => exact inbox_runKeyExchange hrun
  | recorder tag ending => cases ending <;> cases hrun <;> simp
  | _ =>
    simp only [run] at hrun
    repeat' split at hrun
    all_goals cases hrun
    all_goals simp

@[simp] theorem session_note (h : Handler) (ctx : Context) (flags : PacketFlags)
    (payload : Bytes) : (h.note ctx flags payload).session = ctx.session := by
  cases h <;> rfl

@[simp] theorem inbox_handle (h : Handler) (ctx : Context) (flags : PacketFlags)
    (payload : Bytes) : (h.handle ctx flags payload).2.session.inbox = ctx.session.inbox := by
  rw [handle_eq]
  split
  · rename_i ctx' hrun
    simpa using inbox_run hrun
  · simp

end Handler

/-- Which handler is for which opcode. -/
structure HandlerTable where
  /-- The handlers, no two for the same opcode. -/
  entries : List (Opcode × Handler) := []

namespace HandlerTable

/-- The handler for an opcode. -/
def get? (t : HandlerTable) (opcode : Opcode) : Option Handler := t.entries.lookup opcode

/-- Puts a handler in the place of the one for an opcode. -/
def register (t : HandlerTable) (opcode : Opcode) (h : Handler) : HandlerTable :=
  ⟨(opcode, h) :: t.entries.filter (·.1 ≠ opcode)⟩

/-- How many opcodes have a handler. -/
def size (t : HandlerTable) : Nat := t.entries.length

/-- Every handler of the ship. -/
def standard (unwrapper : KeyUnwrapper) : HandlerTable where
  entries := [
    (Opcode.Client.pingResponse, .ping),
    (Opcode.Client.keyExchange, .keyExchange unwrapper),
    (Opcode.Client.clientTime, .clientTime),
    (Opcode.Client.logout, .logout),
    (Opcode.Client.characterCreateOne, .zeroReply Opcode.Server.characterCreateOneResponse 16),
    (Opcode.Client.characterCreateTwo, .zeroReply Opcode.Server.characterCreateTwoResponse 4),
    (Opcode.Client.movement, .movement),
    (Opcode.Client.movementEnd, .movementEnd),
    (Opcode.Client.movementAction, .movementAction),
    (Opcode.Client.actionUpdate, .actionUpdate)]

/-- Hands a frame to its handler. A frame without a handler does nothing, and neither does one
whose handler fails. -/
def dispatch (t : HandlerTable) (ctx : Context) (frame : Frame) : Context :=
  match t.get? frame.opcode with
  | some h => (h.handle ctx frame.flags frame.payload).2
  | none => ctx

@[simp] theorem inbox_dispatch (t : HandlerTable) (ctx : Context) (frame : Frame) :
    (t.dispatch ctx frame).session.inbox = ctx.session.inbox := by
  unfold dispatch
  split <;> simp

end HandlerTable

end GameShip
