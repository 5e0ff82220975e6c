import GameShip.Proofs.Session.Use
import GameShip.Proofs.Ship.Relay

/-!
# What handlers do with lines

A handler uses the line of its own session, and may have a frame for the sessions that hear of it.
Nothing else becomes of any line when frames are handled (`Ship.logs_handled`).

* `Handler.own`, `Handler.told`: what a handler does with its own line, and what it has for others.
* `Context.uses`: what handling frames does with the line of a client.
* `Ship.Logs`: a log of uses says what becomes of the line of a client.
-/

namespace GameShip

open Session (Use)

/-- Frames are sent one after the other. -/
def Session.Use.sends (frames : List Frame) : List Use := frames.map (.send ·.toBytes)

/-- What is done with the line of one client is nothing to the line of another. -/
def Session.Use.only (id client : ClientId) (uses : List Use) : List Use :=
  if id = client then uses else []

theorem Session.heardFrom_none (sender : Session) :
    (fun s : Session => s.offered (sender.heardFrom fun _ => none)) = fun s => s := by
  funext s
  unfold offered heardFrom
  cases sender.map with
  | none => rfl
  | some map =>
    dsimp only
    split
    · rename_i h
      split at h <;> cases h
    · rfl

theorem Context.getElem?_broadcast (ctx : Context) (g : Session → Option Frame) (id : ClientId) :
    (ctx.broadcast (·.offered g)).others[id]? =
      ctx.others[id]?.map (·.offered (ctx.session.heardFrom g)) := by
  rw [others_broadcast ctx g (.refl _)]
  exact (SessionTable.deliver_of_perm (.refl _) id).2

namespace Handler

/-- What a handler does with the line of the session from which the frame came. -/
def own (ctx : Context) (payload : Bytes) : Handler → List Use
  | .keyExchange unwrapper =>
    if ctx.session.encrypted then []
    else
      match ((Reader.bytes keyBlobSize).run payload).toOption.bind unwrapper with
      | none => []
      | some material => .agree material.key.toBytes :: Use.sends
          [{ opcode := Opcode.Server.keyExchangeResponse, payload := material.token.toBytes }]
  | .clientTime =>
    match Reader.u64.run payload with
    | .error _ => []
    | .ok time => Use.sends
        [{ opcode := Opcode.Server.serverTime, payload := Wire.u64 time ++ Wire.u64 ctx.clock }]
  | .zeroReply opcode size => Use.sends [{ opcode, payload := Bytes.zeros size }]
  | .logout | .recorder _ .closeSession => [.close]
  | _ => []

/-- What a handler has for the sessions that hear of the one from which the frame came. -/
def told (ctx : Context) (flags : PacketFlags) (payload : Bytes) :
    Handler → Session → Option Frame
  | .movement => fun _ => (PackedMovement.ofBytes payload).toOption.map fun _ =>
      { opcode := Opcode.Server.movement, flags, payload }
  | .movementEnd => fun _ => (MovementRecord.read.run payload).toOption.map fun d =>
      { opcode := Opcode.Server.movementEnd
        flags := .objectRelated
        payload := d.normalized.toBytes }
  | .movementAction => fun _ => (MovementAction.read.run payload).toOption.bind fun action =>
      ctx.session.playerHeader.map fun sender =>
        { opcode := Opcode.Server.movementAction
          flags := .union .packed .objectRelated
          payload := action.toBytes sender }
  | .actionUpdate => fun s => (ActionUpdate.read.run payload).toOption.bind fun update =>
      s.playerHeader.map fun recipient =>
        { opcode := Opcode.Server.actionUpdate
          flags := .objectRelated
          payload := update.toBytes recipient }
  | _ => fun _ => none

variable (ctx : Context) (flags : PacketFlags) (payload : Bytes)

theorem becomes_own_keyExchange (u : KeyUnwrapper) :
    ctx.session.Becomes (own ctx payload (.keyExchange u))
      (handle (.keyExchange u) ctx flags payload).2.session := by
  rw [handle_keyExchange]
  unfold runKeyExchange own
  cases hencrypted : ctx.session.encrypted with
  | true => exact .refl rfl
  | false =>
    simp only [Bool.false_eq_true, if_false]
    cases (Reader.bytes keyBlobSize).run payload with
    | error e => exact .refl rfl
    | ok blob =>
      dsimp only [Except.toOption, Option.bind_some]
      cases u blob with
      | none => exact .refl rfl
      | some material =>
        refine ⟨rfl, fun _ _ => hencrypted, Session.fits_of_notMem fun key hmem => ?_⟩
        cases List.mem_singleton.mp hmem

/-- What a handler does is what it does with its own line, and the frames that it has for others. -/
structure Logs (h : Handler) (ctx : Context) (flags : PacketFlags) (payload : Bytes)
    (later : Context) : Prop where
  own : ctx.session.Becomes (h.own ctx payload) later.session
  others : ∀ id : ClientId, later.others[id]? =
    ctx.others[id]?.map (·.offered (ctx.session.heardFrom (h.told ctx flags payload)))

variable {ctx flags payload} {h : Handler} {later : Context}

theorem Logs.of_silent (hsilent : h.told ctx flags payload = fun _ => none)
    (hown : ctx.session.Becomes (h.own ctx payload) later.session)
    (hothers : later.others = ctx.others) : h.Logs ctx flags payload later where
  own := hown
  others id := by
    rw [hsilent, hothers, Session.heardFrom_none]
    exact Option.map_id'.symm

theorem Logs.of_broadcast {session : Session} {f : Session → Session}
    (hown : h.own ctx payload = []) (hf : ∀ s, f s = s.offered (h.told ctx flags payload))
    (hline : session.line = ctx.session.line) (hid : session.id = ctx.session.id)
    (hmap : session.map = ctx.session.map) :
    h.Logs ctx flags payload ({ ctx with session }.broadcast f) where
  own := by
    rw [hown, Context.session_broadcast]
    exact .refl hline.symm
  others id := by
    obtain rfl : f = (·.offered (h.told ctx flags payload)) := funext hf
    have hheard : session.heardFrom (h.told ctx flags payload) =
        ctx.session.heardFrom (h.told ctx flags payload) := by
      funext s
      rw [Session.heardFrom, Session.heardFrom, hid, hmap]
    exact hheard ▸ Context.getElem?_broadcast { ctx with session } _ id

variable (h ctx flags payload)

theorem logs_handle : h.Logs ctx flags payload (h.handle ctx flags payload).2 := by
  cases h with
  | keyExchange u =>
    refine .of_silent rfl (becomes_own_keyExchange ctx flags payload u) ?_
    rw [handle_keyExchange]
    cases hrun : runKeyExchange u ctx payload with
    | error e => rfl
    | ok later =>
      unfold runKeyExchange at hrun
      repeat' split at hrun
      all_goals cases hrun
      rfl
  | ping => exact .of_silent rfl (.refl rfl) rfl
  | logout => exact .of_silent rfl (.one rfl fun _ => nofun) rfl
  | zeroReply opcode size => exact .of_silent rfl (.sendAll ctx.session [_]) rfl
  | recorder tag ending =>
    cases ending with
    | closeSession => exact .of_silent rfl (.one rfl fun _ => nofun) rfl
    | _ => exact .of_silent rfl (.refl rfl) rfl
  | clientTime =>
    rw [handle_eq]
    simp only [run, note]
    cases hread : Reader.u64.run payload with
    | error e => exact .of_silent rfl (by rw [own, hread]; exact .refl rfl) rfl
    | ok time => exact .of_silent rfl (by rw [own, hread]; exact .sendAll ctx.session [_]) rfl
  | movement =>
    rw [handle_eq]
    simp only [run, note]
    cases hread : PackedMovement.ofBytes payload with
    | error e => exact .of_silent (by rw [told, hread]; rfl) (.refl rfl) rfl
    | ok decoded =>
      refine .of_broadcast rfl (fun s => ?_) rfl rfl rfl
      rw [told, hread]
      rfl
  | movementEnd =>
    rw [handle_eq]
    simp only [run, note]
    cases hread : MovementRecord.read.run payload with
    | error e => exact .of_silent (by rw [told, hread]; rfl) (.refl rfl) rfl
    | ok d =>
      refine .of_broadcast rfl (fun s => ?_) rfl rfl rfl
      rw [told, hread]
      rfl
  | movementAction =>
    rw [handle_eq]
    simp only [run, note]
    cases hread : MovementAction.read.run payload with
    | error e => exact .of_silent (by rw [told, hread]; rfl) (.refl rfl) rfl
    | ok action =>
      dsimp only
      cases hsender : ctx.session.playerHeader with
      | none => exact .of_silent (by rw [told, hread, hsender]; rfl) (.refl rfl) rfl
      | some sender =>
        refine .of_broadcast rfl (fun s => ?_) rfl rfl rfl
        rw [told, hread, hsender]
        rfl
  | actionUpdate =>
    rw [handle_eq]
    simp only [run, note]
    cases hread : ActionUpdate.read.run payload with
    | error e => exact .of_silent (by rw [told, hread]; rfl) (.refl rfl) rfl
    | ok update =>
      refine .of_broadcast rfl (fun s => ?_) rfl rfl rfl
      rw [told, hread, Session.offered]
      cases s.playerHeader <;> rfl

end Handler

theorem Session.becomes_offered (s : Session) (g : Session → Option Frame) :
    s.Becomes (Use.sends (g s).toList) (s.offered g) := by
  unfold offered
  cases g s with
  | none => exact .refl rfl
  | some frame => exact .sendAll s [frame]

/-- What handing a frame to its handler does with the line of a client. -/
def HandlerTable.uses (t : HandlerTable) (client : ClientId) (ctx : Context) (frame : Frame) :
    List Use :=
  match t.get? frame.opcode with
  | none => []
  | some h =>
    if ctx.session.id = client then h.own ctx frame.payload
    else
      match ctx.others[client]? with
      | none => []
      | some s =>
        Use.sends (ctx.session.heardFrom (h.told ctx frame.flags frame.payload) s).toList

/-- What handling frames one after the other does with the line of a client. -/
def Context.uses (handlers : HandlerTable) (client : ClientId) : Context → List Frame → List Use
  | _, [] => []
  | ctx, frame :: frames =>
    let taken := { ctx with session := ctx.session.use .take }
    Use.only ctx.session.id client [.take] ++ handlers.uses client taken frame ++
      (handlers.dispatch taken frame).uses handlers client frames

namespace Ship

/-- What becomes of the line of a client is what a log of uses says. -/
def Logs (ship : Ship) (client : ClientId) (uses : List Use) (later : Ship) : Prop :=
  Option.Rel (·.Becomes uses ·) ship.sessions[client]? later.sessions[client]?

variable {ship later last : Ship} {client : ClientId} {uses more : List Use}

namespace Logs

theorem of_same (h : later.sessions[client]? = ship.sessions[client]?) :
    ship.Logs client [] later := by
  unfold Logs
  rw [h]
  cases ship.sessions[client]? with
  | none => exact .none
  | some s => exact .some (.refl rfl)

theorem of_some {s t : Session} (hs : ship.sessions[client]? = some s)
    (ht : later.sessions[client]? = some t) (h : s.Becomes uses t) :
    ship.Logs client uses later := by
  unfold Logs
  rw [hs, ht]
  exact .some h

theorem of_none (hs : ship.sessions[client]? = none) (ht : later.sessions[client]? = none) :
    ship.Logs client uses later := by
  unfold Logs
  rw [hs, ht]
  exact .none

theorem trans (h : ship.Logs client uses later) (h' : later.Logs client more last) :
    ship.Logs client (uses ++ more) last := by
  unfold Logs at *
  generalize ship.sessions[client]? = o, later.sessions[client]? = o',
    last.sessions[client]? = o'' at h h'
  cases h with
  | none =>
    cases h'
    exact .none
  | some h =>
    cases h' with | some h' => exact .some (h.trans h')

theorem exists_becomes {s : Session} (h : ship.Logs client uses later)
    (hs : ship.sessions[client]? = some s) :
    ∃ t, later.sessions[client]? = some t ∧ s.Becomes uses t := by
  unfold Logs at h
  rw [hs] at h
  generalize later.sessions[client]? = o at h
  cases h with | some h => exact ⟨_, rfl, h⟩

end Logs

variable {ctx ctx' : Context} {handlers : HandlerTable} {frames : List Frame}

theorem logs_session (ship : Ship) {session : Session} (hid : session.id = ctx.session.id)
    (h : ctx.session.Becomes uses session) :
    (ship.putBack ctx).Logs client (Use.only ctx.session.id client uses)
      (ship.putBack { ctx with session }) := by
  unfold Use.only
  by_cases hclient : ctx.session.id = client
  · rw [if_pos hclient]
    subst hclient
    exact .of_some (getElem?_putBack ..) (hid ▸ getElem?_putBack ship { ctx with session }) h
  · rw [if_neg hclient]
    refine .of_same ?_
    unfold putBack
    dsimp only
    rw [SessionTable.getElem?_put, SessionTable.getElem?_put, hid, if_neg hclient, if_neg hclient]

theorem logs_dispatch (ship : Ship) (ctx : Context) (t : HandlerTable) (frame : Frame) :
    (ship.putBack ctx).Logs client (t.uses client ctx frame)
      (ship.putBack (t.dispatch ctx frame)) := by
  have hid := id_dispatch t ctx frame
  unfold HandlerTable.uses
  unfold HandlerTable.dispatch at hid ⊢
  cases hget : t.get? frame.opcode with
  | none => exact .of_same rfl
  | some h =>
    rw [hget] at hid
    dsimp only at hid ⊢
    have hlogs := h.logs_handle ctx frame.flags frame.payload
    by_cases hclient : ctx.session.id = client
    · rw [if_pos hclient]
      subst hclient
      exact .of_some (getElem?_putBack ..) (hid ▸ getElem?_putBack ..) hlogs.own
    · have hothers := hlogs.others client
      rw [if_neg hclient]
      unfold Logs putBack
      dsimp only
      rw [SessionTable.getElem?_put, SessionTable.getElem?_put, hid, if_neg hclient,
        if_neg hclient, hothers]
      cases ctx.others[client]? with
      | none => exact .none
      | some s => exact .some (s.becomes_offered _)

/-- Frames that are handled one after the other. -/
theorem logs_handled (ship : Ship) (h : ctx.Handled handlers frames ctx') :
    (ship.putBack ctx).Logs client (ctx.uses handlers client frames) (ship.putBack ctx') := by
  induction h with
  | nil ctx => exact .of_same rfl
  | @cons ctx later frame session frames hnext _ ih =>
    obtain ⟨-, -, hid, -⟩ := Session.of_nextFrame? hnext
    obtain rfl : ctx.session.use .take = session := by
      rw [Session.use, hnext]
      rfl
    have htaken : (ship.putBack ctx).Logs client _ _ := logs_session ship hid (.take ctx.session)
    exact (htaken.trans (logs_dispatch ship _ handlers frame)).trans ih

end Ship

end GameShip
