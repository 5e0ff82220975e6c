import GameShip.Proofs.Ship.Calm
import GameShip.Proofs.Ship.Chunking

/-!
# What has come in from one client

What has come in from a client, and is in no frame yet, is nothing to anybody else. If it were
something else, each handler would do the same for every other session (`Handler.handle_given`),
and so would all of them (`Context.dispatchAll_given`).

* `Inbound`: what has come in from one client.
* `Session.given`, `SessionTable.given`, `Context.given`: the same with another inbound.
* `Session.Heedless`: what is done to a session whatever has come in from its client.
-/

namespace GameShip

/-- What has come in from a client and is in no frame yet, and the cipher for what comes next. -/
structure Inbound where
  client : ClientId
  inbox : FrameBuffer
  inCipher : Option Rc4

namespace Session

/-- The session with this inbound, if it is that of the client. -/
def given (s : Session) (i : Inbound) : Session :=
  if s.id = i.client then { s with inbox := i.inbox, inCipher := i.inCipher } else s

variable {s : Session} {i : Inbound} {f g : Session → Session}

theorem given_of_ne (h : s.id ≠ i.client) : s.given i = s := if_neg h

theorem given_given {j : Inbound} (hclient : j.client = i.client) (s : Session) :
    (s.given i).given j = s.given j := by
  unfold given
  rw [hclient]
  by_cases hid : s.id = i.client <;> simp [hid]

theorem exists_given (s : Session) (i : Inbound) :
    ∃ inbox inCipher, s.given i = { s with inbox, inCipher } := by
  unfold given
  split <;> exact ⟨_, _, rfl⟩

@[simp] theorem id_given (s : Session) (i : Inbound) : (s.given i).id = s.id := by
  obtain ⟨_, _, h⟩ := s.exists_given i
  rw [h]

@[simp] theorem closed_given (s : Session) (i : Inbound) : (s.given i).closed = s.closed := by
  obtain ⟨_, _, h⟩ := s.exists_given i
  rw [h]

@[simp] theorem map_given (s : Session) (i : Inbound) : (s.given i).map = s.map := by
  obtain ⟨_, _, h⟩ := s.exists_given i
  rw [h]

@[simp] theorem dump_given (s : Session) (i : Inbound) : (s.given i).dump = s.dump := by
  obtain ⟨_, _, h⟩ := s.exists_given i
  rw [h]

/-- What is done to a session has nothing to do with what has come in from its client. -/
structure Heedless (f : Session → Session) : Prop where
  id : ∀ s, (f s).id = s.id
  inbound : ∀ (s : Session) inbox inCipher,
    f { s with inbox, inCipher } = { f s with inbox, inCipher }

namespace Heedless

theorem given (h : Heedless f) (s : Session) (i : Inbound) : f (s.given i) = (f s).given i := by
  unfold Session.given
  by_cases hid : s.id = i.client
  · rw [if_pos hid, if_pos ((h.id s).trans hid), h.inbound]
  · rw [if_neg hid, if_neg (mt (h.id s).symm.trans hid)]

theorem refl : Heedless fun s => s := ⟨fun _ => rfl, fun _ _ _ => rfl⟩

theorem comp (hf : Heedless f) (hg : Heedless g) : Heedless fun s => g (f s) :=
  ⟨fun s => (hg.id _).trans (hf.id s), fun s inbox inCipher => by rw [hf.inbound, hg.inbound]⟩

/-- Only some sessions are changed, and which of them has nothing to do with it either. -/
theorem ite {p : Session → Bool} (hf : Heedless f)
    (hp : ∀ (s : Session) inbox inCipher, p { s with inbox, inCipher } = p s) :
    Heedless fun s => if p s then f s else s := by
  refine ⟨fun s => ?_, fun s inbox inCipher => ?_⟩
  · split
    · exact hf.id s
    · rfl
  · rw [hp]
    split
    · exact hf.inbound ..
    · rfl

theorem send (packet : Bytes) : Heedless (·.send packet) := by
  refine ⟨fun s => (Unmoved.send s packet).id, fun s inbox inCipher => ?_⟩
  have hrecord : ({ s with inbox, inCipher } : Session).recordSent packet =
      { s.recordSent packet with inbox, inCipher } := by
    unfold recordSent
    split <;> rfl
  have hqueue (t : Session) : ({ t with inbox, inCipher } : Session).enqueue packet =
      { t.enqueue packet with inbox, inCipher } := by
    unfold enqueue
    dsimp only
    split <;> rfl
  dsimp only
  rw [Session.send, Session.send, hrecord, hqueue]
  dsimp only
  split <;> rfl

theorem sendFrame (frame : Frame) : Heedless (·.sendFrame frame) := send _

theorem sendPacket (packet : Packet) : Heedless (·.sendPacket packet) := send _

/-- A frame is sent that is addressed to the player. -/
theorem sendAddressed (frame : EntityHeader → Frame) : Heedless fun s =>
    match s.playerHeader with
    | none => s
    | some recipient => s.sendFrame (frame recipient) := by
  refine ⟨fun s => ?_, fun s inbox inCipher => ?_⟩
  · split
    · rfl
    · exact (sendFrame _).id s
  · have hplayer : ({ s with inbox, inCipher } : Session).playerHeader = s.playerHeader := rfl
    rw [hplayer]
    cases s.playerHeader with
    | none => rfl
    | some recipient => exact (sendFrame _).inbound ..

theorem foldl {α : Type} {f : α → Session → Session} (hf : ∀ a, Heedless (f a)) (as : List α) :
    Heedless fun s => as.foldl (fun s a => f a s) s := by
  induction as with
  | nil => exact refl
  | cons a as ih => exact (hf a).comp ih

end Heedless

end Session

namespace SessionTable

variable {t : SessionTable} {s : Session} {i : Inbound} {f : Session → Session}

/-- The sessions, of which that of the client has this inbound. -/
def given (t : SessionTable) (i : Inbound) : SessionTable := t.map fun _ s => s.given i

theorem getElem?_given (t : SessionTable) (i : Inbound) (id : ClientId) :
    (t.given i)[id]? = t[id]?.map (·.given i) := Std.ExtTreeMap.getElem?_map

theorem ids_given (t : SessionTable) (i : Inbound) : (t.given i).ids = t.ids :=
  Std.ExtTreeMap.keys_map

theorem put_given (t : SessionTable) (s : Session) (i : Inbound) :
    (t.given i).put (s.given i) = (t.put s).given i := by
  refine Std.ExtTreeMap.ext_getElem? fun id => ?_
  rw [getElem?_put, getElem?_given, getElem?_given, getElem?_put, s.id_given]
  split <;> rfl

theorem erase_given (t : SessionTable) (id : ClientId) (i : Inbound) :
    (t.given i).erase id = given (t.erase id) i := by
  refine Std.ExtTreeMap.ext_getElem? fun other => ?_
  rw [Std.ExtTreeMap.getElem?_erase, getElem?_given, getElem?_given, Std.ExtTreeMap.getElem?_erase]
  split <;> rfl

theorem Keyed.given (h : t.Keyed) (i : Inbound) : (t.given i).Keyed := fun id s hs => by
  rw [getElem?_given] at hs
  obtain ⟨own, hown, rfl⟩ := Option.map_eq_some_iff.mp hs
  exact (own.id_given i).trans (h id own hown)

theorem map_given (hf : Session.Heedless f) (t : SessionTable) (i : Inbound) :
    (t.given i).map (fun _ s => f s) = given (t.map fun _ s => f s) i := by
  refine Std.ExtTreeMap.ext_getElem? fun id => ?_
  rw [Std.ExtTreeMap.getElem?_map, getElem?_given, getElem?_given, Std.ExtTreeMap.getElem?_map,
    Option.map_map, Option.map_map]
  congr 1
  funext s
  exact hf.given s i

theorem broadcast_given (hf : Session.Heedless f) (t : SessionTable) (map : MapRef)
    (except : ClientId) (i : Inbound) :
    (t.given i).broadcast map except f = (t.broadcast map except f).given i :=
  map_given (hf.ite fun _ _ _ => rfl) t i

end SessionTable

namespace Context

variable {ctx : Context} {i : Inbound} {f : Session → Session}

/-- What a handler sees if one of the other sessions has this inbound. -/
def given (ctx : Context) (i : Inbound) : Context := { ctx with others := ctx.others.given i }

theorem broadcast_given (hf : Session.Heedless f) (ctx : Context) (i : Inbound) :
    (ctx.given i).broadcast f = (ctx.broadcast f).given i := by
  have hsession : (ctx.given i).session = ctx.session := rfl
  unfold broadcast
  rw [hsession]
  cases ctx.session.map with
  | none => rfl
  | some ref =>
    dsimp only [given]
    rw [SessionTable.broadcast_given hf]

end Context

namespace Handler

variable {flags : PacketFlags} {payload : Bytes}

theorem run_given (h : Handler) (ctx : Context) (i : Inbound) :
    h.run (ctx.given i) flags payload = (h.run ctx flags payload).map (·.given i) := by
  cases h with
  | keyExchange u =>
    have hsession : (ctx.given i).session = ctx.session := rfl
    simp only [run, runKeyExchange, hsession]
    repeat' split
    all_goals rfl
  | recorder tag ending => cases ending <;> rfl
  | ping | logout | zeroReply => rfl
  | clientTime =>
    simp only [run]
    cases Reader.u64.run payload <;> rfl
  | movement =>
    simp only [run]
    cases PackedMovement.ofBytes payload with
    | error e => rfl
    | ok decoded =>
      let moved : Context := { ctx with session := ctx.session.applyMovement decoded.1 }
      exact congrArg Except.ok (Context.broadcast_given (.sendFrame _) moved i)
  | movementEnd =>
    simp only [run]
    cases MovementRecord.read.run payload with
    | error e => rfl
    | ok d => exact congrArg Except.ok (Context.broadcast_given (.sendFrame _) ctx i)
  | movementAction =>
    have hsession : (ctx.given i).session = ctx.session := rfl
    simp only [run, hsession]
    cases MovementAction.read.run payload with
    | error e => rfl
    | ok action =>
      dsimp only
      cases ctx.session.playerHeader with
      | none => rfl
      | some sender => exact congrArg Except.ok (Context.broadcast_given (.sendFrame _) ctx i)
  | actionUpdate =>
    simp only [run]
    cases ActionUpdate.read.run payload with
    | error e => rfl
    | ok update =>
      exact congrArg Except.ok (Context.broadcast_given (.sendAddressed fun recipient =>
        { opcode := Opcode.Server.actionUpdate
          flags := .objectRelated
          payload := update.toBytes recipient }) ctx i)

theorem handle_given (h : Handler) (ctx : Context) (i : Inbound) :
    h.handle (ctx.given i) flags payload =
      ((h.handle ctx flags payload).1, (h.handle ctx flags payload).2.given i) := by
  have hnote : h.note (ctx.given i) flags payload = (h.note ctx flags payload).given i := by
    cases h <;> rfl
  rw [handle_eq, handle_eq, hnote, run_given]
  cases h.run (h.note ctx flags payload) flags payload <;> rfl

end Handler

theorem HandlerTable.dispatch_given (t : HandlerTable) (ctx : Context) (frame : Frame)
    (i : Inbound) :
    t.dispatch (ctx.given i) frame = (t.dispatch ctx frame).given i := by
  unfold dispatch
  cases t.get? frame.opcode with
  | none => rfl
  | some h => exact congrArg Prod.snd (h.handle_given ctx i)

/-- The frames of a session are handled in the same way. -/
theorem Context.dispatchAll_given (handlers : HandlerTable) (ctx : Context) (i : Inbound) :
    (ctx.given i).dispatchAll handlers =
      ((ctx.dispatchAll handlers).1, (ctx.dispatchAll handlers).2.given i) := by
  fun_induction dispatchAll handlers ctx with
  | case1 ctx hnone => exact dispatchAll_of_none hnone
  | case2 ctx frame session hsome frames later hlater ih =>
    have hnext : (ctx.given i).session.nextFrame? = some (frame, session) := hsome
    rw [dispatchAll_of_some hnext]
    have hdispatch := handlers.dispatch_given { ctx with session } frame i
    rw [hlater, ← hdispatch] at ih
    exact congrArg (fun done => (frame :: done.1, done.2)) ih

end GameShip
