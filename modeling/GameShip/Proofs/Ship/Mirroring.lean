import GameShip.Proofs.Ship.Inbound
import GameShip.Proofs.Ship.Step
import GameShip.Proofs.World.Departure

/-!
# What one client has sent and nobody has read

Nothing that happens to a ship depends on what has come in from a client and is in no frame yet,
until more comes in from that client: a call comes to the same (`Ship.step_given`), and for the
other clients the same frames are handled (`Ship.handed_given`).

* `Ship.given`: the same ship with another inbound of one client.
* `Ship.Mirrors`: operations that do the same on both.
-/

namespace GameShip

namespace Ship

variable {α β : Type} {i : Inbound} {ship : Ship} {id : ClientId} {s : Session}
  {f : Session → Session}

/-- The ship, of which the session of the client has this inbound. -/
def given (ship : Ship) (i : Inbound) : Ship := { ship with sessions := ship.sessions.given i }

theorem getElem?_given (ship : Ship) (i : Inbound) (id : ClientId) :
    (ship.given i).sessions[id]? = ship.sessions[id]?.map (·.given i) :=
  SessionTable.getElem?_given ..

theorem given_given {j : Inbound} (hclient : j.client = i.client) (ship : Ship) :
    (ship.given i).given j = ship.given j := by
  unfold given SessionTable.given
  dsimp only
  simp only [Std.ExtTreeMap.map_map, Session.given_given hclient]

theorem given_eq_self
    (h : ∀ (id : ClientId) (s : Session), ship.sessions[id]? = some s → s.given i = s) :
    ship.given i = ship := by
  have hsessions : ship.sessions.given i = ship.sessions :=
    Std.ExtTreeMap.ext_getElem? fun id => by
      rw [SessionTable.getElem?_given]
      cases hs : ship.sessions[id]? with
      | none => rfl
      | some s => rw [Option.map_some, h id s hs]
  rw [given, hsessions]

theorem given_of_none (H : ship.sessions.Keyed) (hnone : ship.sessions[i.client]? = none) :
    ship.given i = ship := by
  refine given_eq_self fun id s hs => Session.given_of_ne fun hid => ?_
  rw [← hid, H id s hs, hs] at hnone
  cases hnone

/-- The session of the client has this inbound already. -/
theorem given_of_some {client : ClientId} (H : ship.sessions.Keyed)
    (hs : ship.sessions[client]? = some s) : ship.given ⟨client, s.inbox, s.inCipher⟩ = ship := by
  refine given_eq_self fun id t ht => ?_
  by_cases hid : t.id = client
  · have hclient : id = client := (H id t ht).symm.trans hid
    subst hclient
    cases hs.symm.trans ht
    exact if_pos hid
  · exact Session.given_of_ne hid

theorem getElem?_adjust (H : ship.sessions.Keyed) (hf : ∀ s, (f s).id = s.id)
    (id other : ClientId) : (ship.adjust id f).sessions[other]? =
      ship.sessions[other]?.map fun s => if s.id = id then f s else s := by
  have hrest (hne : id ≠ other) : ship.sessions[other]? =
      ship.sessions[other]?.map fun s => if s.id = id then f s else s := by
    cases ht : ship.sessions[other]? with
    | none => rfl
    | some t => rw [Option.map_some, if_neg (H other t ht ▸ hne.symm)]
  by_cases hother : id = other
  · subst hother
    unfold adjust
    cases hs : ship.sessions[id]? with
    | none => exact hs
    | some s =>
      have hid := H id s hs
      rw [Option.map_some, if_pos hid]
      exact getElem?_put _ ((hf s).trans hid)
  · rw [← hrest hother]
    unfold adjust
    cases hs : ship.sessions[id]? with
    | none => rfl
    | some s =>
      have hid : (f s).id = id := (hf s).trans (H id s hs)
      exact (SessionTable.getElem?_put _ _ _).trans (if_neg (hid ▸ hother))

/-- Only the session of the client is another. -/
theorem given_eq_adjust (H : ship.sessions.Keyed) (i : Inbound) :
    ship.given i =
      ship.adjust i.client fun s => { s with inbox := i.inbox, inCipher := i.inCipher } := by
  have hrest (f : Session → Session) :
      ship.adjust i.client f = { ship with sessions := (ship.adjust i.client f).sessions } := by
    unfold adjust
    cases ship.sessions[i.client]? <;> rfl
  rw [hrest, given]
  congr 1
  refine Std.ExtTreeMap.ext_getElem? fun id => ?_
  have hadjust := getElem?_adjust H (f := ({ · with inbox := i.inbox, inCipher := i.inCipher }))
    (fun _ => rfl) i.client id
  exact (SessionTable.getElem?_given ..).trans hadjust.symm

theorem live?_given (ship : Ship) (i : Inbound) (id : ClientId) :
    (ship.given i).live? id = (ship.live? id).map (·.given i) := by
  unfold live?
  rw [getElem?_given]
  cases ship.sessions[id]? with
  | none => rfl
  | some s =>
    rw [Option.map_some, Option.filter_some, Option.filter_some, s.closed_given]
    cases s.closed <;> rfl

theorem putSession_given (ship : Ship) (s : Session) (i : Inbound) :
    (ship.given i).putSession (s.given i) = (ship.putSession s).given i := by
  unfold putSession given
  dsimp only
  rw [SessionTable.put_given]

theorem flushDumps_given (ship : Ship) (i : Inbound) :
    (ship.given i).flushDumps = ship.flushDumps.given i := by
  have hone (ship : Ship) (id : ClientId) :
      (ship.given i).flushDump id = (ship.flushDump id).given i := by
    unfold flushDump
    rw [getElem?_given]
    cases ship.sessions[id]? with
    | none => rfl
    | some s =>
      dsimp only [Option.map_some]
      rw [s.dump_given]
      cases s.dump with
      | none => rfl
      | some dump =>
        have hwritten : Session.Heedless ({ · with dump := some (dump.flush ship.disk).1 }) :=
          ⟨fun _ => rfl, fun _ _ _ => rfl⟩
        have hput := ship.putSession_given { s with dump := some (dump.flush ship.disk).1 } i
        rw [← hwritten.given] at hput
        exact congrArg (fun later : Ship => { later with disk := (dump.flush ship.disk).2 }) hput
  unfold flushDumps
  rw [given, SessionTable.ids_given]
  exact List.foldl_hom (·.given i) fun ship id => hone ship id

theorem adjust_given (hf : Session.Heedless f) (ship : Ship) (id : ClientId) (i : Inbound) :
    (ship.given i).adjust id f = (ship.adjust id f).given i := by
  unfold adjust
  rw [getElem?_given]
  cases ship.sessions[id]? with
  | none => rfl
  | some s =>
    dsimp only [Option.map_some]
    rw [hf.given, putSession_given]

/-! ## Operations -/

/-- One operation does on a ship with this inbound what another does on the ship without. -/
def Mirrors (i : Inbound) (x y : Operation α) : Prop :=
  ∀ ship : Ship, y (ship.given i) = match x ship with
    | .ok a later => .ok a (later.given i)
    | .error e later => .error e (later.given i)

namespace Mirrors

theorem pure (a : α) : Mirrors i (pure a : Operation α) (Pure.pure a) := fun _ => rfl

theorem throw (e : WorldError) : Mirrors i (throw e : Operation α) (MonadExcept.throw e) :=
  fun _ => rfl

theorem bind {x y : Operation α} {k l : α → Operation β} (h : Mirrors i x y)
    (hk : ∀ a, Mirrors i (k a) (l a)) : Mirrors i (x >>= k) (y >>= l) := fun ship => by
  have hx := h ship
  cases hrun : x ship with
  | ok a later =>
    rw [hrun] at hx
    rw [bind_of_ok hx, bind_of_ok hrun]
    exact hk a later
  | error e later =>
    rw [hrun] at hx
    rw [bind_of_error hx, bind_of_error hrun]

theorem after {x y : Operation α} (h : Mirrors i x y) (ship : Ship) :
    (ship.given i).after y = (ship.after x).given i := by
  unfold Ship.after
  rw [h ship]
  cases x ship <;> rfl

theorem modify {F G : Ship → Ship} (h : ∀ ship : Ship, G (ship.given i) = (F ship).given i) :
    Mirrors i (modify F : Operation Unit) (modify G) := fun ship =>
  congrArg (EStateM.Result.ok ()) (h ship)

theorem live {k l : Session → Operation α} (h : ∀ s, Mirrors i (k s) (l (s.given i))) :
    Mirrors i (liveSession id >>= k) (liveSession id >>= l) := fun ship => by
  rw [bind_liveSession, bind_liveSession, live?_given]
  cases ship.live? id with
  | none => rfl
  | some s => exact h s ship

theorem store (hf : Session.Heedless f) (s : Session) :
    Mirrors i (store (f s)) (store (f (s.given i))) := by
  rw [hf.given]
  exact modify fun ship => ship.putSession_given (f s) i

theorem currentDisk : Mirrors i currentDisk currentDisk := fun ship => by
  have hrun (ship : Ship) : Ship.currentDisk ship = .ok ship.flushDumps.disk ship.flushDumps := rfl
  rw [hrun, hrun, flushDumps_given]
  rfl

theorem fromDisk (access : Disk → Except FileError α) :
    Mirrors i (fromDisk access) (fromDisk access) := by
  refine currentDisk.bind fun disk => ?_
  split
  · exact pure _
  · exact throw _

theorem onObjects (act : ObjectRegistry → Disk → α × ObjectRegistry) :
    Mirrors i (onObjects act) (onObjects act) := fun ship => by
  rw [onObjects_eq, onObjects_eq, flushDumps_given]
  rfl

theorem fromZones (access : ZoneRegistry → Except WorldError α) :
    Mirrors i (fromZones access) (fromZones access) := fun ship => by
  have hworld : (ship.given i).world = ship.world := rfl
  rw [fromZones_eq, fromZones_eq, hworld]
  cases access ship.world.zones <;> rfl

end Mirrors

theorem mirrors_sendTo (id : ClientId) (frame : Frame) :
    Mirrors i (sendTo id frame) (sendTo id frame) := .live fun s => .store (.sendFrame frame) s

theorem mirrors_sendRaw (id : ClientId) (packet : Bytes) :
    Mirrors i (sendRaw id packet) (sendRaw id packet) := .live fun s => .store (.send packet) s

theorem mirrors_sendFile (id : ClientId) (path : String) :
    Mirrors i (sendFile id path) (sendFile id path) := by
  refine (Mirrors.fromDisk _).bind fun capture => ?_
  split
  · exact (Mirrors.throw _).bind fun _ => mirrors_sendRaw id _
  · exact (Mirrors.pure _).bind fun _ => mirrors_sendRaw id _

theorem mirrors_sendFiles (id : ClientId) (paths : List String) :
    Mirrors i (sendFiles id paths) (sendFiles id paths) := by
  induction paths with
  | nil => exact .pure _
  | cons path paths ih => exact (mirrors_sendFile id path).bind fun _ => ih

theorem mirrors_sendDirectory (id : ClientId) (path : String) :
    Mirrors i (sendDirectory id path) (sendDirectory id path) :=
  .live fun _ => (Mirrors.fromDisk _).bind fun paths => (mirrors_sendFiles id paths).bind fun _ =>
    .pure _

theorem mirrors_teleport (id : ClientId) (destination : Location) :
    Mirrors i (teleport id destination) (teleport id destination) := by
  refine (Mirrors.onObjects _).bind fun teleporter => .live fun s => ?_
  have hplaced : Session.Heedless ({ · with location := destination }) :=
    ⟨fun _ => rfl, fun _ _ _ => rfl⟩
  exact .store (hplaced.comp (.sendPacket _)) s

theorem mirrors_spawnClone (id : ClientId) (name : String) (position : Position) (draw : UInt32) :
    Mirrors i (spawnClone id name position draw) (spawnClone id name position draw) :=
  .live fun s => (Mirrors.store (.sendPacket _) s).bind fun _ => .pure _

theorem mirrors_moveToMap (id : ClientId) (ref : MapRef) :
    Mirrors i (moveToMap id ref) (moveToMap id ref) := by
  refine .live fun s => (Mirrors.fromZones _).bind fun map => ?_
  rw [s.map_given]
  refine (Mirrors.modify fun _ => rfl).bind fun _ => (Mirrors.fromZones _).bind fun entered => ?_
  refine (Mirrors.modify fun _ => rfl).bind fun _ => (Mirrors.onObjects _).bind fun objects => ?_
  refine .live fun s => (Mirrors.store (f := fun s => arrive s ref entered.1 objects) ?_ s).bind
    fun _ => .pure _
  have hplaced : Session.Heedless ({ · with map := some ref, location := entered.1 }) :=
    ⟨fun _ => rfl, fun _ _ _ => rfl⟩
  exact (hplaced.comp (.foldl (fun _ => .sendPacket _) objects)).comp (.sendPacket _)

theorem mirrors_changeMap (id : ClientId) (request : MapRequest) :
    Mirrors i (changeMap id request) (changeMap id request) :=
  (Mirrors.modify fun _ => rfl).bind fun _ => mirrors_moveToMap id _

theorem present_given (ship : Ship) (id : ClientId) (s : Session) (object : WorldObject)
    (i : Inbound) :
    (ship.given i).present id (s.given i) object = (ship.present id s object).given i := by
  have hsend := Session.Heedless.sendPacket (.objectSpawn object)
  have hput : (ship.given i).putSession ((s.given i).sendPacket (.objectSpawn object)) =
      (ship.putSession (s.sendPacket (.objectSpawn object))).given i := by
    rw [hsend.given, putSession_given]
  unfold present
  dsimp only
  rw [s.map_given, hput]
  cases s.map with
  | none => rfl
  | some ref =>
    dsimp only [given]
    rw [SessionTable.broadcast_given hsend]

theorem mirrors_spawnObject (id : ClientId) (name : String) (location : Location) (draw : UInt64) :
    Mirrors i (spawnObject id name location draw) (spawnObject id name location draw) := by
  intro ship
  have hzone (s : Session) : (ship.given i).zoneOf (s.given i) = ship.zoneOf s := by
    unfold zoneOf
    rw [s.map_given]
    rfl
  have hunused : (ship.given i).world.objects.unusedId draw =
      ship.world.objects.unusedId draw := rfl
  rw [spawnObject_eq, spawnObject_eq, live?_given]
  cases ship.live? id with
  | none => rfl
  | some s =>
    dsimp only [Option.map_some]
    rw [hzone]
    cases ship.zoneOf s with
    | error e => rfl
    | ok zone =>
      dsimp only
      rw [hunused, present_given, flushDumps_given]
      rfl

theorem mirrors_kick (id : ClientId) : Mirrors i (kick id) (kick id) := fun ship => by
  rw [kick_eq, kick_eq, getElem?_given]
  cases ship.sessions[id]? with
  | none => rfl
  | some s =>
    have hgone : Session.Heedless fun s => ({ s with map := none } : Session).close :=
      ⟨fun _ => rfl, fun _ _ _ => rfl⟩
    have hput := ship.putSession_given ({ s with map := none } : Session).close i
    rw [← hgone.given] at hput
    dsimp only [Option.map_some]
    have hworld := ship.world.detach_congr (s.id_given i) (s.map_given i)
    exact congrArg (EStateM.Result.ok ()) (congrArg₂ (fun (later : Ship) world =>
      { later with world }) hput hworld)

/-! ## Calls -/

theorem diskWith_given (ship : Ship) (i : Inbound) (id : ClientId) :
    (ship.given i).diskWith id = ship.diskWith id := by
  unfold diskWith
  rw [getElem?_given]
  cases ship.sessions[id]? with
  | none => rfl
  | some s =>
    dsimp only [Option.map_some]
    rw [Session.written, Session.written, s.dump_given]
    rfl

theorem connect_given (hne : id ≠ i.client) (ship : Ship) (address : SocketAddress) :
    (ship.given i).connect id address = (ship.connect id address).given i := by
  have hput (s : Session) (hs : s.id = id) : (ship.sessions.given i).put (s.sendPacket .welcome) =
      (ship.sessions.put (s.sendPacket .welcome)).given i := by
    have hid : (s.sendPacket .welcome).id = id := ((Session.Heedless.sendPacket _).id s).trans hs
    rw [← SessionTable.put_given, Session.given_of_ne (hid ▸ hne)]
  have hdump : (ship.given i).newDump id = ship.newDump id := by
    rw [newDump, diskWith_given]
    rfl
  unfold connect
  rw [hdump, diskWith_given]
  dsimp only [given]
  cases ship.newDump id with
  | none => rw [hput _ rfl]
  | some made => rw [hput _ rfl]

theorem disconnect_given (ship : Ship) (id : ClientId) (i : Inbound) :
    (ship.given i).disconnect id = (ship.disconnect id).given i := by
  unfold disconnect
  rw [getElem?_given]
  cases ship.sessions[id]? with
  | none => rfl
  | some s =>
    dsimp only [Option.map_some, given]
    rw [SessionTable.erase_given, ship.world.detach_congr (s.id_given i) (s.map_given i),
      Session.written, Session.written, s.dump_given]

theorem id_dispatchAll (handlers : HandlerTable) (ctx : Context) :
    (ctx.dispatchAll handlers).2.session.id = ctx.session.id := by
  fun_induction Context.dispatchAll handlers ctx with
  | case1 ctx hnone => rfl
  | case2 ctx frame session hsome frames later hlater ih =>
    obtain ⟨-, -, hid, -⟩ := Session.of_nextFrame? hsome
    rw [hlater] at ih
    exact ih.trans ((id_dispatch handlers _ frame).trans hid)

theorem putBack_given {ctx : Context} (hne : ctx.session.id ≠ i.client) (ship : Ship) :
    (ship.given i).putBack (ctx.given i) = (ship.putBack ctx).given i := by
  have hput := SessionTable.put_given ctx.others ctx.session i
  rw [Session.given_of_ne hne] at hput
  unfold putBack given Context.given
  dsimp only
  rw [hput]

/-- What another client sends comes to the same. -/
theorem receive_given (H : ship.sessions.Keyed) (hne : id ≠ i.client) (data : Bytes)
    (clock : UInt64) :
    (ship.given i).receive id data clock =
      ((ship.receive id data clock).1, (ship.receive id data clock).2.given i) := by
  have hreceive {ship : Ship} {s : Session} (hs : ship.sessions[id]? = some s) :
      ship.receive id data clock =
        let done := (ship.opened id s data clock).dispatchAll ship.handlers
        (done.1, ship.putBack { done.2 with session := done.2.session.compact }) :=
    receive_eq hs data clock
  cases hs : ship.sessions[id]? with
  | none => rw [receive_of_none hs, receive_of_none (by rw [getElem?_given, hs, Option.map_none])]
  | some s =>
    have hid : s.id = id := H id s hs
    have hs' : (ship.given i).sessions[id]? = some s := by
      rw [getElem?_given, hs, Option.map_some, Session.given_of_ne (hid ▸ hne)]
    have hopened : (ship.given i).opened id s data clock =
        (ship.opened id s data clock).given i := by
      unfold opened Context.given given
      dsimp only
      rw [SessionTable.erase_given]
    have hhandlers : (ship.given i).handlers = ship.handlers := rfl
    let done := ((ship.opened id s data clock).dispatchAll ship.handlers).2
    let last : Context := { done with session := done.session.compact }
    have hlast : last.session.id = id :=
      (id_dispatchAll ..).trans ((receive_fields s data).1.trans hid)
    have hback : (ship.given i).putBack (last.given i) = (ship.putBack last).given i :=
      putBack_given (hlast.trans_ne hne) ship
    rw [hreceive hs, hreceive hs', hopened, hhandlers, Context.dispatchAll_given]
    exact Prod.ext rfl hback

/-- The call is one of the next bytes of the client. -/
def Call.isFrom (client : ClientId) : Call → Bool
  | .receive id _ _ => id = client
  | _ => false

theorem kickEach_given (ship : Ship) (ids : List ClientId) (i : Inbound) :
    (ship.given i).kickEach ids = (ship.kickEach ids).given i := by
  induction ids generalizing ship with
  | nil => rfl
  | cons id ids ih =>
    rw [kickEach, List.foldl_cons, (mirrors_kick id).after ship]
    exact ih _

theorem perform_given {call : Call} (H : ship.sessions.Keyed)
    (hnew : call.connection? ≠ some i.client)
    (hfrom : call.isFrom i.client = false) :
    (ship.given i).perform call = (ship.perform call).given i := by
  cases call with
  | connect id address => exact connect_given (fun h => hnew (congrArg some h)) ship address
  | receive id data clock =>
    have hne : id ≠ i.client := of_decide_eq_false hfrom
    exact congrArg Prod.snd (receive_given H hne data clock)
  | disconnect id => exact disconnect_given ship id i
  | sendTo id frame => exact (mirrors_sendTo id frame).after ship
  | sendRaw id packet => exact (mirrors_sendRaw id packet).after ship
  | sendFile id path => exact (mirrors_sendFile id path).after ship
  | sendDirectory id path => exact (mirrors_sendDirectory id path).after ship
  | announce text kind =>
    have hsend : Session.Heedless fun s =>
        if isAddressed s then s.sendPacket (.systemMessage text kind) else s :=
      (Session.Heedless.sendPacket _).ite fun _ _ _ => rfl
    exact congrArg (fun sessions => { ship with sessions })
      (SessionTable.map_given hsend ship.sessions i)
  | kick id => exact (mirrors_kick id).after ship
  | kickAll =>
    have hids : (ship.given i).sessions.ids = ship.sessions.ids := SessionTable.ids_given ..
    rw [perform, after_of_ok (kickAll_eq _), perform, after_of_ok (kickAll_eq _), hids]
    exact kickEach_given ship _ i
  | teleport id destination => exact (mirrors_teleport id destination).after ship
  | moveToMap id ref => exact (mirrors_moveToMap id ref).after ship
  | changeMap id request => exact (mirrors_changeMap id request).after ship
  | spawnClone id name position draw =>
    exact (mirrors_spawnClone id name position draw).after ship
  | spawnObject id name location draw =>
    exact (mirrors_spawnObject id name location draw).after ship
  | createInstance name map hempty => rfl
  | addMap name map hempty => rfl
  | write id outcomes =>
    have hwritten : Session.Heedless fun s => { s with outbox := (s.outbox.egress outcomes).2 } :=
      ⟨fun _ => rfl, fun _ _ _ => rfl⟩
    exact adjust_given hwritten ship id i
  | identify id user character =>
    have hknown : Session.Heedless ({ · with user, character }) :=
      ⟨fun _ => rfl, fun _ _ _ => rfl⟩
    exact adjust_given hknown ship id i
  | replaceDisk disk => rfl

/-- **A call does the same whatever has come in from a client**, unless it opens the connection or
brings in more. -/
theorem step_given {call : Call} (H : ship.sessions.Keyed) (hnew : call.connection? ≠ some i.client)
    (hfrom : call.isFrom i.client = false) :
    (ship.given i).step call = (ship.step call).given i := by
  rw [step, perform_given H hnew hfrom, flushDumps_given, step]

/-- The frames of the other clients are handled in the same way. -/
theorem handed_given {call : Call} {other : ClientId} (H : ship.sessions.Keyed)
    (hother : other ≠ i.client) : (ship.given i).handed other call = ship.handed other call := by
  cases call with
  | receive id data clock =>
    rw [handed, handed]
    by_cases hid : id = other
    · rw [if_pos hid, if_pos hid, receive_given H (hid.trans_ne hother)]
    · rw [if_neg hid, if_neg hid]
  | _ => rfl

end Ship

end GameShip
