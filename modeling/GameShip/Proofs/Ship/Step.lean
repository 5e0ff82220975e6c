import GameShip.Proofs.Ship.Change
import GameShip.Proofs.Ship.Chunking
import GameShip.Proofs.Ship.Flush

/-!
# What the calls come to

Every call is made up of the changes of `Ship.Change` (`Ship.Consistent.changes_step`), so what all
of them keep is kept by every run (`Ship.Consistent.run`). That of a handler is so as well.

* `Context.Stays`: what a handler does that does not close its session.
* `Ship.putBack`: the ship with the session put back that a handler has.
* `Ship.Fresh`: the connection that a call opens is new.
-/

namespace GameShip

/-! ## Handlers -/

/-- What a handler has done that does not close the session: it stays where it is, and so do the
others, which go on to hear their clients. -/
structure Context.Stays (ctx later : Context) : Prop where
  id : later.session.id = ctx.session.id
  closed : later.session.closed = ctx.session.closed
  map : later.session.map = ctx.session.map
  others : SessionTable.Rel Session.Unmoved ctx.others later.others
  world : later.world = ctx.world

namespace Context.Stays

variable {ctx later last : Context}

theorem of_session {session : Session} (hid : session.id = ctx.session.id)
    (hclosed : session.closed = ctx.session.closed) (hmap : session.map = ctx.session.map) :
    ctx.Stays { ctx with session } := ⟨hid, hclosed, hmap, .refl .refl _, rfl⟩

theorem refl (ctx : Context) : ctx.Stays ctx := of_session rfl rfl rfl

theorem trans (h : ctx.Stays later) (h' : later.Stays last) : ctx.Stays last :=
  ⟨h'.id.trans h.id, h'.closed.trans h.closed, h'.map.trans h.map, h.others.trans .trans h'.others,
    h'.world.trans h.world⟩

theorem reply (ctx : Context) (frame : Frame) : ctx.Stays (ctx.reply frame) :=
  have h := Session.Unmoved.sendFrame ctx.session frame
  of_session h.id h.closed h.map

theorem broadcast (ctx : Context) {f : Session → Session} (hf : ∀ s : Session, s.Unmoved (f s)) :
    ctx.Stays (ctx.broadcast f) := by
  unfold Context.broadcast
  split
  · exact ⟨rfl, rfl, rfl, .broadcast .refl hf _ _ _, rfl⟩
  · exact refl ctx

end Context.Stays

namespace Handler

variable {ctx later : Context} {flags : PacketFlags} {payload : Bytes}

/-- A handler closes the session, or it stays. -/
theorem run_stays {h : Handler} (hrun : h.run ctx flags payload = .ok later) :
    ctx.Stays later ∨ later = ctx.closeSession := by
  cases h with
  | ping =>
    cases hrun
    exact .inl (.refl ctx)
  | keyExchange unwrapper =>
    simp only [run, runKeyExchange] at hrun
    repeat' split at hrun
    all_goals cases hrun
    rename_i material _
    have hkey : ctx.Stays { ctx with session := ctx.session.setKey material.key.toBytes } :=
      .of_session rfl rfl rfl
    exact .inl (hkey.trans (.reply ..))
  | clientTime =>
    simp only [run] at hrun
    split at hrun <;> cases hrun
    exact .inl (.reply ..)
  | logout =>
    cases hrun
    exact .inr rfl
  | zeroReply =>
    cases hrun
    exact .inl (.reply ..)
  | movement =>
    simp only [run] at hrun
    split at hrun <;> cases hrun
    rename_i m _ _
    have hmoved : ctx.Stays { ctx with session := ctx.session.applyMovement m } :=
      .of_session rfl rfl rfl
    exact .inl (hmoved.trans (.broadcast _ fun s => .sendFrame s _))
  | movementEnd =>
    simp only [run] at hrun
    split at hrun <;> cases hrun
    exact .inl (.broadcast ctx fun s => .sendFrame s _)
  | movementAction =>
    simp only [run] at hrun
    repeat' split at hrun
    all_goals cases hrun
    exact .inl (.broadcast ctx fun s => .sendFrame s _)
  | actionUpdate =>
    simp only [run] at hrun
    split at hrun <;> cases hrun
    refine .inl (.broadcast ctx fun s => ?_)
    split
    · exact .refl s
    · exact .sendFrame s _
  | recorder tag ending =>
    cases ending <;> cases hrun
    · exact .inl (.refl ctx)
    · exact .inr rfl

/-- What a handler comes to, also if it fails. -/
theorem handle_stays (h : Handler) (ctx : Context) (flags : PacketFlags) (payload : Bytes) :
    ctx.Stays (h.handle ctx flags payload).2 ∨
      ∃ journal, (h.handle ctx flags payload).2 = { ctx with journal }.closeSession := by
  have hnote : ∃ journal, h.note ctx flags payload = { ctx with journal } := by
    cases h <;> exact ⟨_, rfl⟩
  obtain ⟨journal, hnote⟩ := hnote
  have hnoted : ctx.Stays (h.note ctx flags payload) := by
    rw [hnote]
    exact ⟨rfl, rfl, rfl, .refl .refl _, rfl⟩
  rw [handle_eq]
  split
  · rename_i later hrun
    obtain hstays | rfl := run_stays hrun
    · exact .inl (hnoted.trans hstays)
    · exact .inr ⟨journal, by rw [hnote]⟩
  · exact .inl hnoted

end Handler

theorem HandlerTable.dispatch_stays (t : HandlerTable) (ctx : Context) (frame : Frame) :
    ctx.Stays (t.dispatch ctx frame) ∨
      ∃ journal, t.dispatch ctx frame = { ctx with journal }.closeSession := by
  unfold dispatch
  split
  · exact Handler.handle_stays ..
  · exact .inl (.refl ctx)

namespace Ship

variable {call : Call} {ship later : Ship} {id : ClientId} {s : Session}
  {ctx ctx' : Context}

/-- The ship with the session put back that was taken out. -/
def putBack (ship : Ship) (ctx : Context) : Ship :=
  { ship with
    sessions := SessionTable.put ctx.others ctx.session
    world := ctx.world
    journal := ctx.journal }

theorem getElem?_putBack (ship : Ship) (ctx : Context) :
    (ship.putBack ctx).sessions[ctx.session.id]? = some ctx.session := getElem?_put _ rfl

/-- A session that stays where it is hears its client while it is out. -/
theorem changes_session (ship : Ship) {session : Session} (hcall : call.concerns ctx.session.id)
    (hid : session.id = ctx.session.id) (hclosed : session.closed = ctx.session.closed)
    (hmap : session.map = ctx.session.map) :
    (ship.putBack ctx).Changes call (ship.putBack { ctx with session }) := by
  have hput : ship.putBack { ctx with session } = (ship.putBack ctx).putSession session := by
    unfold putBack putSession
    dsimp only
    rw [SessionTable.put_put _ hid]
  rw [hput]
  exact .one (.hear hcall (getElem?_putBack ..) hid hclosed hmap)

theorem changes_stays (ship : Ship) (hcall : call.concerns ctx.session.id) (h : ctx.Stays ctx') :
    (ship.putBack ctx).Changes call (ship.putBack ctx') := by
  -- only the session itself may hear its client anew, the others are just sent something
  have hheard := changes_session ship hcall h.id h.closed h.map
  have hcalm : (ship.putBack { ctx with session := ctx'.session }).Calm (ship.putBack ctx') :=
    ⟨rfl, congrArg World.zones h.world, congrArg World.parties h.world, h.world ▸ .refl _,
      h.others.put rfl (.refl _)⟩
  exact hheard.trans (.calm hcalm)

/-- To close the session in a handler is to kick it. -/
theorem changes_closeSession (ship : Ship) (hcall : call.concerns ctx.session.id)
    (journal : List JournalEntry) :
    (ship.putBack ctx).Changes call (ship.putBack { ctx with journal }.closeSession) := by
  have hnoted : (ship.putBack ctx).Calm (ship.putBack { ctx with journal }) :=
    ⟨rfl, rfl, rfl, .refl _, .refl .refl _⟩
  have hkick : (ship.putBack { ctx with journal }).after (kick ctx.session.id) =
      ship.putBack { ctx with journal }.closeSession := by
    have hid : (ctx.world.detach ctx.session).1.close.id = ctx.session.id := rfl
    unfold after
    rw [kick_eq, getElem?_putBack ship { ctx with journal }]
    unfold putBack putSession Context.closeSession
    dsimp only
    rw [SessionTable.put_put _ hid]
  rw [← hkick]
  exact (Changes.calm hnoted).trans (.one (.hangUp hcall))

theorem changes_dispatch (ship : Ship) (hcall : call.concerns ctx.session.id) (t : HandlerTable)
    (frame : Frame) : (ship.putBack ctx).Changes call (ship.putBack (t.dispatch ctx frame)) := by
  obtain hstays | ⟨journal, hclose⟩ := t.dispatch_stays ctx frame
  · exact changes_stays ship hcall hstays
  · rw [hclose]
    exact changes_closeSession ship hcall journal

theorem id_dispatch (t : HandlerTable) (ctx : Context) (frame : Frame) :
    (t.dispatch ctx frame).session.id = ctx.session.id := by
  obtain hstays | ⟨journal, hclose⟩ := t.dispatch_stays ctx frame
  · exact hstays.id
  · rw [hclose]
    rfl

theorem map_of_nextFrame? {s t : Session} {frame : Frame} (h : s.nextFrame? = some (frame, t)) :
    t.map = s.map := by
  unfold Session.nextFrame? at h
  repeat' split at h
  all_goals cases h
  rfl

/-- However many of the frames of a session have been handled, with the session put back the ship
has only gone through changes of that session. -/
theorem changes_handled (ship : Ship) {handlers : HandlerTable} {frames : List Frame}
    (h : ctx.Handled handlers frames ctx') (hcall : call.concerns ctx.session.id) :
    (ship.putBack ctx).Changes call (ship.putBack ctx') ∧ ctx'.session.id = ctx.session.id := by
  induction h with
  | nil ctx => exact ⟨.refl _, rfl⟩
  | @cons ctx later frame session frames hnext _ ih =>
    obtain ⟨-, -, hid, hclosed, -⟩ := Session.of_nextFrame? hnext
    have htaken := changes_session ship hcall hid hclosed (map_of_nextFrame? hnext)
    have hcall' : call.concerns session.id := hid ▸ hcall
    have hid' := id_dispatch handlers { ctx with session } frame
    obtain ⟨hrest, hlast⟩ := ih (hid' ▸ hcall')
    exact ⟨(htaken.trans (changes_dispatch ship hcall' handlers frame)).trans hrest,
      (hlast.trans hid').trans hid⟩

/-- What the first handler sees of a chunk that has come in. -/
def opened (ship : Ship) (id : ClientId) (s : Session) (chunk : Bytes) (clock : UInt64) :
    Context where
  session := (s.receive chunk).2
  others := ship.sessions.erase id
  world := ship.world
  clock
  journal := ship.journal

theorem receive_fields (s : Session) (chunk : Bytes) :
    (s.receive chunk).2.id = s.id ∧ (s.receive chunk).2.closed = s.closed ∧
      (s.receive chunk).2.map = s.map := by
  unfold Session.receive
  split <;> exact ⟨rfl, rfl, rfl⟩

theorem changes_opened (hkeyed : ship.sessions.Keyed) (hs : ship.sessions[id]? = some s)
    (hcall : call.concerns id) (chunk : Bytes) (clock : UInt64) :
    ship.Changes call (ship.putBack (ship.opened id s chunk clock)) := by
  have hid : s.id = id := hkeyed id s hs
  let taken : Context := ⟨s, ship.sessions.erase id, ship.world, clock, ship.journal⟩
  have hback : ship.putBack taken = ship := by
    unfold putBack
    dsimp only [taken]
    rw [SessionTable.put_erase hs hid]
  obtain ⟨hid', hclosed, hmap⟩ := receive_fields s chunk
  have hheard : (ship.putBack taken).Changes call _ :=
    changes_session ship (hid ▸ hcall) hid' hclosed hmap
  rwa [hback] at hheard

theorem changes_receive (hkeyed : ship.sessions.Keyed) (hcall : call.concerns id) (chunk : Bytes)
    (clock : UInt64) : ship.Changes call (ship.receive id chunk clock).2 := by
  cases hs : ship.sessions[id]? with
  | none =>
    unfold receive withSession
    rw [hs]
    exact .refl ship
  | some s =>
    have hid : (ship.opened id s chunk clock).session.id = id :=
      (receive_fields s chunk).1.trans (hkeyed id s hs)
    have hopened := changes_opened hkeyed hs hcall chunk clock
    have hcall' : call.concerns (ship.opened id s chunk clock).session.id := hid.symm ▸ hcall
    obtain ⟨hhandled, -⟩ := (ship.opened id s chunk clock).handled_dispatchAll ship.handlers
    obtain ⟨hchanges, hid'⟩ := changes_handled ship hhandled hcall'
    have hcompact := changes_session ship (hid'.symm ▸ hcall')
      (Eq.refl (Session.compact _).id) (Eq.refl (Session.compact _).closed)
      (Eq.refl (Session.compact _).map)
    have hreceive := congrArg Prod.snd (receive_eq hs chunk clock)
    dsimp only at hreceive
    rw [hreceive]
    exact (hopened.trans hchanges).trans hcompact

/-! ## Calls -/

theorem changes_connect (hnew : ship.sessions[id]? = none) (hcall : call.connection? = some id)
    (address : SocketAddress) : ship.Changes call (ship.connect id address) := by
  have hjoin : ship.Changes call (ship.putSession (.new id)) := .one (.join hcall hnew rfl)
  refine hjoin.trans (.calm ?_)
  have hsent (s : Session) (hid : s.id = id) (hs : (Session.new id).Unmoved s) :
      SessionTable.Rel Session.Unmoved (ship.sessions.put (.new id))
        (ship.sessions.put (s.sendPacket .welcome)) :=
    SessionTable.Rel.put (.refl .refl _) ((Session.Unmoved.sendPacket s _).id.trans hid)
      (hs.trans (.sendPacket s _))
  unfold connect
  dsimp only
  cases ship.newDump id with
  | none => exact ⟨rfl, rfl, rfl, .refl _, hsent _ rfl ⟨⟨rfl, rfl, rfl, rfl⟩, rfl⟩⟩
  | some made => exact ⟨rfl, rfl, rfl, .refl _, hsent _ rfl ⟨⟨rfl, rfl, rfl, rfl⟩, rfl⟩⟩

/-- A session whose connection is lost is taken out as if it were kicked. -/
theorem disconnect_eq (hkeyed : ship.sessions.Keyed) (hs : ship.sessions[id]? = some s) :
    let kicked := ship.after (kick id)
    kicked.sessions[id]? = some (ship.world.detach s).1.close ∧
      ship.disconnect id =
        { kicked with sessions := kicked.sessions.erase id, disk := s.written ship.disk } := by
  have hkick := kick_eq ship id
  rw [hs] at hkick
  have hid : (ship.world.detach s).1.close.id = id := hkeyed id s hs
  intro kicked
  have hkicked : kicked = _ := after_of_ok hkick
  rw [hkicked]
  refine ⟨getElem?_put _ hid, ?_⟩
  unfold disconnect putSession
  rw [hs]
  dsimp only
  congr 1
  refine Std.ExtTreeMap.ext_getElem? fun other => ?_
  rw [Std.ExtTreeMap.getElem?_erase, Std.ExtTreeMap.getElem?_erase, SessionTable.getElem?_put, hid]
  by_cases h : id = other <;> simp [h]

theorem changes_disconnect (hkeyed : ship.sessions.Keyed) (hcall : call.concerns id) :
    ship.Changes call (ship.disconnect id) := by
  cases hs : ship.sessions[id]? with
  | none =>
    unfold disconnect
    rw [hs]
    exact .refl ship
  | some s =>
    obtain ⟨hgone, hdisconnect⟩ := disconnect_eq hkeyed hs
    rw [hdisconnect]
    have hdropped : (ship.after (kick id)).Changes call _ := .one (.drop hcall hgone rfl)
    exact ((Changes.one (.hangUp hcall)).trans hdropped).trans
      (.calm ⟨rfl, rfl, rfl, .refl _, .refl .refl _⟩)

/-- The ship when clients have been kicked, one after the other. -/
def kickEach (ship : Ship) (ids : List ClientId) : Ship :=
  ids.foldl (fun ship id => ship.after (kick id)) ship

theorem isSome_kick (ship : Ship) (id other : ClientId) (h : ship.sessions[other]?.isSome) :
    (ship.after (kick id)).sessions[other]?.isSome := by
  unfold after
  rw [kick_eq]
  cases ship.sessions[id]? with
  | none => exact h
  | some s =>
    dsimp only [putSession]
    rw [SessionTable.getElem?_put]
    split
    · rfl
    · exact h

theorem forIn_kick (ids : List ClientId) (h : ∀ id ∈ ids, ship.sessions[id]?.isSome) :
    (forIn ids () fun id _ => do kick id; return ForInStep.yield () : Operation Unit) ship =
      .ok () (ship.kickEach ids) := by
  induction ids generalizing ship with
  | nil => rfl
  | cons id ids ih =>
    obtain ⟨s, hs⟩ := Option.isSome_iff_exists.mp (h id List.mem_cons_self)
    have hkick := kick_eq ship id
    rw [hs] at hkick
    have hrest := ih fun other hother =>
      isSome_kick ship id other (h other (List.mem_cons_of_mem _ hother))
    rw [List.forIn_cons, bind_assoc, bind_of_ok hkick]
    rw [after_of_ok hkick] at hrest
    rw [kickEach, List.foldl_cons, after_of_ok hkick]
    exact hrest

/-- To kick all is to kick one after the other. -/
theorem kickAll_eq (ship : Ship) :
    kickAll ship = .ok () (ship.kickEach ship.sessions.ids) := by
  have hids : ∀ id ∈ ship.sessions.ids, ship.sessions[id]?.isSome := fun id hid => by
    rw [← Std.ExtTreeMap.contains_eq_isSome_getElem?]
    exact Std.ExtTreeMap.mem_keys.mp hid
  exact (bind_of_ok (forIn_kick ship.sessions.ids hids)).trans rfl

theorem changes_kickEach (ship : Ship) (ids : List ClientId) :
    ship.Changes .kickAll (ship.kickEach ids) := by
  induction ids generalizing ship with
  | nil => exact .refl ship
  | cons id ids ih =>
    have hkick : ship.Changes .kickAll (ship.after (kick id)) := .one (.hangUp trivial)
    exact hkick.trans (ih (ship.after (kick id)))

theorem changes_kickAll (ship : Ship) : ship.Changes .kickAll (ship.after kickAll) := by
  rw [after_of_ok (kickAll_eq ship)]
  exact changes_kickEach ship _

theorem unmoved_arrive {s' : Session} (h : s.AsRecorded s') (ref : MapRef) (location : Location)
    (objects : List WorldObject) :
    Session.Unmoved { s with map := some ref, location } (arrive s' ref location objects) := by
  obtain ⟨dump, rfl⟩ := h
  have hshown : ∀ (t : Session),
      t.Unmoved (objects.foldl (fun t object => t.sendPacket (.objectSpawn object)) t) := by
    induction objects with
    | nil => exact .refl
    | cons object objects ih => exact fun t => (Session.Unmoved.sendPacket t _).trans (ih _)
  have hrecorded : Session.Unmoved { s with map := some ref, location }
      { s with dump, map := some ref, location } := ⟨⟨rfl, rfl, rfl, rfl⟩, rfl⟩
  exact (hrecorded.trans (hshown _)).trans (.sendPacket ..)

/-- A session is moved, or the ship stays as it is. -/
theorem moveToMap_cases (H : ship.Consistent) (id : ClientId) (ref : MapRef) :
    (∃ e, moveToMap id ref ship = .error e ship) ∨
      ∃ s s' map location zones, ship.live? id = some s ∧ s.AsRecorded s' ∧
        ship.world.zones.map ref = .ok map ∧
        (ship.leaveMap s.map id).world.zones.spawnClient ref id = .ok (location, zones) ∧
        let flushed := (ship.withZones zones).flushDumps
        let found := flushed.world.objects.objectsOf flushed.disk map.name
        moveToMap id ref ship = .ok location
          ((flushed.withObjects found.2).putSession (arrive s' ref location found.1)) := by
  have hmove := moveToMap_eq ship id ref
  cases hlive : ship.live? id with
  | none =>
    rw [hlive] at hmove
    exact .inl ⟨_, hmove⟩
  | some s =>
    rw [hlive] at hmove
    dsimp only at hmove
    cases hmap : ship.world.zones.map ref with
    | error e =>
      rw [hmap] at hmove
      exact .inl ⟨_, hmove⟩
    | ok map =>
      obtain ⟨hs, hopen⟩ := live?_eq_some.mp hlive
      obtain ⟨i, hfind⟩ := ZoneRegistry.map_eq_ok.mp hmap
      -- the map is still there when the session has left its own
      obtain ⟨i', map', hfind'⟩ := exists_find_leaveMap H.agrees s.map id ⟨i, map, hfind⟩
      have hleft := agrees_leaveMap H.agrees id
      rw [SessionTable.place_eq hs] at hleft
      obtain ⟨zones, hzones, -⟩ := hleft.spawnClient (Function.update_self ..) hfind'
      have hflushed : (ship.withZones zones).Flushed (ship.withZones zones).flushDumps :=
        flushed_flushDumps H.keyed
      obtain ⟨s', hs', hsame⟩ := hflushed.sessions.of_some hs
      have hlive' : ∀ objects,
          ((ship.withZones zones).flushDumps.withObjects objects).live? id = some s' := fun _ =>
        live?_eq_some.mpr ⟨hs', hsame.unmoved.closed.trans hopen⟩
      refine .inr ⟨s, s', map, map'.defaultLocation, zones, rfl, hsame, rfl, hzones, ?_⟩
      rw [hmove, hmap]
      dsimp only
      have hzones' : (ship.leaveMap s.map id).world.zones.spawnClient ref id = _ := hzones
      rw [hzones']
      dsimp only
      rw [hlive']

theorem changes_moveToMap (H : ship.Consistent) (id : ClientId) (ref : MapRef) :
    ship.Changes call (ship.after (moveToMap id ref)) := by
  obtain ⟨e, hmove⟩ | ⟨s, s', map, location, zones, hlive, hrecorded, hmap, hzones, hmove⟩ :=
    moveToMap_cases H id ref
  · rw [after_of_error hmove]
    exact .refl ship
  · rw [after_of_ok hmove]
    have hflushed : (ship.withZones zones).Flushed (ship.withZones zones).flushDumps :=
      flushed_flushDumps H.keyed
    have hshown := unmoved_arrive hrecorded ref location
    have hsame := congrArg World.zones hflushed.world
    have hparties := congrArg World.parties hflushed.world
    let disk := (ship.withZones zones).flushDumps.disk
    have hreaches : ship.world.objects.Reaches
        ((ship.withZones zones).flushDumps.world.objects.objectsOf disk map.name).2 := by
      rw [hflushed.world]
      exact .step _ disk (.objectsOf map.name)
    have hloaded := (ship.withZones zones).flushDumps.world.objects.contains_objectsOf disk map.name
    obtain ⟨i, hfind⟩ := ZoneRegistry.map_eq_ok.mp hmap
    obtain ⟨-, -, hname, -⟩ := H.agrees.of_find hfind
    rw [hname] at hreaches hloaded
    refine (Changes.one (.move hlive hzones hreaches hloaded)).trans (.calm ?_)
    refine ⟨hflushed.handlers, hsame, hparties, ?_, ?_⟩
    · rw [hname]
      exact .refl _
    · exact (hflushed.sessions.mono Session.AsRecorded.unmoved).put (hshown _).id (hshown _)

theorem changes_changeMap (H : ship.Consistent) (id : ClientId) (request : MapRequest) :
    ship.Changes call (ship.after (changeMap id request)) := by
  have hcreate : ship.Changes call
      (ship.withZones (ship.world.zones.create request.instanceName request.map).2) :=
    .one (.create _ rfl)
  exact hcreate.trans (changes_moveToMap (H.changes hcreate) id _)

/-- The connection that a call opens is not one that is there. -/
def Fresh (ship : Ship) (call : Call) : Prop :=
  ∀ id, call.connection? = some id → ship.sessions[id]? = none

theorem quiet_changes {α : Type} {x : Operation α} (h : Quiet x) (H : ship.Consistent) :
    ship.Changes call (ship.after x) := .calm (h ship H.keyed)

theorem Consistent.changes_perform (H : ship.Consistent) {call : Call} (hnew : ship.Fresh call) :
    ship.Changes call (ship.perform call) := by
  cases call with
  | connect id address => exact changes_connect (hnew id rfl) rfl address
  | receive id data clock =>
    have hcall : (Call.receive id data clock).concerns id := rfl
    exact changes_receive H.keyed hcall data clock
  | disconnect id =>
    have hcall : (Call.disconnect id).concerns id := rfl
    exact changes_disconnect H.keyed hcall
  | kick id => exact .one (.hangUp rfl)
  | kickAll => exact changes_kickAll ship
  | sendTo id frame => exact quiet_changes (quiet_sendTo id frame) H
  | sendRaw id packet => exact quiet_changes (quiet_sendRaw id packet) H
  | sendFile id path => exact quiet_changes (quiet_sendFile id path) H
  | sendDirectory id path => exact quiet_changes (quiet_sendDirectory id path) H
  | announce text kind => exact quiet_changes (quiet_announce text kind) H
  | teleport id destination => exact quiet_changes (quiet_teleport id destination) H
  | moveToMap id ref => exact changes_moveToMap H id ref
  | changeMap id request => exact changes_changeMap H id request
  | spawnClone id name position draw =>
    exact quiet_changes (quiet_spawnClone id name position draw) H
  | spawnObject id name location draw =>
    exact quiet_changes (quiet_spawnObject id name location draw) H
  | createInstance name map hempty => exact .one (.create name hempty)
  | addMap name map hempty =>
    dsimp only [perform]
    cases h : ship.world.zones.addMap name map with
    | error e => exact .refl ship
    | ok zones => exact .one (.addMap hempty h)
  | write id outcomes =>
    exact .calm (.adjust H.keyed fun s => ⟨⟨rfl, rfl, rfl, rfl⟩, rfl⟩)
  | identify id user character =>
    exact .calm (.adjust H.keyed fun s => ⟨⟨rfl, rfl, rfl, rfl⟩, rfl⟩)
  | replaceDisk disk => exact .calm ⟨rfl, rfl, rfl, .refl _, .refl .refl _⟩

/-- **What the calls come to**. -/
theorem Consistent.changes_step (H : ship.Consistent) {call : Call} (hnew : ship.Fresh call) :
    ship.Changes call (ship.step call) := by
  have hperform := H.changes_perform hnew
  rw [step]
  exact hperform.trans (.calm (flushed_flushDumps (H.changes hperform).keyed).calm)

theorem Consistent.written_step (H : ship.Consistent) {call : Call} (hnew : ship.Fresh call) :
    (ship.step call).Written := by
  rw [step]
  exact written_flushDumps (H.changes (H.changes_perform hnew)).keyed

/-! ## Runs -/

/-- The connections that calls open are new to the ship, and no two are the same. -/
structure Distinct (ship : Ship) (calls : List Call) : Prop where
  nodup : (connections calls).Nodup
  fresh : ∀ id ∈ connections calls, ship.sessions[id]? = none

theorem Distinct.start {u : KeyUnwrapper} {resources : String} {dumpRoot : Option DiskPath}
    {disk : Disk} {calls : List Call} (h : (connections calls).Nodup) :
    (start u resources dumpRoot disk).Distinct calls :=
  ⟨h, fun _ _ => Std.ExtTreeMap.getElem?_empty⟩

variable {call : Call} {calls calls' : List Call}

theorem Distinct.first (h : ship.Distinct (call :: calls)) : ship.Fresh call := fun id hid =>
  h.fresh id (List.mem_filterMap.mpr ⟨call, List.mem_cons_self, hid⟩)

theorem Distinct.changes (h : ship.Distinct (call :: calls)) (H : ship.Consistent)
    (hchanges : ship.Changes call later) : later.Distinct calls := by
  obtain ⟨hnodup, hfresh⟩ := h
  rw [connections_cons] at hnodup hfresh
  obtain ⟨-, hrest, hdisjoint⟩ := List.nodup_append.mp hnodup
  refine ⟨hrest, fun id hid => hchanges.getElem?_eq_none H ?_ fun hcall => ?_⟩
  · exact hfresh id (List.mem_append_right _ hid)
  · exact hdisjoint id (by rw [hcall]; exact List.mem_singleton_self id) id hid rfl

theorem Distinct.step (h : ship.Distinct (call :: calls)) (H : ship.Consistent) :
    (ship.step call).Distinct calls := h.changes H (H.changes_step h.first)

theorem Distinct.left (h : ship.Distinct (calls ++ calls')) : ship.Distinct calls := by
  obtain ⟨hnodup, hfresh⟩ := h
  rw [connections_append] at hnodup hfresh
  exact ⟨(List.nodup_append.mp hnodup).1, fun id hid => hfresh id (List.mem_append_left _ hid)⟩

theorem Distinct.run (h : ship.Distinct (calls ++ calls')) (H : ship.Consistent) :
    (ship.run calls).Distinct calls' := by
  induction calls generalizing ship with
  | nil => exact h
  | cons call calls ih => exact ih (h.step H) (H.changes (H.changes_step h.first))

theorem consistent_start (u : KeyUnwrapper) (resources : String) (dumpRoot : Option DiskPath)
    (disk : Disk) : (start u resources dumpRoot disk).Consistent where
  keyed id s h := by
    rw [start, Std.ExtTreeMap.getElem?_empty] at h
    cases h
  closed id s h := by
    rw [start, Std.ExtTreeMap.getElem?_empty] at h
    cases h
  agrees := by
    have hplace : (start u resources dumpRoot disk).sessions.place = fun _ => none := by
      funext id
      rw [SessionTable.place, start, Std.ExtTreeMap.getElem?_empty, Option.bind_none]
    rw [hplace]
    exact ZoneRegistry.agrees_initial

theorem Consistent.run (H : ship.Consistent) (h : ship.Distinct calls) :
    (ship.run calls).Consistent := by
  induction calls generalizing ship with
  | nil => exact H
  | cons call calls ih =>
    exact ih (H.changes (H.changes_step h.first)) (h.step H)

theorem Consistent.handlers_run (H : ship.Consistent) (h : ship.Distinct calls) :
    (ship.run calls).handlers = ship.handlers := by
  induction calls generalizing ship with
  | nil => rfl
  | cons call calls ih =>
    have hchanges := H.changes_step h.first
    exact (ih (H.changes hchanges) (h.step H)).trans hchanges.handlers

/-- What was recorded in the course of a call is on the disk when the next one comes. -/
theorem Written.run (hwritten : ship.Written) (H : ship.Consistent) (h : ship.Distinct calls) :
    (ship.run calls).Written := by
  induction calls generalizing ship with
  | nil => exact hwritten
  | cons call calls ih =>
    exact ih (H.written_step h.first) (H.changes (H.changes_step h.first)) (h.step H)

/-- A ship of which no connection has been opened twice is consistent. -/
theorem consistent_run (u : KeyUnwrapper) (resources : String) (dumpRoot : Option DiskPath)
    (disk : Disk) (hnodup : (connections calls).Nodup) :
    ((start u resources dumpRoot disk).run calls).Consistent :=
  (consistent_start u resources dumpRoot disk).run (.start hnodup)

end Ship

end GameShip
