import GameShip.Proofs.Ship.Answering
import GameShip.Proofs.Ship.Arrival
import GameShip.Proofs.Ship.Flush

/-!
# What a ship does with the line of a client

Whatever happens to a ship, its sessions change as lines do in use: a log of the uses says what
becomes of the line of a client in the course of any calls (`Ship.becomes_run`).

* `Ship.lineUses`: the uses that a call makes of the line of a client that is there.
* `Ship.uses`, `Ship.usesOf`: the log of a call, and of many.
-/

namespace GameShip

open Session (Use)

namespace Ship

/-- A packet is sent to a client whose session must not be closed. -/
def packetUses (ship : Ship) (id client : ClientId) (packet : Bytes) : List Use :=
  match ship.live? id with
  | none => []
  | some _ => Use.only id client [.send packet]

/-- A frame is sent that stands in a file. -/
def fileUses (ship : Ship) (id client : ClientId) (path : String) : List Use :=
  match ship.captured path with
  | .error _ => []
  | .ok packet => ship.flushDumps.packetUses id client packet

/-- Files are sent one after the other, up to the first that cannot be sent. -/
def filesUses (id client : ClientId) : Ship → List String → List Use
  | _, [] => []
  | ship, path :: paths =>
    ship.fileUses id client path ++
      match sendFile id path ship with
      | .ok () later => later.filesUses id client paths
      | .error .. => []

def directoryUses (ship : Ship) (id client : ClientId) (path : String) : List Use :=
  match ship.live? id, filePaths ship.flushDumps.disk path with
  | some _, .ok paths => ship.flushDumps.filesUses id client paths
  | _, _ => []

/-- A client that comes into a map is shown its objects, and can act again after that. -/
def arrivalUses (ship : Ship) (id client : ClientId) (ref : MapRef) : List Use :=
  match ship.answer? (moveToMap id ref) with
  | none => []
  | some _ =>
    let objects := (ship.world.objects.objectsOf ship.flushDumps.disk ref.map).1
    Use.only id client (Use.sends (shown objects ++ [unlock]))

/-- A new object is shown to a client, and to those that hear what happens in its map. -/
def objectUses (ship : Ship) (id client : ClientId) (name : String) (location : Location)
    (draw : UInt64) : List Use :=
  match ship.live? id with
  | none => []
  | some s =>
    let object := WorldObject.named (ship.world.objects.unusedId draw) name location
    let frame := (Packet.objectSpawn object).frame
    if id = client then Use.sends [frame]
    else
      match ship.sessions[client]? with
      | none => []
      | some t => Use.sends (s.heardFrom (fun _ => some frame) t).toList

/-- What handling the frames of a chunk does with the line of a client. -/
def chunkUses (ship : Ship) (id client : ClientId) (data : Bytes) (clock : UInt64) : List Use :=
  match ship.sessions[id]? with
  | none => []
  | some s =>
    Use.only id client [.hear data] ++
      (ship.opened id s data clock).uses ship.handlers client (ship.receive id data clock).1 ++
      Use.only id client [.compact]

/-- What a call does with the line of a client whose session is there. -/
def lineUses (ship : Ship) (client : ClientId) (s : Session) : Call → List Use
  | .receive id data clock => ship.chunkUses id client data clock
  | .sendTo id frame => ship.packetUses id client frame.toBytes
  | .sendRaw id packet => ship.packetUses id client packet
  | .sendFile id path => ship.fileUses id client path
  | .sendDirectory id path => ship.directoryUses id client path
  | .announce text kind =>
    if isAddressed s then Use.sends [(Packet.systemMessage text kind).frame] else []
  | .kick id => Use.only id client [.close]
  | .kickAll => [.close]
  | .teleport id destination =>
    ship.flushDumps.packetUses id client
      (Packet.teleportTransfer ship.teleporter.1.header destination).frame.toBytes
  | .moveToMap id ref => ship.arrivalUses id client ref
  | .changeMap id request =>
    (ship.withZones (ship.world.zones.create request.instanceName request.map).2).arrivalUses id
      client ⟨request.instanceName, generatedMapName⟩
  | .spawnClone id name position draw =>
    ship.packetUses id client (clone name position draw).frame.toBytes
  | .spawnObject id name location draw => ship.objectUses id client name location draw
  | .write id outcomes => Use.only id client [.write outcomes]
  | .connect .. | .disconnect _ | .createInstance .. | .addMap .. | .identify .. | .replaceDisk _ =>
    []

/-- What a call does with the line of a client. One that connects is greeted. -/
def uses (ship : Ship) (client : ClientId) (call : Call) : List Use :=
  match ship.sessions[client]? with
  | some s => ship.lineUses client s call
  | none =>
    if call.connection? = some client then Use.sends [Packet.welcome.frame] else []

/-- What calls do with the line of a client, one after the other. -/
def usesOf (ship : Ship) (client : ClientId) : List Call → List Use
  | [] => []
  | call :: calls => ship.uses client call ++ (ship.step call).usesOf client calls

variable {α : Type} {ship later : Ship} {id client : ClientId} {s t : Session}
  {uses : List Use} {call : Call} {calls : List Call}

theorem becomes_recorded (h : s.AsRecorded t) : s.Becomes [] t := by
  obtain ⟨dump, rfl⟩ := h
  exact .refl rfl

theorem logs_flushDumps (hkeyed : ship.sessions.Keyed) (client : ClientId) :
    ship.Logs client [] ship.flushDumps :=
  (flushed_flushDumps hkeyed).sessions.mono becomes_recorded client

theorem logs_putSession (hs : ship.sessions[id]? = some s) (hid : t.id = id)
    (h : s.Becomes uses t) : ship.Logs client (Use.only id client uses) (ship.putSession t) := by
  unfold Use.only
  by_cases hclient : id = client
  · rw [if_pos hclient]
    subst hclient
    exact .of_some hs (getElem?_put _ hid) h
  · rw [if_neg hclient]
    refine .of_same ?_
    dsimp only [putSession]
    rw [SessionTable.getElem?_put, hid, if_neg hclient]

theorem logs_of_none (hs : ship.sessions[id]? = none) :
    ship.Logs client (Use.only id client uses) ship := by
  unfold Use.only
  by_cases hclient : id = client
  · subst hclient
    exact .of_none hs hs
  · rw [if_neg hclient]
    exact .of_same rfl

theorem logs_sendRaw (hkeyed : ship.sessions.Keyed) (packet : Bytes) :
    ship.Logs client (ship.packetUses id client packet) (ship.after (sendRaw id packet)) := by
  unfold after packetUses
  rw [sendRaw_eq]
  cases hlive : ship.live? id with
  | none => exact .of_same rfl
  | some s =>
    obtain ⟨hs, -⟩ := live?_eq_some.mp hlive
    have hid := (Session.Unmoved.send s packet).id.trans (hkeyed id s hs)
    exact logs_putSession hs hid (.one rfl fun _ => nofun)

theorem logs_sendFile (hkeyed : ship.sessions.Keyed) (path : String) :
    ship.Logs client (ship.fileUses id client path) (ship.after (sendFile id path)) := by
  have hflush := logs_flushDumps hkeyed client
  unfold after fileUses
  rw [sendFile_eq]
  cases ship.captured path with
  | error e => exact hflush
  | ok packet =>
    exact hflush.trans (logs_sendRaw ((flushed_flushDumps hkeyed).calm.keyed hkeyed) packet)

theorem logs_sendFiles (hkeyed : ship.sessions.Keyed) (paths : List String) :
    ship.Logs client (ship.filesUses id client paths) (ship.after (sendFiles id paths)) := by
  induction paths generalizing ship with
  | nil => exact .of_same rfl
  | cons path paths ih =>
    have hfirst : ship.Logs client (ship.fileUses id client path) _ := logs_sendFile hkeyed path
    have hkeyed' := (quiet_sendFile id path ship hkeyed).keyed hkeyed
    rw [filesUses, sendFiles]
    cases hsend : sendFile id path ship with
    | ok u later =>
      rw [after_of_ok hsend] at hfirst hkeyed'
      rw [after, bind_of_ok hsend]
      exact hfirst.trans (ih hkeyed')
    | error e later =>
      rw [after_of_error hsend] at hfirst
      rw [after, bind_of_error hsend, List.append_nil]
      exact hfirst

theorem logs_sendDirectory (hkeyed : ship.sessions.Keyed) (path : String) :
    ship.Logs client (ship.directoryUses id client path)
      (ship.after (sendDirectory id path)) := by
  have hflush := logs_flushDumps hkeyed client
  unfold after directoryUses
  rw [sendDirectory_eq]
  cases ship.live? id with
  | none => exact .of_same rfl
  | some s =>
    dsimp only
    cases filePaths ship.flushDumps.disk path with
    | error e => exact hflush
    | ok paths =>
      have hfiles : ship.flushDumps.Logs client (ship.flushDumps.filesUses id client paths) _ :=
        logs_sendFiles ((flushed_flushDumps hkeyed).calm.keyed hkeyed) paths
      dsimp only
      rw [map_eq_pure_bind]
      unfold after at hfiles
      cases hsend : sendFiles id paths ship.flushDumps with
      | ok u later =>
        rw [hsend] at hfiles
        rw [bind_of_ok hsend]
        exact hflush.trans hfiles
      | error e later =>
        rw [hsend] at hfiles
        rw [bind_of_error hsend]
        exact hflush.trans hfiles

theorem logs_teleport (hkeyed : ship.sessions.Keyed) (destination : Location) :
    ship.Logs client (ship.flushDumps.packetUses id client
        (Packet.teleportTransfer ship.teleporter.1.header destination).frame.toBytes)
      (ship.after (teleport id destination)) := by
  have hflush := logs_flushDumps hkeyed client
  have hkeyed' := (flushed_flushDumps hkeyed).calm.keyed hkeyed
  have hloaded : (ship.flushDumps.withObjects ship.teleporter.2).live? id =
      ship.flushDumps.live? id := rfl
  unfold after packetUses
  rw [teleport_eq]
  dsimp only
  rw [hloaded]
  cases hlive : ship.flushDumps.live? id with
  | none => exact hflush
  | some s =>
    obtain ⟨hs, -⟩ := live?_eq_some.mp hlive
    let frame := (Packet.teleportTransfer ship.teleporter.1.header destination).frame
    have hplaced : Session.line { s with location := destination } = s.line := rfl
    have hsent : s.Becomes (Use.sends [frame])
        ({ s with location := destination }.sendFrame frame) :=
      .congr hplaced rfl (.sendAll { s with location := destination } [frame])
    have hid := (Session.Unmoved.sendFrame { s with location := destination } frame).id.trans
      (hkeyed' id s hs)
    exact hflush.trans (logs_putSession hs hid hsent)

theorem logs_spawnClone (hkeyed : ship.sessions.Keyed) (name : String) (position : Position)
    (draw : UInt32) :
    ship.Logs client (ship.packetUses id client (clone name position draw).frame.toBytes)
      (ship.after (spawnClone id name position draw)) := by
  unfold after packetUses
  rw [spawnClone_eq]
  cases hlive : ship.live? id with
  | none => exact .of_same rfl
  | some s =>
    obtain ⟨hs, -⟩ := live?_eq_some.mp hlive
    have hid := (Session.Unmoved.sendPacket s (clone name position draw)).id.trans (hkeyed id s hs)
    exact logs_putSession hs hid (.one rfl fun _ => nofun)

theorem logs_announce (hs : ship.sessions[client]? = some s) (text : String) (kind : MessageKind) :
    ship.Logs client
      (if isAddressed s then Use.sends [(Packet.systemMessage text kind).frame] else [])
      (ship.after (announce text kind)) := by
  let packet := Packet.systemMessage text kind
  have hlater : (ship.after (announce text kind)).sessions =
      ship.sessions.map fun _ s => if isAddressed s then s.sendPacket packet else s := rfl
  have ht : (ship.after (announce text kind)).sessions[client]? =
      some (if isAddressed s then s.sendPacket packet else s) := by
    rw [hlater, Std.ExtTreeMap.getElem?_map, hs, Option.map_some]
  refine .of_some hs ht ?_
  split
  · exact .sendAll s [packet.frame]
  · exact .refl rfl

/-! ## Moving a session -/

theorem logs_moveToMap (H : ship.Consistent) (ref : MapRef) :
    ship.Logs client (ship.arrivalUses id client ref) (ship.after (moveToMap id ref)) := by
  unfold arrivalUses answer? after
  obtain ⟨e, hmove⟩ | ⟨s, s', map, location, zones, hlive, hrecorded, hmap, -, hmove⟩ :=
    moveToMap_cases H id ref
  · rw [hmove]
    exact .of_same rfl
  · obtain ⟨hs, -⟩ := live?_eq_some.mp hlive
    obtain ⟨i, hfind⟩ := ZoneRegistry.map_eq_ok.mp hmap
    obtain ⟨-, -, hname, -⟩ := H.agrees.of_find hfind
    have hflush := logs_flushDumps H.keyed client
    have hkeyed := (flushed_flushDumps H.keyed).calm.keyed H.keyed
    have hworld := (flushed_flushDumps H.keyed).world
    -- the objects are read after the move in the zones, which the disk does not see
    rw [flushDumps_withZones] at hmove
    have hobjects : (ship.flushDumps.withZones zones).world.objects = ship.world.objects := by
      rw [← hworld]
      rfl
    have hdisk : (ship.flushDumps.withZones zones).disk = ship.flushDumps.disk := rfl
    dsimp only at hmove
    rw [hobjects, hdisk, hname] at hmove
    rw [hmove]
    dsimp only
    generalize (ship.world.objects.objectsOf ship.flushDumps.disk ref.map).1 = objects
    by_cases hclient : id = client
    · subst hclient
      rw [Use.only, if_pos rfl]
      refine .of_some hs (getElem?_put _ ?_) ?_
      · exact (unmoved_arrive hrecorded ref location objects).id.trans (H.keyed id s hs)
      · rw [arrive_eq]
        obtain ⟨dump, rfl⟩ := hrecorded
        have hplaced : Session.line { s with dump, map := some ref, location } = s.line := rfl
        exact .congr hplaced rfl (.sendAll _ _)
    · rw [Use.only, if_neg hclient]
      refine hflush.trans (.of_same ?_)
      have hid := (unmoved_arrive hrecorded ref location objects).id.trans (H.keyed id s hs)
      dsimp only [putSession]
      rw [SessionTable.getElem?_put, hid, if_neg hclient]
      rfl

/-! ## Showing a new object -/

theorem logs_present (hkeyed : ship.sessions.Keyed) (hs : ship.sessions[id]? = some s)
    (object : WorldObject) :
    let frame := (Packet.objectSpawn object).frame
    ship.Logs client
      (if id = client then Use.sends [frame]
      else
        match ship.sessions[client]? with
        | none => []
        | some t => Use.sends (s.heardFrom (fun _ => some frame) t).toList)
      (ship.present id s object) := by
  intro frame
  have hpresent := getElem?_present hkeyed hs object client
  cases ht : ship.sessions[client]? with
  | none =>
    have hne : id ≠ client := by
      rintro rfl
      rw [hs] at ht
      cases ht
    rw [if_neg hne]
    exact .of_none ht (by rw [hpresent, ht, Option.map_none])
  | some t =>
    rw [ht, Option.map_some] at hpresent
    by_cases hclient : id = client
    · subst hclient
      cases hs.symm.trans ht
      rw [if_pos rfl]
      rw [if_pos (by simp [Session.sees])] at hpresent
      exact .of_some hs hpresent (.sendAll s [frame])
    · rw [if_neg hclient]
      refine .of_some ht (hpresent.trans ?_) (t.becomes_offered _)
      have hne : t.id ≠ s.id := by
        rw [hkeyed client t ht, hkeyed id s hs]
        exact Ne.symm hclient
      unfold Session.offered Session.heardFrom Session.sees
      cases s.map with
      | none => simp [hne]
      | some ref => cases h : t.hears ref <;> simp [hne, h, frame, Session.sendPacket]

theorem logs_spawnObject (H : ship.Consistent) (name : String) (location : Location)
    (draw : UInt64) :
    ship.Logs client (ship.objectUses id client name location draw)
      (ship.after (spawnObject id name location draw)) := by
  unfold objectUses
  cases hlive : ship.live? id with
  | none =>
    rw [after, spawnObject_eq, hlive]
    exact .of_same rfl
  | some s =>
    obtain ⟨hs, -⟩ := live?_eq_some.mp hlive
    rw [after_of_ok (H.spawnObject_of_live hlive name location draw)]
    generalize WorldObject.named (ship.world.objects.unusedId draw) name location = object
    have hpresent := calm_present H.keyed hs object
    have hflush := logs_flushDumps (hpresent.keyed H.keyed) client
    have hlogs := (logs_present H.keyed hs object).trans hflush
    rw [List.append_nil] at hlogs
    exact hlogs

/-! ## Ending a session -/

theorem logs_kick (hkeyed : ship.sessions.Keyed) (id client : ClientId) :
    ship.Logs client (Use.only id client [.close]) (ship.after (kick id)) := by
  unfold after
  rw [kick_eq]
  cases hs : ship.sessions[id]? with
  | some s => exact logs_putSession hs (hkeyed id s hs) (.one rfl fun _ => nofun)
  | none => exact logs_of_none hs

theorem logs_kicks (H : ship.Consistent) {ids : List ClientId} (hnodup : ids.Nodup) :
    ship.Logs client (if client ∈ ids then [.close] else []) (ship.kickEach ids) := by
  induction ids generalizing ship with
  | nil => exact .of_same rfl
  | cons id ids ih =>
    -- a session that is kicked stays in the table, so its number must not come again
    obtain ⟨hnew, hnodup⟩ := List.nodup_cons.mp hnodup
    have hfirst := logs_kick H.keyed id client
    have hrest := hfirst.trans (ih (H.kick id) hnodup)
    by_cases hclient : id = client
    · subst hclient
      rw [if_neg hnew, Use.only, if_pos rfl] at hrest
      rw [if_pos List.mem_cons_self]
      exact hrest
    · have hmem : client ∈ id :: ids ↔ client ∈ ids :=
        ⟨fun h => (List.mem_cons.mp h).resolve_left (Ne.symm hclient), List.mem_cons_of_mem _⟩
      rw [Use.only, if_neg hclient] at hrest
      rw [ite_congr (propext hmem) (fun _ => rfl) fun _ => rfl]
      exact hrest

theorem logs_kickAll (H : ship.Consistent) (hs : ship.sessions[client]? = some s) :
    ship.Logs client [.close] (ship.after kickAll) := by
  have hmem : client ∈ ship.sessions.ids := by
    apply Std.ExtTreeMap.mem_keys.mpr
    rw [← Std.ExtTreeMap.contains_iff_mem, Std.ExtTreeMap.contains_eq_isSome_getElem?, hs]
    rfl
  have hkicks : ship.Logs client _ (ship.kickEach ship.sessions.ids) :=
    logs_kicks H Std.ExtTreeMap.nodup_keys
  rw [if_pos hmem] at hkicks
  rw [after_of_ok (kickAll_eq ship)]
  exact hkicks

/-! ## Bytes of a client -/

theorem logs_receive (hkeyed : ship.sessions.Keyed) (data : Bytes) (clock : UInt64) :
    ship.Logs client (ship.chunkUses id client data clock) (ship.receive id data clock).2 := by
  unfold chunkUses
  cases hs : ship.sessions[id]? with
  | none =>
    rw [receive_of_none hs]
    exact .of_same rfl
  | some s =>
    have hid : s.id = id := hkeyed id s hs
    -- while its frames are handled the session is not among the others, so the steps are logged
    -- on the ship into which it would be put back
    have hback : ship.putBack (ship.taken s clock) = ship := by
      unfold putBack taken
      dsimp only
      rw [SessionTable.put_erase (hid.symm ▸ hs) rfl]
    have hopened : ship.opened id s data clock =
        { ship.taken s clock with session := (s.receive data).2 } := by
      rw [opened, taken, hid]
    have htakenId : (ship.taken s clock).session.id = id := hid
    have hopenedId : (ship.opened id s data clock).session.id = id :=
      (receive_fields s data).1.trans hid
    let done := (ship.opened id s data clock).dispatchAll ship.handlers
    have hreceive : ship.receive id data clock =
        (done.1, ship.putBack { done.2 with session := done.2.session.compact }) :=
      receive_eq hs data clock
    obtain ⟨hhandled, -⟩ := (ship.opened id s data clock).handled_dispatchAll ship.handlers
    have hcall : (Call.receive id data clock).concerns (ship.opened id s data clock).session.id :=
      hopenedId
    have hdoneId := (changes_handled ship hhandled hcall).2.trans hopenedId
    have hheard : (ship.putBack (ship.taken s clock)).Logs client _
        (ship.putBack { ship.taken s clock with session := (s.receive data).2 }) :=
      logs_session ship (receive_fields s data).1
        (.one rfl fun _ => nofun : s.Becomes [.hear data] _)
    rw [hback, ← hopened, htakenId] at hheard
    have hframes : (ship.putBack _).Logs client _ (ship.putBack _) := logs_handled ship hhandled
    have hcompact : (ship.putBack done.2).Logs client _
        (ship.putBack { done.2 with session := done.2.session.compact }) :=
      logs_session ship rfl (.one rfl fun _ => nofun : done.2.session.Becomes [.compact] _)
    rw [hdoneId] at hcompact
    rw [hreceive]
    exact (hheard.trans hframes).trans hcompact

theorem getElem?_connect (ship : Ship) (id client : ClientId) (address : SocketAddress) :
    ∃ s, (Session.new id).Becomes (Use.sends [Packet.welcome.frame]) s ∧
      (ship.connect id address).sessions[client]? =
        if id = client then some s else ship.sessions[client]? := by
  have hput {s : Session} (hid : s.id = id) (hline : s.line = (Session.new id).line) :
      (Session.new id).Becomes (Use.sends [Packet.welcome.frame]) (s.sendPacket .welcome) ∧
        (ship.sessions.put (s.sendPacket .welcome))[client]? =
          if id = client then some (s.sendPacket .welcome) else ship.sessions[client]? := by
    refine ⟨.congr hline rfl (.sendAll s [_]), ?_⟩
    rw [SessionTable.getElem?_put, (Session.Unmoved.sendPacket s _).id, hid]
  unfold connect
  dsimp only
  cases ship.newDump id with
  | none => exact ⟨_, hput rfl rfl⟩
  | some made => exact ⟨_, hput rfl rfl⟩

/-! ## Calls -/

theorem logs_adjust {f : Session → Session} (hkeyed : ship.sessions.Keyed)
    (hid : ∀ s : Session, (f s).id = s.id) (hf : ∀ s : Session, s.Becomes uses (f s)) :
    ship.Logs client (Use.only id client uses) (ship.adjust id f) := by
  unfold adjust
  cases hs : ship.sessions[id]? with
  | some s => exact logs_putSession hs ((hid s).trans (hkeyed id s hs)) (hf s)
  | none => exact logs_of_none hs

theorem logs_perform (H : ship.Consistent) (hfresh : ship.Fresh call)
    (hs : ship.sessions[client]? = some s) (hstay : call ≠ .disconnect client) :
    ship.Logs client (ship.lineUses client s call) (ship.perform call) := by
  cases call with
  | connect id address =>
    obtain ⟨t, -, ht⟩ := ship.getElem?_connect id client address
    have hid : id ≠ client := by
      rintro rfl
      rw [hfresh id rfl] at hs
      cases hs
    rw [if_neg hid] at ht
    exact .of_same ht
  | receive id data clock => exact logs_receive H.keyed data clock
  | disconnect id =>
    have hid : id ≠ client := fun h => hstay (h ▸ rfl)
    refine .of_same ?_
    dsimp only [perform, disconnect]
    cases ship.sessions[id]? with
    | none => rfl
    | some s =>
      dsimp only
      rw [Std.ExtTreeMap.getElem?_erase]
      simp [hid]
  | sendTo id frame => exact logs_sendRaw H.keyed frame.toBytes
  | sendRaw id packet => exact logs_sendRaw H.keyed packet
  | sendFile id path => exact logs_sendFile H.keyed path
  | sendDirectory id path => exact logs_sendDirectory H.keyed path
  | announce text kind => exact logs_announce hs text kind
  | kick id => exact logs_kick H.keyed id client
  | kickAll => exact logs_kickAll H hs
  | teleport id destination => exact logs_teleport H.keyed destination
  | moveToMap id ref => exact logs_moveToMap H ref
  | changeMap id request =>
    have hcreate : ship.Changes (.changeMap id request)
        (ship.withZones (ship.world.zones.create request.instanceName request.map).2) :=
      .one (.create _ rfl)
    have hmove : Logs _ client (arrivalUses _ id client _) _ :=
      logs_moveToMap (H.changes hcreate) ⟨request.instanceName, generatedMapName⟩
    exact hmove
  | spawnClone id name position draw => exact logs_spawnClone H.keyed name position draw
  | spawnObject id name location draw => exact logs_spawnObject H name location draw
  | createInstance name map hempty => exact .of_same rfl
  | addMap name map hempty => exact .of_same rfl
  | write id outcomes => exact logs_adjust H.keyed (fun _ => rfl) fun s => .one rfl fun _ => nofun
  | identify id user character =>
    have hsame : ship.Logs client (Use.only id client [])
        (ship.adjust id fun s => { s with user, character }) :=
      logs_adjust H.keyed (fun _ => rfl) fun s => .refl rfl
    unfold Use.only at hsame
    rw [ite_self] at hsame
    exact hsame
  | replaceDisk disk => exact .of_same rfl

/-- **What a call does with the line of a client**, unless it removes the session. -/
theorem logs_step (H : ship.Consistent) (hfresh : ship.Fresh call)
    (hs : ship.sessions[client]? = some s) (hstay : call ≠ .disconnect client) :
    ship.Logs client (ship.lineUses client s call) (ship.step call) := by
  have hflush := logs_flushDumps (H.changes (H.changes_perform hfresh)).keyed client
  have hlogs := (logs_perform H hfresh hs hstay).trans hflush
  rw [List.append_nil] at hlogs
  rw [step]
  exact hlogs

/-! ## Runs -/

/-- A client that is gone and does not connect stays away. -/
theorem getElem?_run_eq_none (H : ship.Consistent) (hdistinct : ship.Distinct calls)
    (hnone : ship.sessions[client]? = none) (hnew : client ∉ connections calls) :
    (ship.run calls).sessions[client]? = none := by
  induction calls generalizing ship with
  | nil => exact hnone
  | cons call calls ih =>
    rw [connections_cons] at hnew
    obtain ⟨hfirst, hrest⟩ := not_or.mp (mt List.mem_append.mpr hnew)
    have hchanges := H.changes_step hdistinct.first
    refine ih (H.changes hchanges) (hdistinct.step H) (hchanges.getElem?_eq_none H hnone ?_) hrest
    intro hcall
    exact hfirst (hcall ▸ List.mem_singleton_self client)

theorem getElem?_disconnect (ship : Ship) (id : ClientId) :
    (ship.disconnect id).sessions[id]? = none := by
  unfold disconnect
  cases hs : ship.sessions[id]? with
  | none => exact hs
  | some s => exact Std.ExtTreeMap.getElem?_erase_self

theorem getElem?_step_disconnect (H : ship.Consistent) (id : ClientId) :
    (ship.step (.disconnect id)).sessions[id]? = none := by
  have hperform : ship.Changes (.disconnect id) (ship.perform (.disconnect id)) :=
    H.changes_perform nofun
  rw [step, getElem?_flushDumps (H.changes hperform).keyed]
  exact congrArg (·.map Session.flushed) (ship.getElem?_disconnect id)

/-- **The log of a run.** What has become of the line of a client is what the log says, from the
session that was there or else from a new one. -/
theorem becomes_run (H : ship.Consistent) (hdistinct : ship.Distinct calls)
    (ht : (ship.run calls).sessions[client]? = some t) :
    (ship.sessions[client]?.getD (.new client)).Becomes (ship.usesOf client calls) t := by
  induction calls generalizing ship with
  | nil =>
    have ht : ship.sessions[client]? = some t := ht
    rw [ht]
    exact .refl rfl
  | cons call calls ih =>
    have hchanges := H.changes_step hdistinct.first
    have hrest := ih (H.changes hchanges) (hdistinct.step H) ht
    rw [usesOf, uses]
    cases hs : ship.sessions[client]? with
    | some s =>
      by_cases hgone : call = .disconnect client
      · -- a client connects once, so it would not be back
        subst hgone
        have hnew : client ∉ connections calls := fun hmem => by
          rw [hdistinct.fresh client hmem] at hs
          cases hs
        have hnone : (ship.step (.disconnect client)).sessions[client]? = none :=
          getElem?_step_disconnect H client
        have hlast := getElem?_run_eq_none (H.changes hchanges) (hdistinct.step H) hnone hnew
        rw [run, List.foldl_cons] at ht
        rw [run, ht] at hlast
        cases hlast
      · obtain ⟨m, hm, hbecomes⟩ := (logs_step H hdistinct.first hs hgone).exists_becomes hs
        rw [hm] at hrest
        exact hbecomes.trans hrest
    | none =>
      dsimp only
      by_cases hcall : call.connection? = some client
      · rw [if_pos hcall]
        cases call with
        | connect id address =>
          obtain rfl : id = client := Option.some.inj hcall
          obtain ⟨m, hgreeted, hm⟩ := ship.getElem?_connect id id address
          rw [if_pos rfl] at hm
          have hkeyed := (H.changes (H.changes_perform hdistinct.first)).keyed
          have hm : (ship.step (.connect id address)).sessions[id]? = some m.flushed := by
            rw [step, getElem?_flushDumps hkeyed]
            exact congrArg (·.map Session.flushed) hm
          rw [hm] at hrest
          exact (hgreeted.trans (becomes_recorded m.asRecorded_flushed)).trans hrest
        | _ => cases hcall
      · rw [if_neg hcall]
        rw [hchanges.getElem?_eq_none H hs hcall] at hrest
        exact hrest

end Ship

end GameShip
