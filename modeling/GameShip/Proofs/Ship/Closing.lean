import GameShip.Proofs.Ship.Traffic

/-!
# Closing is final

A session that is closed stays closed until its connection is gone. No frame of it is handled any
more, nothing more is put into its send queue, it is in no map, and no operation reaches it
(`Ship.closing_run`).

* `Use.written?`, `Ship.writes`: what connections are given of what waits.
* `Ship.Addressed`: the operations on the session of one client.
* `Ship.Dismissed`: a client that is nowhere and that no operation reaches.
-/

namespace GameShip

open Session (Use)

namespace Session

variable {s t : Session} {u : Use} {uses : List Use}

/-- What a connection is given when bytes are written to it. -/
def Use.written? : Use → Option (List WriteOutcome)
  | .write outcomes => some outcomes
  | _ => none

def Use.written (uses : List Use) : List (List WriteOutcome) := uses.filterMap written?

/-- What waits is written to a connection, time after time. -/
def egressAll (queue : SendQueue) (writes : List (List WriteOutcome)) : SendQueue :=
  writes.foldl (fun queue outcomes => (queue.egress outcomes).2) queue

theorem closed_use (h : s.closed = true) (u : Use) : (s.use u).closed = true := by
  cases u with
  | hear chunk =>
    rw [use]
    rcases receive_cases s chunk with hreceive | ⟨inbox, -, hreceive⟩
    · rwa [hreceive]
    · rwa [hreceive]
  | take =>
    rw [use, nextFrame?_of_closed h]
    exact h
  | send packet => rwa [use, closed_send]
  | compact => exact h
  | agree key => exact h
  | write outcomes => exact h
  | close => rfl

/-- A closed session sends nothing, so what waits only leaves the queue. -/
theorem outbox_use (h : s.closed = true) (u : Use) :
    (s.use u).outbox = egressAll s.outbox u.written?.toList := by
  cases u with
  | hear chunk => exact (outSide_receive s chunk).2
  | take => exact (outSide_take s).2
  | send packet =>
    rw [use, send, if_pos h]
    rfl
  | compact => rfl
  | agree key => rfl
  | write outcomes => rfl
  | close => rfl

theorem closed_useAll (h : s.closed = true) (uses : List Use) :
    (s.useAll uses).closed = true ∧
      (s.useAll uses).outbox = egressAll s.outbox (Use.written uses) := by
  induction uses generalizing s with
  | nil => exact ⟨h, rfl⟩
  | cons u uses ih =>
    obtain ⟨hclosed, houtbox⟩ := ih (closed_use h u)
    have hcons : Use.written (u :: uses) = u.written?.toList ++ Use.written uses := by
      unfold Use.written
      rw [List.filterMap_cons]
      cases u.written? <;> rfl
    refine ⟨hclosed, houtbox.trans ?_⟩
    rw [outbox_use h, hcons]
    exact List.foldl_append.symm

end Session

/-! ## Frames -/

namespace Context

variable {handlers : HandlerTable} {ctx mid later : Context} {frames more : List Frame}

/-- Handling all frames goes on from where handling some of them has come to. -/
theorem Handled.dispatchAll_eq (h : ctx.Handled handlers frames mid) :
    (ctx.dispatchAll handlers).1 = frames ++ (mid.dispatchAll handlers).1 := by
  induction h with
  | nil => rfl
  | @cons ctx later frame session frames hnext _ ih =>
    rw [dispatchAll_of_some hnext]
    exact congrArg _ ih

theorem Handled.append_inv (h : ctx.Handled handlers (frames ++ more) later) :
    ∃ mid, ctx.Handled handlers frames mid ∧ mid.Handled handlers more later := by
  induction frames generalizing ctx with
  | nil => exact ⟨ctx, .nil ctx, h⟩
  | cons frame frames ih =>
    cases h with
    | cons hnext hlater =>
      obtain ⟨mid, hfirst, hrest⟩ := ih hlater
      exact ⟨mid, .cons hnext hfirst, hrest⟩

theorem Handled.eq_nil_of_closed (h : ctx.Handled handlers frames later)
    (hclosed : ctx.session.closed = true) : frames = [] := by
  cases h with
  | nil => rfl
  | cons hnext =>
    rw [Session.nextFrame?_of_closed hclosed] at hnext
    cases hnext

end Context

/-! ## Writes -/

namespace Session.Use

variable {uses : List Use}

@[simp] theorem written_nil : written [] = [] := rfl

@[simp] theorem written_append (uses more : List Use) :
    written (uses ++ more) = written uses ++ written more := List.filterMap_append

@[simp] theorem written_sends (frames : List Frame) : written (sends frames) = [] := by
  unfold written sends
  rw [List.filterMap_map]
  exact List.filterMap_eq_nil_iff.mpr fun _ _ => rfl

theorem written_only (id client : ClientId) (h : written uses = []) :
    written (only id client uses) = [] := by
  unfold only
  split
  · exact h
  · rfl

end Session.Use

theorem Handler.written_own (h : Handler) (ctx : Context) (payload : Bytes) :
    Use.written (h.own ctx payload) = [] := by
  unfold own
  repeat' split
  all_goals rfl

theorem HandlerTable.written_uses (t : HandlerTable) (client : ClientId) (ctx : Context)
    (frame : Frame) : Use.written (t.uses client ctx frame) = [] := by
  unfold uses
  repeat' split
  · rfl
  · exact Handler.written_own ..
  · rfl
  · exact Use.written_sends _

theorem Context.written_uses (handlers : HandlerTable) (client : ClientId) (ctx : Context)
    (frames : List Frame) : Use.written (ctx.uses handlers client frames) = [] := by
  induction frames generalizing ctx with
  | nil => rfl
  | cons frame frames ih =>
    rw [uses, Use.written_append, Use.written_append, ih, HandlerTable.written_uses,
      Use.written_only _ _ rfl]
    rfl

namespace Ship

/-- What a connection is given by a call. -/
def Call.written? (client : ClientId) : Call → Option (List WriteOutcome)
  | .write id outcomes => if id = client then some outcomes else none
  | _ => none

/-- What the connection of a client is given of what waits for it. -/
def writes (client : ClientId) (calls : List Call) : List (List WriteOutcome) :=
  calls.filterMap (Call.written? client)

variable {ship : Ship} {id client : ClientId} {s t : Session} {call : Call}
  {calls : List Call}

theorem written_packetUses (ship : Ship) (id client : ClientId) (packet : Bytes) :
    Use.written (ship.packetUses id client packet) = [] := by
  unfold packetUses
  split
  · rfl
  · exact Use.written_only _ _ rfl

theorem written_fileUses (ship : Ship) (id client : ClientId) (path : String) :
    Use.written (ship.fileUses id client path) = [] := by
  unfold fileUses
  split
  · rfl
  · exact written_packetUses ..

theorem written_filesUses (ship : Ship) (id client : ClientId) (paths : List String) :
    Use.written (ship.filesUses id client paths) = [] := by
  induction paths generalizing ship with
  | nil => rfl
  | cons path paths ih =>
    rw [filesUses, Use.written_append, written_fileUses, List.nil_append]
    split
    · exact ih _
    · rfl

theorem written_lineUses (ship : Ship) (client : ClientId) (s : Session) (call : Call) :
    Use.written (ship.lineUses client s call) = (call.written? client).toList := by
  cases call with
  | write id outcomes =>
    rw [lineUses, Use.only, Call.written?]
    split <;> rfl
  | receive id data clock =>
    rw [lineUses, chunkUses]
    split
    · rfl
    · rw [Use.written_append, Use.written_append, Context.written_uses, Use.written_only _ _ rfl,
        Use.written_only _ _ rfl]
      rfl
  | sendTo | sendRaw | teleport | spawnClone => exact written_packetUses ..
  | sendFile => exact written_fileUses ..
  | sendDirectory id path =>
    rw [lineUses, directoryUses]
    split
    · exact written_filesUses ..
    · rfl
  | announce text kind =>
    rw [lineUses]
    split
    · exact Use.written_sends _
    · rfl
  | kick id => exact Use.written_only _ _ rfl
  | moveToMap | changeMap =>
    rw [lineUses, arrivalUses]
    split
    · rfl
    · exact Use.written_only _ _ (Use.written_sends _)
  | spawnObject id name location draw =>
    rw [lineUses, objectUses]
    repeat' split
    · rfl
    · exact Use.written_sends _
    · rfl
    · exact Use.written_sends _
  | _ => rfl

/-- As long as the session is there, all that is written to its connection comes from outside. -/
theorem written_usesOf (H : ship.Consistent) (hdistinct : ship.Distinct calls)
    (hs : ship.sessions[client]? = some s) (hstay : .disconnect client ∉ calls) :
    (∃ t, (ship.run calls).sessions[client]? = some t) ∧
      Use.written (ship.usesOf client calls) = writes client calls := by
  induction calls generalizing ship s with
  | nil => exact ⟨⟨s, hs⟩, rfl⟩
  | cons call calls ih =>
    obtain ⟨hfirst, hrest⟩ := not_or.mp (mt List.mem_cons.mpr hstay)
    obtain ⟨m, hm, -⟩ :=
      (logs_step H hdistinct.first hs (Ne.symm hfirst)).exists_becomes hs
    obtain ⟨hthere, hwritten⟩ := ih (H.changes (H.changes_step hdistinct.first))
      (hdistinct.step H) hm hrest
    refine ⟨hthere, ?_⟩
    rw [usesOf, uses, hs]
    dsimp only
    rw [Use.written_append, written_lineUses, hwritten, writes, writes, List.filterMap_cons]
    cases call.written? client <;> rfl

/-! ## A client without an open session -/

/-- No session of the client is open. -/
def Silent (ship : Ship) (client : ClientId) : Prop :=
  ∀ t, ship.sessions[client]? = some t → t.closed = true

theorem Silent.step (H : ship.Consistent) (h : ship.Silent client) (hfresh : ship.Fresh call)
    (hnew : call.connection? ≠ some client) : (ship.step call).Silent client := by
  intro t ht
  cases hs : ship.sessions[client]? with
  | none =>
    rw [(H.changes_step hfresh).getElem?_eq_none H hs hnew] at ht
    cases ht
  | some s =>
    by_cases hgone : call = .disconnect client
    · subst hgone
      rw [getElem?_step_disconnect H] at ht
      cases ht
    · obtain ⟨m, hm, hbecomes⟩ := (logs_step H hfresh hs hgone).exists_becomes hs
      cases hm.symm.trans ht
      rw [← Session.closed_eq hbecomes.line]
      exact (Session.closed_useAll (h s hs) _).1

theorem Silent.handed (h : ship.Silent client) (call : Call) : ship.handed client call = [] := by
  cases call with
  | receive id data clock =>
    rw [Ship.handed]
    split
    · rename_i hid
      subst hid
      cases hs : ship.sessions[id]? with
      | none => rw [receive_of_none hs]
      | some s =>
        have hclosed := (receive_fields s data).2.1.trans (h s hs)
        rw [receive_eq hs, Context.dispatchAll_of_closed hclosed]
    · rfl
  | _ => rfl

theorem Silent.run (H : ship.Consistent) (hdistinct : ship.Distinct calls)
    (h : ship.Silent client) (hnew : client ∉ connections calls) :
    ship.framesOf client calls = [] ∧ (ship.run calls).Silent client := by
  induction calls generalizing ship with
  | nil => exact ⟨rfl, h⟩
  | cons call calls ih =>
    rw [connections_cons] at hnew
    obtain ⟨hfirst, hrest⟩ := not_or.mp (mt List.mem_append.mpr hnew)
    have hcall : call.connection? ≠ some client := fun hcall =>
      hfirst (hcall ▸ List.mem_singleton_self client)
    obtain ⟨hframes, hsilent⟩ := ih (H.changes (H.changes_step hdistinct.first))
      (hdistinct.step H) (h.step H hdistinct.first hcall) hrest
    refine ⟨?_, hsilent⟩
    rw [framesOf, h.handed, hframes, List.nil_append]

/-- The operations on the session of a client. Those that read files may also fail at this. -/
inductive Addressed (id : ClientId) : (files : Bool) → {α : Type} → Operation α → Prop
  | sendTo (frame : Frame) : Addressed id false (sendTo id frame)
  | sendRaw (packet : Bytes) : Addressed id false (sendRaw id packet)
  | sendFile (path : String) : Addressed id true (sendFile id path)
  | sendDirectory (path : String) : Addressed id true (sendDirectory id path)
  | teleport (destination : Location) : Addressed id false (teleport id destination)
  | moveToMap (ref : MapRef) : Addressed id false (moveToMap id ref)
  | changeMap (request : MapRequest) : Addressed id false (changeMap id request)
  | spawnClone (name : String) (position : Position) (draw : UInt32) :
      Addressed id false (spawnClone id name position draw)
  | spawnObject (name : String) (location : Location) (draw : UInt64) :
      Addressed id false (spawnObject id name location draw)

/-- An operation finds no open session of the client, or no file. -/
def Refuses {α : Type} (ship : Ship) (client : ClientId) (files : Bool) (x : Operation α) : Prop :=
  (∃ later, x ship = .error (.sessionNotFound client) later) ∨
    files = true ∧ ∃ cause later, x ship = .error (.file cause) later

/-- A client that is nowhere and that no operation reaches. -/
structure Dismissed (ship : Ship) (client : ClientId) : Prop where
  nowhere : ∀ (name : String) (i : Instance) (map : GameMap),
    ship.world.zones.instance? name = some i → map ∈ i.maps → client ∉ map.clients
  refused : ∀ {files : Bool} {α : Type} {x : Operation α},
    Addressed client files x → ship.Refuses client files x

theorem Silent.live?_eq_none (h : ship.Silent client) : ship.live? client = none := by
  cases hlive : ship.live? client with
  | none => rfl
  | some s =>
    obtain ⟨hs, hopen⟩ := live?_eq_some.mp hlive
    cases (h s hs).symm.trans hopen

theorem Silent.flushDumps (hkeyed : ship.sessions.Keyed) (h : ship.Silent client) :
    ship.flushDumps.Silent client := fun t ht => by
  obtain ⟨s, hs, hsame⟩ := (flushed_flushDumps hkeyed).sessions.of_some_right ht
  exact hsame.unmoved.closed.trans (h s hs)

theorem Silent.refused (hkeyed : ship.sessions.Keyed) (h : ship.Silent client) {files : Bool}
    {α : Type} {x : Operation α} (haddressed : Addressed client files x) :
    ship.Refuses client files x := by
  have hgone := h.live?_eq_none
  have hgone' := (h.flushDumps hkeyed).live?_eq_none
  cases haddressed with
  | sendTo frame => exact .inl ⟨ship, by rw [sendTo, bind_liveSession, hgone]⟩
  | sendRaw packet => exact .inl ⟨ship, by rw [sendRaw_eq, hgone]⟩
  | sendFile path =>
    unfold Refuses
    rw [sendFile_eq]
    cases ship.captured path with
    | error cause => exact .inr ⟨rfl, cause, _, rfl⟩
    | ok packet =>
      refine .inl ⟨ship.flushDumps, ?_⟩
      dsimp only
      rw [sendRaw_eq, hgone']
  | sendDirectory path => exact .inl ⟨ship, by rw [sendDirectory_eq, hgone]⟩
  | teleport destination =>
    have hloaded : (ship.flushDumps.withObjects ship.teleporter.2).live? client = none := hgone'
    refine .inl ⟨ship.flushDumps.withObjects ship.teleporter.2, ?_⟩
    rw [teleport_eq]
    dsimp only
    rw [hloaded]
  | moveToMap ref => exact .inl ⟨ship, by rw [moveToMap_eq, hgone]⟩
  | changeMap request =>
    let created := ship.withZones (ship.world.zones.create request.instanceName request.map).2
    have hcreated : created.live? client = none := hgone
    have hmove : changeMap client request ship =
        moveToMap client ⟨request.instanceName, generatedMapName⟩ created := rfl
    exact .inl ⟨created, by rw [hmove, moveToMap_eq, hcreated]⟩
  | spawnClone name position draw => exact .inl ⟨ship, by rw [spawnClone_eq, hgone]⟩
  | spawnObject name location draw => exact .inl ⟨ship, by rw [spawnObject_eq, hgone]⟩

theorem Consistent.dismissed (H : ship.Consistent) (h : ship.Silent client) :
    ship.Dismissed client where
  nowhere name i map hi hmap hmem := by
    obtain ⟨s, hs, hplace⟩ := (H.occupancy.mem_iff name i map client hi hmap).mp hmem
    rw [H.closed client s hs (h s hs)] at hplace
    cases hplace
  refused := h.refused H.keyed

/-- A connection that is lost does not come back. -/
theorem getElem?_run_eq_none_iff (H : ship.Consistent) (hdistinct : ship.Distinct calls)
    (hs : ship.sessions[client]? = some s) :
    (ship.run calls).sessions[client]? = none ↔ .disconnect client ∈ calls := by
  constructor
  · intro hnone
    by_contra hstay
    obtain ⟨⟨t, ht⟩, -⟩ := written_usesOf H hdistinct hs hstay
    rw [hnone] at ht
    cases ht
  · intro hgone
    obtain ⟨before, after, rfl⟩ := List.append_of_mem hgone
    have hnew : client ∉ connections after := fun hmem => by
      have hconnects : client ∈ connections (before ++ .disconnect client :: after) := by
        rw [connections_append, connections_cons]
        exact List.mem_append_right _ (List.mem_append_right _ hmem)
      rw [hdistinct.fresh client hconnects] at hs
      cases hs
    have hrest := hdistinct.run H
    have H' := H.run hdistinct.left
    have hchanges := H'.changes_step hrest.first
    have hlost := getElem?_step_disconnect H' client
    have hnever : (((ship.run before).step (.disconnect client)).run after).sessions[client]? =
        none :=
      getElem?_run_eq_none (H'.changes hchanges) (hrest.step H') hlost hnew
    rw [run_append]
    exact hnever

/-- In a chunk nothing is handled behind the frame that closes the session. -/
theorem receive_of_handled (hs : ship.sessions[id]? = some s) {data : Bytes} {clock : UInt64}
    {frames : List Frame} {ctx : Context}
    (h : (ship.opened id s data clock).Handled ship.handlers frames ctx)
    (hclosed : ctx.session.closed = true) : (ship.receive id data clock).1 = frames := by
  rw [receive_eq hs]
  refine h.dispatchAll_eq.trans ?_
  rw [Context.dispatchAll_of_closed hclosed, List.append_nil]

theorem receive_of_logout (hs : ship.sessions[id]? = some s) {data : Bytes} {clock : UInt64}
    {before after : List Frame} {frame : Frame}
    (h : (ship.receive id data clock).1 = before ++ frame :: after)
    (hlogout : ship.handlers.get? frame.opcode = some .logout) : after = [] := by
  obtain ⟨hhandled, -⟩ := (ship.opened id s data clock).handled_dispatchAll ship.handlers
  rw [receive_eq hs] at h
  have hframes : ((ship.opened id s data clock).dispatchAll ship.handlers).1 =
    before ++ frame :: after := h
  rw [hframes] at hhandled
  obtain ⟨mid, -, hrest⟩ := hhandled.append_inv
  cases hrest with
  | cons _ hlater =>
    apply hlater.eq_nil_of_closed
    unfold HandlerTable.dispatch
    rw [hlogout]
    rfl

/-- A ship with any handlers to which nothing has happened yet. -/
def launched (handlers : HandlerTable) (resources : String) (dumpRoot : Option DiskPath)
    (disk : Disk) : Ship :=
  { world := .new resources, handlers, dumpRoot, disk }

theorem consistent_launched (handlers : HandlerTable) (resources : String)
    (dumpRoot : Option DiskPath) (disk : Disk) :
    (launched handlers resources dumpRoot disk).Consistent :=
  have H := consistent_start .plain resources dumpRoot disk
  ⟨H.keyed, H.closed, H.agrees⟩

/-- **Closing is final.** When a session is closed while frames are handled, those that are left are
not handled. After that, whatever is called, no frame of the client is handled, the session stays
closed and in no map until its connection is gone, and what waits to be sent only gets less when it
is written to the connection. No map has the client, and every operation on its session fails. -/
theorem closing_run (handlers : HandlerTable) (resources : String) (dumpRoot : Option DiskPath)
    (disk : Disk) (calls later : List Call) (client : ClientId) (s : Session)
    (hnodup : (connections (calls ++ later)).Nodup)
    (hs : ((launched handlers resources dumpRoot disk).run calls).sessions[client]? = some s) :
    let ship := (launched handlers resources dumpRoot disk).run calls
    let last := ship.run later
    (∀ data clock,
      let frames := (ship.receive client data clock).1
      (∀ handled ctx, (ship.opened client s data clock).Handled handlers handled ctx →
        ctx.session.closed = true → frames = handled) ∧
      ∀ before frame after, frames = before ++ frame :: after →
        handlers.get? frame.opcode = some .logout → after = []) ∧
    (s.closed = true →
      ship.framesOf client later = [] ∧
      (last.sessions[client]? = none ↔ .disconnect client ∈ later) ∧
      (∀ t, last.sessions[client]? = some t → t.closed = true ∧ t.map = none ∧
        t.outbox = Session.egressAll s.outbox (writes client later)) ∧
      last.Dismissed client) := by
  intro ship last
  have H₀ := consistent_launched handlers resources dumpRoot disk
  have hdistinct₀ : (launched handlers resources dumpRoot disk).Distinct (calls ++ later) :=
    ⟨hnodup, fun _ _ => Std.ExtTreeMap.getElem?_empty⟩
  have H : ship.Consistent := H₀.run hdistinct₀.left
  have hdistinct : ship.Distinct later := hdistinct₀.run H₀
  have hhandlers : ship.handlers = handlers := H₀.handlers_run hdistinct₀.left
  refine ⟨fun data clock => ⟨fun handled ctx hhandled hclosed => ?_, ?_⟩, fun hclosed => ?_⟩
  · rw [← hhandlers] at hhandled
    exact receive_of_handled hs hhandled hclosed
  · intro before frame after hframes hlogout
    rw [← hhandlers] at hlogout
    exact receive_of_logout hs hframes hlogout
  · have hsilent : ship.Silent client := fun t ht => by
      cases hs.symm.trans ht
      exact hclosed
    have hnew : client ∉ connections later := fun hmem => by
      cases hs.symm.trans (hdistinct.fresh client hmem)
    obtain ⟨hframes, hlast⟩ := hsilent.run H hdistinct hnew
    have Hlast : last.Consistent := H.run hdistinct
    have hgone := getElem?_run_eq_none_iff H hdistinct hs
    refine ⟨hframes, hgone, fun t ht => ?_, Hlast.dismissed hlast⟩
    have hstay : .disconnect client ∉ later := fun hmem => by
      cases ht.symm.trans (hgone.mpr hmem)
    obtain ⟨-, hwritten⟩ := written_usesOf H hdistinct hs hstay
    have hbecomes := becomes_run H hdistinct ht
    rw [hs, Option.getD_some] at hbecomes
    have houtbox := (Session.closed_useAll hclosed (ship.usesOf client later)).2
    rw [hwritten] at houtbox
    refine ⟨hlast t ht, Hlast.closed client t ht (hlast t ht), ?_⟩
    exact (congrArg (·.outbox) hbecomes.line).symm.trans houtbox

/-- The standard handlers have one that closes the session. -/
example (u : KeyUnwrapper) : (HandlerTable.standard u).get? ⟨0x11, 0x2B⟩ = some .logout := rfl

/-- A client that logs out is not heard any more, neither behind the logout nor later, but still
gets what waits for it. -/
theorem closing_run_logout :
    let logout : Frame := { opcode := Opcode.Client.logout }
    let ping : Frame := { opcode := Opcode.Client.pingResponse }
    let calls : List Call := [.connect 1 ⟨.v4 127 0 0 1, 50000, 0⟩,
      .receive 1 (logout.toBytes ++ ping.toBytes) 4]
    let later : List Call := [.connect 2 ⟨.v4 127 0 0 1, 50001, 0⟩, .receive 1 ping.toBytes 7,
      .write 1 [.accepts 3]]
    let ship := (launched (.standard .plain) "" none {}).run calls
    (connections (calls ++ later)).Nodup ∧ ∃ s, ship.sessions[(1 : ClientId)]? = some s ∧
      s.closed = true ∧ ship.framesOf 1 later = [] ∧ ∃ t,
        (ship.run later).sessions[(1 : ClientId)]? = some t ∧
          t.outbox = (s.outbox.egress [.accepts 3]).2 ∧ (ship.run later).Dismissed 1 := by
  intro logout ping calls later ship
  have hnodup : (connections (calls ++ later)).Nodup := by decide
  have hsession : ship.sessions[(1 : ClientId)]?.map (·.closed) = some true := by decide +kernel
  obtain ⟨s, hs, hclosed⟩ := Option.map_eq_some_iff.mp hsession
  obtain ⟨-, h⟩ := closing_run (.standard .plain) "" none {} calls later 1 s hnodup hs
  obtain ⟨hframes, hgone, hlast, hdismissed⟩ := h hclosed
  have hstay : .disconnect 1 ∉ later := by simp [later]
  obtain ⟨t, ht⟩ := Option.ne_none_iff_exists'.mp (mt hgone.mp hstay)
  exact ⟨hnodup, s, hs, hclosed, hframes, t, ht, (hlast t ht).2.2, hdismissed⟩

end Ship

end GameShip
