import GameShip.Proofs.Object.History
import GameShip.Proofs.Ship.Operation
import GameShip.Proofs.Ship.Standard

/-!
# What leaves the sessions where they are

Most of what happens to a ship only sends something: every session stays where it is and goes on to
hear its client (`Ship.Calm`). An operation of which this is true of every step is quiet
(`Ship.Quiet`).

* `Session.Unmoved`: a session that stays where it is, undisturbed.
* `Session.sees`: a session is shown what appears beside another.
* `SessionTable.Rel`: the same connections with related sessions.
* `Ship.flushed_flushDumps`: writing the records to the disk changes nothing else.
* `Ship.quiet_sendTo` and so on: the quiet operations.
-/

namespace GameShip

/-- A session that stays where it is, and goes on to hear its client as before. -/
structure Session.Unmoved (s t : Session) : Prop extends Session.Undisturbed s t where
  map : t.map = s.map

namespace Session.Unmoved

variable {s t r : Session}

theorem refl (s : Session) : Unmoved s s := ⟨.refl s, rfl⟩

theorem trans (h : s.Unmoved t) (h' : t.Unmoved r) : s.Unmoved r :=
  ⟨⟨h'.id.trans h.id, h'.closed.trans h.closed, h'.cipher.trans h.cipher, h'.inbox.trans h.inbox⟩,
    h'.map.trans h.map⟩

theorem send (s : Session) (packet : Bytes) : Unmoved s (s.send packet) := by
  unfold Session.send recordSent enqueue
  dsimp only
  repeat' split
  all_goals exact ⟨⟨rfl, rfl, rfl, rfl⟩, rfl⟩

theorem sendFrame (s : Session) (frame : Frame) : Unmoved s (s.sendFrame frame) := send s _

theorem sendPacket (s : Session) (packet : Packet) : Unmoved s (s.sendPacket packet) := send s _

end Session.Unmoved

/-- A session is shown what appears beside another: by that one itself, and by all that hear what
happens in its map. -/
def Session.sees (t s : Session) : Bool := t.id = s.id || s.map.any t.hears

/-- Two sessions that differ at most in what has been recorded. -/
def Session.AsRecorded (s t : Session) : Prop := ∃ dump, t = { s with dump }

theorem Session.AsRecorded.trans {s t r : Session} (h : s.AsRecorded t) (h' : t.AsRecorded r) :
    s.AsRecorded r := by
  obtain ⟨_, rfl⟩ := h
  obtain ⟨dump, rfl⟩ := h'
  exact ⟨dump, rfl⟩

theorem Session.AsRecorded.unmoved {s t : Session} (h : s.AsRecorded t) : s.Unmoved t := by
  obtain ⟨_, rfl⟩ := h
  exact ⟨⟨rfl, rfl, rfl, rfl⟩, rfl⟩

namespace SessionTable

/-- The tables have the same connections, and sessions that are related. -/
def Rel (R : Session → Session → Prop) (t t' : SessionTable) : Prop :=
  ∀ id : ClientId, Option.Rel R t[id]? t'[id]?

/-- Every session stands under its own connection. -/
def Keyed (t : SessionTable) : Prop :=
  ∀ (id : ClientId) (s : Session), t[id]? = some s → s.id = id

variable {R : Session → Session → Prop} {t t' t'' : SessionTable} {id : ClientId} {s s' : Session}

theorem getElem?_put (t : SessionTable) (s : Session) (id : ClientId) :
    (t.put s)[id]? = if s.id = id then some s else t[id]? := by
  simp [put, Std.ExtTreeMap.getElem?_insert]

theorem put_put (t : SessionTable) (h : s'.id = s.id) : (t.put s).put s' = t.put s' := by
  refine Std.ExtTreeMap.ext_getElem? fun id => ?_
  rw [getElem?_put, getElem?_put, getElem?_put, h]
  split <;> rfl

/-- A session that is taken out, and one put in its place. -/
theorem erase_put (t : SessionTable) (hid : s.id = id) : put (t.erase id) s = t.put s := by
  refine Std.ExtTreeMap.ext_getElem? fun other => ?_
  rw [getElem?_put, getElem?_put, hid]
  split
  · rfl
  · rename_i hne
    simp [Std.ExtTreeMap.getElem?_erase, hne]

/-- A session that is put where it already is. -/
theorem put_self (h : t[id]? = some s) (hid : s.id = id) : t.put s = t := by
  refine Std.ExtTreeMap.ext_getElem? fun other => ?_
  rw [getElem?_put, hid]
  split
  · rename_i heq
    rw [← heq, h]
  · rfl

/-- A session that is taken out and put back. -/
theorem put_erase (h : t[id]? = some s) (hid : s.id = id) : put (t.erase id) s = t :=
  (erase_put t hid).trans (put_self h hid)

theorem Rel.refl (hR : ∀ s, R s s) (t : SessionTable) : Rel R t t := fun id => by
  cases t[id]? with
  | none => exact .none
  | some s => exact .some (hR s)

theorem Rel.trans (hR : ∀ {s s' s''}, R s s' → R s' s'' → R s s'') (h : Rel R t t')
    (h' : Rel R t' t'') : Rel R t t'' := fun id => by
  have h := h id
  have h' := h' id
  generalize t[id]? = o, t'[id]? = o', t''[id]? = o'' at h h'
  cases h with
  | none => exact h'
  | some hs => cases h' with | some hs' => exact .some (hR hs hs')

theorem Rel.mono {R' : Session → Session → Prop} (hR : ∀ {s s'}, R s s' → R' s s')
    (h : Rel R t t') : Rel R' t t' := fun id => by
  have h := h id
  generalize t[id]? = o, t'[id]? = o' at h
  cases h with
  | none => exact .none
  | some hs => exact .some (hR hs)

theorem Rel.of_some (h : Rel R t t') (hs : t[id]? = some s) : ∃ s', t'[id]? = some s' ∧ R s s' := by
  have h := h id
  rw [hs] at h
  generalize t'[id]? = o' at h
  cases h with | some hr => exact ⟨_, rfl, hr⟩

theorem Rel.of_some_right (h : Rel R t t') (hs : t'[id]? = some s') :
    ∃ s, t[id]? = some s ∧ R s s' := by
  have h := h id
  rw [hs] at h
  generalize t[id]? = o at h
  cases h with | some hr => exact ⟨_, rfl, hr⟩

/-- Related sessions are put into related tables. -/
theorem Rel.put (h : Rel R t t') (hid : s'.id = s.id) (hs : R s s') :
    Rel R (t.put s) (t'.put s') := fun id => by
  rw [getElem?_put, getElem?_put, hid]
  split
  · exact .some hs
  · exact h id

/-- A related session is put in the place of one. -/
theorem Rel.put_right (hR : ∀ s, R s s) (hs : t[s'.id]? = some s) (h : R s s') :
    Rel R t (t.put s') := fun id => by
  rw [getElem?_put]
  split
  · rename_i hid
    rw [← hid, hs]
    exact .some h
  · exact Rel.refl hR t id

theorem Rel.map {f : ClientId → Session → Session} (hf : ∀ id s, R s (f id s)) :
    Rel R t (t.map f) := fun id => by
  rw [Std.ExtTreeMap.getElem?_map]
  cases t[id]? with
  | none => exact .none
  | some s => exact .some (hf id s)

theorem Rel.broadcast (hR : ∀ s, R s s) {f : Session → Session} (hf : ∀ s, R s (f s))
    (t : SessionTable) (map : MapRef) (except : ClientId) :
    Rel R t (t.broadcast map except f) := by
  refine Rel.map fun id s => ?_
  split
  · exact hf s
  · exact hR s

theorem Rel.keyed (h : Rel R t t') (hR : ∀ {s s'}, R s s' → s'.id = s.id) (hkeyed : t.Keyed) :
    t'.Keyed := fun id s' hs' => by
  obtain ⟨s, hs, hr⟩ := h.of_some_right hs'
  exact (hR hr).trans (hkeyed id s hs)

end SessionTable

namespace Ship

/-- A ship that differs at most in what is on the disk and in the records of the sessions. -/
structure Flushed (ship later : Ship) : Prop where
  handlers : later.handlers = ship.handlers
  world : later.world = ship.world
  sessions : SessionTable.Rel Session.AsRecorded ship.sessions later.sessions

/-- A ship on which every session stays where it is and goes on to hear its client. Zones and
parties are the same, and the objects have only been used. -/
structure Calm (ship later : Ship) : Prop where
  handlers : later.handlers = ship.handlers
  zones : later.world.zones = ship.world.zones
  parties : later.world.parties = ship.world.parties
  objects : ship.world.objects.Reaches later.world.objects
  sessions : SessionTable.Rel Session.Unmoved ship.sessions later.sessions

variable {α β : Type} {ship later last : Ship} {id : ClientId} {s t : Session}

namespace Calm

theorem of_sessions {sessions : SessionTable}
    (h : SessionTable.Rel Session.Unmoved ship.sessions sessions) :
    ship.Calm { ship with sessions } := ⟨rfl, rfl, rfl, .refl _, h⟩

theorem refl (ship : Ship) : ship.Calm ship := of_sessions (.refl .refl _)

theorem trans (h : ship.Calm later) (h' : later.Calm last) : ship.Calm last where
  handlers := h'.handlers.trans h.handlers
  zones := h'.zones.trans h.zones
  parties := h'.parties.trans h.parties
  objects := h.objects.trans h'.objects
  sessions := h.sessions.trans .trans h'.sessions

theorem keyed (h : ship.Calm later) (hkeyed : ship.sessions.Keyed) : later.sessions.Keyed :=
  h.sessions.keyed (fun h => h.id) hkeyed

theorem putSession (hs : ship.sessions[id]? = some s) (hid : s.id = id) (h : s.Unmoved t) :
    ship.Calm (ship.putSession t) :=
  of_sessions (.put_right .refl ((h.id.trans hid).symm ▸ hs) h)

theorem withObjects {objects : ObjectRegistry} (h : ship.world.objects.Reaches objects) :
    ship.Calm (ship.withObjects objects) := ⟨rfl, rfl, rfl, h, .refl .refl _⟩

theorem adjust {f : Session → Session} (hkeyed : ship.sessions.Keyed)
    (hf : ∀ s : Session, s.Unmoved (f s)) : ship.Calm (ship.adjust id f) := by
  unfold Ship.adjust
  split
  · rename_i s hs
    exact putSession hs (hkeyed id s hs) (hf s)
  · exact refl ship

end Calm

/-! ## Records -/

theorem Flushed.calm (h : ship.Flushed later) : ship.Calm later where
  handlers := h.handlers
  zones := by rw [h.world]
  parties := by rw [h.world]
  objects := by rw [h.world]; exact .refl _
  sessions := h.sessions.mono Session.AsRecorded.unmoved

theorem flushed_flushDump (hkeyed : ship.sessions.Keyed) (id : ClientId) :
    ship.Flushed (ship.flushDump id) := by
  have hrefl : ship.Flushed ship := ⟨rfl, rfl, .refl (fun s => ⟨s.dump, rfl⟩) _⟩
  unfold flushDump
  split
  · exact hrefl
  · rename_i s hs
    split
    · exact hrefl
    · exact ⟨rfl, rfl, .put_right (fun s => ⟨s.dump, rfl⟩) (hkeyed id s hs ▸ hs) ⟨_, rfl⟩⟩

theorem flushed_flushDumps (hkeyed : ship.sessions.Keyed) : ship.Flushed ship.flushDumps := by
  unfold flushDumps
  generalize SessionTable.ids ship.sessions = ids
  induction ids generalizing ship with
  | nil => exact ⟨rfl, rfl, .refl (fun s => ⟨s.dump, rfl⟩) _⟩
  | cons id ids ih =>
    have hfirst := flushed_flushDump hkeyed id
    have hrest := ih (hfirst.calm.keyed hkeyed)
    exact ⟨hrest.handlers.trans hfirst.handlers, hrest.world.trans hfirst.world,
      hfirst.sessions.trans .trans hrest.sessions⟩

/-! ## Quiet operations -/

/-- An operation that leaves every session where it is, whatever comes of it. -/
def Quiet (x : Operation α) : Prop := ∀ ship : Ship, ship.sessions.Keyed → ship.Calm (ship.after x)

theorem Quiet.pure (a : α) : Quiet (pure a : Operation α) := fun ship _ => .refl ship

theorem Quiet.throw (e : WorldError) : Quiet (throw e : Operation α) := fun ship _ => .refl ship

theorem Quiet.bind {x : Operation α} {f : α → Operation β} (hx : Quiet x) (hf : ∀ a, Quiet (f a)) :
    Quiet (x >>= f) := fun ship hkeyed => by
  have hcalm := hx ship hkeyed
  cases h : x ship with
  | ok a later =>
    rw [after_of_ok h] at hcalm
    rw [after, bind_of_ok h]
    exact hcalm.trans (hf a later (hcalm.keyed hkeyed))
  | error e later =>
    rw [after_of_error h] at hcalm
    rwa [after_of_error (bind_of_error h)]

theorem quiet_currentDisk : Quiet currentDisk := fun _ hkeyed => (flushed_flushDumps hkeyed).calm

theorem quiet_fromDisk (access : Disk → Except FileError α) : Quiet (fromDisk access) := by
  refine quiet_currentDisk.bind fun disk => ?_
  split
  · exact .pure _
  · exact .throw _

theorem quiet_onObjects {act : ObjectRegistry → Disk → α × ObjectRegistry}
    (h : ∀ (objects : ObjectRegistry) disk, objects.Reaches (act objects disk).2) :
    Quiet (onObjects act) := by
  intro ship hkeyed
  rw [after_of_ok (onObjects_eq ship act)]
  exact (flushed_flushDumps hkeyed).calm.trans (.withObjects (h ..))

/-- An operation on a session that is not closed. -/
theorem quiet_liveSession {f : Session → Operation α} (h : ∀ (ship : Ship) s, ship.sessions.Keyed →
    ship.sessions[id]? = some s → s.id = id → ship.Calm (ship.after (f s))) :
    Quiet (liveSession id >>= f) := by
  intro ship hkeyed
  unfold after
  rw [bind_liveSession]
  cases hlive : ship.live? id with
  | none => exact .refl ship
  | some s =>
    obtain ⟨hs, -⟩ := live?_eq_some.mp hlive
    exact h ship s hkeyed hs (hkeyed id s hs)

theorem quiet_sendTo (id : ClientId) (frame : Frame) : Quiet (sendTo id frame) :=
  quiet_liveSession fun _ s _ hs hid => .putSession hs hid (.sendFrame s frame)

theorem quiet_sendRaw (id : ClientId) (packet : Bytes) : Quiet (sendRaw id packet) :=
  quiet_liveSession fun _ s _ hs hid => .putSession hs hid (.send s packet)

theorem quiet_sendFile (id : ClientId) (path : String) : Quiet (sendFile id path) := by
  refine (quiet_fromDisk _).bind fun capture => ?_
  split
  · exact (Quiet.throw _).bind fun _ => quiet_sendRaw id _
  · exact (Quiet.pure _).bind fun _ => quiet_sendRaw id _

theorem quiet_sendFiles (id : ClientId) (paths : List String) : Quiet (sendFiles id paths) := by
  induction paths with
  | nil => exact .pure _
  | cons path paths ih => exact (quiet_sendFile id path).bind fun _ => ih

theorem quiet_sendDirectory (id : ClientId) (path : String) : Quiet (sendDirectory id path) :=
  quiet_liveSession fun ship _ hkeyed _ _ =>
    (quiet_fromDisk _).bind (fun paths => (quiet_sendFiles id paths).bind fun _ => .pure _)
      ship hkeyed

theorem quiet_announce (text : String) (kind : MessageKind) : Quiet (announce text kind) :=
  fun ship _ => .of_sessions (.map fun _ s => by
    split
    · exact .sendPacket s _
    · exact .refl s)

theorem quiet_teleport (id : ClientId) (destination : Location) :
    Quiet (teleport id destination) := by
  refine (quiet_onObjects fun objects disk => ?_).bind fun teleporter => ?_
  · exact .step objects disk (.objectIn ZoneRegistry.lobby teleporterId)
  · refine quiet_liveSession fun ship s _ hs hid => .putSession hs hid ?_
    have hplaced : s.Unmoved { s with location := destination } := ⟨⟨rfl, rfl, rfl, rfl⟩, rfl⟩
    exact hplaced.trans (.sendPacket ..)

theorem quiet_spawnClone (id : ClientId) (name : String) (position : Position) (draw : UInt32) :
    Quiet (spawnClone id name position draw) :=
  quiet_liveSession fun _ s _ hs hid => .putSession hs hid (.sendPacket s _)

theorem world_present (ship : Ship) (id : ClientId) (s : Session) (object : WorldObject) :
    (ship.present id s object).world = ship.world := by
  unfold present
  dsimp only
  split <;> rfl

/-- A new object is shown to every session that sees it, once. -/
theorem getElem?_present (hkeyed : ship.sessions.Keyed) (hs : ship.sessions[id]? = some s)
    (object : WorldObject) (other : ClientId) :
    (ship.present id s object).sessions[other]? = ship.sessions[other]?.map fun t =>
      if t.sees s then t.sendPacket (.objectSpawn object) else t := by
  have hid : s.id = id := hkeyed id s hs
  have hsent : (s.sendPacket (.objectSpawn object)).id = id :=
    (Session.Unmoved.sendPacket s _).id.trans hid
  have hshown : (ship.putSession (s.sendPacket (.objectSpawn object))).sessions[other]? =
      if id = other then some (s.sendPacket (.objectSpawn object))
      else ship.sessions[other]? := by
    dsimp only [putSession]
    rw [SessionTable.getElem?_put, hsent]
  unfold present
  dsimp only
  by_cases hother : id = other
  · subst hother
    rw [if_pos rfl] at hshown
    rw [hs, Option.map_some, if_pos (by simp [Session.sees])]
    cases s.map with
    | none => exact hshown
    | some ref =>
      -- the broadcast leaves out the session itself
      dsimp only [SessionTable.broadcast]
      rw [Std.ExtTreeMap.getElem?_map, hshown, Option.map_some, hsent]
      simp
  · rw [if_neg hother] at hshown
    have hsees {t : Session} (ht : ship.sessions[other]? = some t) :
        t.sees s = s.map.any t.hears := by
      have hne : t.id ≠ s.id := by
        rw [hkeyed other t ht, hid]
        exact Ne.symm hother
      simp [Session.sees, hne]
    cases ht : ship.sessions[other]? with
    | none =>
      cases s.map with
      | none => exact hshown.trans ht
      | some ref =>
        dsimp only [SessionTable.broadcast]
        rw [Std.ExtTreeMap.getElem?_map, hshown, ht]
        rfl
    | some t =>
      rw [Option.map_some, hsees ht]
      cases s.map with
      | none => exact hshown.trans ht
      | some ref =>
        have hne : t.id ≠ id := by
          rw [hkeyed other t ht]
          exact Ne.symm hother
        dsimp only [SessionTable.broadcast]
        rw [Std.ExtTreeMap.getElem?_map, hshown, ht]
        simp [hne]

theorem calm_present (hkeyed : ship.sessions.Keyed) (hs : ship.sessions[id]? = some s)
    (object : WorldObject) : ship.Calm (ship.present id s object) := by
  have hput : ship.Calm (ship.putSession (s.sendPacket (.objectSpawn object))) :=
    .putSession hs (hkeyed id s hs) (.sendPacket s _)
  unfold present
  dsimp only
  split
  · exact hput.trans (.of_sessions (.broadcast .refl (fun s => .sendPacket s _) _ _ _))
  · exact hput

theorem quiet_spawnObject (id : ClientId) (name : String) (location : Location) (draw : UInt64) :
    Quiet (spawnObject id name location draw) := by
  intro ship hkeyed
  unfold after
  rw [spawnObject_eq]
  cases hlive : ship.live? id with
  | none => exact .refl ship
  | some s =>
    dsimp only
    cases ship.zoneOf s with
    | error e => exact .refl ship
    | ok zone =>
      obtain ⟨hs, -⟩ := live?_eq_some.mp hlive
      have hpresent := calm_present hkeyed hs
        (.named (ship.world.objects.unusedId draw) name location)
      exact hpresent.trans ((flushed_flushDumps (hpresent.keyed hkeyed)).calm.trans
        (.withObjects (.step _ _ (.insert zone _))))

end Ship

end GameShip
