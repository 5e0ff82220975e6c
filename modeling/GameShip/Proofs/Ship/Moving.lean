import GameShip.Proofs.Ship.Arrival
import GameShip.Proofs.Ship.Occupancy
import GameShip.Proofs.World.Passage

/-!
# Moving a session

A session is moved into a map as a whole or not at all (`Ship.moving_run`). To ask for a generated
map is not so: its instance is made first, and stays if there is no session to be moved
(`Ship.changing_run`).

* `Ship.Moved`: all that is different on a ship on which a session has been moved.
* `Ship.Recounted`: one player less where the session was, and one more where it is now.
-/

namespace GameShip

namespace Ship

/-- What a ship is after a session of it has been moved into a map. Records are written to the disk
before the objects of the map are read from there. -/
structure Moved (ship : Ship) (id : ClientId) (s : Session) (ref : MapRef) (location : Location)
    (later : Ship) : Prop where
  /-- The session is in the map, and is sent its objects and then that it can act again. -/
  session : later.sessions[id]? = some
    ((shown (ship.world.objects.objectsOf ship.flushDumps.disk ref.map).1 ++ [unlock]).foldl
      Session.sendFrame { s.flushed with map := some ref, location })
  others : ∀ other, other ≠ id →
    later.sessions[other]? = ship.sessions[other]?.map Session.flushed
  zones : ∀ name, later.world.zones.instance? name =
    (ship.world.zones.instance? name).map (·.moved id s.map ref)
  objects : later.world.objects = (ship.world.objects.objectsOf ship.flushDumps.disk ref.map).2
  parties : later.world.parties = ship.world.parties
  disk : later.disk = ship.flushDumps.disk
  handlers : later.handlers = ship.handlers
  dumpRoot : later.dumpRoot = ship.dumpRoot
  journal : later.journal = ship.journal
  /-- The session is in this map once, and in no other. -/
  once : ∀ name i map, later.world.zones.instance? name = some i → map ∈ i.maps →
    map.clients.count id = if ref = ⟨name, map.name⟩ then 1 else 0

/-- The instance that a session has left counts one player less, and the one that it has entered
one more. -/
def Recounted (ship : Ship) (s : Session) (ref : MapRef) (later : Ship) : Prop :=
  ∀ (name : String) (before after : Instance), ship.world.zones.instance? name = some before →
    later.world.zones.instance? name = some after →
      after.playerCount.toNat + (if s.map.any (·.instanceName = name) then 1 else 0) =
        before.playerCount.toNat + if ref.instanceName = name then 1 else 0

variable {ship later : Ship} {id : ClientId} {s : Session} {ref : MapRef} {i : Instance}
  {m : GameMap} {location : Location}

theorem getElem?_putSession (ship : Ship) {t : Session} (hid : t.id = id) (other : ClientId) :
    (ship.putSession t).sessions[other]? =
      if id = other then some t else ship.sessions[other]? := by
  rw [putSession, SessionTable.getElem?_put, hid]

/-- A client is listed once by the map of its session, and not at all by any other. -/
theorem Consistent.count_clients (H : ship.Consistent) {name : String}
    (hi : ship.world.zones.instance? name = some i) (hm : m ∈ i.maps) (id : ClientId) :
    m.clients.count id = if ship.sessions.place id = some ⟨name, m.name⟩ then 1 else 0 := by
  have hholds := H.agrees.holds name i hi
  have hmem := hholds.mem_iff m hm id
  by_cases hhere : id ∈ m.clients
  · rw [List.count_eq_one_of_mem (hholds.nodup m hm) hhere, if_pos (hmem.mp hhere)]
  · rw [List.count_eq_zero_of_not_mem hhere, if_neg (mt hmem.mpr hhere)]

theorem moveToMap_of_find (H : ship.Consistent) (hlive : ship.live? id = some s)
    (hfind : ship.world.zones.find ref = .ok (i, m)) :
    ∃ later, moveToMap id ref ship = .ok m.defaultLocation later ∧
      ship.Moved id s ref m.defaultLocation later := by
  obtain ⟨hs, hopen⟩ := live?_eq_some.mp hlive
  obtain ⟨-, -, hname, -⟩ := H.agrees.of_find hfind
  obtain ⟨zones, hspawn, hzones⟩ := H.agrees.exists_moved hfind id
  rw [SessionTable.place_eq hs] at hspawn hzones
  have hmove := moveToMap_eq ship id ref
  have hleave : (ship.leaveMap s.map id).world.zones.spawnClient ref id = _ := hspawn
  rw [hlive, ZoneRegistry.map_eq_ok.mpr ⟨i, hfind⟩] at hmove
  dsimp only at hmove
  rw [hleave] at hmove
  dsimp only at hmove
  -- the session is still there when the objects have been read
  have hrest := sameRest_flushDumps ship
  have hobjects : (ship.flushDumps.withZones zones).world.objects = ship.world.objects := by
    rw [← hrest.world]
    rfl
  have hlive' : ∀ objects,
      ((ship.flushDumps.withZones zones).withObjects objects).live? id = some s.flushed :=
    fun _ => live?_eq_some.mpr ⟨by
      rw [← Option.map_some (f := Session.flushed), ← hs]
      exact getElem?_flushDumps H.keyed id, hopen⟩
  rw [flushDumps_withZones, hlive', hobjects, hname] at hmove
  dsimp only at hmove
  have hchanges : ship.Changes (.moveToMap id ref) (ship.after (moveToMap id ref)) :=
    changes_moveToMap H id ref
  have H' := H.changes hchanges
  rw [after_of_ok hmove] at H'
  have harrived := unmoved_arrive s.asRecorded_flushed ref m.defaultLocation
    (ship.world.objects.objectsOf (ship.flushDumps.withZones zones).disk ref.map).1
  have hid := harrived.id.trans (H.keyed id s hs)
  have hsession (base : Ship) := getElem?_putSession base hid
  refine ⟨_, hmove, ?_⟩
  constructor
  case session =>
    rw [← arrive_eq, hsession, if_pos rfl]
    rfl
  case others =>
    intro other hother
    rw [hsession, if_neg (Ne.symm hother)]
    exact getElem?_flushDumps H.keyed other
  case zones => exact hzones
  case objects => rfl
  case parties =>
    have hparties := congrArg World.parties hrest.world
    exact hparties
  case disk => rfl
  case handlers => exact hrest.handlers
  case dumpRoot => exact hrest.dumpRoot
  case journal => exact hrest.journal
  case once =>
    intro name i map hi hmap
    rw [H'.count_clients hi hmap, putSession, SessionTable.place_put, hid, Function.update_self,
      harrived.map]
    simp only [Option.some.injEq]

theorem Moved.place (h : ship.Moved id s ref location later) :
    later.sessions.place = Function.update ship.sessions.place id (some ref) := by
  funext other
  by_cases hother : other = id
  · subst hother
    have harrived := unmoved_arrive s.asRecorded_flushed ref location
      (ship.world.objects.objectsOf ship.flushDumps.disk ref.map).1
    rw [arrive_eq] at harrived
    rw [SessionTable.place_eq h.session, Function.update_self]
    exact harrived.map
  · rw [SessionTable.place, h.others other hother, Function.update_of_ne hother,
      SessionTable.place]
    cases ship.sessions[other]? <;> rfl

/-- Nobody else goes from one instance to another. -/
theorem Moved.population (h : ship.Moved id s ref location later)
    (hs : ship.sessions[id]? = some s) (name : String) :
    later.population name + (if s.map.any (·.instanceName = name) then 1 else 0) =
      ship.population name + if ref.instanceName = name then 1 else 0 := by
  have hbefore := ship.nodup_players name
  have hafter := later.nodup_players name
  have hothers : ((later.players name).erase id).Perm ((ship.players name).erase id) := by
    refine (List.perm_ext_iff_of_nodup (hafter.erase id) (hbefore.erase id)).mpr fun other => ?_
    rw [hafter.mem_erase_iff, hbefore.mem_erase_iff, mem_players_iff, mem_players_iff, h.place]
    refine and_congr_right fun hother => ?_
    rw [Function.update_of_ne hother]
  have hwas : id ∈ ship.players name ↔ s.map.any (·.instanceName = name) = true := by
    rw [mem_players_iff, SessionTable.place_eq hs]
  have his : id ∈ later.players name ↔ ref.instanceName = name := by
    rw [mem_players_iff, h.place, Function.update_self, Option.any_some, decide_eq_true_iff]
  have hcut (ids : List ClientId) :
      (ids.erase id).length + (if id ∈ ids then 1 else 0) = ids.length := by
    split
    · exact List.length_erase_add_one ‹_›
    · rw [List.erase_of_not_mem ‹_›, Nat.add_zero]
  have hlengthAfter := hcut (later.players name)
  have hlengthBefore := hcut (ship.players name)
  rw [if_congr his rfl rfl, length_players, hothers.length_eq] at hlengthAfter
  rw [if_congr hwas rfl rfl, length_players] at hlengthBefore
  omega

theorem Moved.recounted (h : ship.Moved id s ref location later)
    (hs : ship.sessions[id]? = some s) (hcounted : ship.Counted) (hcounted' : later.Counted) :
    ship.Recounted s ref later := by
  intro name before after hbefore hafter
  rw [hcounted name before hbefore, hcounted' name after hafter]
  exact h.population hs name

/-- A session is moved, and the instances have counted it. -/
theorem recounted_of_moved (H : ship.Consistent) (hfew : ship.sessions.size < UInt32.size)
    (hcounts : ∀ name, ship.world.zones.Counts name) (hs : ship.sessions[id]? = some s)
    (hmove : moveToMap id ref ship = .ok location later)
    (hmoved : ship.Moved id s ref location later) : ship.Recounted s ref later := by
  have hchanges : ship.Changes (.moveToMap id ref) (ship.after (moveToMap id ref)) :=
    changes_moveToMap H id ref
  rw [after_of_ok hmove] at hchanges
  refine hmoved.recounted hs (H.counted_iff.mpr hcounts) ((H.changes hchanges).counted_iff.mpr ?_)
  exact fun name => hchanges.counts H rfl hfew (hcounts name)

theorem moveToMap_of_not_live (hlive : ship.live? id = none) (ref : MapRef) :
    moveToMap id ref ship = .error (.sessionNotFound id) ship := by
  rw [moveToMap_eq, hlive]

/-- The map is looked up before anything is done. -/
theorem moveToMap_of_not_found {e : WorldError} (hlive : ship.live? id = some s)
    (hfind : ship.world.zones.find ref = .error e) :
    moveToMap id ref ship = .error e ship := by
  have hmap : ship.world.zones.map ref = .error e := by
    rw [ZoneRegistry.map, hfind]
    rfl
  rw [moveToMap_eq, hlive, hmap]

/-- **A session is moved as a whole or not at all**. After any calls of which no two open the same
connection: if there is no open session of a connection, or the instance or the map is not there,
the ship stays as it is. Otherwise the session is in the map and nowhere else, stands where the map
says, is sent the objects of the map and that it can act again, and only the instances that it has
left and entered have changed. They count one player less and one more, if there never were more
sessions at a time than a word can count. -/
theorem moving_run (u : KeyUnwrapper) (resources : String) (dumpRoot : Option DiskPath)
    (disk : Disk) (calls : List Call) (hnodup : (connections calls).Nodup) (id : ClientId)
    (ref : MapRef) :
    let start := start u resources dumpRoot disk
    let ship := start.run calls
    (ship.live? id = none → moveToMap id ref ship = .error (.sessionNotFound id) ship) ∧
    ∀ s, ship.live? id = some s →
      (ship.world.zones.instance? ref.instanceName = none →
        moveToMap id ref ship = .error (.instanceNotFound ref.instanceName) ship) ∧
      ∀ i, ship.world.zones.instance? ref.instanceName = some i →
        (i.map? ref.map = none → moveToMap id ref ship = .error (.mapNotFound ref) ship) ∧
        ∀ m, i.map? ref.map = some m →
          ∃ later, moveToMap id ref ship = .ok m.defaultLocation later ∧
            ship.Moved id s ref m.defaultLocation later ∧
            (start.FewSessions calls → ship.Recounted s ref later) := by
  intro start ship
  have H : ship.Consistent := consistent_run u resources dumpRoot disk hnodup
  refine ⟨fun hlive => moveToMap_of_not_live hlive ref, fun s hlive => ⟨fun hnone => ?_,
    fun i hi => ⟨fun hnone => ?_, fun m hm => ?_⟩⟩⟩
  · exact moveToMap_of_not_found hlive (ZoneRegistry.find_of_none hnone)
  · exact moveToMap_of_not_found hlive (ZoneRegistry.find_of_map?_none hi hnone)
  · obtain ⟨later, hmove, hmoved⟩ :=
      moveToMap_of_find H hlive (ZoneRegistry.find_eq_ok.mpr ⟨hi, hm⟩)
    refine ⟨later, hmove, hmoved, fun hfew => ?_⟩
    have hcounts := counts_run u resources dumpRoot disk hnodup hfew
    exact recounted_of_moved H (hfew calls List.prefix_rfl) hcounts (live?_eq_some.mp hlive).1
      hmove hmoved

/-- A session goes from the first map of the lobby to the other, and not to one that is not
there. -/
theorem moving_run_casino :
    let lobby : MapRef := ⟨ZoneRegistry.lobby, ZoneRegistry.lobby⟩
    let casino : MapRef := ⟨ZoneRegistry.lobby, "casino"⟩
    let nowhere : MapRef := ⟨ZoneRegistry.lobby, "nowhere"⟩
    let calls : List Call := [.connect 1 ⟨.v4 127 0 0 1, 50000, 0⟩, .moveToMap 1 lobby]
    -- no directory has such a name, so the maps have no objects of their own
    let ship := (start .plain "\x00").run calls
    (connections calls).Nodup ∧
      moveToMap 1 nowhere ship = .error (.mapNotFound nowhere) ship ∧
      ∃ s later, ship.live? 1 = some s ∧ s.map = some lobby ∧
        moveToMap 1 casino ship = .ok {} later ∧ ship.Moved 1 s casino {} later ∧
        ship.Recounted s casino later ∧
        (later.world.zones.instance? lobby.instanceName).map
          (fun i => (i.playerCount, i.maps.map (·.clients))) = some (1, [[], [1]]) := by
  intro lobby casino nowhere calls ship
  have hnodup : (connections calls).Nodup := by decide
  have hplace : (ship.live? 1).bind (·.map) = some lobby := by decide +kernel
  obtain ⟨s, hlive, hmap⟩ := Option.bind_eq_some_iff.mp hplace
  let before : Instance := ⟨"lobby",
    [{ ZoneRegistry.lobbyMap with instanceName := "lobby", clients := [1] },
      { ZoneRegistry.casinoMap with instanceName := "lobby" }], 1⟩
  have hi : ship.world.zones.instance? lobby.instanceName = some before := by decide +kernel
  obtain ⟨-, hmaps⟩ := (moving_run .plain "\x00" none {} calls hnodup 1 nowhere).2 s hlive
  have hnowhere := (hmaps before hi).1 rfl
  obtain ⟨-, hmaps⟩ := (moving_run .plain "\x00" none {} calls hnodup 1 casino).2 s hlive
  obtain ⟨later, hmove, hmoved, hcounted⟩ := (hmaps before hi).2 _ rfl
  have hfew : (start .plain "\x00").FewSessions calls := fewSessions_iff.mpr (by decide +kernel)
  refine ⟨hnodup, hnowhere, s, later, hlive, hmap, hmove, hmoved, hcounted hfew, ?_⟩
  rw [hmoved.zones, hi, hmap]
  decide +kernel

/-- An instance that is there is left as it is. -/
theorem changeMap_of_some {request : MapRequest}
    (hi : ship.world.zones.instance? request.instanceName = some i) (id : ClientId) :
    changeMap id request ship = moveToMap id ⟨request.instanceName, generatedMapName⟩ ship := by
  change moveToMap id _
    (ship.withZones (ship.world.zones.create request.instanceName request.map).2) = _
  rw [ZoneRegistry.create_of_some hi]
  rfl

/-- One that is not there is made, whether or not there is a session to be moved. -/
theorem changeMap_of_none {request : MapRequest}
    (hnone : ship.world.zones.instance? request.instanceName = none) (id : ClientId) :
    changeMap id request ship = moveToMap id ⟨request.instanceName, generatedMapName⟩
      (ship.withZones (ship.world.zones.insert
        { name := request.instanceName
          maps := [{ request.map with instanceName := request.instanceName }] })) := by
  change moveToMap id _
    (ship.withZones (ship.world.zones.create request.instanceName request.map).2) = _
  rw [ZoneRegistry.create_of_none hnone]
  rfl

/-- **A generated map is asked for**. After any calls of which no two open the same connection: if
the instance for the map is there, a session is moved into the map as into any other, so nothing of
the instance changes but who is in it. If it is not there, it is made as the request says. It stays
if there is no open session of the connection, and otherwise the session is moved into its map,
which cannot fail. -/
theorem changing_run (u : KeyUnwrapper) (resources : String) (dumpRoot : Option DiskPath)
    (disk : Disk) (calls : List Call) (hnodup : (connections calls).Nodup) (id : ClientId)
    (request : MapRequest) :
    let start := start u resources dumpRoot disk
    let ship := start.run calls
    let name := request.instanceName
    let ref : MapRef := ⟨name, generatedMapName⟩
    (∀ i, ship.world.zones.instance? name = some i →
      (ship.live? id = none → changeMap id request ship = .error (.sessionNotFound id) ship) ∧
      ∀ s, ship.live? id = some s →
        (i.map? generatedMapName = none →
          changeMap id request ship = .error (.mapNotFound ref) ship) ∧
        ∀ m, i.map? generatedMapName = some m →
          ∃ later, changeMap id request ship = .ok m.defaultLocation later ∧
            ship.Moved id s ref m.defaultLocation later ∧
            (start.FewSessions calls → ship.Recounted s ref later)) ∧
    (ship.world.zones.instance? name = none →
      let made := ship.withZones (ship.world.zones.insert
        { name, maps := [{ request.map with instanceName := name }] })
      (ship.live? id = none → changeMap id request ship = .error (.sessionNotFound id) made) ∧
      ∀ s, ship.live? id = some s →
        ∃ later, changeMap id request ship = .ok {} later ∧ made.Moved id s ref {} later ∧
          (start.FewSessions calls → made.Recounted s ref later)) := by
  intro start ship name ref
  have H : ship.Consistent := consistent_run u resources dumpRoot disk hnodup
  have hcounts : start.FewSessions calls → ∀ name, ship.world.zones.Counts name :=
    counts_run u resources dumpRoot disk hnodup
  refine ⟨fun i hi => ?_, fun hnone => ?_⟩
  · rw [changeMap_of_some hi]
    refine ⟨fun hlive => moveToMap_of_not_live hlive ref, fun s hlive => ⟨fun hmap => ?_,
      fun m hm => ?_⟩⟩
    · exact moveToMap_of_not_found hlive (ZoneRegistry.find_of_map?_none hi hmap)
    · have hfind : ship.world.zones.find ref = .ok (i, m) := ZoneRegistry.find_eq_ok.mpr ⟨hi, hm⟩
      obtain ⟨later, hmove, hmoved⟩ := moveToMap_of_find H hlive hfind
      refine ⟨later, hmove, hmoved, fun hfew => ?_⟩
      exact recounted_of_moved H (hfew calls List.prefix_rfl) (hcounts hfew)
        (live?_eq_some.mp hlive).1 hmove hmoved
  · intro made
    have hcreate : ship.withZones (ship.world.zones.create name request.map).2 = made := by
      rw [ZoneRegistry.create_of_none hnone]
      rfl
    have hmade : ship.Change (.changeMap id request) made := hcreate ▸ .create _ rfl
    have Hmade : made.Consistent := H.change hmade
    rw [changeMap_of_none hnone]
    let map : GameMap := { request.map with instanceName := name }
    have hi : made.world.zones.instance? name = some { name, maps := [map] } :=
      (ZoneRegistry.instance?_insert ..).trans (if_pos rfl)
    have hm : Instance.map? { name, maps := [map] } ref.map = some map :=
      List.find?_cons_of_pos (decide_eq_true rfl)
    refine ⟨fun hlive => ?_, fun s hlive => ?_⟩
    · have hnobody : made.live? id = none := hlive
      exact moveToMap_of_not_live hnobody ref
    · have hlive' : made.live? id = some s := hlive
      have hfind : made.world.zones.find ref = .ok (_, map) :=
        ZoneRegistry.find_eq_ok.mpr ⟨hi, hm⟩
      obtain ⟨later, hmove, hmoved⟩ := moveToMap_of_find Hmade hlive' hfind
      refine ⟨later, hmove, hmoved, fun hfew => ?_⟩
      have hmadeCounts (other : String) : made.world.zones.Counts other := by
        rw [← hcreate]
        exact (hcounts hfew other).create name rfl
      have hsessions : made.sessions.size < UInt32.size := hfew calls List.prefix_rfl
      exact recounted_of_moved Hmade hsessions hmadeCounts (live?_eq_some.mp hlive').1 hmove hmoved

/-- An instance that was not there is left behind if it is asked for with no session to be moved. -/
theorem changing_leaves_instance :
    let request : MapRequest := ⟨1, 2, .field, {}, ⟨7, 4, 4⟩⟩
    let ship := (start .plain "").run []
    let later := ship.after (changeMap 1 request)
    ship.answer? (changeMap 1 request) = none ∧
      ship.world.zones.contains request.instanceName = false ∧
      later.world.zones.contains request.instanceName = true := by
  decide +kernel

/-- The first who asks for a generated map has it made, and a request that differs only in what the
map is made from leads into the same map. -/
theorem changing_run_second :
    let request : MapRequest := ⟨1, 2, .field, {}, ⟨7, 4, 4⟩⟩
    let other : MapRequest := ⟨1, 2, .field, {}, ⟨8, 5, 5⟩⟩
    let ref : MapRef := ⟨request.instanceName, generatedMapName⟩
    let calls : List Call := [.connect 1 ⟨.v4 127 0 0 1, 50000, 0⟩, .changeMap 1 request,
      .connect 2 ⟨.v4 127 0 0 1, 50001, 0⟩]
    let ship := (start .plain "\x00").run calls
    (connections calls).Nodup ∧
      changeMap 3 other ship = .error (.sessionNotFound 3) ship ∧
      ∃ s later, ship.live? 2 = some s ∧ changeMap 2 other ship = .ok {} later ∧
        ship.Moved 2 s ref {} later ∧
        (later.world.zones.map ref).toOption.map (fun m => (m.generation, m.clients)) =
          some (some ⟨7, 4, 4⟩, [1, 2]) := by
  intro request other ref calls ship
  have hnodup : (connections calls).Nodup := by decide
  have hthere : (ship.live? 2).isSome := by decide +kernel
  obtain ⟨s, hlive⟩ := Option.isSome_iff_exists.mp hthere
  let map : GameMap := { request.map with instanceName := request.instanceName, clients := [1] }
  have hi : ship.world.zones.instance? request.instanceName =
      some ⟨request.instanceName, [map], 1⟩ := by decide +kernel
  have hnobody : ship.live? 3 = none := by decide +kernel
  have hfailed :=
    ((changing_run .plain "\x00" none {} calls hnodup 3 other).1 _ hi).1 hnobody
  obtain ⟨later, hchange, hmoved, -⟩ :=
    (((changing_run .plain "\x00" none {} calls hnodup 2 other).1 _ hi).2 s hlive).2 map rfl
  refine ⟨hnodup, hfailed, s, later, hlive, hchange, hmoved, ?_⟩
  have hnowhere : s.map = none := by
    have hplace : (ship.live? 2).bind (·.map) = none := by decide +kernel
    rwa [hlive] at hplace
  rw [ZoneRegistry.map, ZoneRegistry.find, hmoved.zones, hi, hnowhere]
  decide +kernel

end Ship

end GameShip
