import GameShip.Proofs.Disk.Reading
import GameShip.Proofs.Object.Lookup
import GameShip.Proofs.Ship.Occupancy
import GameShip.Proofs.Ship.Stock

/-!
# The object that is announced

An object that is created beside a session is announced before it is taken into the registry. If the
objects of the zone are only read then, one of them may have the number that was drawn, and is found
under it from then on. This is not so beside a session that is in a map (`Ship.announcing_run`).

* `Ship.Announced`: what a ship is when an object has been announced.
-/

namespace GameShip

namespace Ship

/-- What a ship is after an object has been created beside a session. The objects that are awaited
are those of the files that are only read for this. -/
structure Announced (ship : Ship) (s : Session) (object : WorldObject) (zone : String)
    (later : Ship) : Prop where
  /-- Whoever sees the object is sent it once. -/
  sessions : ∀ other : ClientId, later.sessions[other]? = ship.sessions[other]?.map fun t =>
    (if t.sees s then t.sendPacket (.objectSpawn object) else t).flushed
  /-- Its number is listed once, in this zone. -/
  listed : ∀ other, (later.world.objects.zones.getD other []).count object.id =
    if other = zone then 1 else 0
  /-- It is found under its number, unless one that was awaited has this number too. -/
  found : later.world.objects.object object.id =
    ((ship.world.objects.awaited later.disk zone).find? (·.id = object.id)).getD object

variable {ship : Ship} {id : ClientId} {s : Session} {draw : UInt64} {ref : MapRef}

theorem exists_announced (H : ship.Consistent) (S : ship.Stocked) (hlive : ship.live? id = some s)
    (hfresh : ObjectRegistry.isFresh draw = true) (hfree : ship.world.objects.contains draw = false)
    (name : String) (location : Location) :
    ∃ later, spawnObject id name location draw ship = .ok draw later ∧
      ship.Announced s (.named draw name location)
        ((s.map.map (·.map)).getD ZoneRegistry.lobby) later := by
  obtain ⟨hs, -⟩ := live?_eq_some.mp hlive
  have hspawn := H.spawnObject_of_live hlive name location draw
  rw [ObjectRegistry.unusedId_of_free hfresh hfree] at hspawn
  generalize hobject : WorldObject.named draw name location = object at hspawn ⊢
  generalize (s.map.map (·.map)).getD ZoneRegistry.lobby = zone at hspawn ⊢
  have hid : object.id = draw := by rw [← hobject]; rfl
  have hnew : ship.world.objects.contains object.id = false := by rw [hid, hfree]
  have hcalm := calm_present H.keyed hs object
  dsimp only at hspawn
  rw [hid] at hspawn
  refine ⟨_, hspawn, ?_⟩
  constructor
  case sessions =>
    intro other
    have hflushed := getElem?_flushDumps (hcalm.keyed H.keyed) other
    rw [getElem?_present H.keyed hs, Option.map_map] at hflushed
    exact hflushed
  case listed =>
    have hlists := ObjectRegistry.lists_insert hnew
      (ship.present id s object).flushDumps.disk zone
    exact (S.sound.insert _ zone object).count_listed hlists
  case found => exact ObjectRegistry.object_insert hnew _ zone

/-- Beside a session that is in a map nothing is awaited. -/
theorem Stocked.awaited_eq_nil (S : ship.Stocked) (hs : ship.sessions[id]? = some s)
    (hmap : s.map = some ref) (disk : Disk) : ship.world.objects.awaited disk ref.map = [] := by
  have hplace : ship.sessions.place id = some ref := (SessionTable.place_eq hs).trans hmap
  rcases S.loaded id ref hplace with hgenerated | hloaded
  · rw [hgenerated, ObjectRegistry.awaited_generated]
  · exact ObjectRegistry.awaited_of_contains hloaded disk

/-- **What is announced**. After any calls of which no two open the same connection, an object is
created beside every open session, under every number that may be drawn: the answer is its number,
whoever sees it is sent it once, and it is listed once, in the zone of the session's map. Beside a
session that is in a map, it is the object that is found under its number. Beside one that is in
none, this is so unless the objects of the lobby are only read now and one of them has the number:
then that one is found, and not what was announced. -/
theorem announcing_run (u : KeyUnwrapper) (resources : String) (dumpRoot : Option DiskPath)
    (disk : Disk) (calls : List Call) (hnodup : (connections calls).Nodup) (id : ClientId)
    (s : Session) (hlive : ((start u resources dumpRoot disk).run calls).live? id = some s)
    (name : String) (location : Location) (draw : UInt64)
    (hfresh : ObjectRegistry.isFresh draw = true)
    (hfree : ((start u resources dumpRoot disk).run calls).world.objects.contains draw = false) :
    let ship := (start u resources dumpRoot disk).run calls
    let object := WorldObject.named draw name location
    ∃ later, spawnObject id name location draw ship = .ok draw later ∧
      ship.Announced s object ((s.map.map (·.map)).getD ZoneRegistry.lobby) later ∧
      (s.map ≠ none → later.world.objects.object draw = object) := by
  intro ship object
  have H : ship.Consistent := consistent_run u resources dumpRoot disk hnodup
  have S : ship.Stocked := stocked_run u resources dumpRoot disk hnodup
  obtain ⟨later, hspawn, hannounced⟩ := exists_announced H S hlive hfresh hfree name location
  refine ⟨later, hspawn, hannounced, fun hsomewhere => ?_⟩
  obtain ⟨ref, hmap⟩ := Option.ne_none_iff_exists'.mp hsomewhere
  have hfound := hannounced.found
  rw [hmap, Option.map_some, Option.getD_some,
    S.awaited_eq_nil (live?_eq_some.mp hlive).1 hmap] at hfound
  exact hfound

/-- A chest is put beside a session in the lobby, and shown to the player who is there. -/
theorem announcing_run_lobby :
    let lobby : MapRef := ⟨ZoneRegistry.lobby, ZoneRegistry.lobby⟩
    let calls : List Call := [.connect 1 ⟨.v4 127 0 0 1, 50000, 0⟩, .moveToMap 1 lobby,
      .connect 2 ⟨.v4 127 0 0 1, 50001, 0⟩, .identify 2 none (some ⟨7, "Ann"⟩),
      .moveToMap 2 lobby, .connect 3 ⟨.v4 127 0 0 1, 50002, 0⟩]
    -- no directory has such a name, so the lobby has no objects of its own
    let ship := (start .plain "\x00").run calls
    let chest : WorldObject := .named 268435456 "chest"
    (connections calls).Nodup ∧ ship.world.objects.contains 268435456 = false ∧
      ∃ s later, ship.live? 1 = some s ∧ s.map = some lobby ∧
        (ship.sessions.toList.filter (·.2.sees s)).map (·.1) = [1, 2] ∧
        spawnObject 1 "chest" {} 268435456 ship = .ok 268435456 later ∧
        ship.Announced s chest lobby.map later ∧ later.world.objects.object 268435456 = chest := by
  intro lobby calls ship chest
  have hnodup : (connections calls).Nodup := by decide
  have hfree : ship.world.objects.contains 268435456 = false := by decide +kernel
  have hsession : (ship.live? 1).map (fun s =>
      (s.map, (ship.sessions.toList.filter (·.2.sees s)).map (·.1))) =
        some (some lobby, [1, 2]) := by decide +kernel
  obtain ⟨s, hlive, hs⟩ := Option.map_eq_some_iff.mp hsession
  obtain ⟨hmap, hseen⟩ := Prod.mk.inj hs
  have hfresh : ObjectRegistry.isFresh 268435456 = true := by decide
  obtain ⟨later, hspawn, hannounced, hfound⟩ :=
    announcing_run .plain "\x00" none {} calls hnodup 1 s hlive "chest" {} 268435456 hfresh hfree
  have hsomewhere : s.map ≠ none := by
    rw [hmap]
    exact nofun
  rw [hmap] at hannounced
  exact ⟨hnodup, hfree, s, later, hlive, hmap, hseen, hspawn, hannounced, hfound hsomewhere⟩

/-- A chest is put beside a session that is in no map, and a gate of the lobby is found under its
number. -/
theorem announcing_finds_another :
    let gate : WorldObject := .named 268435456 "gate"
    let chest : WorldObject := .named 268435456 "chest"
    let capture := (Packet.objectSpawn gate).frame.toBytes
    let disk : Disk := ⟨.ofList [(["data"], DiskEntry.directory),
      (["data", "objects"], .directory), (["data", "objects", "lobby"], .directory),
      (["data", "objects", "lobby", "gate.bin"], .file capture)]⟩
    let ship := (start .plain "data" none disk).run [.connect 1 ⟨.v4 127 0 0 1, 50000, 0⟩]
    ∃ s later, ship.live? 1 = some s ∧
      spawnObject 1 "chest" {} 268435456 ship = .ok 268435456 later ∧
      ship.Announced s chest ZoneRegistry.lobby later ∧
      later.world.objects.object 268435456 = gate ∧ gate ≠ chest := by
  intro gate chest capture disk ship
  have H : ship.Consistent := consistent_run .plain "data" none disk (by decide)
  have S : ship.Stocked := stocked_run .plain "data" none disk (by decide)
  have hplace : (ship.live? 1).map (·.map) = some none := by decide +kernel
  obtain ⟨s, hlive, hmap⟩ := Option.map_eq_some_iff.mp hplace
  have hfree : ship.world.objects.contains 268435456 = false := by decide +kernel
  obtain ⟨later, hspawn, hannounced⟩ := exists_announced H S hlive (by decide) hfree "chest" {}
  have hpath : "data/objects/lobby".splitOn "/" = ["data", "objects", "lobby"] := by
    rw [splitOn_slash]
    decide
  -- nothing is recorded, so the directory holds what it did
  have hlist : (ship.after (spawnObject 1 "chest" {} 268435456)).disk.list
      "data/objects/lobby" = .ok [("gate.bin", .file capture)] := by
    rw [after, spawnObject_eq, Disk.list, Disk.find, hpath]
    decide +kernel
  rw [after_of_ok hspawn] at hlist
  have hawaited : ship.world.objects.awaited later.disk ZoneRegistry.lobby = [gate] := by
    have hnew : ship.world.objects.zones.contains ZoneRegistry.lobby = false := by decide +kernel
    have hdirectory : Disk.join ship.world.objects.directory ZoneRegistry.lobby =
        "data/objects/lobby" := by decide +kernel
    have hstatic : ZoneRegistry.lobby ≠ generatedMapName := by decide
    have hread : ObjectRegistry.ofFile? ("gate.bin", .ok capture) = some gate := by
      decide +kernel
    have hcontents : later.disk.contents "data/objects/lobby" [("gate.bin", .file capture)] =
        [("gate.bin", .ok capture)] := Disk.contents_of_list hlist (by decide +kernel)
    rw [ObjectRegistry.awaited, hnew, if_neg Bool.false_ne_true,
      ObjectRegistry.filesOf_of_ne hstatic, hdirectory, hlist, Except.toOption, Option.getD_some,
      hcontents, ObjectRegistry.ofFiles, Disk.sorted, List.mergeSort_singleton,
      List.filterMap_cons_some hread, List.filterMap_nil]
  rw [hmap] at hannounced
  have hfound := hannounced.found
  rw [Option.map_none, Option.getD_none, hawaited] at hfound
  exact ⟨s, later, hlive, hspawn, hannounced, hfound, by decide⟩

end Ship

end GameShip
