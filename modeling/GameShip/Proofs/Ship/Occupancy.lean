import GameShip.Proofs.Ship.Flush
import GameShip.Proofs.Ship.Step
import GameShip.Proofs.World.Counting
import Mathlib.Data.List.Infix

/-!
# Who is where

The map of a session, the clients of a map and the number of players of an instance are kept in
three places. On a ship on which no connection is opened twice they say the same at every time
(`Ship.occupancy_run`). The number of players is a word, so it does as long as a word can count the
sessions.

* `Ship.Occupancy`: how the sessions and the maps fit together.
* `Ship.Counted`: how the instances fit in.
* `Ship.Passes`: the ships that are passed through while a call runs.
-/

namespace GameShip

namespace Ship

/-- How many sessions are in the maps of an instance. -/
def population (ship : Ship) (name : String) : Nat :=
  ship.sessions.toList.countP fun entry => entry.2.map.any (·.instanceName = name)

/-- The sessions and the maps say the same about who is where. -/
structure Occupancy (ship : Ship) : Prop where
  /-- A session stands under its own connection. -/
  id : ∀ (id : ClientId) (s : Session), ship.sessions[id]? = some s → s.id = id
  /-- A session is in a map that exists, from where it can be taken out. -/
  leave : ∀ (id : ClientId) (s : Session) (ref : MapRef), ship.sessions[id]? = some s →
    s.map = some ref → ∃ i map, ship.world.zones.find ref = .ok (i, map) ∧
      ship.world.zones.removeClient ref id = ship.world.zones.insert (i.leave ref.map id)
  /-- The clients in a map are those whose sessions are there. -/
  mem_iff : ∀ (name : String) (i : Instance) (map : GameMap) (id : ClientId),
    ship.world.zones.instance? name = some i → map ∈ i.maps →
      (id ∈ map.clients ↔ ∃ s, ship.sessions[id]? = some s ∧ s.map = some ⟨name, map.name⟩)
  /-- Nobody is in a map twice. -/
  nodup : ∀ (name : String) (i : Instance) (map : GameMap),
    ship.world.zones.instance? name = some i → map ∈ i.maps → map.clients.Nodup
  /-- A closed session is nowhere. -/
  closed : ∀ (id : ClientId) (s : Session), ship.sessions[id]? = some s → s.closed = true →
    s.map = none
  /-- The clients in the maps of an instance are as many as the sessions there. -/
  population : ∀ (name : String) (i : Instance), ship.world.zones.instance? name = some i →
    (i.maps.map (·.clients.length)).sum = ship.population name

/-- The players of an instance are the sessions in its maps. -/
def Counted (ship : Ship) : Prop :=
  ∀ (name : String) (i : Instance), ship.world.zones.instance? name = some i →
    i.playerCount.toNat = ship.population name

/-- At no time in the course of calls there are more sessions than a word can count. Each of them
has a receive buffer of 64 KiB, so memory is full long before. -/
def FewSessions (ship : Ship) (calls : List Call) : Prop :=
  ∀ before, before <+: calls → (ship.run before).sessions.size < UInt32.size

/-- The ships that are passed through while a call runs, as they are when a session may be taken out
of its map. In the middle of a chunk this is the ship with the session put back. -/
inductive Passes (ship : Ship) : Call → Ship → Prop
  | at_once (call : Call) : Passes ship call ship
  | receive {id : ClientId} {s : Session} {chunk : Bytes} {clock : UInt64} {frames : List Frame}
      {ctx : Context} (hs : ship.sessions[id]? = some s)
      (hhandled : (ship.opened id s chunk clock).Handled ship.handlers frames ctx) :
      Passes ship (.receive id chunk clock) (ship.putBack ctx)
  | kickAll {kicked waiting : List ClientId} (hids : ship.sessions.ids = kicked ++ waiting) :
      Passes ship .kickAll (ship.kickEach kicked)
  | changeMap (id : ClientId) (request : MapRequest) :
      Passes ship (.changeMap id request)
        (ship.withZones (ship.world.zones.create request.instanceName request.map).2)

variable {ship mid later : Ship} {id : ClientId} {s : Session} {call : Call}

/-- The connections whose sessions are in the maps of an instance. -/
def players (ship : Ship) (name : String) : List ClientId :=
  (ship.sessions.toList.filter fun entry => entry.2.map.any (·.instanceName = name)).map (·.1)

theorem length_players (ship : Ship) (name : String) :
    (ship.players name).length = ship.population name := by
  rw [players, List.length_map, population, List.countP_eq_length_filter]

theorem mem_players_iff {name : String} :
    id ∈ ship.players name ↔ (ship.sessions.place id).any (·.instanceName = name) = true := by
  rw [players, List.mem_map]
  constructor
  · rintro ⟨⟨_, s⟩, hmem, rfl⟩
    obtain ⟨hs, hin⟩ := List.mem_filter.mp hmem
    rw [SessionTable.place_eq (Std.ExtTreeMap.mem_toList_iff_getElem?_eq_some.mp hs)]
    exact hin
  · intro h
    cases hs : ship.sessions[id]? with
    | none =>
      rw [SessionTable.place, hs] at h
      cases h
    | some s =>
      rw [SessionTable.place_eq hs] at h
      have hmem := Std.ExtTreeMap.mem_toList_iff_getElem?_eq_some.mpr hs
      exact ⟨(id, s), List.mem_filter.mpr ⟨hmem, h⟩, rfl⟩

theorem nodup_players (ship : Ship) (name : String) : (ship.players name).Nodup := by
  have hkeys : (ship.sessions.toList.map (·.1)).Nodup := by
    rw [Std.ExtTreeMap.map_fst_toList_eq_keys]
    exact Std.ExtTreeMap.nodup_keys
  exact hkeys.sublist (List.filter_sublist.map _)

theorem place_eq_some {ref : MapRef} :
    ship.sessions.place id = some ref ↔ ∃ s, ship.sessions[id]? = some s ∧ s.map = some ref :=
  Option.bind_eq_some_iff

/-- The clients in the maps of an instance are one session each. -/
theorem Consistent.length_clients (H : ship.Consistent) {name : String} {i : Instance}
    (hi : ship.world.zones.instance? name = some i) :
    i.clients.length = ship.population name := by
  have hholds := H.agrees.holds name i hi
  have hperm : i.clients.Perm (ship.players name) :=
    (List.perm_ext_iff_of_nodup hholds.nodup_clients (nodup_players ship name)).mpr fun id =>
      hholds.mem_clients_iff.trans mem_players_iff.symm
  rw [hperm.length_eq, length_players]

theorem Consistent.occupancy (H : ship.Consistent) : ship.Occupancy where
  id := H.keyed
  leave id s ref hs hmap := by
    have hplace := place_eq_some.mpr ⟨s, hs, hmap⟩
    obtain ⟨i, map, hfind⟩ := H.agrees.exists_find hplace
    obtain ⟨-, -, -, hmem⟩ := H.agrees.of_find hfind
    refine ⟨i, map, hfind, ?_⟩
    unfold ZoneRegistry.removeClient
    rw [hfind]
    exact if_pos ((hmem id).mpr hplace)
  mem_iff name i map id hi hmap :=
    ((H.agrees.holds name i hi).mem_iff map hmap id).trans place_eq_some
  nodup name i map hi hmap := (H.agrees.holds name i hi).nodup map hmap
  closed := H.closed
  population name i hi := i.length_clients.symm.trans (H.length_clients hi)

theorem Passes.changes (H : ship.Consistent) (h : ship.Passes call mid) :
    ship.Changes call mid := by
  cases h with
  | at_once => exact .refl ship
  | @receive id s chunk clock frames ctx hs hhandled =>
    have hcall : (Call.receive id chunk clock).concerns id := rfl
    have hid : (ship.opened id s chunk clock).session.id = id :=
      (receive_fields s chunk).1.trans (H.keyed id s hs)
    have hopened := changes_opened H.keyed hs hcall chunk clock
    have hcall' : (Call.receive id chunk clock).concerns _ := hid
    obtain ⟨hchanges, -⟩ := changes_handled ship hhandled hcall'
    exact hopened.trans hchanges
  | @kickAll kicked => exact changes_kickEach ship kicked
  | changeMap id request => exact .one (.create _ rfl)

/-! ## The number of players -/

theorem fewSessions_iff {calls : List Call} : ship.FewSessions calls ↔
    ∀ before ∈ calls.inits, (ship.run before).sessions.size < UInt32.size :=
  forall_congr' fun before => by rw [List.mem_inits]

theorem Consistent.counted_iff (H : ship.Consistent) :
    ship.Counted ↔ ∀ name, ship.world.zones.Counts name := by
  refine forall_congr' fun name => forall₂_congr fun i hi => ?_
  rw [Instance.Counts, H.length_clients hi]

/-- No instance has more clients than there are sessions. -/
theorem Consistent.few (H : ship.Consistent) (hfew : ship.sessions.size < UInt32.size)
    (name : String) : ship.world.zones.Few name := by
  intro i hi
  rw [H.length_clients hi, population]
  have hle := List.countP_le_length (p := fun entry : ClientId × Session =>
    entry.2.map.any (·.instanceName = name)) (l := ship.sessions.toList)
  rw [Std.ExtTreeMap.length_toList] at hle
  exact Nat.lt_of_le_of_lt hle hfew

theorem counts_leaveMap {w : World} {name : String} (H : w.zones.Tidy)
    (h : w.zones.Counts name) (map : Option MapRef) (id : ClientId) :
    (w.leaveMap map id).zones.Counts name := by
  unfold World.leaveMap
  cases map with
  | none => exact h
  | some ref => exact h.removeClient H ref id

theorem Change.counts {name : String} (H : ship.Consistent) (h : ship.Change call later)
    (hcounts : ship.world.zones.Counts name) (hfew : later.world.zones.Few name) :
    later.world.zones.Counts name := by
  have htidy := H.agrees.tidy
  cases h with
  | calm h =>
    rw [h.zones]
    exact hcounts
  | @hangUp id =>
    unfold after
    rw [kick_eq]
    cases ship.sessions[id]? with
    | none => exact hcounts
    | some s => exact counts_leaveMap htidy hcounts s.map s.id
  | @move id s ref location zones objects hlive hzones =>
    obtain ⟨hs, -⟩ := live?_eq_some.mp hlive
    have hleft := agrees_leaveMap H.agrees id
    rw [SessionTable.place_eq hs] at hleft
    exact (counts_leaveMap htidy hcounts s.map id).spawnClient hleft.tidy hzones hfew
  | create other hempty => exact hcounts.create other hempty
  | addMap hempty hzones => exact hcounts.addMap htidy hempty hzones
  | hear => exact hcounts
  | drop => exact hcounts
  | join => exact hcounts

/-- A call that opens no session adds none. -/
theorem Changes.size_le (H : ship.Consistent) (h : ship.Changes call later)
    (hcall : call.connection? = none) : later.sessions.size ≤ ship.sessions.size := by
  have hkeys : later.sessions.keys ⊆ ship.sessions.keys := by
    intro id hid
    rw [Std.ExtTreeMap.mem_keys, Std.ExtTreeMap.mem_iff_isSome_getElem?] at hid ⊢
    cases hs : ship.sessions[id]? with
    | some s => rfl
    | none =>
      rw [h.getElem?_eq_none H hs (by rw [hcall]; nofun)] at hid
      cases hid
  rw [← Std.ExtTreeMap.length_keys, ← Std.ExtTreeMap.length_keys]
  exact (List.subperm_of_subset Std.ExtTreeMap.nodup_keys hkeys).length_le

theorem Changes.counts {name : String} (H : ship.Consistent) (h : ship.Changes call later)
    (hcall : call.connection? = none) (hfew : ship.sessions.size < UInt32.size)
    (hcounts : ship.world.zones.Counts name) : later.world.zones.Counts name := by
  induction h with
  | refl => exact hcounts
  | tail hfirst h ih =>
    have hchanges := hfirst.tail h
    have hsize := Changes.size_le H hchanges hcall
    exact h.counts (H.changes hfirst) ih
      ((H.changes hchanges).few (Nat.lt_of_le_of_lt hsize hfew) name)

theorem Consistent.counts_step {name : String} (H : ship.Consistent) (hfresh : ship.Fresh call)
    (hfew : ship.sessions.size < UInt32.size) (hcounts : ship.world.zones.Counts name) :
    (ship.step call).world.zones.Counts name := by
  cases hcall : call.connection? with
  | none => exact (H.changes_step hfresh).counts H hcall hfew hcounts
  | some id =>
    cases call with
    | connect id address =>
      have hworld : (ship.connect id address).world = ship.world := by
        unfold connect
        cases ship.newDump id <;> rfl
      have hstep : (ship.step (.connect id address)).world = ship.world := by
        rw [step]
        exact (sameRest_flushDumps _).world.trans hworld
      rw [hstep]
      exact hcounts
    | _ => cases hcall

theorem Consistent.counts_run {calls : List Call} {name : String} (H : ship.Consistent)
    (hdistinct : ship.Distinct calls) (hfew : ship.FewSessions calls)
    (hcounts : ship.world.zones.Counts name) : (ship.run calls).world.zones.Counts name := by
  induction calls generalizing ship with
  | nil => exact hcounts
  | cons call calls ih =>
    have hsize : ship.sessions.size < UInt32.size := hfew [] List.nil_prefix
    have hfresh := hdistinct.first
    refine ih (H.changes (H.changes_step hfresh)) (hdistinct.step H) (fun before hbefore => ?_)
      (H.counts_step hfresh hsize hcounts)
    exact hfew (call :: before) (List.cons_prefix_cons.mpr ⟨rfl, hbefore⟩)

/-- What is passed through is counted as well. -/
theorem Passes.counts {name : String} (H : ship.Consistent) (h : ship.Passes call mid)
    (hfew : ship.sessions.size < UInt32.size) (hcounts : ship.world.zones.Counts name) :
    mid.world.zones.Counts name := by
  have hchanges := h.changes H
  cases h with
  | at_once => exact hcounts
  | receive => exact hchanges.counts H rfl hfew hcounts
  | kickAll => exact hchanges.counts H rfl hfew hcounts
  | changeMap => exact hchanges.counts H rfl hfew hcounts

theorem counts_run (u : KeyUnwrapper) (resources : String) (dumpRoot : Option DiskPath)
    (disk : Disk) {calls : List Call} (hnodup : (connections calls).Nodup)
    (hfew : (start u resources dumpRoot disk).FewSessions calls) (name : String) :
    ((start u resources dumpRoot disk).run calls).world.zones.Counts name :=
  (consistent_start u resources dumpRoot disk).counts_run (.start hnodup) hfew
    (ZoneRegistry.Counts.initial name)

/-! ## Objects that are created -/

/-- The zone of an object that is created beside a session bears the name of the session's map. -/
theorem Consistent.zoneOf_eq (H : ship.Consistent) (hs : ship.sessions[id]? = some s) :
    ship.zoneOf s = .ok ((s.map.map (·.map)).getD ZoneRegistry.lobby) := by
  unfold zoneOf
  cases hmap : s.map with
  | none => rfl
  | some ref =>
    obtain ⟨i, map, hfind⟩ := H.agrees.exists_find (place_eq_some.mpr ⟨s, hs, hmap⟩)
    obtain ⟨-, -, hname, -⟩ := H.agrees.of_find hfind
    dsimp only
    rw [ZoneRegistry.map_eq_ok.mpr ⟨i, hfind⟩, Option.map_some, Option.getD_some, ← hname]
    rfl

/-- An object is shown, and then taken into the zone. -/
theorem Consistent.spawnObject_of_live (H : ship.Consistent) (hlive : ship.live? id = some s)
    (name : String) (location : Location) (draw : UInt64) :
    let object := WorldObject.named (ship.world.objects.unusedId draw) name location
    let zone := (s.map.map (·.map)).getD ZoneRegistry.lobby
    let flushed := (ship.present id s object).flushDumps
    spawnObject id name location draw ship = .ok object.id
      (flushed.withObjects (ship.world.objects.insert flushed.disk zone object).2) := by
  intro object zone flushed
  have hworld : flushed.world = ship.world :=
    (sameRest_flushDumps _).world.trans (world_present ..)
  rw [← hworld, spawnObject_eq, hlive]
  dsimp only
  rw [H.zoneOf_eq (live?_eq_some.mp hlive).1]

/-- An object can be created beside every session that is not closed. -/
theorem Consistent.spawnObject_ok (H : ship.Consistent) (hlive : ship.live? id = some s)
    (name : String) (location : Location) (draw : UInt64) :
    ∃ object later, spawnObject id name location draw ship = .ok object later :=
  ⟨_, _, H.spawnObject_of_live hlive name location draw⟩

/-- **Who is where.** After any calls of which no two open the same connection, and also while
another call runs, the sessions and the maps say the same about who is where. So a session is never
in a map that does not exist, and an object can be created beside every session that is not closed.
The instances say the same, too, if there never were more sessions at a time than a word can
count. -/
theorem occupancy_run (u : KeyUnwrapper) (resources : String) (dumpRoot : Option DiskPath)
    (disk : Disk) (calls : List Call) (hnodup : (connections calls).Nodup) :
    let start := start u resources dumpRoot disk
    let ship := start.run calls
    ship.Occupancy ∧ (∀ call mid, ship.Passes call mid → mid.Occupancy) ∧
      (∀ id name location draw, (ship.live? id).isSome →
        ∃ object later, spawnObject id name location draw ship = .ok object later) ∧
      (start.FewSessions calls →
        ship.Counted ∧ ∀ call mid, ship.Passes call mid → mid.Counted) := by
  intro start ship
  have H : ship.Consistent := consistent_run u resources dumpRoot disk hnodup
  refine ⟨H.occupancy, fun call mid h => (H.changes (h.changes H)).occupancy, ?_, fun hfew => ?_⟩
  · intro id name location draw hlive
    obtain ⟨s, hlive⟩ := Option.isSome_iff_exists.mp hlive
    exact H.spawnObject_ok hlive name location draw
  · have hcounts := counts_run u resources dumpRoot disk hnodup hfew
    refine ⟨H.counted_iff.mpr hcounts, fun call mid h => ?_⟩
    exact (H.changes (h.changes H)).counted_iff.mpr fun name =>
      h.counts H (hfew calls List.prefix_rfl) (hcounts name)

theorem occupancy_run_kick :
    let request : MapRequest := ⟨1, 0, .field, {}, {}⟩
    let calls : List Call := [.connect 1 ⟨.v4 127 0 0 1, 50000, 0⟩,
      .connect 2 ⟨.v4 127 0 0 1, 50001, 0⟩, .changeMap 1 request, .changeMap 2 request, .kick 1]
    let ship := (start .plain "").run calls
    (connections calls).Nodup ∧ ship.Occupancy ∧ ship.Counted ∧
      ship.population request.instanceName = 1 ∧
      ∃ object later, spawnObject 2 "chest" {} 268435456 ship = .ok object later := by
  intro request calls ship
  have hnodup : (connections calls).Nodup := by decide
  have hfew : (start .plain "").FewSessions calls := fewSessions_iff.mpr (by decide +kernel)
  obtain ⟨hoccupancy, -, hspawn, hcounts⟩ := occupancy_run .plain "" none {} calls hnodup
  exact ⟨hnodup, hoccupancy, (hcounts hfew).1, by decide +kernel,
    hspawn 2 "chest" {} 268435456 (by decide +kernel)⟩

end Ship

end GameShip
