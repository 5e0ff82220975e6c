import GameShip.Proofs.Session.Outbound
import GameShip.Proofs.Ship.Occupancy

/-!
# What is shown on arrival

An object that is created beside a session is shown to every session that comes into that map later,
unless the map is a generated one: there nothing is shown on arrival (`Ship.arrival_run`).

* `Frame.Shows`: a frame shows an object.
* `Ship.Arrives`: an operation moves a session into a map.
* `Ship.Queues`: what an operation adds to what waits to be sent.
-/

namespace GameShip

/-- The frame shows the object of a number to a client. -/
def Frame.Shows (frame : Frame) (id : UInt64) : Prop :=
  frame.opcode = Opcode.Server.objectSpawn ∧ Wire.u64 id <+: frame.payload

theorem Frame.shows_objectSpawn (object : WorldObject) :
    (Packet.objectSpawn object).frame.Shows object.id := by
  refine ⟨rfl, ?_⟩
  change Wire.u64 object.header.id <+: object.toBytes
  unfold WorldObject.toBytes Wire.header
  simp only [List.append_assoc]
  exact List.prefix_append _ _

namespace Session

variable {s : Session} {frames : List Frame}

/-- Frames for which there is room are queued as a whole, encrypted by one run of the cipher. -/
theorem toList_outbox_foldl_sendFrame (hopen : s.closed = false)
    (hroom : s.outbox.length + (frames.flatMap Frame.toBytes).length ≤ s.outbox.capacity) :
    (frames.foldl sendFrame s).outbox.toList =
      s.outbox.toList ++ (Rc4.through s.outCipher (frames.flatMap Frame.toBytes)).1 := by
  rw [List.flatMap_def] at hroom ⊢
  rw [← s.toList_outbox_foldl_send hopen hroom, List.foldl_map]
  rfl

end Session

namespace Ship

/-- An operation that moves a session into a map. -/
inductive Arrives (id : ClientId) : MapRef → Operation Location → Prop
  | moveToMap (ref : MapRef) : Arrives id ref (Ship.moveToMap id ref)
  | changeMap (request : MapRequest) :
      Arrives id ⟨request.instanceName, generatedMapName⟩ (Ship.changeMap id request)

/-- What waits to be sent to a client grows by the bytes of frames, if there is room for them. -/
def Queues (ship later : Ship) (id : ClientId) (frames : List Frame) : Prop :=
  ∃ s t, ship.sessions[id]? = some s ∧ later.sessions[id]? = some t ∧
    (s.outbox.length + (frames.flatMap Frame.toBytes).length ≤ s.outbox.capacity →
      t.outbox.toList =
        s.outbox.toList ++ (Rc4.through s.outCipher (frames.flatMap Frame.toBytes)).1)

/-- The frame after which a client can act again. -/
def unlock : Frame := (Packet.bare Opcode.Server.unlockControls).frame

/-- The frames that show objects. -/
def shown (objects : List WorldObject) : List Frame :=
  objects.map fun object => (Packet.objectSpawn object).frame

variable {ship later : Ship} {id : ClientId} {ref : MapRef} {location : Location}

theorem arrive_eq (s : Session) (ref : MapRef) (location : Location) (objects : List WorldObject) :
    arrive s ref location objects =
      (shown objects ++ [unlock]).foldl Session.sendFrame { s with map := some ref, location } := by
  rw [List.foldl_append, shown, List.foldl_map]
  rfl

/-- A session that is moved is shown the objects of its new map, and can act again after that. -/
theorem queues_moveToMap (H : ship.Consistent)
    (hmove : moveToMap id ref ship = .ok location later) :
    ∃ disk, ship.Queues later id
      (shown (ship.world.objects.objectsOf disk ref.map).1 ++ [unlock]) := by
  obtain ⟨e, herror⟩ | ⟨s, s', map, _, zones, hlive, hrecorded, hmap, -, hok⟩ :=
    moveToMap_cases H id ref
  · rw [herror] at hmove
    cases hmove
  · obtain ⟨hs, hopen⟩ := live?_eq_some.mp hlive
    obtain ⟨i, hfind⟩ := ZoneRegistry.map_eq_ok.mp hmap
    obtain ⟨-, -, hname, -⟩ := H.agrees.of_find hfind
    have hflushed : (ship.withZones zones).Flushed (ship.withZones zones).flushDumps :=
      flushed_flushDumps H.keyed
    rw [hok] at hmove
    cases hmove
    rw [← hname]
    refine ⟨(ship.withZones zones).flushDumps.disk, s, _, hs, getElem?_put _ ?_, fun hroom => ?_⟩
    · exact (unmoved_arrive hrecorded ref location _).id.trans (H.keyed id s hs)
    · have hobjects : (ship.withZones zones).flushDumps.world.objects = ship.world.objects := by
        rw [hflushed.world]
        rfl
      obtain ⟨dump, rfl⟩ := hrecorded
      rw [hobjects, arrive_eq]
      exact Session.toList_outbox_foldl_sendFrame hopen hroom

theorem Arrives.queues {arrival : Operation Location} (h : Arrives id ref arrival)
    (H : ship.Consistent) (hok : arrival ship = .ok location later) :
    ∃ disk, ship.Queues later id
      (shown (ship.world.objects.objectsOf disk ref.map).1 ++ [unlock]) := by
  cases h with
  | moveToMap => exact queues_moveToMap H hok
  | changeMap request =>
    have hcreate : ship.Changes (.changeMap id request)
        (ship.withZones (ship.world.zones.create request.instanceName request.map).2) :=
      .one (.create _ rfl)
    have hmove : Ship.moveToMap id ⟨request.instanceName, generatedMapName⟩
        (ship.withZones (ship.world.zones.create request.instanceName request.map).2) =
          .ok location later := hok
    have hqueues := queues_moveToMap (H.changes hcreate) hmove
    exact hqueues

/-- An object that is created beside a session is listed for its map. -/
theorem lists_spawnObject (H : ship.Consistent) {s : Session} {name : String} {draw object : UInt64}
    (hlive : ship.live? id = some s) (hmap : s.map = some ref)
    (hspawn : spawnObject id name location draw ship = .ok object later)
    (hfree : ∃ id, ObjectRegistry.isFresh id = true ∧ ship.world.objects.contains id = false) :
    later.world.objects.Lists ref.map object := by
  have hspawned := H.spawnObject_of_live hlive name location draw
  rw [hmap, Option.map_some, Option.getD_some, hspawn] at hspawned
  cases hspawned
  exact ObjectRegistry.lists_insert (ObjectRegistry.contains_unusedId hfree draw) _ _

theorem Consistent.extends_run {calls : List Call} (H : ship.Consistent)
    (h : ship.Distinct calls) : ship.world.objects.Extends (ship.run calls).world.objects := by
  induction calls generalizing ship with
  | nil => exact .refl _
  | cons call calls ih =>
    have hchanges := H.changes_step h.first
    exact hchanges.objects.toExtends.trans (ih (H.changes hchanges) (h.step H))

/-- **What is shown on arrival.** After an object has been created beside a session that is in a
map, for which there was a number left, every session that comes into a map of that name is shown
all objects of the map before it can act again, whatever happens in between. The created object is
one of them, unless the map is a generated one: there nothing is shown. -/
theorem arrival_run (u : KeyUnwrapper) (resources : String) (dumpRoot : Option DiskPath)
    (disk : Disk) (calls later : List Call) (id client : ClientId) (name : String)
    (location place : Location) (draw object : UInt64) (s : Session) (ref target : MapRef)
    (spawned last : Ship) (arrival : Operation Location)
    (hnodup : (connections (calls ++ .spawnObject id name location draw :: later)).Nodup)
    (hlive : ((start u resources dumpRoot disk).run calls).live? id = some s)
    (hmap : s.map = some ref)
    (hfree : ∃ id, ObjectRegistry.isFresh id = true ∧
      ((start u resources dumpRoot disk).run calls).world.objects.contains id = false)
    (hspawn : spawnObject id name location draw ((start u resources dumpRoot disk).run calls) =
      .ok object spawned)
    (harrives : Arrives client target arrival) (htarget : target.map = ref.map)
    (harrival : arrival (spawned.run later) = .ok place last) (disk' : Disk) :
    let objects := ((spawned.run later).world.objects.objectsOf disk' ref.map).1
    (spawned.run later).Queues last client (shown objects ++ [unlock]) ∧
      (ref.map ≠ generatedMapName → ∃ frame ∈ shown objects, frame.Shows object) ∧
      (ref.map = generatedMapName → shown objects = []) := by
  have hparts := hnodup
  rw [connections_append] at hparts
  have H := consistent_run u resources dumpRoot disk (List.nodup_append.mp hparts).1
  have hrest := (Distinct.start hnodup).run (consistent_start u resources dumpRoot disk)
  have hchanges := H.changes_perform hrest.first
  rw [perform, after_of_ok hspawn] at hchanges
  have hlater := hrest.changes H hchanges
  have H' := H.changes hchanges
  -- the object is listed when it is created, and no registry loses anything
  have hlists := (lists_spawnObject H hlive hmap hspawn hfree).mono (H'.extends_run hlater)
  obtain ⟨read, hqueues⟩ := harrives.queues (H'.run hlater) harrival
  rw [htarget, hlists.objectsOf_eq read disk'] at hqueues
  refine ⟨hqueues, fun hstatic => ?_, fun hgenerated => ?_⟩
  · obtain ⟨found, hfound, hid⟩ := hlists.exists_mem_objectsOf disk' hstatic
    exact ⟨_, List.mem_map.mpr ⟨found, hfound, rfl⟩, hid ▸ Frame.shows_objectSpawn found⟩
  · rw [hgenerated, ObjectRegistry.objectsOf_generated]
    rfl

/-- A client that comes to the lobby is shown the chest that was put there. -/
theorem arrival_run_lobby :
    let lobby : MapRef := ⟨ZoneRegistry.lobby, ZoneRegistry.lobby⟩
    let calls : List Call := [.connect 1 ⟨.v4 127 0 0 1, 50000, 0⟩, .moveToMap 1 lobby]
    -- no directory has such a name, so the lobby has no objects of its own
    let ship := (start .plain "\x00").run calls
    let spawned := ship.after (spawnObject 1 "chest" {} 268435456)
    let present := spawned.run [.connect 2 ⟨.v4 127 0 0 1, 50001, 0⟩]
    let objects := (present.world.objects.objectsOf {} lobby.map).1
    ship.answer? (spawnObject 1 "chest" {} 268435456) = some 268435456 ∧
      (present.answer? (moveToMap 2 lobby)).isSome ∧
      present.Queues (present.after (moveToMap 2 lobby)) 2 (shown objects ++ [unlock]) ∧
      ∃ frame ∈ shown objects, frame.Shows 268435456 := by
  intro lobby calls ship spawned present objects
  have hplace : (ship.live? 1).bind (·.map) = some lobby := by decide +kernel
  obtain ⟨s, hlive, hmap⟩ := Option.bind_eq_some_iff.mp hplace
  have hfree : ∃ id, ObjectRegistry.isFresh id = true ∧ ship.world.objects.contains id = false :=
    ⟨268435456, by decide +kernel⟩
  have hspawn : ship.answer? (spawnObject 1 "chest" {} 268435456) = some 268435456 := by
    decide +kernel
  have hmove : (present.answer? (moveToMap 2 lobby)).isSome := by decide +kernel
  obtain ⟨place, harrival⟩ := Option.isSome_iff_exists.mp hmove
  have h := arrival_run .plain "\x00" none {} calls [.connect 2 ⟨.v4 127 0 0 1, 50001, 0⟩] 1 2
    "chest" {} place 268435456 268435456 s lobby lobby spawned _ (moveToMap 2 lobby) (by decide)
    hlive hmap hfree (answer?_eq_some.mp hspawn) (.moveToMap lobby) rfl
    (answer?_eq_some.mp harrival) {}
  exact ⟨hspawn, hmove, h.1, h.2.1 (by decide)⟩

/-- A client that comes to a generated map is not shown the chest that was put there, though there
is room for it. -/
theorem arrival_generated_unseen :
    let request : MapRequest := ⟨1, 0, .field, {}, {}⟩
    let ship := (start .plain "").run [.connect 1 ⟨.v4 127 0 0 1, 50000, 0⟩, .changeMap 1 request]
    let spawned := ship.after (spawnObject 1 "chest" {} 268435456)
    let present := spawned.run [.connect 2 ⟨.v4 127 0 0 1, 50001, 0⟩]
    let last := present.after (changeMap 2 request)
    ship.answer? (spawnObject 1 "chest" {} 268435456) = some 268435456 ∧
      (present.answer? (changeMap 2 request)).isSome ∧
      ∃ s t, present.sessions[(2 : ClientId)]? = some s ∧ last.sessions[(2 : ClientId)]? = some t ∧
        s.outbox.length + 1000 ≤ s.outbox.capacity ∧
        ¬ ∃ frames : List Frame,
          t.outbox.toList = s.outbox.toList ++ (frames ++ [unlock]).flatMap Frame.toBytes ∧
            ∃ frame ∈ frames, frame.Shows 268435456 := by
  intro request ship spawned present last
  have hspawn : ship.answer? (spawnObject 1 "chest" {} 268435456) = some 268435456 := by
    decide +kernel
  have hmove : (present.answer? (changeMap 2 request)).isSome := by decide +kernel
  let welcome : Bytes := Packet.welcome.frame.toBytes
  have hbefore : present.sessions[(2 : ClientId)]?.map (fun s =>
      (s.outbox.toList, decide (s.outbox.length + 1000 ≤ s.outbox.capacity))) =
        some (welcome, true) := by decide +kernel
  have hafter : last.sessions[(2 : ClientId)]?.map (·.outbox.toList) =
      some (welcome ++ unlock.toBytes) := by decide +kernel
  obtain ⟨s, hs, hqueue⟩ := Option.map_eq_some_iff.mp hbefore
  obtain ⟨t, ht, hqueue'⟩ := Option.map_eq_some_iff.mp hafter
  obtain ⟨hqueue, hroom⟩ := Prod.mk.inj hqueue
  refine ⟨hspawn, hmove, s, t, hs, ht, of_decide_eq_true hroom, ?_⟩
  rintro ⟨frames, hframes, frame, hframe, -⟩
  rw [hqueue', hqueue, List.append_cancel_left_eq, List.flatMap_append, List.flatMap_singleton,
    List.self_eq_append_left] at hframes
  have hlength := congrArg List.length (List.flatMap_eq_nil_iff.mp hframes frame hframe)
  rw [Frame.length_toBytes, Frame.size, Frame.headerSize, List.length_nil] at hlength
  omega

end Ship

end GameShip
