import GameShip.Proofs.Ship.Deed

/-!
# Clients in different maps

Whatever has happened to a ship, and to its parties, what two clients in different maps send comes
to the same in either order (`Ship.receive_comm_run`).

* `Ship.Event`: what can happen to a ship, uses of its parties among it.
* `Ship.Orderly`: what all of that keeps, also if a connection is opened twice.
-/

namespace GameShip

namespace Ship

/-- One thing that happens to a ship, or a use of its parties. -/
inductive Event where
  | call (call : Call)
  | party (call : PartyRegistry.Call)

/-- What the ship is after an event. -/
def pass (ship : Ship) : Event → Ship
  | .call call => ship.step call
  | .party call =>
    { ship with world := { ship.world with parties := (ship.world.parties.step call).2 } }

/-- What the ship is after many events. -/
def passAll (ship : Ship) (events : List Event) : Ship := events.foldl pass ship

/-- The ship has the standard handlers, its sessions are found by their connections, the books of
its zones are in order, and members know their parties. -/
structure Orderly (u : KeyUnwrapper) (ship : Ship) : Prop where
  handlers : ship.handlers = .standard u
  keyed : ship.sessions.Keyed
  zones : ship.world.zones.Sound
  parties : ship.world.parties.Linked

variable {u : KeyUnwrapper} {ship later : Ship} {id : ClientId} {s t : Session}

namespace Orderly

theorem start (u : KeyUnwrapper) (resources : String) (dumpRoot : Option DiskPath) (disk : Disk) :
    (Ship.start u resources dumpRoot disk).Orderly u where
  handlers := rfl
  keyed id s h := by
    rw [Ship.start, Std.ExtTreeMap.getElem?_empty] at h
    cases h
  zones := .initial
  parties := .empty

theorem calm (H : ship.Orderly u) (h : ship.Calm later) : later.Orderly u where
  handlers := h.handlers.trans H.handlers
  keyed := h.keyed H.keyed
  zones := h.zones ▸ H.zones
  parties := h.parties ▸ H.parties

theorem quiet {α : Type} {x : Operation α} (H : ship.Orderly u) (h : Quiet x) :
    (ship.after x).Orderly u := H.calm (h ship H.keyed)

theorem withZones {zones : ZoneRegistry} (H : ship.Orderly u) (h : zones.Sound) :
    (ship.withZones zones).Orderly u := ⟨H.handlers, H.keyed, h, H.parties⟩

theorem putSession (H : ship.Orderly u) (s : Session) : (ship.putSession s).Orderly u :=
  ⟨H.handlers, H.keyed.put s, H.zones, H.parties⟩

theorem leaveMap (H : ship.Orderly u) (map : Option MapRef) (id : ClientId) :
    (ship.leaveMap map id).Orderly u := by
  cases map with
  | none => exact H
  | some ref => exact ⟨H.handlers, H.keyed, H.zones.removeClient ref id, H.parties⟩

/-- A session is taken out of the world. -/
theorem detach (H : ship.Orderly u) (s : Session) :
    Orderly u { ship with world := (ship.world.detach s).2 } := by
  have hleft := H.leaveMap s.map s.id
  refine ⟨hleft.handlers, hleft.keyed, hleft.zones, ?_⟩
  dsimp only
  rw [World.detach_snd]
  exact H.parties.remove s.id

theorem enact {d : Session.Deed} (H : ship.Orderly u) (hd : d.Of s) :
    (ship.enact s d).Orderly u := by
  have hkeyed : (ship.enact s d).sessions.Keyed := fun id t ht => by
    rw [getElem?_enact ship hd] at ht
    split at ht
    · rename_i hid
      cases ht
      exact hd.id.trans hid
    · obtain ⟨other, hother, rfl⟩ := Option.map_eq_some_iff.mp ht
      exact (hd.keeps other).1.trans (H.keyed id other hother)
  have hworld := world_enact ship s d
  split at hworld
  · have hleft := H.detach s
    exact ⟨H.handlers, hkeyed, hworld ▸ hleft.zones, hworld ▸ hleft.parties⟩
  · exact ⟨H.handlers, hkeyed, hworld ▸ H.zones, hworld ▸ H.parties⟩

theorem receive (H : ship.Orderly u) (id : ClientId) (data : Bytes) (clock : UInt64) :
    (ship.receive id data clock).2.Orderly u := by
  cases hs : ship.sessions[id]? with
  | none =>
    rw [receive_of_none hs]
    exact H
  | some s =>
    obtain rfl : s.id = id := H.keyed id s hs
    obtain ⟨frames, d, hd, hdoes⟩ := exists_deed u s data clock
    rw [hdoes ship H.handlers hs]
    exact H.enact hd

theorem connect (H : ship.Orderly u) (id : ClientId) (address : SocketAddress) :
    (ship.connect id address).Orderly u := by
  unfold Ship.connect
  dsimp only
  cases ship.newDump id <;> exact ⟨H.handlers, H.keyed.put _, H.zones, H.parties⟩

theorem disconnect (H : ship.Orderly u) (id : ClientId) : (ship.disconnect id).Orderly u := by
  unfold Ship.disconnect
  split
  · exact H
  · rename_i s _
    have hleft := H.detach s
    exact ⟨H.handlers, H.keyed.erase id, hleft.zones, hleft.parties⟩

theorem kick (H : ship.Orderly u) (id : ClientId) : (ship.after (Ship.kick id)).Orderly u := by
  unfold after
  rw [kick_eq]
  cases ship.sessions[id]? with
  | none => exact H
  | some s =>
    have hleft := H.detach s
    exact ⟨H.handlers, H.keyed.put _, hleft.zones, hleft.parties⟩

theorem kickAll (H : ship.Orderly u) : (ship.after Ship.kickAll).Orderly u := by
  rw [after_of_ok (kickAll_eq ship)]
  generalize ship.sessions.ids = ids
  induction ids generalizing ship with
  | nil => exact H
  | cons id ids ih => exact ih (H.kick id)

theorem moveToMap (H : ship.Orderly u) (id : ClientId) (ref : MapRef) :
    (ship.after (Ship.moveToMap id ref)).Orderly u := by
  unfold after
  rw [moveToMap_eq]
  cases ship.live? id with
  | none => exact H
  | some s =>
    dsimp only
    cases ship.world.zones.map ref with
    | error e => exact H
    | ok map =>
      dsimp only
      have hleft := H.leaveMap s.map id
      cases hspawn : (ship.leaveMap s.map id).world.zones.spawnClient ref id with
      | error e => exact hleft
      | ok entered =>
        have hmoved := H.withZones (hleft.zones.spawnClient hspawn)
        have hflushed := hmoved.calm (flushed_flushDumps hmoved.keyed).calm
        have hloaded := hflushed.calm (.withObjects (.step
          (ship.withZones entered.2).flushDumps.world.objects
          (ship.withZones entered.2).flushDumps.disk (.objectsOf map.name)))
        dsimp only
        cases live? (Ship.withObjects _ _) id with
        | none => exact hloaded
        | some s => exact hloaded.putSession _

theorem changeMap (H : ship.Orderly u) (id : ClientId) (request : MapRequest) :
    (ship.after (Ship.changeMap id request)).Orderly u := by
  have hcreated := H.withZones (H.zones.create request.instanceName (m := request.map) rfl)
  exact hcreated.moveToMap id _

theorem perform (H : ship.Orderly u) (call : Call) : (ship.perform call).Orderly u := by
  cases call with
  | connect id address => exact H.connect id address
  | receive id data clock => exact H.receive id data clock
  | disconnect id => exact H.disconnect id
  | kick id => exact H.kick id
  | kickAll => exact H.kickAll
  | sendTo id frame => exact H.quiet (quiet_sendTo id frame)
  | sendRaw id packet => exact H.quiet (quiet_sendRaw id packet)
  | sendFile id path => exact H.quiet (quiet_sendFile id path)
  | sendDirectory id path => exact H.quiet (quiet_sendDirectory id path)
  | announce text kind => exact H.quiet (quiet_announce text kind)
  | teleport id destination => exact H.quiet (quiet_teleport id destination)
  | moveToMap id ref => exact H.moveToMap id ref
  | changeMap id request => exact H.changeMap id request
  | spawnClone id name position draw => exact H.quiet (quiet_spawnClone id name position draw)
  | spawnObject id name location draw => exact H.quiet (quiet_spawnObject id name location draw)
  | createInstance name map hempty => exact H.withZones (H.zones.create name hempty)
  | addMap name map hempty =>
    dsimp only [Ship.perform]
    cases h : ship.world.zones.addMap name map with
    | error e => exact H
    | ok zones => exact H.withZones (H.zones.addMap hempty h)
  | write id outcomes => exact H.calm (.adjust H.keyed fun s => ⟨⟨rfl, rfl, rfl, rfl⟩, rfl⟩)
  | identify id user character =>
    exact H.calm (.adjust H.keyed fun s => ⟨⟨rfl, rfl, rfl, rfl⟩, rfl⟩)
  | replaceDisk disk => exact ⟨H.handlers, H.keyed, H.zones, H.parties⟩

theorem step (H : ship.Orderly u) (call : Call) : (ship.step call).Orderly u := by
  rw [Ship.step]
  exact (H.perform call).calm (flushed_flushDumps (H.perform call).keyed).calm

theorem pass (H : ship.Orderly u) (event : Event) : (ship.pass event).Orderly u := by
  cases event with
  | call call => exact H.step call
  | party call => exact ⟨H.handlers, H.keyed, H.zones, H.parties.step call⟩

theorem passAll (H : ship.Orderly u) (events : List Event) : (ship.passAll events).Orderly u := by
  induction events generalizing ship with
  | nil => exact H
  | cons event events ih => exact ih (H.pass event)

end Orderly

/-- **Traffic of clients in different maps commutes.** Whatever has happened to a ship with the
standard handlers, and to its parties: if two clients are not in the same map, what they send comes
to the same ship in either order, and to each of them the same frames are handled. This goes for any
bytes, of which any number of frames may become known, logouts among them that leave a party. -/
theorem receive_comm_run (u : KeyUnwrapper) (resources : String) (dumpRoot : Option DiskPath)
    (disk : Disk) (events : List Event) :
    let ship := (start u resources dumpRoot disk).passAll events
    ∀ a b : ClientId, a ≠ b →
      (∀ ref, ship.sessions.place a = some ref → ship.sessions.place b ≠ some ref) →
      ∀ (x y : Bytes) (now later : UInt64),
        ((ship.receive a x now).2.receive b y later).2 =
            ((ship.receive b y later).2.receive a x now).2 ∧
          ((ship.receive a x now).2.receive b y later).1 = (ship.receive b y later).1 ∧
          ((ship.receive b y later).2.receive a x now).1 = (ship.receive a x now).1 := by
  intro ship a b hne hmaps x y now later
  have H : ship.Orderly u := (Orderly.start u resources dumpRoot disk).passAll events
  exact receive_comm u H.handlers H.keyed H.zones H.parties hne hmaps x y now later

/-- The host of a party and a member of it are in two maps of the lobby and log out. The party is
gone after that, whoever was first. -/
theorem receive_comm_run_party :
    let events : List Event := [.call (.connect 1 ⟨.v4 127 0 0 1, 50000, 0⟩),
      .call (.connect 2 ⟨.v4 127 0 0 1, 50001, 0⟩),
      .call (.moveToMap 1 ⟨ZoneRegistry.lobby, ZoneRegistry.lobby⟩),
      .call (.moveToMap 2 ⟨ZoneRegistry.lobby, "casino"⟩),
      .party (.create 1 "red"), .party (.add 0 2)]
    let logout : Bytes := Frame.toBytes { opcode := Opcode.Client.logout }
    -- no directory has such a name, so the maps have no objects of their own
    let ship := (start .plain "\x00" none {}).passAll events
    let last := ((ship.receive 1 logout 4).2.receive 2 logout 7).2
    (ship.world.parties.party? 0).map (·.members) = some [1, 2] ∧
      ship.sessions.place 1 = some ⟨ZoneRegistry.lobby, ZoneRegistry.lobby⟩ ∧
      ship.sessions.place 2 = some ⟨ZoneRegistry.lobby, "casino"⟩ ∧
      last = ((ship.receive 2 logout 7).2.receive 1 logout 4).2 ∧ last.world.parties.count = 0 := by
  intro events logout ship last
  have hparty : (ship.world.parties.party? 0).map (·.members) = some [1, 2] := by decide +kernel
  have hhost : ship.sessions.place 1 = some ⟨ZoneRegistry.lobby, ZoneRegistry.lobby⟩ := by
    decide +kernel
  have hmember : ship.sessions.place 2 = some ⟨ZoneRegistry.lobby, "casino"⟩ := by decide +kernel
  have hmaps : ∀ ref, ship.sessions.place 1 = some ref → ship.sessions.place 2 ≠ some ref := by
    intro ref href hsame
    rw [hhost] at href
    rw [hmember, ← href] at hsame
    exact absurd hsame (by decide)
  obtain ⟨hsame, -, -⟩ :=
    receive_comm_run .plain "\x00" none {} events 1 2 (by decide) hmaps logout logout 4 7
  exact ⟨hparty, hhost, hmember, hsame, by decide +kernel⟩

end Ship

end GameShip
