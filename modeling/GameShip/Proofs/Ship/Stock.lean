import GameShip.Proofs.Ship.Step

/-!
# The objects of the maps where sessions are

The objects of a map have been read when a session is there, and stay read. Only a generated map has
none, and so nothing to be read (`Ship.stocked_run`).

* `Ship.Stocked`: the registry fits together, and has the objects of these maps.
-/

namespace GameShip

namespace Ship

/-- The registry fits together, and has read the objects of every map where a session is. -/
structure Stocked (ship : Ship) : Prop where
  sound : ship.world.objects.Sound
  loaded : ∀ (id : ClientId) (ref : MapRef), ship.sessions.place id = some ref →
    ref.map = generatedMapName ∨ ship.world.objects.zones.contains ref.map = true

variable {call : Call} {calls : List Call} {ship later : Ship} {id : ClientId} {ref : MapRef}
  {s : Session}

namespace Stocked

/-- A session is where one was, or the objects of its map have been read. -/
theorem of_place (S : ship.Stocked) (hobjects : ship.world.objects.Reaches later.world.objects)
    (hplace : ∀ id ref, later.sessions.place id = some ref →
      ship.sessions.place id = some ref ∨ ref.map = generatedMapName ∨
        later.world.objects.zones.contains ref.map = true) : later.Stocked := by
  refine ⟨hobjects.sound S.sound, fun id ref hid => ?_⟩
  rcases hplace id ref hid with hwas | hread
  · exact (S.loaded id ref hwas).imp_right hobjects.toExtends.contains_zones
  · exact hread

theorem stay (S : ship.Stocked) (hobjects : ship.world.objects.Reaches later.world.objects)
    (hplace : later.sessions.place = ship.sessions.place) : later.Stocked :=
  S.of_place hobjects fun _ _ h => .inl (hplace ▸ h)

theorem update {map : Option MapRef} (S : ship.Stocked)
    (hobjects : ship.world.objects.Reaches later.world.objects)
    (hplace : later.sessions.place = Function.update ship.sessions.place id map)
    (hmap : ∀ ref, map = some ref →
      ref.map = generatedMapName ∨ later.world.objects.zones.contains ref.map = true) :
    later.Stocked := by
  refine S.of_place hobjects fun other ref hother => ?_
  rw [hplace] at hother
  by_cases h : other = id
  · rw [h, Function.update_self] at hother
    exact .inr (hmap ref hother)
  · rw [Function.update_of_ne h] at hother
    exact .inl hother

theorem kick (S : ship.Stocked) (hkeyed : ship.sessions.Keyed) (id : ClientId) :
    (ship.after (Ship.kick id)).Stocked := by
  have hobjects : ship.world.objects.Reaches (ship.after (Ship.kick id)).world.objects := by
    rw [objects_kick]
    exact .refl _
  cases hs : ship.sessions[id]? with
  | none =>
    refine S.stay hobjects ?_
    rw [after, kick_eq, hs]
  | some s =>
    have hid : s.id = id := hkeyed id s hs
    have hplace : (ship.after (Ship.kick id)).sessions.place =
        Function.update ship.sessions.place id none := by
      rw [after, kick_eq, hs, ← hid]
      exact SessionTable.place_put ..
    exact S.update hobjects hplace fun ref href => by cases href

theorem change (H : ship.Consistent) (S : ship.Stocked) (h : ship.Change call later) :
    later.Stocked := by
  have hobjects := h.objects
  cases h with
  | calm h => exact S.stay hobjects h.sessions.place
  | @hear id s t _ hs hid _ hmap =>
    refine S.stay hobjects ?_
    rw [putSession, SessionTable.place_put, hid, H.keyed id s hs, hmap, ← SessionTable.place_eq hs,
      Function.update_eq_self]
  | hangUp => exact S.kick H.keyed _
  | @drop id s _ hs hmap =>
    refine S.stay hobjects ?_
    rw [SessionTable.place_erase, ← hmap, ← SessionTable.place_eq hs, Function.update_eq_self]
  | @join s _ hnew hmap =>
    refine S.stay hobjects ?_
    have hplace : ship.sessions.place s.id = none := by
      rw [SessionTable.place, hnew, Option.bind_none]
    rw [putSession, SessionTable.place_put, hmap, ← hplace, Function.update_eq_self]
  | @move id s ref location zones objects _ _ _ hloaded =>
    refine S.update hobjects (SessionTable.place_put ..) fun ref' href => ?_
    cases href
    exact hloaded
  | create => exact S.stay hobjects rfl
  | addMap => exact S.stay hobjects rfl

theorem changes (H : ship.Consistent) (S : ship.Stocked) (h : ship.Changes call later) :
    later.Stocked := by
  induction h with
  | refl => exact S
  | tail hfirst h ih => exact ih.change (H.changes hfirst) h

theorem run (H : ship.Consistent) (S : ship.Stocked) (h : ship.Distinct calls) :
    (ship.run calls).Stocked := by
  induction calls generalizing ship with
  | nil => exact S
  | cons call calls ih =>
    have hchanges := H.changes_step h.first
    exact ih (H.changes hchanges) (S.changes H hchanges) (h.step H)

end Stocked

theorem stocked_start (u : KeyUnwrapper) (resources : String) (dumpRoot : Option DiskPath)
    (disk : Disk) : (start u resources dumpRoot disk).Stocked where
  sound := ObjectRegistry.sound_ofResources resources
  loaded id ref h := by
    rw [SessionTable.place, start, Std.ExtTreeMap.getElem?_empty] at h
    cases h

/-- A ship of which no connection has been opened twice has the objects of the maps where its
sessions are. -/
theorem stocked_run (u : KeyUnwrapper) (resources : String) (dumpRoot : Option DiskPath)
    (disk : Disk) (hnodup : (connections calls).Nodup) :
    ((start u resources dumpRoot disk).run calls).Stocked :=
  (stocked_start u resources dumpRoot disk).run (consistent_start u resources dumpRoot disk)
    (.start hnodup)

end Ship

end GameShip
