import GameShip.Proofs.Ship.Calm
import GameShip.Proofs.Ship.Run
import GameShip.Proofs.World.Zone
import Mathlib.Logic.Relation

/-!
# How a ship changes

Whatever happens to a ship is made up of a few kinds of changes.

* `Ship.Change`: one of the changes of which a call may be made up.
* `Ship.Consistent`: sessions and zones say the same. Every change keeps it
  (`Ship.Consistent.changes`).
-/

namespace GameShip

/-- The map that each client is in, according to its session. -/
def SessionTable.place (t : SessionTable) : Placement := fun id => t[id]?.bind (·.map)

namespace SessionTable

variable {t t' : SessionTable} {id : ClientId} {s : Session}

theorem place_eq (h : t[id]? = some s) : t.place id = s.map := by
  rw [place, h, Option.bind_some]

theorem place_put (t : SessionTable) (s : Session) :
    (t.put s).place = Function.update t.place s.id s.map := by
  funext id
  unfold place
  rw [getElem?_put]
  by_cases h : s.id = id
  · rw [if_pos h, ← h, Function.update_self, Option.bind_some]
  · rw [if_neg h, Function.update_of_ne (Ne.symm h)]

theorem place_erase (t : SessionTable) (id : ClientId) :
    place (t.erase id) = Function.update t.place id none := by
  funext other
  unfold place
  rw [Std.ExtTreeMap.getElem?_erase]
  by_cases h : other = id
  · subst h
    simp
  · simp [h, Ne.symm h]

theorem Rel.place (h : Rel Session.Unmoved t t') : t'.place = t.place := by
  funext id
  unfold SessionTable.place
  have h := h id
  generalize t[id]? = o, t'[id]? = o' at h
  cases h with
  | none => rfl
  | some hs => exact hs.map

theorem Keyed.put (h : t.Keyed) (s : Session) : (t.put s).Keyed := fun id s' hs' => by
  rw [getElem?_put] at hs'
  split at hs'
  · rename_i hid
    cases hs'
    exact hid
  · exact h id s' hs'

theorem Keyed.erase (h : t.Keyed) (id : ClientId) : Keyed (t.erase id) := fun other s hs => by
  rw [Std.ExtTreeMap.getElem?_erase] at hs
  split at hs
  · cases hs
  · exact h other s hs

end SessionTable

namespace Ship

/-- Sessions and zones say the same about who is where, and nobody who is gone is anywhere. -/
structure Consistent (ship : Ship) : Prop where
  keyed : ship.sessions.Keyed
  closed : ∀ (id : ClientId) (s : Session),
    ship.sessions[id]? = some s → s.closed = true → s.map = none
  agrees : ship.world.zones.Agrees ship.sessions.place

/-- One of the changes of which a call may be made up. Only for the connections that the call
concerns may it open, close or remove the session, or change how it hears its client. -/
inductive Change (call : Call) (ship : Ship) : Ship → Prop
  /-- Every session stays where it is. -/
  | calm {later : Ship} (h : ship.Calm later) : Change call ship later
  /-- A session hears its client. -/
  | hear {id : ClientId} {s t : Session} (hcall : call.concerns id)
      (hs : ship.sessions[id]? = some s) (hid : t.id = s.id) (hclosed : t.closed = s.closed)
      (hmap : t.map = s.map) : Change call ship (ship.putSession t)
  /-- A session is taken out of the world and closed. -/
  | hangUp {id : ClientId} (hcall : call.concerns id) : Change call ship (ship.after (kick id))
  /-- A session that is nowhere is removed. -/
  | drop {id : ClientId} {s : Session} (hcall : call.concerns id) (hs : ship.sessions[id]? = some s)
      (hmap : s.map = none) : Change call ship { ship with sessions := ship.sessions.erase id }
  /-- A session is opened. -/
  | join {s : Session} (hcall : call.connection? = some s.id)
      (hnew : ship.sessions[s.id]? = none) (hmap : s.map = none) :
      Change call ship (ship.putSession s)
  /-- A session leaves its map and enters another, of which the objects have been read. -/
  | move {id : ClientId} {s : Session} {ref : MapRef} {location : Location} {zones : ZoneRegistry}
      {objects : ObjectRegistry} (hlive : ship.live? id = some s)
      (hzones : (ship.leaveMap s.map id).world.zones.spawnClient ref id = .ok (location, zones))
      (hobjects : ship.world.objects.Reaches objects)
      (hloaded : ref.map = generatedMapName ∨ objects.zones.contains ref.map = true) :
      Change call ship (((ship.withZones zones).withObjects objects).putSession
        { s with map := some ref, location })
  /-- An instance is created for a map where nobody is yet. -/
  | create (name : String) {map : GameMap} (hempty : map.clients = []) :
      Change call ship (ship.withZones (ship.world.zones.create name map).2)
  /-- A map where nobody is yet is added to an instance. -/
  | addMap {name : String} {map : GameMap} {zones : ZoneRegistry} (hempty : map.clients = [])
      (hzones : ship.world.zones.addMap name map = .ok zones) :
      Change call ship (ship.withZones zones)

/-- Any number of such changes. -/
def Changes (call : Call) (ship later : Ship) : Prop :=
  Relation.ReflTransGen (Change call) ship later

variable {call : Call} {ship later last : Ship} {id : ClientId} {s : Session}

namespace Changes

theorem refl (ship : Ship) : ship.Changes call ship := Relation.ReflTransGen.refl

theorem one (h : ship.Change call later) : ship.Changes call later := .single h

theorem calm (h : ship.Calm later) : ship.Changes call later := one (.calm h)

theorem trans (h : ship.Changes call later) (h' : later.Changes call last) :
    ship.Changes call last :=
  Relation.ReflTransGen.trans h h'

end Changes

/-! ## What every change keeps -/

theorem agrees_leaveMap {w : World} {place : Placement} (H : w.zones.Agrees place) (id : ClientId) :
    (w.leaveMap (place id) id).zones.Agrees (Function.update place id none) := by
  unfold World.leaveMap
  cases h : place id with
  | some ref => exact H.removeClient h
  | none =>
    have hsame := Function.update_eq_self id place
    rw [h] at hsame
    rw [hsame]
    exact H

theorem exists_find_leaveMap {w : World} {place : Placement} (H : w.zones.Agrees place)
    (map : Option MapRef) (id : ClientId) {ref : MapRef}
    (h : ∃ i m, w.zones.find ref = .ok (i, m)) :
    ∃ i m, (w.leaveMap map id).zones.find ref = .ok (i, m) := by
  unfold World.leaveMap
  split
  · exact H.exists_find_removeClient id _ h
  · exact h

namespace Consistent

/-- What is needed if a session is put in the place of another. -/
theorem put {t : Session} (H : ship.Consistent) (zones : ZoneRegistry)
    (hclosed : t.closed = true → t.map = none)
    (hagrees : zones.Agrees (Function.update ship.sessions.place t.id t.map)) :
    ((ship.withZones zones).putSession t).Consistent where
  keyed := H.keyed.put t
  closed id s hs := by
    rw [putSession, SessionTable.getElem?_put] at hs
    split at hs
    · cases hs
      exact hclosed
    · exact H.closed id s hs
  agrees := by
    rw [putSession, SessionTable.place_put]
    exact hagrees

theorem calm (H : ship.Consistent) (h : ship.Calm later) : later.Consistent where
  keyed := h.keyed H.keyed
  closed id s' hs' hclosed := by
    obtain ⟨s, hs, hsame⟩ := h.sessions.of_some_right hs'
    rw [hsame.map]
    exact H.closed id s hs (hsame.closed.symm.trans hclosed)
  agrees := by
    rw [h.zones, h.sessions.place]
    exact H.agrees

theorem kick (H : ship.Consistent) (id : ClientId) : (ship.after (Ship.kick id)).Consistent := by
  unfold Ship.after
  rw [kick_eq]
  cases hs : ship.sessions[id]? with
  | none => exact H
  | some s =>
    have hid : s.id = id := H.keyed id s hs
    have hagrees := agrees_leaveMap H.agrees id
    rw [SessionTable.place_eq hs, ← hid] at hagrees
    have hput := H.put (t := { s with map := none, closed := true }) _ (fun _ => rfl) hagrees
    exact ⟨hput.keyed, hput.closed, hput.agrees⟩

theorem change (H : ship.Consistent) (h : ship.Change call later) : later.Consistent := by
  cases h with
  | calm h => exact H.calm h
  | @hear id s t _ hs hid hclosed hmap =>
    have hid := hid.trans (H.keyed id s hs)
    refine H.put ship.world.zones (fun h => ?_) ?_
    · exact hmap.trans (H.closed id s hs (hclosed.symm.trans h))
    · rw [hid, hmap, ← SessionTable.place_eq hs, Function.update_eq_self]
      exact H.agrees
  | hangUp => exact H.kick _
  | @drop id s _ hs hmap =>
    refine ⟨H.keyed.erase id, fun other t ht => ?_, ?_⟩
    · rw [Std.ExtTreeMap.getElem?_erase] at ht
      split at ht
      · cases ht
      · exact H.closed other t ht
    · rw [SessionTable.place_erase, ← hmap, ← SessionTable.place_eq hs, Function.update_eq_self]
      exact H.agrees
  | @join s _ hnew hmap =>
    refine H.put ship.world.zones (fun _ => hmap) ?_
    have hplace : ship.sessions.place s.id = none := by
      rw [SessionTable.place, hnew, Option.bind_none]
    rw [hmap, ← hplace, Function.update_eq_self]
    exact H.agrees
  | @move id s ref location zones objects hlive hzones =>
    obtain ⟨hs, hopen⟩ := live?_eq_some.mp hlive
    have hput := H.put (t := { s with map := some ref, location }) zones (fun h => ?_) ?_
    · exact ⟨hput.keyed, hput.closed, hput.agrees⟩
    · rw [hopen] at h
      cases h
    · -- the zones agree that the session is nowhere when it enters the map
      obtain ⟨i, m, hfind⟩ := ZoneRegistry.exists_find_of_spawnClient hzones
      have hleft := agrees_leaveMap H.agrees id
      rw [SessionTable.place_eq hs] at hleft
      obtain ⟨zones', hspawn, hagrees⟩ := hleft.spawnClient (Function.update_self ..) hfind
      cases hzones.symm.trans hspawn
      rw [Function.update_idem] at hagrees
      exact (H.keyed id s hs).symm ▸ hagrees
  | create name hempty => exact ⟨H.keyed, H.closed, H.agrees.create name hempty⟩
  | addMap hempty hzones => exact ⟨H.keyed, H.closed, H.agrees.addMap hempty hzones⟩

theorem changes (H : ship.Consistent) (h : ship.Changes call later) : later.Consistent := by
  induction h with
  | refl => exact H
  | tail _ h ih => exact ih.change h

end Consistent

theorem handlers_kick (ship : Ship) (id : ClientId) :
    (ship.after (kick id)).handlers = ship.handlers := by
  unfold after
  rw [kick_eq]
  cases ship.sessions[id]? <;> rfl

theorem objects_kick (ship : Ship) (id : ClientId) :
    (ship.after (kick id)).world.objects = ship.world.objects := by
  unfold after
  rw [kick_eq]
  cases ship.sessions[id]? with
  | none => rfl
  | some s =>
    dsimp only [World.detach, World.leaveMap]
    split <;> rfl

theorem Change.handlers (h : ship.Change call later) : later.handlers = ship.handlers := by
  cases h with
  | calm h => exact h.handlers
  | hangUp => exact handlers_kick ..
  | _ => rfl

theorem Changes.handlers (h : ship.Changes call later) : later.handlers = ship.handlers := by
  induction h with
  | refl => rfl
  | tail _ h ih => exact h.handlers.trans ih

/-- No session is opened but that of the connection which the call opens. -/
theorem Change.getElem?_eq_none (H : ship.Consistent) (h : ship.Change call later)
    (hnone : ship.sessions[id]? = none) (hother : call.connection? ≠ some id) :
    later.sessions[id]? = none := by
  have hput {t : Session} (hne : t.id ≠ id) : (ship.sessions.put t)[id]? = none := by
    rw [SessionTable.getElem?_put, if_neg hne, hnone]
  have hne {other : ClientId} {s : Session} (hs : ship.sessions[other]? = some s) : s.id ≠ id := by
    rw [H.keyed other s hs]
    rintro rfl
    rw [hs] at hnone
    cases hnone
  cases h with
  | calm h =>
    have h := h.sessions id
    rw [hnone] at h
    generalize later.sessions[id]? = o at h
    cases h with | none => rfl
  | hear _ hs hid => exact hput (hid ▸ hne hs)
  | @hangUp other =>
    unfold after
    rw [kick_eq]
    cases hs : ship.sessions[other]? with
    | none => exact hnone
    | some s =>
      have hid := hne hs
      exact hput hid
  | @drop other =>
    rw [Std.ExtTreeMap.getElem?_erase, hnone, ite_self]
  | join hcall => exact hput fun h => hother (h ▸ hcall)
  | move hlive =>
    have hid := hne (live?_eq_some.mp hlive).1
    exact hput hid
  | create => exact hnone
  | addMap => exact hnone

theorem Changes.getElem?_eq_none (H : ship.Consistent) (h : ship.Changes call later)
    (hnone : ship.sessions[id]? = none) (hother : call.connection? ≠ some id) :
    later.sessions[id]? = none := by
  induction h with
  | refl => exact hnone
  | tail hfirst h ih => exact h.getElem?_eq_none (H.changes hfirst) ih hother

/-- Nothing is done to the objects but to use them. -/
theorem Change.objects (h : ship.Change call later) :
    ship.world.objects.Reaches later.world.objects := by
  cases h with
  | calm h => exact h.objects
  | hangUp =>
    rw [objects_kick]
    exact .refl _
  | move _ _ hobjects => exact hobjects
  | _ => exact .refl _

theorem Changes.objects (h : ship.Changes call later) :
    ship.world.objects.Reaches later.world.objects := by
  induction h with
  | refl => exact .refl _
  | tail _ h ih => exact ih.trans h.objects

end Ship

end GameShip
