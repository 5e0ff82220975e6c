import GameShip.Proofs.World.Census
import GameShip.World.Basic

/-!
# From one map into another

What zones look like after a client has been taken out of its map, if it was in any, and put into
one: instance by instance (`ZoneRegistry.Agrees.exists_moved`). The clients of the two maps and
the players of their instances change, and nothing else does.

* `Instance.moved`: what becomes of an instance.
-/

namespace GameShip

/-- An instance after a client has been moved out of a map, if it was in any, and into another. A
map that is both loses the client first. -/
def Instance.moved (i : Instance) (client : ClientId) (old : Option MapRef) (ref : MapRef) :
    Instance where
  name := i.name
  maps := i.maps.map fun map =>
    let left := if old = some ⟨i.name, map.name⟩ then map.leave client else map
    if ref = ⟨i.name, map.name⟩ then left.enter client else left
  playerCount :=
    let left :=
      if old.any (·.instanceName = i.name) then minusOne i.playerCount else i.playerCount
    if ref.instanceName = i.name then left + 1 else left

namespace Instance

variable {i : Instance} {client : ClientId} {ref old : MapRef}

theorem moved_none (i : Instance) (client : ClientId) (ref : MapRef) :
    i.moved client none ref =
      if ref.instanceName = i.name then i.enter ref.map client else i := by
  obtain ⟨instanceName, map⟩ := ref
  obtain ⟨name, maps, playerCount⟩ := i
  by_cases hname : instanceName = name
  · simp [moved, enter, mapMaps, hname, eq_comm]
  · simp [moved, hname]

theorem moved_some (i : Instance) (client : ClientId) (old ref : MapRef) :
    i.moved client (some old) ref =
      let left := if old.instanceName = i.name then i.leave old.map client else i
      if ref.instanceName = i.name then left.enter ref.map client else left := by
  obtain ⟨instanceName, map⟩ := ref
  obtain ⟨oldInstance, oldMap⟩ := old
  obtain ⟨name, maps, playerCount⟩ := i
  by_cases hname : instanceName = name
  · subst hname
    by_cases hold : oldInstance = instanceName
    · subst hold
      simp only [moved, enter, leave, mapMaps, if_true, Option.any_some, Option.some.injEq,
        MapRef.mk.injEq, true_and, decide_true, List.map_map, mk.injEq, and_true]
      refine List.map_congr_left fun m _ => ?_
      have hstay : (if oldMap = m.name then m.leave client else m).name = m.name := by
        split <;> rfl
      simp only [Function.comp_apply, eq_comm, hstay]
    · have hother : ¬instanceName = oldInstance := Ne.symm hold
      simp [moved, enter, mapMaps, hold, hother, eq_comm]
  · by_cases hold : oldInstance = name
    · simp [moved, leave, mapMaps, hname, hold, eq_comm]
    · simp [moved, hname, hold]

end Instance

namespace ZoneRegistry

variable {z z' : ZoneRegistry} {place : Placement} {client : ClientId} {ref old : MapRef}
  {i : Instance} {name : String} {m : GameMap}

namespace Agrees

theorem instance?_removeClient (H : z.Agrees place) (hplace : place client = some old)
    (name : String) : (z.removeClient old client).instance? name =
      (z.instance? name).map fun i =>
        if old.instanceName = name then i.leave old.map client else i := by
  obtain ⟨i, m, hfind⟩ := H.exists_find hplace
  obtain ⟨hholds, -, -, hmem⟩ := H.of_find hfind
  have hnamed : (i.leave old.map client).name = old.instanceName := hholds.named
  rw [removeClient_of_find hfind, if_pos ((hmem client).mpr hplace), instance?_insert, hnamed]
  split
  · rename_i hname
    rw [← hname, (find_eq_ok.mp hfind).1, Option.map_some]
  · rw [Option.map_id']

theorem instance?_spawnClient (H : z.Agrees place) (hplace : place client = none)
    (hfind : z.find ref = .ok (i, m)) :
    ∃ z', z.spawnClient ref client = .ok (m.defaultLocation, z') ∧
      ∀ name, z'.instance? name = (z.instance? name).map fun i =>
        if ref.instanceName = name then i.enter ref.map client else i := by
  obtain ⟨hholds, -, -, hmem⟩ := H.of_find hfind
  have hnew : client ∉ m.clients := fun h => by
    rw [hmem, hplace] at h
    cases h
  have hnamed : (i.enter ref.map client).name = ref.instanceName := hholds.named
  refine ⟨_, spawnClient_of_find hfind client, fun name => ?_⟩
  rw [if_neg hnew, instance?_insert, hnamed]
  split
  · rename_i hname
    rw [← hname, (find_eq_ok.mp hfind).1, Option.map_some]
  · rw [Option.map_id']

/-- Every map is still there when a client has left one, and clients appear in it where they did. -/
theorem exists_find_removeClient_eq (H : z.Agrees place) (hplace : place client = some old)
    (hfind : z.find ref = .ok (i, m)) :
    ∃ i' m', (z.removeClient old client).find ref = .ok (i', m') ∧
      m'.defaultLocation = m.defaultLocation := by
  obtain ⟨hi, hm⟩ := find_eq_ok.mp hfind
  have hleft := H.instance?_removeClient hplace ref.instanceName
  rw [hi, Option.map_some] at hleft
  split at hleft
  · have hmap : (i.leave old.map client).map? ref.map = _ := Instance.map?_mapMaps fun _ => rfl
    rw [hm, Option.map_some] at hmap
    refine ⟨_, _, find_eq_ok.mpr ⟨hleft, hmap⟩, ?_⟩
    split <;> rfl
  · exact ⟨i, m, find_eq_ok.mpr ⟨hleft, hm⟩, rfl⟩

/-- A client can be moved from where it is, if it is anywhere, into every map that exists. -/
theorem exists_moved {w : World} (H : w.zones.Agrees place) (hfind : w.zones.find ref = .ok (i, m))
    (client : ClientId) :
    ∃ z, (w.leaveMap (place client) client).zones.spawnClient ref client =
        .ok (m.defaultLocation, z) ∧
      ∀ name, z.instance? name =
        (w.zones.instance? name).map (·.moved client (place client) ref) := by
  cases hplace : place client with
  | none =>
    obtain ⟨z, hspawn, hz⟩ := H.instance?_spawnClient hplace hfind
    refine ⟨z, hspawn, fun name => ?_⟩
    rw [hz]
    cases hi : w.zones.instance? name with
    | none => rfl
    | some i =>
      rw [Option.map_some, Option.map_some, Instance.moved_none, (H.holds name i hi).named]
  | some old =>
    have hleft := H.instance?_removeClient hplace
    obtain ⟨i', m', hfind', hlocation⟩ := H.exists_find_removeClient_eq hplace hfind
    obtain ⟨z, hspawn, hz⟩ := (H.removeClient hplace).instance?_spawnClient
      (Function.update_self ..) hfind'
    refine ⟨z, hlocation ▸ hspawn, fun name => ?_⟩
    rw [hz, hleft]
    cases hi : w.zones.instance? name with
    | none => rfl
    | some i =>
      rw [Option.map_some, Option.map_some, Option.map_some, Instance.moved_some,
        (H.holds name i hi).named]

end Agrees

end ZoneRegistry

end GameShip
