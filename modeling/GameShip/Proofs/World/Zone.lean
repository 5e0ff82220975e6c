import GameShip.World.Zone
import Mathlib.Algebra.GroupWithZero.Nat
import Mathlib.Data.List.Nodup
import Mathlib.Logic.Function.Basic

/-!
# Who is in which map

Zones keep the clients of every map. `ZoneRegistry.Agrees` says that these are what follows from the
map of each client, and the ways into and out of a map keep it so.

* `Instance.Tidy`: the maps of an instance can be told apart, and have no client twice.
* `Instance.Holds`: an instance holds the clients whose maps are in it.
* `ZoneRegistry.Agrees`: every instance does, and each client is in a map that exists.
* `ZoneRegistry.Agrees.removeClient`, `ZoneRegistry.Agrees.spawnClient`: the ways out and in.
-/

namespace GameShip

/-- The map that each client is in, if it is in any. -/
abbrev Placement := ClientId → Option MapRef

/-- Every client in the maps of an instance. -/
def Instance.clients (i : Instance) : List ClientId := i.maps.flatMap (·.clients)

/-- The maps of an instance have names of their own and no client twice. -/
structure Instance.Tidy (i : Instance) (name : String) : Prop where
  named : i.name = name
  distinct : (i.maps.map (·.name)).Nodup
  nodup : ∀ map ∈ i.maps, map.clients.Nodup

/-- The instance of a name holds the clients whose maps are in it, each once. -/
structure Instance.Holds (i : Instance) (name : String) (place : Placement) : Prop
    extends i.Tidy name where
  mem_iff : ∀ map ∈ i.maps, ∀ client,
    client ∈ map.clients ↔ place client = some ⟨name, map.name⟩
  placed : ∀ client map, place client = some ⟨name, map⟩ → map ∈ i.maps.map (·.name)

namespace Instance

variable {i : Instance} {name map : String} {place place' : Placement} {client : ClientId}
  {m : GameMap} {f : GameMap → GameMap}

theorem mem_of_map? (h : i.map? map = some m) : m ∈ i.maps ∧ m.name = map :=
  ⟨List.mem_of_find?_eq_some h, of_decide_eq_true (List.find?_some h :)⟩

theorem exists_map? (h : map ∈ i.maps.map (·.name)) : ∃ m, i.map? map = some m := by
  obtain ⟨m, hmem, hname⟩ := List.mem_map.mp h
  exact Option.isSome_iff_exists.mp (List.find?_isSome.mpr ⟨m, hmem, decide_eq_true hname⟩)

theorem mem_mapMaps :
    m ∈ i.mapMaps map f ↔ ∃ old ∈ i.maps, (if old.name = map then f old else old) = m :=
  List.mem_map

theorem names_mapMaps (i : Instance) (map : String) (hname : ∀ m : GameMap, (f m).name = m.name) :
    (i.mapMaps map f).map (·.name) = i.maps.map (·.name) := by
  rw [mapMaps, List.map_map]
  refine List.map_congr_left fun m _ => ?_
  rw [Function.comp_apply]
  split
  · exact hname m
  · rfl

/-- If one of several maps with distinct names is changed, only its clients count anew. -/
theorem length_clients_mapMaps (hdistinct : (i.maps.map (·.name)).Nodup) (hm : m ∈ i.maps)
    (f : GameMap → GameMap) :
    ((i.mapMaps m.name f).flatMap (·.clients)).length + m.clients.length =
      i.clients.length + (f m).clients.length := by
  unfold mapMaps clients
  generalize i.maps = maps at hdistinct hm
  induction maps with
  | nil => cases hm
  | cons first rest ih =>
    rw [List.map_cons, List.nodup_cons] at hdistinct
    rw [List.map_cons, List.flatMap_cons, List.flatMap_cons, List.length_append,
      List.length_append]
    obtain rfl | hm := List.mem_cons.mp hm
    · -- no other map has this name
      have hrest : (rest.map fun other => if other.name = m.name then f other else other) = rest :=
        (List.map_congr_left fun other hother => if_neg fun h =>
          hdistinct.1 (List.mem_map.mpr ⟨other, hother, h⟩)).trans (List.map_id' rest)
      rw [hrest, if_pos rfl]
      omega
    · have hne : first.name ≠ m.name := fun h =>
        hdistinct.1 (h ▸ List.mem_map_of_mem hm)
      rw [if_neg hne]
      have := ih hdistinct.2 hm
      omega

/-- If one of several maps with distinct names is changed, each of the others stays. -/
theorem mem_mapMaps_of_distinct (hdistinct : (i.maps.map (·.name)).Nodup) (hm : m ∈ i.maps)
    {changed : GameMap} (h : changed ∈ i.mapMaps m.name f) :
    changed = f m ∨ changed ∈ i.maps ∧ changed.name ≠ m.name := by
  obtain ⟨old, hold, rfl⟩ := mem_mapMaps.mp h
  split
  · rename_i heq
    exact .inl (congrArg f (List.inj_on_of_nodup_map hdistinct hold hm heq))
  · rename_i hne
    exact .inr ⟨hold, hne⟩

theorem length_clients (i : Instance) : i.clients.length = (i.maps.map (·.clients.length)).sum :=
  List.length_flatMap

theorem length_leave (m : GameMap) (hnodup : m.clients.Nodup) (hhere : client ∈ m.clients) :
    (m.leave client).clients.length + 1 = m.clients.length := by
  have hpos := List.length_pos_of_mem hhere
  have hleave : (m.leave client).clients = m.clients.erase client := by
    rw [hnodup.erase_eq_filter]
    refine List.filter_congr fun other _ => ?_
    rw [Bool.eq_iff_iff, decide_eq_true_iff, bne_iff_ne]
  rw [hleave, List.length_erase_of_mem hhere]
  omega

namespace Tidy

theorem empty (name : String) : (Instance.mk name [] 0).Tidy name :=
  ⟨rfl, List.nodup_nil, fun _ h => (List.not_mem_nil h).elim⟩

theorem mapMaps {count : UInt32} (H : i.Tidy name) (hm : m ∈ i.maps)
    (hname : ∀ m : GameMap, (f m).name = m.name) (hnodup : (f m).clients.Nodup) :
    (Instance.mk i.name (i.mapMaps m.name f) count).Tidy name := by
  refine ⟨H.named, by rw [names_mapMaps i m.name hname]; exact H.distinct, ?_⟩
  intro changed hchanged
  obtain rfl | ⟨hchanged, -⟩ := mem_mapMaps_of_distinct H.distinct hm hchanged
  · exact hnodup
  · exact H.nodup changed hchanged

theorem leave (H : i.Tidy name) (hm : m ∈ i.maps) (client : ClientId) :
    (i.leave m.name client).Tidy name :=
  H.mapMaps hm (fun _ => rfl) ((H.nodup m hm).filter _)

theorem enter (H : i.Tidy name) (hm : m ∈ i.maps) (hnew : client ∉ m.clients) :
    (i.enter m.name client).Tidy name := by
  refine H.mapMaps hm (fun _ => rfl) ?_
  rw [GameMap.enter, ← List.concat_eq_append]
  exact (H.nodup m hm).concat hnew

/-- A new map is empty. -/
theorem add (H : i.Tidy name) (hempty : m.clients = []) : (i.add m).Tidy name := by
  unfold Instance.add
  split
  · exact H
  · rename_i htaken
    have hnew : m.name ∉ i.maps.map (·.name) := by simpa using htaken
    refine ⟨H.named, ?_, ?_⟩
    · rw [List.map_append, List.map_singleton, ← List.concat_eq_append]
      exact H.distinct.concat hnew
    · intro other hother
      obtain hother | hother := List.mem_append.mp hother
      · exact H.nodup other hother
      · rw [List.mem_singleton.mp hother, hempty]
        exact List.nodup_nil

theorem length_clients_leave (H : i.Tidy name) (hm : m ∈ i.maps) (hhere : client ∈ m.clients) :
    (i.leave m.name client).clients.length + 1 = i.clients.length := by
  have hchanged : (i.leave m.name client).clients.length + m.clients.length = _ :=
    length_clients_mapMaps H.distinct hm (·.leave client)
  have hleft := length_leave m (H.nodup m hm) hhere
  omega

theorem length_clients_enter (H : i.Tidy name) (hm : m ∈ i.maps) (client : ClientId) :
    (i.enter m.name client).clients.length = i.clients.length + 1 := by
  have hchanged : (i.enter m.name client).clients.length + m.clients.length = _ :=
    length_clients_mapMaps H.distinct hm (·.enter client)
  rw [GameMap.enter, List.length_append, List.length_singleton] at hchanged
  omega

end Tidy

namespace Holds

/-- Only what is said about this instance matters. -/
theorem congr (H : i.Holds name place)
    (h : ∀ client map, place' client = some ⟨name, map⟩ ↔ place client = some ⟨name, map⟩) :
    i.Holds name place' where
  toTidy := H.toTidy
  mem_iff m hm client := (H.mem_iff m hm client).trans (h client m.name).symm
  placed client map hplace := H.placed client map ((h client map).mp hplace)

/-- One map is changed, and then holds the clients that are placed in it anew. -/
theorem mapMaps {count : UInt32} (H : i.Holds name place) (hm : m ∈ i.maps)
    (hname : ∀ m : GameMap, (f m).name = m.name)
    (htidy : (Instance.mk i.name (i.mapMaps m.name f) count).Tidy name)
    (hmem : ∀ client, client ∈ (f m).clients ↔ place' client = some ⟨name, m.name⟩)
    (hothers : ∀ client map, map ≠ m.name →
      (place' client = some ⟨name, map⟩ ↔ place client = some ⟨name, map⟩)) :
    (Instance.mk i.name (i.mapMaps m.name f) count).Holds name place' := by
  refine ⟨htidy, ?_, ?_⟩
  · intro m' hm' client
    obtain rfl | ⟨hm', hne⟩ := mem_mapMaps_of_distinct H.distinct hm hm'
    · rw [hname]
      exact hmem client
    · exact (H.mem_iff m' hm' client).trans (hothers client m'.name hne).symm
  · intro client map hplace
    rw [names_mapMaps i m.name hname]
    by_cases hmap : map = m.name
    · exact hmap ▸ List.mem_map_of_mem hm
    · exact H.placed client map ((hothers client map hmap).mp hplace)

theorem leave (H : i.Holds name place) (hplace : place client = some ⟨name, map⟩) :
    (i.leave map client).Holds name (Function.update place client none) := by
  obtain ⟨m, hm, rfl⟩ := List.mem_map.mp (H.placed client map hplace)
  have hmem := H.mem_iff m hm
  refine H.mapMaps hm (fun _ => rfl) (H.toTidy.leave hm client) (fun other => ?_)
    (fun other map hmap => ?_)
  · rw [GameMap.leave, List.mem_filter, decide_eq_true_iff, hmem other]
    by_cases hother : other = client
    · rw [hother, Function.update_self]
      exact iff_of_false (fun h => h.2 rfl) nofun
    · rw [Function.update_of_ne hother, and_iff_left hother]
  · by_cases hother : other = client
    · rw [hother, Function.update_self, hplace, Option.some.injEq, MapRef.mk.injEq]
      exact iff_of_false nofun fun h => hmap h.2.symm
    · rw [Function.update_of_ne hother]

theorem enter (H : i.Holds name place) (hplace : place client = none)
    (hmap : map ∈ i.maps.map (·.name)) :
    (i.enter map client).Holds name (Function.update place client (some ⟨name, map⟩)) := by
  obtain ⟨m, hm, rfl⟩ := List.mem_map.mp hmap
  have hmem := H.mem_iff m hm
  have hnew : client ∉ m.clients := fun h => by
    rw [hmem, hplace] at h
    cases h
  refine H.mapMaps hm (fun _ => rfl) (H.toTidy.enter hm hnew) (fun other => ?_)
    (fun other map hne => ?_)
  · rw [GameMap.enter, List.mem_append, List.mem_singleton, hmem other]
    by_cases hother : other = client
    · rw [hother, Function.update_self]
      exact iff_of_true (.inr rfl) rfl
    · rw [Function.update_of_ne hother, or_iff_left hother]
  · by_cases hother : other = client
    · rw [hother, Function.update_self, hplace, Option.some.injEq, MapRef.mk.injEq]
      exact iff_of_false (fun h => hne h.2.symm) nofun
    · rw [Function.update_of_ne hother]

/-- A new map is empty, as nobody can have been in it. -/
theorem add (H : i.Holds name place) (hempty : m.clients = []) : (i.add m).Holds name place := by
  refine ⟨H.toTidy.add hempty, ?_, ?_⟩ <;> unfold Instance.add
  · intro other hother client
    split at hother
    · exact H.mem_iff other hother client
    · rename_i htaken
      have hnew : m.name ∉ i.maps.map (·.name) := by simpa using htaken
      obtain hother | hother := List.mem_append.mp hother
      · exact H.mem_iff other hother client
      · rw [List.mem_singleton.mp hother, hempty]
        exact iff_of_false List.not_mem_nil fun h => hnew (H.placed client _ h)
  · intro client map hplace
    split
    · exact H.placed client map hplace
    · rw [List.map_append]
      exact List.mem_append_left _ (H.placed client map hplace)

theorem empty (name : String) (hnobody : ∀ client map, place client ≠ some ⟨name, map⟩) :
    (Instance.mk name [] 0).Holds name place :=
  ⟨.empty name, fun _ h => (List.not_mem_nil h).elim,
    fun client map h => (hnobody client map h).elim⟩

theorem nodup_clients (H : i.Holds name place) : i.clients.Nodup := by
  refine List.nodup_flatMap.mpr ⟨H.nodup, ?_⟩
  refine (List.pairwise_map.mp H.distinct).imp_of_mem fun hm hm' hne client hc hc' => hne ?_
  rw [H.mem_iff _ hm] at hc
  rw [H.mem_iff _ hm', hc, Option.some.injEq, MapRef.mk.injEq] at hc'
  exact hc'.2

theorem mem_clients_iff (H : i.Holds name place) :
    client ∈ i.clients ↔ (place client).any (·.instanceName = name) = true := by
  rw [clients, List.mem_flatMap, Option.any_eq_true]
  constructor
  · rintro ⟨m, hm, hc⟩
    exact ⟨_, (H.mem_iff m hm client).mp hc, decide_eq_true rfl⟩
  · rintro ⟨⟨_, map⟩, hplace, hname⟩
    cases of_decide_eq_true hname
    obtain ⟨m, hm, rfl⟩ := List.mem_map.mp (H.placed client map hplace)
    exact ⟨m, hm, (H.mem_iff m hm client).mpr hplace⟩

end Holds

end Instance

namespace ZoneRegistry

/-- The zones hold the clients that are placed in them. -/
structure Agrees (z : ZoneRegistry) (place : Placement) : Prop where
  holds : ∀ name i, z.instance? name = some i → i.Holds name place
  placed : ∀ client ref, place client = some ref → ∃ i, z.instance? ref.instanceName = some i

variable {z : ZoneRegistry} {place : Placement} {client : ClientId} {ref : MapRef} {i : Instance}
  {name : String} {m : GameMap}

theorem instance?_insert (z : ZoneRegistry) (i : Instance) (name : String) :
    (z.insert i).instance? name = if i.name = name then some i else z.instance? name := by
  unfold insert instance?
  simp [Std.ExtTreeMap.getElem?_insert]

theorem find_eq_ok :
    z.find ref = .ok (i, m) ↔ z.instance? ref.instanceName = some i ∧ i.map? ref.map = some m := by
  unfold find
  cases h : z.instance? ref.instanceName with
  | none => simp
  | some i' => cases h' : i'.map? ref.map <;> simp <;> grind

theorem map_eq_ok : z.map ref = .ok m ↔ ∃ i, z.find ref = .ok (i, m) := by
  unfold map
  cases z.find ref with
  | error e => simp [Except.map]
  | ok found => simp [Except.map, Prod.ext_iff]

theorem exists_find_iff : (∃ i m, z.find ref = .ok (i, m)) ↔
    ∃ i, z.instance? ref.instanceName = some i ∧ ref.map ∈ i.maps.map (·.name) := by
  constructor
  · rintro ⟨i, m, hfind⟩
    obtain ⟨hi, hm⟩ := find_eq_ok.mp hfind
    obtain ⟨hmem, hname⟩ := Instance.mem_of_map? hm
    exact ⟨i, hi, List.mem_map.mpr ⟨m, hmem, hname⟩⟩
  · rintro ⟨i, hi, hname⟩
    obtain ⟨m, hm⟩ := Instance.exists_map? hname
    exact ⟨i, m, find_eq_ok.mpr ⟨hi, hm⟩⟩

theorem contains_eq_isSome (z : ZoneRegistry) (name : String) :
    z.contains name = (z.instance? name).isSome :=
  Std.ExtTreeMap.contains_eq_isSome_getElem?

theorem create_of_some (h : z.instance? name = some i) (m : GameMap) :
    z.create name m = (false, z) := by
  rw [create, if_pos (by rw [contains_eq_isSome, h]; rfl)]

theorem create_of_none (h : z.instance? name = none) (m : GameMap) :
    z.create name m = (true, z.insert ((Instance.mk name [] 0).add m)) := by
  rw [create, if_neg (by rw [contains_eq_isSome, h]; exact Bool.false_ne_true)]
  rfl

theorem addMap_of_some (h : z.instance? name = some i) (m : GameMap) :
    z.addMap name m = .ok (z.insert (i.add m)) := by
  rw [addMap, h]

theorem addMap_of_none (h : z.instance? name = none) (m : GameMap) :
    z.addMap name m = .error (.instanceNotFound name) := by
  rw [addMap, h]

theorem find_of_none (h : z.instance? ref.instanceName = none) :
    z.find ref = .error (.instanceNotFound ref.instanceName) := by
  rw [find, h]

theorem find_of_map?_none (h : z.instance? ref.instanceName = some i)
    (hmap : i.map? ref.map = none) : z.find ref = .error (.mapNotFound ref) := by
  rw [find, h]
  dsimp only
  rw [hmap]

theorem find_of_notMem (h : z.instance? ref.instanceName = some i)
    (hmap : ref.map ∉ i.maps.map (·.name)) : z.find ref = .error (.mapNotFound ref) := by
  have hnone : i.map? ref.map = none := by
    rw [Instance.map?, List.find?_eq_none]
    intro m hm hname
    exact hmap (List.mem_map.mpr ⟨m, hm, of_decide_eq_true hname⟩)
  exact find_of_map?_none h hnone

theorem spawnClient_of_find (h : z.find ref = .ok (i, m)) (client : ClientId) :
    z.spawnClient ref client = .ok (m.defaultLocation,
      if client ∈ m.clients then z else z.insert (i.enter ref.map client)) := by
  rw [spawnClient, h]

theorem spawnClient_of_error {e : WorldError} (h : z.find ref = .error e) (client : ClientId) :
    z.spawnClient ref client = .error e := by
  rw [spawnClient, h]

theorem removeClient_of_find (h : z.find ref = .ok (i, m)) (client : ClientId) :
    z.removeClient ref client =
      if client ∈ m.clients then z.insert (i.leave ref.map client) else z := by
  rw [removeClient, h]

theorem removeClient_of_error {e : WorldError} (h : z.find ref = .error e) (client : ClientId) :
    z.removeClient ref client = z := by
  rw [removeClient, h]

/-- Only a map that exists can be entered. -/
theorem exists_find_of_spawnClient {result : Location × ZoneRegistry}
    (h : z.spawnClient ref client = .ok result) : ∃ i m, z.find ref = .ok (i, m) := by
  unfold spawnClient at h
  split at h
  · cases h
  · rename_i i m hfind
    exact ⟨i, m, hfind⟩

namespace Agrees

/-- A client is in a map that exists. -/
theorem exists_find (H : z.Agrees place) (hplace : place client = some ref) :
    ∃ i m, z.find ref = .ok (i, m) := by
  obtain ⟨i, hi⟩ := H.placed client ref hplace
  exact exists_find_iff.mpr ⟨i, hi, (H.holds _ i hi).placed client ref.map hplace⟩

/-- A map that is found is one of the maps of its instance, and holds its clients. -/
theorem of_find (H : z.Agrees place) (hfind : z.find ref = .ok (i, m)) :
    i.Holds ref.instanceName place ∧ m ∈ i.maps ∧ m.name = ref.map ∧
      ∀ client, client ∈ m.clients ↔ place client = some ref := by
  obtain ⟨hi, hm⟩ := find_eq_ok.mp hfind
  obtain ⟨hmem, hname⟩ := Instance.mem_of_map? hm
  have hholds := H.holds _ i hi
  refine ⟨hholds, hmem, hname, fun client => ?_⟩
  rw [hholds.mem_iff m hmem, hname]

/-- What is needed if one instance is put in the place of another. -/
theorem insert {place' : Placement} (H : z.Agrees place) (hi : i.Holds name place')
    (hothers : ∀ client other map, other ≠ name →
      (place' client = some ⟨other, map⟩ ↔ place client = some ⟨other, map⟩)) :
    (z.insert i).Agrees place' where
  holds other i' h := by
    rw [instance?_insert, hi.named] at h
    split at h
    · rename_i hname
      cases h
      exact hname ▸ hi
    · rename_i hname
      exact (H.holds other i' h).congr fun client map => hothers client other map (Ne.symm hname)
  placed client ref h := by
    rw [instance?_insert, hi.named]
    split
    · exact ⟨i, rfl⟩
    · rename_i hname
      exact H.placed client ref ((hothers client _ _ (Ne.symm hname)).mp h)

theorem removeClient (H : z.Agrees place) (hplace : place client = some ref) :
    (z.removeClient ref client).Agrees (Function.update place client none) := by
  obtain ⟨i, m, hfind⟩ := H.exists_find hplace
  obtain ⟨hholds, -, -, hmem⟩ := H.of_find hfind
  unfold ZoneRegistry.removeClient
  rw [hfind]
  dsimp only
  rw [if_pos ((hmem client).mpr hplace)]
  refine H.insert (hholds.leave hplace) fun other name map hname => ?_
  by_cases hother : other = client
  · subst hother
    rw [Function.update_self, hplace]
    refine iff_of_false nofun fun h => hname ?_
    rw [Option.some.inj h]
  · rw [Function.update_of_ne hother]

/-- The maps are still there when a client has left one of them. -/
theorem exists_find_removeClient (H : z.Agrees place) (client : ClientId) (ref' : MapRef)
    (h : ∃ i m, z.find ref = .ok (i, m)) :
    ∃ i m, (z.removeClient ref' client).find ref = .ok (i, m) := by
  unfold ZoneRegistry.removeClient
  split
  · exact h
  · rename_i i m hfind
    split
    · -- the instance that is put back has the same maps
      obtain ⟨hholds, -⟩ := H.of_find hfind
      obtain ⟨hi, -⟩ := find_eq_ok.mp hfind
      obtain ⟨old, hold, hname⟩ := exists_find_iff.mp h
      rw [exists_find_iff]
      have hnames : (i.leave ref'.map client).maps.map (·.name) = i.maps.map (·.name) :=
        Instance.names_mapMaps i ref'.map fun _ => rfl
      have hnamed : (i.leave ref'.map client).name = ref'.instanceName := hholds.named
      rw [instance?_insert, hnamed]
      by_cases heq : ref'.instanceName = ref.instanceName
      · rw [← heq, hi, Option.some.injEq] at hold
        rw [if_pos heq]
        exact ⟨_, rfl, by rw [hnames, hold]; exact hname⟩
      · rw [if_neg heq]
        exact ⟨old, hold, hname⟩
    · exact h

theorem spawnClient (H : z.Agrees place) (hplace : place client = none)
    (hfind : z.find ref = .ok (i, m)) :
    ∃ z', z.spawnClient ref client = .ok (m.defaultLocation, z') ∧
      z'.Agrees (Function.update place client (some ref)) := by
  obtain ⟨hholds, hm, hname, hmem⟩ := H.of_find hfind
  have hnew : client ∉ m.clients := fun h => by
    rw [hmem, hplace] at h
    cases h
  unfold ZoneRegistry.spawnClient
  rw [hfind]
  refine ⟨_, rfl, ?_⟩
  rw [if_neg hnew]
  have hentered := hholds.enter hplace (List.mem_map.mpr ⟨m, hm, hname⟩)
  refine H.insert hentered fun other name map hother => ?_
  by_cases hclient : other = client
  · subst hclient
    rw [Function.update_self, hplace]
    refine iff_of_false (fun h => hother ?_) nofun
    rw [Option.some.inj h]
  · rw [Function.update_of_ne hclient]

/-- Nobody is in an instance that is not there. -/
theorem nobody (H : z.Agrees place) (hnew : z.instance? name = none) (client : ClientId)
    (map : String) : place client ≠ some ⟨name, map⟩ := fun h => by
  obtain ⟨i, hi⟩ := H.placed client _ h
  rw [hnew] at hi
  cases hi

theorem create (H : z.Agrees place) (name : String) (hempty : m.clients = []) :
    (z.create name m).2.Agrees place := by
  unfold ZoneRegistry.create
  split
  · exact H
  · rename_i hnew
    have hnone : z.instance? name = none :=
      Std.ExtTreeMap.getElem?_eq_none_of_contains_eq_false (eq_false_of_ne_true hnew)
    exact H.insert ((Instance.Holds.empty name (H.nobody hnone)).add hempty) fun _ _ _ _ => Iff.rfl

theorem addMap (H : z.Agrees place) {z' : ZoneRegistry} (hempty : m.clients = [])
    (h : z.addMap name m = .ok z') : z'.Agrees place := by
  unfold ZoneRegistry.addMap at h
  split at h
  · cases h
  · rename_i i hi
    cases h
    exact H.insert ((H.holds name i hi).add hempty) fun _ _ _ _ => Iff.rfl

end Agrees

theorem agrees_initial : initial.Agrees fun _ => none := by
  have hempty : ZoneRegistry.Agrees {} fun _ => none :=
    ⟨fun name i h => by simp [instance?] at h, nofun⟩
  have hlobby : (Instance.mk lobby [] 0).Holds lobby fun _ => none :=
    .empty lobby fun _ _ => (Option.some_ne_none _).symm
  exact hempty.insert ((hlobby.add rfl).add rfl) fun _ _ _ _ => Iff.rfl

end ZoneRegistry

end GameShip
