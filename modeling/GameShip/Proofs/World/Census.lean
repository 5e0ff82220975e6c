import GameShip.Proofs.World.Counting

/-!
# The zones under any use

Zones that are used in any way, also with one client in several maps, keep their books
(`ZoneRegistry.Sound`): names lead to what has them, and no map has a client twice. An instance
counts the clients of all its maps, up to what a word can count. A use that is refused changes
nothing, and one that puts a client into a map or takes it out touches that map only
(`ZoneRegistry.census_run`).

* `ZoneRegistry.Call`, `ZoneRegistry.run`: uses of the zones.
-/

namespace GameShip

/-- The books of an instance are in order, and its maps say that they are in it. -/
structure Instance.Sound (i : Instance) (name : String) : Prop extends i.Tidy name where
  owned : ∀ map ∈ i.maps, map.instanceName = name

namespace Instance

variable {i : Instance} {name map other : String} {client : ClientId} {m : GameMap}
  {f : GameMap → GameMap} {count : UInt32}

theorem map?_mapMaps (hname : ∀ m : GameMap, (f m).name = m.name) :
    (Instance.mk name (i.mapMaps map f) count).map? other =
      (i.map? other).map fun m => if other = map then f m else m := by
  have hnames : ∀ m : GameMap, (if m.name = map then f m else m).name = m.name := fun m => by
    split
    · exact hname m
    · rfl
  unfold map? mapMaps
  rw [List.find?_map]
  have hsame : ((fun m : GameMap => decide (m.name = other)) ∘
      fun m => if m.name = map then f m else m) = fun m => decide (m.name = other) :=
    funext fun m => by rw [Function.comp_apply, hnames]
  rw [hsame]
  cases hfound : i.maps.find? fun m => decide (m.name = other) with
  | none => rfl
  | some m =>
    obtain rfl : m.name = other := of_decide_eq_true (List.find?_some hfound :)
    rfl

namespace Sound

theorem empty (name : String) : (Instance.mk name [] 0).Sound name :=
  ⟨Tidy.empty name, fun _ h => (List.not_mem_nil h).elim⟩

theorem mapMaps (H : i.Sound name) (hm : m ∈ i.maps)
    (howner : ∀ m : GameMap, (f m).instanceName = m.instanceName)
    (htidy : (Instance.mk i.name (i.mapMaps m.name f) count).Tidy name) :
    (Instance.mk i.name (i.mapMaps m.name f) count).Sound name := by
  refine ⟨htidy, fun changed hchanged => ?_⟩
  obtain rfl | ⟨hchanged, -⟩ := mem_mapMaps_of_distinct H.distinct hm hchanged
  · rw [howner]
    exact H.owned m hm
  · exact H.owned changed hchanged

theorem leave (H : i.Sound name) (hm : m ∈ i.maps) (client : ClientId) :
    (i.leave m.name client).Sound name :=
  H.mapMaps hm (fun _ => rfl) (H.toTidy.leave hm client)

theorem enter (H : i.Sound name) (hm : m ∈ i.maps) (hnew : client ∉ m.clients) :
    (i.enter m.name client).Sound name :=
  H.mapMaps hm (fun _ => rfl) (H.toTidy.enter hm hnew)

theorem add (H : i.Sound name) (hempty : m.clients = []) : (i.add m).Sound name := by
  refine ⟨H.toTidy.add hempty, fun other hother => ?_⟩
  unfold Instance.add at hother
  split at hother
  · exact H.owned other hother
  · obtain hother | hother := List.mem_append.mp hother
    · exact H.owned other hother
    · rw [List.mem_singleton.mp hother]
      exact H.named

end Sound

end Instance

namespace ZoneRegistry

/-! ## Uses of the zones -/

/-- A use of the zones. Nobody is in a map yet that is given to them. -/
inductive Call where
  | create (name : String) (map : GameMap) (hempty : map.clients = [])
  | addMap (name : String) (map : GameMap) (hempty : map.clients = [])
  | spawn (ref : MapRef) (client : ClientId)
  | remove (ref : MapRef) (client : ClientId)

/-- What came of a use. -/
inductive Answer where
  | created (isNew : Bool)
  | added
  | spawned (location : Location)
  | removed
  | failed (error : WorldError)
  deriving DecidableEq, Repr

/-- The use is to put a client into a map. -/
def Call.isSpawn : Call → Bool
  | .spawn .. => true
  | _ => false

/-- One use of the zones. -/
def step (z : ZoneRegistry) : Call → Answer × ZoneRegistry
  | .create name map _ => (.created (z.create name map).1, (z.create name map).2)
  | .addMap name map _ =>
    match z.addMap name map with
    | .ok z => (.added, z)
    | .error e => (.failed e, z)
  | .spawn ref client =>
    match z.spawnClient ref client with
    | .ok (location, z) => (.spawned location, z)
    | .error e => (.failed e, z)
  | .remove ref client => (.removed, z.removeClient ref client)

/-- What the zones are after many uses. -/
def run (z : ZoneRegistry) (calls : List Call) : ZoneRegistry :=
  calls.foldl (fun z call => (z.step call).2) z

/-- Every instance has the name by which it is found, and its books are in order. -/
def Sound (z : ZoneRegistry) : Prop := ∀ name i, z.instance? name = some i → i.Sound name

theorem Sound.tidy {z : ZoneRegistry} (H : z.Sound) : z.Tidy :=
  fun name i hi => (H name i hi).toTidy

variable {z z' : ZoneRegistry} {ref other : MapRef} {client : ClientId} {i : Instance}
  {name : String} {m : GameMap}

/-! ## What the uses come to -/

theorem step_create {hempty : m.clients = []} : z.step (.create name m hempty) =
    (.created (z.create name m).1, (z.create name m).2) := rfl

theorem step_remove : z.step (.remove ref client) = (.removed, z.removeClient ref client) := rfl

theorem step_addMap {hempty : m.clients = []} (h : z.addMap name m = .ok z') :
    z.step (.addMap name m hempty) = (.added, z') := by
  simp only [step, h]

theorem step_addMap_of_error {hempty : m.clients = []} {e : WorldError}
    (h : z.addMap name m = .error e) : z.step (.addMap name m hempty) = (.failed e, z) := by
  simp only [step, h]

theorem step_spawn {location : Location} (h : z.spawnClient ref client = .ok (location, z')) :
    z.step (.spawn ref client) = (.spawned location, z') := by
  simp only [step, h]

theorem step_spawn_of_error {e : WorldError} (h : z.spawnClient ref client = .error e) :
    z.step (.spawn ref client) = (.failed e, z) := by
  simp only [step, h]

theorem ext_instance? (h : ∀ name, z.instance? name = z'.instance? name) : z = z' :=
  congrArg mk (Std.ExtTreeMap.ext_getElem? fun name => h name)

namespace Sound

theorem insert (H : z.Sound) (hi : i.Sound name) : (z.insert i).Sound := by
  intro other i' h
  rw [instance?_insert, hi.named] at h
  split at h
  · rename_i hname
    cases h
    exact hname ▸ hi
  · exact H other i' h

/-- To put an instance back changes nothing. -/
theorem insert_self (H : z.Sound) (h : z.instance? name = some i) : z.insert i = z := by
  refine ext_instance? fun other => ?_
  rw [instance?_insert, (H name i h).named]
  split
  · rename_i hname
    rw [← hname, h]
  · rfl

theorem of_find (H : z.Sound) (h : z.find ref = .ok (i, m)) :
    i.Sound ref.instanceName ∧ m ∈ i.maps ∧ m.name = ref.map := by
  obtain ⟨hi, hm⟩ := find_eq_ok.mp h
  exact ⟨H _ i hi, Instance.mem_of_map? hm⟩

theorem initial : ZoneRegistry.initial.Sound := by
  have hempty : ZoneRegistry.Sound {} := fun name i h => by simp [instance?] at h
  exact hempty.insert (((Instance.Sound.empty lobby).add rfl).add rfl)

theorem create (H : z.Sound) (name : String) (hempty : m.clients = []) :
    (z.create name m).2.Sound := by
  cases h : z.instance? name with
  | some i =>
    rw [create_of_some h]
    exact H
  | none =>
    rw [create_of_none h]
    exact H.insert ((Instance.Sound.empty name).add hempty)

theorem addMap (H : z.Sound) (hempty : m.clients = []) (h : z.addMap name m = .ok z') :
    z'.Sound := by
  cases hi : z.instance? name with
  | none =>
    rw [addMap_of_none hi] at h
    cases h
  | some i =>
    rw [addMap_of_some hi] at h
    cases h
    exact H.insert ((H name i hi).add hempty)

theorem spawnClient {location : Location} (H : z.Sound)
    (h : z.spawnClient ref client = .ok (location, z')) : z'.Sound := by
  cases hfind : z.find ref with
  | error e =>
    rw [spawnClient_of_error hfind] at h
    cases h
  | ok found =>
    obtain ⟨hi, hm, hname⟩ := H.of_find hfind
    rw [spawnClient_of_find hfind] at h
    cases h
    split
    · exact H
    · exact H.insert (hname ▸ hi.enter hm ‹_›)

theorem removeClient (H : z.Sound) (ref : MapRef) (client : ClientId) :
    (z.removeClient ref client).Sound := by
  cases hfind : z.find ref with
  | error e =>
    rw [removeClient_of_error hfind]
    exact H
  | ok found =>
    obtain ⟨hi, hm, hname⟩ := H.of_find hfind
    rw [removeClient_of_find hfind]
    split
    · exact H.insert (hname ▸ hi.leave hm client)
    · exact H

theorem step (H : z.Sound) (call : Call) : (z.step call).2.Sound := by
  cases call with
  | create name map hempty => exact H.create name hempty
  | addMap name map hempty =>
    cases h : z.addMap name map with
    | error e =>
      rw [step_addMap_of_error h]
      exact H
    | ok z' =>
      rw [step_addMap h]
      exact H.addMap hempty h
  | spawn ref client =>
    cases h : z.spawnClient ref client with
    | error e =>
      rw [step_spawn_of_error h]
      exact H
    | ok entered =>
      rw [step_spawn h]
      exact H.spawnClient h
  | remove ref client => exact H.removeClient ref client

theorem run (H : z.Sound) (calls : List Call) : (z.run calls).Sound := by
  induction calls generalizing z with
  | nil => exact H
  | cons call calls ih => exact ih (H.step call)

/-- The map that is changed is found as it is now, and every other one as it was. -/
theorem map_changed {f : GameMap → GameMap} {count : UInt32} (H : z.Sound)
    (hfind : z.find ref = .ok (i, m)) (hname : ∀ m : GameMap, (f m).name = m.name)
    (other : MapRef) : (z.insert ⟨i.name, i.mapMaps ref.map f, count⟩).map other =
      if other = ref then .ok (f m) else z.map other := by
  obtain ⟨hi, hm⟩ := find_eq_ok.mp hfind
  unfold ZoneRegistry.map find
  rw [instance?_insert, (H _ i hi).named]
  by_cases hinstance : ref.instanceName = other.instanceName
  · rw [if_pos hinstance, ← hinstance, hi]
    dsimp only
    rw [Instance.map?_mapMaps hname]
    by_cases hmap : other.map = ref.map
    · have heq : other = ref := by
        cases other
        cases ref
        cases hinstance
        cases hmap
        rfl
      rw [if_pos heq, hmap, hm, Option.map_some, if_pos rfl]
      rfl
    · rw [if_neg fun h => hmap (congrArg MapRef.map h)]
      simp only [if_neg hmap]
      cases i.map? other.map <;> rfl
  · have hne : other ≠ ref := fun h => hinstance (h ▸ rfl)
    rw [if_neg hinstance, if_neg hne]

end Sound

/-! ## How many players there can be -/

/-- No instance has more clients than this, or counts more players. -/
def Within (z : ZoneRegistry) (bound : Nat) : Prop :=
  ∀ name i, z.instance? name = some i → i.Within bound

namespace Within

variable {bound : Nat}

theorem insert (h : z.Within bound) (hi : i.Within bound) : (z.insert i).Within bound := by
  intro name i' hi'
  rw [instance?_insert] at hi'
  split at hi'
  · cases hi'
    exact hi
  · exact h name i' hi'

theorem initial : ZoneRegistry.initial.Within 0 := by
  have hempty : ZoneRegistry.Within {} 0 := fun name i hi => by simp [instance?] at hi
  exact hempty.insert (((Instance.Within.empty lobby 0).add rfl).add rfl)

theorem mono (h : z.Within bound) : z.Within (bound + 1) := fun name i hi =>
  have hle := Nat.le_succ bound
  ⟨Nat.le_trans (h name i hi).clients hle, Nat.le_trans (h name i hi).players hle⟩

/-- Only a client that is put into a map can be one more. -/
theorem step (h : z.Within bound) (H : z.Sound) (call : Call) :
    (z.step call).2.Within (bound + if call.isSpawn then 1 else 0) := by
  cases call with
  | create name m hempty =>
    cases hi : z.instance? name with
    | some i =>
      rw [step_create, create_of_some hi]
      exact h
    | none =>
      rw [step_create, create_of_none hi]
      exact h.insert ((Instance.Within.empty name bound).add hempty)
  | addMap name m hempty =>
    cases hi : z.instance? name with
    | none =>
      rw [step_addMap_of_error (addMap_of_none hi m)]
      exact h
    | some i =>
      rw [step_addMap (addMap_of_some hi m)]
      exact h.insert ((h name i hi).add hempty)
  | spawn ref client =>
    cases hfind : z.find ref with
    | error e =>
      rw [step_spawn_of_error (spawnClient_of_error hfind client)]
      exact h.mono
    | ok found =>
      obtain ⟨hi, hm, hname⟩ := H.of_find hfind
      rw [step_spawn (spawnClient_of_find hfind client)]
      dsimp only
      split
      · exact h.mono
      · have hwithin := h _ _ (find_eq_ok.mp hfind).1
        exact h.mono.insert (hname ▸ hwithin.enter hi.toTidy hm client)
  | remove ref client =>
    cases hfind : z.find ref with
    | error e =>
      rw [step_remove, removeClient_of_error hfind]
      exact h
    | ok found =>
      obtain ⟨hi, hm, hname⟩ := H.of_find hfind
      rw [step_remove, removeClient_of_find hfind]
      dsimp only
      split
      · have hwithin := h _ _ (find_eq_ok.mp hfind).1
        exact h.insert (hname ▸ hwithin.leave hi.toTidy hm ‹_›)
      · exact h

theorem run (h : z.Within bound) (H : z.Sound) (calls : List Call) :
    (z.run calls).Within (bound + calls.countP Call.isSpawn) := by
  induction calls generalizing z bound with
  | nil => exact h
  | cons call calls ih =>
    rw [List.countP_cons, Nat.add_comm (calls.countP _), ← Nat.add_assoc]
    exact ih (h.step H call) (H.step call)

end Within

/-- A word can count the clients if it can count how often one was put into a map. -/
theorem few_run {calls before : List Call} (h : calls.countP Call.isSpawn < UInt32.size)
    (hbefore : before <+: calls) (name : String) : (initial.run before).Few name := by
  intro i hi
  have hwithin : i.Within (0 + before.countP Call.isSpawn) :=
    Within.initial.run Sound.initial before name i hi
  have hclients := hwithin.clients
  have hcount : before.countP Call.isSpawn ≤ calls.countP Call.isSpawn :=
    hbefore.sublist.countP_le
  omega

namespace Counts

theorem step (h : z.Counts name) (H : z.Sound) (call : Call) (hfew : (z.step call).2.Few name) :
    (z.step call).2.Counts name := by
  cases call with
  | create other map hempty => exact h.create other hempty
  | addMap other map hempty =>
    cases hadd : z.addMap other map with
    | error e =>
      rw [step_addMap_of_error hadd]
      exact h
    | ok z' =>
      rw [step_addMap hadd]
      exact h.addMap H.tidy hempty hadd
  | spawn ref client =>
    cases hspawn : z.spawnClient ref client with
    | error e =>
      rw [step_spawn_of_error hspawn]
      exact h
    | ok entered =>
      rw [step_spawn hspawn] at hfew ⊢
      exact h.spawnClient H.tidy hspawn hfew
  | remove ref client => exact h.removeClient H.tidy ref client

theorem run (h : z.Counts name) (H : z.Sound) (calls : List Call)
    (hfew : ∀ before, before <+: calls → (z.run before).Few name) :
    (z.run calls).Counts name := by
  induction calls generalizing z with
  | nil => exact h
  | cons call calls ih =>
    have hfirst : (z.step call).2.Few name := hfew [call] ⟨calls, rfl⟩
    refine ih (h.step H call hfirst) (H.step call) fun before hbefore => ?_
    exact hfew (call :: before) (List.cons_prefix_cons.mpr ⟨rfl, hbefore⟩)

end Counts

/-! ## A crowd in the lobby -/

/-- The clients up to a number come into the lobby, one after the other. -/
def crowd (count : Nat) : List Call := (List.range count).map fun id => .spawn ⟨lobby, lobby⟩ id

/-- The lobby with all of them. -/
def crowded (count : Nat) : Instance where
  name := lobby
  maps := [{ lobbyMap with instanceName := lobby, clients := List.range count },
    { casinoMap with instanceName := lobby }]
  playerCount := UInt32.ofNat count

theorem enter_crowded (count : Nat) :
    (crowded count).enter lobby count = crowded (count + 1) := by
  simp [crowded, Instance.enter, Instance.mapMaps, GameMap.enter, lobbyMap, casinoMap, lobby,
    List.range_succ, UInt32.ofNat_add]

theorem instance?_crowd (count : Nat) :
    (initial.run (crowd count)).instance? lobby = some (crowded count) := by
  induction count with
  | zero => decide +kernel
  | succ count ih =>
    have hcrowd : crowd (count + 1) = crowd count ++ [.spawn ⟨lobby, lobby⟩ count] := by
      rw [crowd, List.range_succ, List.map_append, List.map_singleton, crowd]
    have hfind : (initial.run (crowd count)).find ⟨lobby, lobby⟩ = .ok (crowded count, _) :=
      find_eq_ok.mpr ⟨ih, rfl⟩
    have hnew : count ∉ List.range count := by simp
    have hspawn := spawnClient_of_find hfind count
    rw [if_neg hnew, enter_crowded] at hspawn
    rw [hcrowd, run, List.foldl_append, List.foldl_cons, List.foldl_nil, ← run,
      step_spawn hspawn]
    exact (instance?_insert ..).trans (if_pos rfl)

theorem length_clients_crowded (count : Nat) :
    ((crowded count).maps.map (·.clients.length)).sum = count := by
  simp [crowded, casinoMap]

/-! ## Any use -/

/-- **The zones keep their books under any use**. After any uses, also ones that put a client into
several maps of an instance: instances stand under their names, their maps belong to them and have
names of their own, and no map has a client twice. There are no more clients in the maps than were
put into them, and no more players are counted. If there never were more clients in an instance than
a word can count, the players are as many as the maps have clients, so that their number is never
zero when one of them leaves. A name that is taken or leads nowhere changes nothing. To put a client
into a map, or to take it out, changes no other map, and no map at all if the client is there
already, or is not there. -/
theorem census_run (calls : List Call) :
    let z := initial.run calls
    (∀ name i, z.instance? name = some i →
      i.name = name ∧ (∀ m ∈ i.maps, m.instanceName = name) ∧ (i.maps.map (·.name)).Nodup ∧
        (∀ m ∈ i.maps, m.clients.Nodup) ∧
        (i.maps.map (·.clients.length)).sum ≤ calls.countP Call.isSpawn ∧
        i.playerCount.toNat ≤ calls.countP Call.isSpawn ∧
        ((∀ before, before <+: calls → (initial.run before).Few name) →
          i.playerCount.toNat = (i.maps.map (·.clients.length)).sum ∧
            ∀ m ∈ i.maps, ∀ client ∈ m.clients, 0 < i.playerCount)) ∧
    (∀ name m hempty i, z.instance? name = some i →
      z.step (.create name m hempty) = (.created false, z) ∧
        (m.name ∈ i.maps.map (·.name) → z.step (.addMap name m hempty) = (.added, z))) ∧
    (∀ name m hempty, z.instance? name = none →
      z.step (.addMap name m hempty) = (.failed (.instanceNotFound name), z)) ∧
    (∀ ref client, z.instance? ref.instanceName = none →
      z.step (.spawn ref client) = (.failed (.instanceNotFound ref.instanceName), z) ∧
        z.step (.remove ref client) = (.removed, z)) ∧
    (∀ ref client i, z.instance? ref.instanceName = some i → ref.map ∉ i.maps.map (·.name) →
      z.step (.spawn ref client) = (.failed (.mapNotFound ref), z) ∧
        z.step (.remove ref client) = (.removed, z)) ∧
    ∀ ref client m, z.map ref = .ok m →
      (client ∈ m.clients → z.step (.spawn ref client) = (.spawned m.defaultLocation, z)) ∧
      (client ∉ m.clients → z.step (.remove ref client) = (.removed, z)) ∧
      (client ∉ m.clients → ∃ z', z.step (.spawn ref client) = (.spawned m.defaultLocation, z') ∧
        ∀ other, z'.map other = if other = ref then .ok (m.enter client) else z.map other) ∧
      (client ∈ m.clients → ∃ z', z.step (.remove ref client) = (.removed, z') ∧
        ∀ other, z'.map other = if other = ref then .ok (m.leave client) else z.map other) := by
  intro z
  have H : z.Sound := Sound.initial.run calls
  have hwithin : z.Within (0 + calls.countP Call.isSpawn) :=
    Within.initial.run Sound.initial calls
  refine ⟨fun name i hi => ?_, fun name m hempty i hi => ⟨?_, fun htaken => ?_⟩,
    fun name m hempty hnone => ?_, fun ref client hnone => ?_, fun ref client i hi hmap => ?_,
    fun ref client m hmap => ?_⟩
  · have hsound := H name i hi
    obtain ⟨hclients, hplayers⟩ := hwithin name i hi
    rw [Nat.zero_add] at hclients hplayers
    refine ⟨hsound.named, hsound.owned, hsound.distinct, hsound.nodup,
      i.length_clients ▸ hclients, hplayers, fun hfew => ?_⟩
    have hcounts : i.Counts := (Counts.initial name).run Sound.initial calls hfew i hi
    exact ⟨hcounts.trans i.length_clients, fun m hm client => hcounts.pos hm⟩
  · rw [step_create, create_of_some hi]
  · have hadd : i.add m = i := by
      unfold Instance.add
      exact if_pos (by simpa using htaken)
    rw [step_addMap (addMap_of_some hi m), hadd, H.insert_self hi]
  · exact step_addMap_of_error (addMap_of_none hnone m)
  · have hfind := find_of_none hnone
    rw [step_remove, removeClient_of_error hfind]
    exact ⟨step_spawn_of_error (spawnClient_of_error hfind client), rfl⟩
  · have hfind := find_of_notMem hi hmap
    rw [step_remove, removeClient_of_error hfind]
    exact ⟨step_spawn_of_error (spawnClient_of_error hfind client), rfl⟩
  · obtain ⟨i, hfind⟩ := map_eq_ok.mp hmap
    have hspawn := spawnClient_of_find hfind client
    have hremove := removeClient_of_find hfind client
    refine ⟨fun hthere => ?_, fun hnew => ?_, fun hnew => ?_, fun hthere => ?_⟩
    · rw [if_pos hthere] at hspawn
      exact step_spawn hspawn
    · rw [if_neg hnew] at hremove
      rw [step_remove, hremove]
    · rw [if_neg hnew] at hspawn
      exact ⟨_, step_spawn hspawn, H.map_changed (f := (·.enter client)) hfind fun _ => rfl⟩
    · rw [if_pos hthere] at hremove
      rw [step_remove, hremove]
      exact ⟨_, rfl, H.map_changed (f := (·.leave client)) hfind fun _ => rfl⟩

/-- One client in both maps of the lobby is two players. To put it into the first again changes
nothing. -/
theorem census_run_twice :
    let calls : List Call := [.spawn ⟨lobby, lobby⟩ 1, .spawn ⟨lobby, "casino"⟩ 1]
    let z := initial.run calls
    (z.instance? lobby).map (fun i => (i.playerCount, i.maps.map (·.clients))) =
        some (2, [[1], [1]]) ∧
      z.step (.spawn ⟨lobby, lobby⟩ 1) = (.spawned {}, z) ∧
      ∃ i, z.instance? lobby = some i ∧
        i.playerCount.toNat = (i.maps.map (·.clients.length)).sum := by
  intro calls z
  obtain ⟨hbooks, -, -, -, -, hmaps⟩ := census_run calls
  have hboth : (z.instance? lobby).map (fun i => (i.playerCount, i.maps.map (·.clients))) =
      some (2, [[1], [1]]) := by decide +kernel
  have hmap : z.map ⟨lobby, lobby⟩ =
      .ok { lobbyMap with instanceName := lobby, clients := [1] } := by decide +kernel
  have hfew : ∀ before, before <+: calls → (initial.run before).Few lobby := fun _ hbefore =>
    few_run (by decide) hbefore lobby
  obtain ⟨i, hi, -⟩ := Option.map_eq_some_iff.mp hboth
  obtain ⟨-, -, -, -, -, -, hcounts⟩ := hbooks lobby i hi
  exact ⟨hboth, (hmaps _ 1 _ hmap).1 (List.mem_singleton_self 1), i, hi, (hcounts hfew).1⟩

/-- When as many clients are in the lobby as there are words, no players are counted. -/
theorem census_overflows :
    ∃ i, (initial.run (crowd UInt32.size)).instance? lobby = some i ∧ i.playerCount = 0 ∧
      (i.maps.map (·.clients.length)).sum = UInt32.size :=
  ⟨crowded UInt32.size, instance?_crowd UInt32.size, rfl, length_clients_crowded _⟩

end ZoneRegistry

end GameShip
