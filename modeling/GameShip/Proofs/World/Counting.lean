import GameShip.Proofs.World.Zone

/-!
# How many players there are

The number of players of an instance is a word. It goes up when a client is put into one of the maps
and down when one is taken out, so it is the number of clients in the maps as long as a word can
count these.

* `Instance.Counts`: the number of players is that of the clients in the maps.
* `Instance.Within`: neither of the two is larger than some bound.
* `ZoneRegistry.Counts`: the instance of a name counts its players. The ways into and out of a map
  keep it so.
-/

namespace GameShip

namespace Instance

variable {i : Instance} {name : String} {m : GameMap} {client : ClientId}

/-- The number of players is that of the clients in the maps. -/
def Counts (i : Instance) : Prop := i.playerCount.toNat = i.clients.length

theorem toNat_minusOne (count : UInt32) : (minusOne count).toNat = count.toNat - 1 := by
  unfold minusOne
  split
  · rename_i hzero
    rw [hzero]
    rfl
  · rename_i hsome
    have hpos : 1 ≤ count.toNat := Nat.pos_of_ne_zero fun h => hsome (UInt32.toNat_inj.mp h)
    exact UInt32.toNat_sub_of_le _ _ (UInt32.le_iff_toNat_le.mpr hpos)

/-- Nobody is in a new map. -/
theorem clients_add (i : Instance) (hempty : m.clients = []) : (i.add m).clients = i.clients := by
  unfold add
  split
  · rfl
  · simp [clients, hempty]

theorem playerCount_add (i : Instance) (m : GameMap) :
    (i.add m).playerCount = i.playerCount := by
  unfold add
  split <;> rfl

namespace Counts

/-- Who is in one of the maps is counted. -/
theorem pos (h : i.Counts) (hm : m ∈ i.maps) (hclient : client ∈ m.clients) :
    0 < i.playerCount := by
  have hmem : client ∈ i.clients := List.mem_flatMap.mpr ⟨m, hm, hclient⟩
  have hlength := List.length_pos_of_mem hmem
  rw [UInt32.lt_iff_toNat_lt, h]
  exact hlength

theorem leave (h : i.Counts) (H : i.Tidy name) (hm : m ∈ i.maps) (hhere : client ∈ m.clients) :
    (i.leave m.name client).Counts := by
  have hlength := H.length_clients_leave hm hhere
  have hcount : (i.leave m.name client).playerCount.toNat = i.playerCount.toNat - 1 :=
    toNat_minusOne _
  rw [Counts, hcount, h]
  omega

theorem enter (h : i.Counts) (H : i.Tidy name) (hm : m ∈ i.maps)
    (hfew : (i.enter m.name client).clients.length < UInt32.size) :
    (i.enter m.name client).Counts := by
  have hlength := H.length_clients_enter hm client
  have hfits : i.playerCount.toNat + 1 < UInt32.size := by
    rw [h, ← hlength]
    exact hfew
  have hcount : (i.enter m.name client).playerCount.toNat = i.playerCount.toNat + 1 :=
    (UInt32.toNat_add ..).trans (Nat.mod_eq_of_lt hfits)
  rw [Counts, hcount, h, hlength]

theorem add (h : i.Counts) (hempty : m.clients = []) : (i.add m).Counts := by
  rw [Counts, i.playerCount_add, i.clients_add hempty]
  exact h

end Counts

/-- There are no more clients in the maps than this, and no more players are counted. -/
structure Within (i : Instance) (bound : Nat) : Prop where
  clients : i.clients.length ≤ bound
  players : i.playerCount.toNat ≤ bound

namespace Within

variable {bound : Nat}

theorem empty (name : String) (bound : Nat) : (Instance.mk name [] 0).Within bound :=
  ⟨Nat.zero_le _, Nat.zero_le _⟩

theorem leave (h : i.Within bound) (H : i.Tidy name) (hm : m ∈ i.maps)
    (hhere : client ∈ m.clients) : (i.leave m.name client).Within bound where
  clients := by
    have hlength := H.length_clients_leave hm hhere
    have hle := h.clients
    omega
  players := by
    have hcount : (i.leave m.name client).playerCount.toNat = i.playerCount.toNat - 1 :=
      toNat_minusOne _
    rw [hcount]
    exact Nat.le_trans (Nat.sub_le ..) h.players

theorem enter (h : i.Within bound) (H : i.Tidy name) (hm : m ∈ i.maps) (client : ClientId) :
    (i.enter m.name client).Within (bound + 1) where
  clients := by
    rw [H.length_clients_enter hm client]
    exact Nat.succ_le_succ h.clients
  players := by
    have hcount : (i.enter m.name client).playerCount.toNat =
      (i.playerCount.toNat + 1) % UInt32.size := UInt32.toNat_add ..
    rw [hcount]
    exact Nat.le_trans (Nat.mod_le ..) (Nat.succ_le_succ h.players)

theorem add (h : i.Within bound) (hempty : m.clients = []) : (i.add m).Within bound where
  clients := by
    rw [i.clients_add hempty]
    exact h.clients
  players := by
    rw [i.playerCount_add]
    exact h.players

end Within

end Instance

namespace ZoneRegistry

variable {z z' : ZoneRegistry} {ref : MapRef} {client : ClientId} {i : Instance} {name : String}
  {m : GameMap}

/-- The instance of a name, if it is there, counts its players. -/
def Counts (z : ZoneRegistry) (name : String) : Prop :=
  ∀ i, z.instance? name = some i → i.Counts

/-- The instance of a name, if it is there, has no more clients than a word can count. -/
def Few (z : ZoneRegistry) (name : String) : Prop :=
  ∀ i, z.instance? name = some i → i.clients.length < UInt32.size

/-- The maps of every instance can be told apart, and have no client twice. -/
def Tidy (z : ZoneRegistry) : Prop := ∀ name i, z.instance? name = some i → i.Tidy name

theorem Agrees.tidy {place : Placement} (H : z.Agrees place) : z.Tidy :=
  fun name i hi => (H.holds name i hi).toTidy

namespace Counts

theorem insert (h : z.Counts name) (hi : i.name = name → i.Counts) : (z.insert i).Counts name := by
  intro i' hi'
  rw [instance?_insert] at hi'
  split at hi'
  · rename_i hname
    cases hi'
    exact hi hname
  · exact h i' hi'

theorem initial (name : String) : ZoneRegistry.initial.Counts name := by
  have hempty : ZoneRegistry.Counts {} name := fun i hi => by simp [instance?] at hi
  have hlobby : (Instance.mk lobby [] 0).Counts := rfl
  exact hempty.insert fun _ => (hlobby.add rfl).add rfl

theorem create (h : z.Counts name) (other : String) (hempty : m.clients = []) :
    (z.create other m).2.Counts name := by
  cases hi : z.instance? other with
  | some i =>
    rw [create_of_some hi]
    exact h
  | none =>
    rw [create_of_none hi]
    have hnew : (Instance.mk other [] 0).Counts := rfl
    exact h.insert fun _ => hnew.add hempty

theorem addMap {other : String} (h : z.Counts name) (H : z.Tidy) (hempty : m.clients = [])
    (hadd : z.addMap other m = .ok z') : z'.Counts name := by
  cases hi : z.instance? other with
  | none =>
    rw [addMap_of_none hi] at hadd
    cases hadd
  | some i =>
    rw [addMap_of_some hi] at hadd
    cases hadd
    refine h.insert fun hname => ?_
    have hadded : (i.add m).name = other := ((H other i hi).add hempty).named
    obtain rfl := hadded.symm.trans hname
    exact (h i hi).add hempty

theorem removeClient (h : z.Counts name) (H : z.Tidy) (ref : MapRef) (client : ClientId) :
    (z.removeClient ref client).Counts name := by
  cases hfind : z.find ref with
  | error e =>
    rw [removeClient_of_error hfind]
    exact h
  | ok found =>
    obtain ⟨i, m⟩ := found
    obtain ⟨hi, hm⟩ := find_eq_ok.mp hfind
    obtain ⟨hmem, hmap⟩ := Instance.mem_of_map? hm
    rw [removeClient_of_find hfind]
    split
    · rename_i hhere
      refine h.insert fun hname => ?_
      have hleft : (i.leave ref.map client).name = ref.instanceName := (H _ i hi).named
      obtain rfl := hleft.symm.trans hname
      exact hmap ▸ (h i hi).leave (H _ i hi) hmem hhere
    · exact h

theorem spawnClient {location : Location} (h : z.Counts name) (H : z.Tidy)
    (hspawn : z.spawnClient ref client = .ok (location, z')) (hfew : z'.Few name) :
    z'.Counts name := by
  cases hfind : z.find ref with
  | error e =>
    rw [spawnClient_of_error hfind] at hspawn
    cases hspawn
  | ok found =>
    obtain ⟨i, m⟩ := found
    obtain ⟨hi, hm⟩ := find_eq_ok.mp hfind
    obtain ⟨hmem, hmap⟩ := Instance.mem_of_map? hm
    rw [spawnClient_of_find hfind] at hspawn
    cases hspawn
    by_cases hthere : client ∈ m.clients
    · rw [if_pos hthere]
      exact h
    · rw [if_neg hthere] at hfew ⊢
      refine h.insert fun hname => ?_
      have hentered : (i.enter ref.map client).name = ref.instanceName := (H _ i hi).named
      obtain rfl := hentered.symm.trans hname
      have hlength := hfew _ ((instance?_insert ..).trans (if_pos hname))
      rw [← hmap] at hlength ⊢
      exact (h i hi).enter (H _ i hi) hmem hlength

end Counts

end ZoneRegistry

end GameShip
