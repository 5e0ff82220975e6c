import GameShip.Pose
import GameShip.World.Reference
import Std.Data.ExtTreeMap

/-!
# Zones

An instance is a group of maps that come and go together. A map knows which clients are in it.

* `GameMap`, `Instance`: one map, and a group of maps.
* `ZoneRegistry`: every instance of the ship, by its name.
* `ZoneRegistry.spawnClient`, `ZoneRegistry.removeClient`: the ways into and out of a map.
-/

namespace GameShip

inductive MapKind where
  | lobby
  | casino
  | myRoom
  | field
  | quest
  deriving DecidableEq, Inhabited, Repr

/-- The flags of a map. Bits without a name are kept. -/
structure MapFlags where
  bits : UInt32 := 0
  deriving DecidableEq, Inhabited, Repr

namespace MapFlags

def multiPartyArea : MapFlags := ⟨0x1⟩

def unknown1 : MapFlags := ⟨0x4⟩

/-- Every flag that has a name. -/
def all : MapFlags := ⟨multiPartyArea.bits ||| unknown1.bits⟩

end MapFlags

/-- What a generated map is made from. -/
structure Generation where
  seed : UInt32 := 0
  xSize : UInt32 := 0
  ySize : UInt32 := 0
  deriving DecidableEq, Inhabited, Repr

/-- The name of every generated map. Such a map has no objects of its own. -/
def generatedMapName : String := "tpmap"

/-- One playable area. -/
structure GameMap where
  name : String
  zoneId : UInt32
  variantId : UInt32
  kind : MapKind
  flags : MapFlags := {}
  generation : Option Generation := none
  /-- Where clients appear when they are moved here. -/
  defaultLocation : Location := {}
  /-- The instance to which the map belongs. -/
  instanceName : String := ""
  /-- The clients in the map, in the order in which they came. -/
  clients : List ClientId := []
  deriving DecidableEq, Inhabited, Repr

namespace GameMap

/-- Puts a client into the map. -/
def enter (map : GameMap) (client : ClientId) : GameMap :=
  { map with clients := map.clients ++ [client] }

/-- Takes a client out of the map. -/
def leave (map : GameMap) (client : ClientId) : GameMap :=
  { map with clients := map.clients.filter (· ≠ client) }

end GameMap

/-- A group of maps that come and go together. -/
structure Instance where
  name : String
  /-- The maps, no two of the same name. -/
  maps : List GameMap
  /-- How many clients are in the maps. -/
  playerCount : UInt32 := 0
  deriving DecidableEq, Inhabited, Repr

namespace Instance

/-- The map of a name. -/
def map? (i : Instance) (name : String) : Option GameMap := i.maps.find? (·.name = name)

/-- Changes the map of a name. -/
def mapMaps (i : Instance) (name : String) (f : GameMap → GameMap) : List GameMap :=
  i.maps.map fun map => if map.name = name then f map else map

/-- One player less, if there are any. -/
def minusOne (count : UInt32) : UInt32 := if count = 0 then 0 else count - 1

/-- Puts a client into a map where it is not. The number of players wraps around. -/
def enter (i : Instance) (name : String) (client : ClientId) : Instance :=
  { i with maps := i.mapMaps name (·.enter client), playerCount := i.playerCount + 1 }

/-- Takes a client out of a map where it is. The number of players stops at zero. -/
def leave (i : Instance) (name : String) (client : ClientId) : Instance :=
  { i with maps := i.mapMaps name (·.leave client), playerCount := minusOne i.playerCount }

/-- Adds a map, unless there is one of its name. -/
def add (i : Instance) (map : GameMap) : Instance :=
  if i.maps.any (·.name = map.name) then i
  else { i with maps := i.maps ++ [{ map with instanceName := i.name }] }

end Instance

/-- Every instance of the ship, by its name. -/
structure ZoneRegistry where
  instances : Std.ExtTreeMap String Instance := {}

namespace ZoneRegistry

/-- The instance of a name. -/
def instance? (z : ZoneRegistry) (name : String) : Option Instance := z.instances[name]?

/-- There is an instance of this name. -/
def contains (z : ZoneRegistry) (name : String) : Bool := z.instances.contains name

/-- Puts an instance in the place of the one of its name. -/
def insert (z : ZoneRegistry) (i : Instance) : ZoneRegistry := ⟨z.instances.insert i.name i⟩

/-- Creates an instance that holds one map, unless the name is taken. -/
def create (z : ZoneRegistry) (name : String) (map : GameMap) : Bool × ZoneRegistry :=
  if z.contains name then (false, z)
  else (true, z.insert { name, maps := [{ map with instanceName := name }] })

/-- Adds a map to an instance, unless the instance has one of its name. -/
def addMap (z : ZoneRegistry) (name : String) (map : GameMap) : Except WorldError ZoneRegistry :=
  match z.instance? name with
  | none => .error (.instanceNotFound name)
  | some i => .ok (z.insert (i.add map))

/-- The instance and the map that a reference names. -/
def find (z : ZoneRegistry) (ref : MapRef) : Except WorldError (Instance × GameMap) :=
  match z.instance? ref.instanceName with
  | none => .error (.instanceNotFound ref.instanceName)
  | some i => match i.map? ref.map with
    | none => .error (.mapNotFound ref)
    | some map => .ok (i, map)

/-- The map that a reference names. -/
def map (z : ZoneRegistry) (ref : MapRef) : Except WorldError GameMap := (z.find ref).map (·.2)

/-- Puts a client into a map, unless it is there, and says where it appears. -/
def spawnClient (z : ZoneRegistry) (ref : MapRef) (client : ClientId) :
    Except WorldError (Location × ZoneRegistry) :=
  match z.find ref with
  | .error e => .error e
  | .ok (i, map) =>
    .ok (map.defaultLocation,
      if client ∈ map.clients then z else z.insert (i.enter ref.map client))

/-- Takes a client out of a map, if it is there. -/
def removeClient (z : ZoneRegistry) (ref : MapRef) (client : ClientId) : ZoneRegistry :=
  match z.find ref with
  | .error _ => z
  | .ok (i, map) => if client ∈ map.clients then z.insert (i.leave ref.map client) else z

/-- The name of the instance that is always there, and of its first map. -/
def lobby : String := "lobby"

/-- The map where every visit begins. -/
def lobbyMap : GameMap where
  name := lobby
  zoneId := 106
  variantId := 0
  kind := .lobby

def casinoMap : GameMap where
  name := "casino"
  zoneId := 104
  variantId := 0
  kind := .casino
  flags := .all

/-- The zones of a ship that has just been started: the lobby and the casino beside it. -/
def initial : ZoneRegistry :=
  insert {} ((Instance.mk lobby [] 0).add lobbyMap |>.add casinoMap)

instance : Inhabited ZoneRegistry := ⟨initial⟩

end ZoneRegistry

end GameShip
