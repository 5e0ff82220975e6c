import GameShip.Object.Json
import GameShip.World.Zone

/-!
# The object registry

Every known object, by its number, and which zone it belongs to. The objects of a zone stand in
files of a directory and are loaded when the zone is first needed.

* `ObjectRegistry.load`: takes in the files of a zone.
* `ObjectRegistry.objectsOf`: the objects of a zone.
* `ObjectRegistry.object`: an object by its number.
* `ObjectRegistry.insert`: takes in an object that is made while the ship runs.
-/

namespace GameShip

/-- Every known object, and which zone it belongs to. -/
structure ObjectRegistry where
  /-- The directory that holds a directory of files for each zone. -/
  directory : String
  objects : Std.ExtTreeMap UInt64 WorldObject := {}
  /-- The numbers of the objects of each zone that has been loaded. -/
  zones : Std.ExtTreeMap String (List UInt64) := {}

namespace ObjectRegistry

instance : Inhabited ObjectRegistry := ⟨{ directory := "" }⟩

/-- The objects whose files stand under a directory of resources. -/
def ofResources (resources : String) : ObjectRegistry where
  directory := Disk.join resources "objects"

/-! ## Files -/

/-- What follows the last dot of a file name, unless nothing comes before that dot. -/
def extension? (name : String) : Option String :=
  let chars := name.toList.reverse
  match chars.dropWhile (· ≠ '.') with
  | _ :: _ :: _ => some (String.ofList (chars.takeWhile (· ≠ '.')).reverse)
  | _ => none

/-- The object that a file describes, in the form that its extension names. A file that cannot be
read describes none. -/
def ofFile? : String × Except FileError Bytes → Option WorldObject
  | (_, .error _) => none
  | (name, .ok bytes) =>
    match extension? name with
    | some "bin" => (WorldObject.ofCapture bytes).toOption
    | some "json" => (Utf8.decode? bytes).bind WorldObject.ofText?
    | _ => none

/-- The objects that the files of a directory describe, in the order of the file names. -/
def ofFiles (files : List (String × Except FileError Bytes)) : List WorldObject :=
  (Disk.sorted files).filterMap ofFile?

/-! ## Loading -/

/-- Takes in the objects of a zone in order, but none whose number is taken. -/
def load (r : ObjectRegistry) (zone : String) (found : List WorldObject) : ObjectRegistry :=
  let step (state : List UInt64 × Std.ExtTreeMap UInt64 WorldObject) (object : WorldObject) :=
    if state.2.contains object.id then state
    else (state.1 ++ [object.id], state.2.insert object.id object)
  let (ids, objects) := found.foldl step ([], r.objects)
  { r with objects, zones := r.zones.insert zone ids }

/-- What is read from the files of a zone. A zone without a directory has none, and neither has a
generated one. -/
def filesOf (r : ObjectRegistry) (disk : Disk) (zone : String) :
    List (String × Except FileError Bytes) :=
  if zone = generatedMapName then []
  else
    let directory := Disk.join r.directory zone
    disk.contents directory ((disk.list directory).toOption.getD [])

/-- Loads a zone, unless that has been done. -/
def ensureLoaded (r : ObjectRegistry) (disk : Disk) (zone : String) : ObjectRegistry :=
  if r.zones.contains zone then r else r.load zone (ofFiles (r.filesOf disk zone))

/-! ## Use -/

/-- The number belongs to an object. -/
def contains (r : ObjectRegistry) (id : UInt64) : Bool := r.objects.contains id

/-- The objects of a zone, as far as it has been loaded. -/
def listed (r : ObjectRegistry) (zone : String) : List WorldObject :=
  (r.zones.getD zone []).filterMap fun id => r.objects[id]?

/-- The objects of a zone, which is loaded for that. A generated zone shows none. -/
def objectsOf (r : ObjectRegistry) (disk : Disk) (zone : String) :
    List WorldObject × ObjectRegistry :=
  if zone = generatedMapName then ([], r)
  else
    let r := r.ensureLoaded disk zone
    (r.listed zone, r)

/-- The object of a number, or one that stands in for it. -/
def object (r : ObjectRegistry) (id : UInt64) : WorldObject :=
  r.objects.getD id (.placeholder id)

/-- The object of a number, after a zone has been loaded. -/
def objectIn (r : ObjectRegistry) (disk : Disk) (zone : String) (id : UInt64) :
    WorldObject × ObjectRegistry :=
  let r := r.ensureLoaded disk zone
  (r.object id, r)

/-- Takes an object into a zone, which is loaded for that. An object whose number is taken is
refused. -/
def insert (r : ObjectRegistry) (disk : Disk) (zone : String) (object : WorldObject) :
    Bool × ObjectRegistry :=
  let r := r.ensureLoaded disk zone
  if r.contains object.id then (false, r)
  else (true, { r with
    objects := r.objects.insert object.id object
    zones := r.zones.insert zone (r.zones.getD zone [] ++ [object.id]) })

/-! ## Fresh numbers -/

/-- The least number for objects that are made while the ship runs. -/
def firstFreshId : UInt64 := 0x10000000

/-- The number above all those for objects that are made while the ship runs. -/
def lastFreshId : UInt64 := 0xFFFFFFFFFFFFFFFF

/-- The number may be given to an object that is made while the ship runs. -/
def isFresh (id : UInt64) : Bool := firstFreshId ≤ id && id < lastFreshId

/-- The first number from `id` on that belongs to no object, among the next `fuel` ones. After the
last number comes the first. -/
def freeFrom (r : ObjectRegistry) : (fuel : Nat) → (id : UInt64) → UInt64
  | 0, id => id
  | fuel + 1, id =>
    if r.contains id then
      r.freeFrom fuel (if id + 1 < lastFreshId then id + 1 else firstFreshId)
    else id

/-- A number that belongs to no object: the one drawn, or the next one that is free. -/
def unusedId (r : ObjectRegistry) (draw : UInt64) : UInt64 :=
  r.freeFrom (r.objects.size + 1)
    (if isFresh draw then draw else firstFreshId + draw % (lastFreshId - firstFreshId))

end ObjectRegistry

end GameShip
