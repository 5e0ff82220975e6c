import GameShip.Json.Basic
import GameShip.Object.Basic

/-!
# Objects in JSON form

* `WorldObject.ofJson?`: the object that a JSON value describes.
* `WorldObject.ofText?`: the object that a JSON text describes.
-/

namespace GameShip

/-- A number of sixteen bits. -/
private def word16? (j : Json) : Option UInt16 := (j.nat? UInt16.size).map UInt16.ofNat

/-- A number of 32 bits. -/
private def word32? (j : Json) : Option UInt32 := (j.nat? UInt32.size).map UInt32.ofNat

/-- The header that a value describes. -/
def EntityHeader.ofJson? (j : Json) : Option EntityHeader := do
  match ← j.fields? ["id", "entity_type", "unknown"] with
  | [id, kind, unknown] =>
    return {
      id := UInt64.ofNat (← Json.required (Json.nat? UInt64.size) id)
      kind := ⟨← Json.required word16? kind⟩
      unknown := ← Json.optional 0 word16? unknown }
  | _ => none

/-- The rotation that a value describes. -/
def Rotation.ofJson? (j : Json) : Option Rotation := do
  match ← (← j.fields? ["x", "y", "z", "w"]).mapM (Json.required Json.single?) with
  | [x, y, z, w] => return { x, y, z, w }
  | _ => none

/-- The position that a value describes. -/
def Position.ofJson? (j : Json) : Option Position := do
  match ← (← j.fields? ["x", "y", "z"]).mapM (Json.required Json.single?) with
  | [x, y, z] => return { x, y, z }
  | _ => none

/-- The location that a value describes. -/
def Location.ofJson? (j : Json) : Option Location := do
  match ← j.fields? ["rotation", "position"] with
  | [rotation, position] =>
    return {
      rotation := ← Json.optional {} Rotation.ofJson? rotation
      position := ← Json.optional {} Position.ofJson? position }
  | _ => none

namespace WorldObject

/-- The object that a value describes. Only the header and the name have to be there. -/
def ofJson? (j : Json) : Option WorldObject := do
  match ← j.fields? ["header", "location", "name", "thing_flag", "things"] with
  | [header, location, name, thingFlag, things] =>
    return {
      header := ← Json.required EntityHeader.ofJson? header
      location := ← Json.optional {} Location.ofJson? location
      name := ← Json.required Json.string? name
      thingFlag := ← Json.optional 0 word32? thingFlag
      things := ← Json.optional [] (Json.list? word32?) things }
  | _ => none

/-- The object that a text describes. -/
def ofText? (text : String) : Option WorldObject := (Json.parse? text).bind ofJson?

end WorldObject

end GameShip
