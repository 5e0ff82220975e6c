import GameShip.Object.Registry
import GameShip.Session.Basic
import GameShip.World.Party

/-!
# The world

* `World`: what all sessions share: zones, objects and parties.
* `World.detach`: takes a session out of it.
* `SessionTable`: the sessions, by connection, with `SessionTable.broadcast`.
-/

namespace GameShip

/-- What all sessions share. -/
structure World where
  zones : ZoneRegistry := .initial
  objects : ObjectRegistry
  parties : PartyRegistry := {}

namespace World

/-- The world of a ship that has just been started. -/
def new (resources : String) : World := { objects := .ofResources resources }

instance : Inhabited World := ⟨.new ""⟩

/-- Takes a client out of a map that it may be in. -/
def leaveMap (w : World) (map : Option MapRef) (client : ClientId) : World :=
  match map with
  | some ref => { w with zones := w.zones.removeClient ref client }
  | none => w

/-- Takes a session out of its map and its party. -/
def detach (w : World) (s : Session) : Session × World :=
  let w := w.leaveMap s.map s.id
  ({ s with map := none }, { w with parties := (w.parties.remove s.id).2 })

end World

/-- The sessions, by connection. -/
abbrev SessionTable := Std.ExtTreeMap ClientId Session

namespace SessionTable

/-- Puts a session in the place of the one of its connection. -/
def put (t : SessionTable) (s : Session) : SessionTable := t.insert s.id s

/-- The connections, in rising order. -/
def ids (t : SessionTable) : List ClientId := t.keys

/-- The session of a user of this name, or else of a character of this name. -/
def findByName (t : SessionTable) (name : String) : Option ClientId :=
  let sessions := t.values
  (sessions.find? fun s => (s.user.map (·.username)) = some name).or
    (sessions.find? fun s => (s.character.map (·.name)) = some name) |>.map (·.id)

/-- The sessions that hear what happens in a map, except one. -/
def audience (t : SessionTable) (map : MapRef) (except : ClientId) : List ClientId :=
  (t.values.filter fun s => s.id ≠ except && s.hears map).map (·.id)

/-- Changes every session that hears what happens in a map, except one. -/
def broadcast (t : SessionTable) (map : MapRef) (except : ClientId) (f : Session → Session) :
    SessionTable :=
  t.map fun _ s => if s.id ≠ except && s.hears map then f s else s

end SessionTable

end GameShip
