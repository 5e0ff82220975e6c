import GameShip.Half

/-!
# Where an entity stands

* `Rotation`, `Position`: a quaternion and a point.
* `Location`: both together.
* `EntityKind`, `EntityHeader`: how an entity is named on the wire.
-/

namespace GameShip

/-- A rotation, as a quaternion. -/
structure Rotation where
  x : Single := .zero
  y : Single := .zero
  z : Single := .zero
  w : Single := .zero
  deriving DecidableEq, Inhabited, Repr

/-- A point in a map. -/
structure Position where
  x : Single := .zero
  y : Single := .zero
  z : Single := .zero
  deriving DecidableEq, Inhabited, Repr

/-- A point and the way an entity there faces. -/
structure Location where
  rotation : Rotation := {}
  position : Position := {}
  deriving DecidableEq, Inhabited, Repr

/-- The number of bytes a location takes on the wire. -/
def Location.size : Nat := 14

/-- What kind of entity a header refers to. -/
structure EntityKind where
  code : UInt16 := 0
  deriving DecidableEq, Inhabited, Repr

namespace EntityKind

def player : EntityKind := ⟨4⟩

def map : EntityKind := ⟨5⟩

def object : EntityKind := ⟨6⟩

end EntityKind

/-- Names an entity on the wire. -/
structure EntityHeader where
  id : UInt64 := 0
  kind : EntityKind := {}
  /-- A word whose meaning is not known; it is kept. -/
  unknown : UInt16 := 0
  deriving DecidableEq, Inhabited, Repr

/-- The number of bytes an entity header takes on the wire. -/
def EntityHeader.size : Nat := 12

end GameShip
