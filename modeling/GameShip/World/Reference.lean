import GameShip.Disk

/-!
# Names for parts of the world

* `ClientId`, `MapRef`, `PartyId`: how connections, maps and parties are referred to.
* `WorldError`: why something could not be done in the world, most often because a name refers to
  nothing.
-/

namespace GameShip

/-- Names a connection for as long as it lasts. -/
abbrev ClientId := Nat

/-- How a connection is written in messages. -/
def ClientId.display (id : ClientId) : String := "#" ++ toString id

/-- Names a map in an instance. -/
structure MapRef where
  instanceName : String
  map : String
  deriving DecidableEq, Inhabited, Repr

/-- How a map is written in messages. -/
def MapRef.display (ref : MapRef) : String := ref.instanceName ++ "/" ++ ref.map

/-- Names a party. -/
abbrev PartyId := UInt32

/-- How a party is written in messages. -/
def PartyId.display (id : PartyId) : String := "PartyId(" ++ toString id.toNat ++ ")"

/-- Why something could not be done in the world. -/
inductive WorldError where
  | instanceNotFound (name : String)
  | mapNotFound (ref : MapRef)
  | sessionNotFound (id : ClientId)
  | partyNotFound (id : PartyId)
  | partyFull (id : PartyId)
  | alreadyInParty (id : ClientId)
  | file (error : FileError)
  deriving DecidableEq, Repr

/-- The text that explains an error, where there is one. -/
def WorldError.message? : WorldError → Option String
  | .instanceNotFound name => some ("instance " ++ name ++ " does not exist")
  | .mapNotFound ref => some ("map " ++ ref.display ++ " does not exist")
  | .sessionNotFound id => some ("no session " ++ ClientId.display id)
  | .partyNotFound id => some ("party " ++ PartyId.display id ++ " does not exist")
  | .partyFull id => some ("party " ++ PartyId.display id ++ " is full")
  | .alreadyInParty id => some (ClientId.display id ++ " is already in a party")
  | .file error => error.message?

end GameShip
