import GameShip.World.Reference
import Std.Data.ExtTreeMap

/-!
# Parties

A party is a small group of clients, one of whom hosts it. A client is in one party at most.

* `PartyRegistry`: every party, and which party a client is in.
* `PartyRegistry.create`, `PartyRegistry.add`, `PartyRegistry.remove`: changes.
-/

namespace GameShip

/-- How many members a party can have, with its host. -/
def maxPartySize : Nat := 4

/-- A group of clients. -/
structure Party where
  name : String
  host : ClientId
  /-- The members in the order in which they joined, so the host comes first. -/
  members : List ClientId
  deriving DecidableEq, Inhabited, Repr

/-- The client is a member. -/
def Party.has (party : Party) (client : ClientId) : Bool := party.members.contains client

/-- Every party, and which party a client is in. -/
structure PartyRegistry where
  parties : Std.ExtTreeMap PartyId Party := {}
  memberships : Std.ExtTreeMap ClientId PartyId := {}
  nextId : PartyId := 0

namespace PartyRegistry

instance : Inhabited PartyRegistry := ⟨{}⟩

/-- The party of a number. -/
def party? (r : PartyRegistry) (id : PartyId) : Option Party := r.parties[id]?

/-- The party that a client is in. -/
def partyOf? (r : PartyRegistry) (client : ClientId) : Option PartyId := r.memberships[client]?

/-- How many parties there are. -/
def count (r : PartyRegistry) : Nat := r.parties.size

/-- Creates a party, unless its host is in one. -/
def create (r : PartyRegistry) (host : ClientId) (name : String) :
    Option (PartyId × PartyRegistry) :=
  if (r.partyOf? host).isSome then none
  else some (r.nextId, {
    parties := r.parties.insert r.nextId { name, host, members := [host] }
    memberships := r.memberships.insert host r.nextId
    nextId := r.nextId + 1 })

/-- Adds a client to a party. -/
def add (r : PartyRegistry) (id : PartyId) (client : ClientId) :
    Except WorldError PartyRegistry :=
  if (r.partyOf? client).isSome then .error (.alreadyInParty client)
  else
    match r.party? id with
    | none => .error (.partyNotFound id)
    | some party =>
      if party.members.length ≥ maxPartySize then .error (.partyFull id)
      else .ok { r with
        parties := r.parties.insert id { party with members := party.members ++ [client] }
        memberships := r.memberships.insert client id }

/-- Takes a client out of its party, and says who has lost a party by it. A party whose host
leaves is dissolved. -/
def remove (r : PartyRegistry) (client : ClientId) : List ClientId × PartyRegistry :=
  match r.partyOf? client with
  | none => ([], r)
  | some id =>
    match r.party? id with
    | none => ([client], { r with memberships := r.memberships.erase client })
    | some party =>
      if party.host = client then
        (party.members, { r with
          parties := r.parties.erase id
          memberships := party.members.foldl (·.erase ·) r.memberships })
      else
        let members := party.members.filter (· ≠ client)
        ([client], { r with
          parties := r.parties.insert id { party with members }
          memberships := r.memberships.erase client })

end PartyRegistry

end GameShip
