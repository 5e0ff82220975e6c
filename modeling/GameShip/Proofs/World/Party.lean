import GameShip.World.Party
import Mathlib.Data.List.Nodup

/-!
# Parties and memberships

A registry keeps the members of every party and, beside that, the party of every member. After any
uses of a registry the two say the same (`PartyRegistry.Sound`), as long as the numbers for parties
do not run out. So a client that is taken out of its party takes along exactly those that have none
after it (`PartyRegistry.run_sound`).

* `PartyRegistry.Call`, `PartyRegistry.run`: uses of a registry.
* `PartyRegistry.evicted`: who loses a party when a client is taken out of its own.
-/

namespace GameShip

/-- The host came first, nobody is a member twice, and the party is not too large. -/
structure Party.Sound (party : Party) : Prop where
  host : party.members.head? = some party.host
  nodup : party.members.Nodup
  length_le : party.members.length ≤ maxPartySize

namespace Party.Sound

variable {party : Party} {client : ClientId}

theorem singleton (host : ClientId) (name : String) : Party.Sound ⟨name, host, [host]⟩ :=
  ⟨rfl, List.nodup_singleton host, Nat.le_of_ble_eq_true rfl⟩

theorem host_mem (H : party.Sound) : party.host ∈ party.members := List.mem_of_head? H.host

theorem length_pos (H : party.Sound) : 0 < party.members.length :=
  List.length_pos_of_mem H.host_mem

theorem add (H : party.Sound) (hnew : client ∉ party.members)
    (hroom : party.members.length < maxPartySize) :
    Party.Sound { party with members := party.members ++ [client] } where
  host := by rw [List.head?_append, H.host, Option.some_or]
  nodup := List.nodup_append.mpr ⟨H.nodup, List.nodup_singleton client, by
    intro a ha b hb
    rw [List.mem_singleton] at hb
    rintro rfl
    exact hnew (hb ▸ ha)⟩
  length_le := by
    rw [List.length_append, List.length_singleton]
    exact hroom

theorem remove (H : party.Sound) (hother : party.host ≠ client) :
    Party.Sound { party with members := party.members.filter (· ≠ client) } where
  host := by
    obtain ⟨rest, hmembers⟩ := List.head?_eq_some_iff.mp H.host
    rw [hmembers, List.filter_cons_of_pos (by simpa using hother), List.head?_cons]
  nodup := H.nodup.filter _
  length_le := Nat.le_trans (List.length_filter_le ..) H.length_le

end Party.Sound

namespace PartyRegistry

/-! ## Uses of a registry -/

/-- A use of a registry. -/
inductive Call where
  | create (host : ClientId) (name : String)
  | add (id : PartyId) (client : ClientId)
  | remove (client : ClientId)
  deriving DecidableEq, Repr

/-- What came of a use. -/
inductive Answer where
  | created (id : PartyId)
  /-- The host is in a party already. -/
  | notCreated
  | added
  | notAdded (error : WorldError)
  /-- Those who lost their party. -/
  | removed (evicted : List ClientId)
  deriving DecidableEq, Repr

/-- The use came to nothing. -/
def Answer.refused : Answer → Bool
  | .notCreated | .notAdded _ => true
  | _ => false

/-- A party was created. -/
def Answer.isCreated : Answer → Bool
  | .created _ => true
  | _ => false

/-- One use of a registry. -/
def step (r : PartyRegistry) : Call → Answer × PartyRegistry
  | .create host name =>
    match r.create host name with
    | some (id, r) => (.created id, r)
    | none => (.notCreated, r)
  | .add id client =>
    match r.add id client with
    | .ok r => (.added, r)
    | .error e => (.notAdded e, r)
  | .remove client => (.removed (r.remove client).1, (r.remove client).2)

/-- One use after the other. -/
def run (r : PartyRegistry) : List Call → List Answer × PartyRegistry
  | [] => ([], r)
  | call :: calls =>
    ((r.step call).1 :: ((r.step call).2.run calls).1, ((r.step call).2.run calls).2)

/-- Who loses a party when a client is taken out of its own: all of them if the client hosts it. -/
def evicted (r : PartyRegistry) (client : ClientId) : List ClientId :=
  match (r.partyOf? client).bind r.party? with
  | some party => if party.host = client then party.members else [client]
  | none => []

/-- The members of a party. A party that does not exist has none. -/
def membersOf (r : PartyRegistry) (id : PartyId) : List ClientId :=
  (r.party? id).elim [] (·.members)

/-! ## What the operations do to look-ups -/

variable {r r' : PartyRegistry} {id : PartyId} {host client : ClientId} {name : String}
  {party : Party}

theorem membersOf_eq (h : r.party? id = some party) : r.membersOf id = party.members := by
  rw [membersOf, h, Option.elim_some]

theorem mem_membersOf_iff :
    client ∈ r.membersOf id ↔ ∃ party, r.party? id = some party ∧ client ∈ party.members := by
  unfold membersOf
  cases r.party? id <;> simp

/-- Memberships without those of some clients. -/
theorem getElem?_foldl_erase (members : List ClientId)
    (memberships : Std.ExtTreeMap ClientId PartyId) (c : ClientId) :
    (members.foldl (·.erase ·) memberships)[c]? =
      if c ∈ members then none else memberships[c]? := by
  induction members generalizing memberships with
  | nil => simp
  | cons member members ih =>
    rw [List.foldl_cons, ih, Std.ExtTreeMap.getElem?_erase]
    by_cases h : member = c
    · simp [h]
    · simp [h, Ne.symm h]

theorem create_cases (h : r.create host name = some (id, r')) :
    r.partyOf? host = none ∧ id = r.nextId ∧ r'.nextId = r.nextId + 1 ∧
      (∀ p, r'.party? p = if id = p then some ⟨name, host, [host]⟩ else r.party? p) ∧
      ∀ c, r'.partyOf? c = if host = c then some id else r.partyOf? c := by
  unfold create at h
  split at h
  · cases h
  · rename_i hnone
    cases h
    refine ⟨by simpa using hnone, rfl, rfl, fun p => ?_, fun c => ?_⟩
    · simp [party?, Std.ExtTreeMap.getElem?_insert]
    · simp [partyOf?, Std.ExtTreeMap.getElem?_insert]

theorem add_cases (h : r.add id client = .ok r') :
    r.partyOf? client = none ∧ r'.nextId = r.nextId ∧ ∃ party, r.party? id = some party ∧
      party.members.length < maxPartySize ∧
      (∀ p, r'.party? p =
        if id = p then some { party with members := party.members ++ [client] } else r.party? p) ∧
      ∀ c, r'.partyOf? c = if client = c then some id else r.partyOf? c := by
  unfold add at h
  split at h
  · cases h
  · rename_i hnone
    split at h
    · cases h
    · rename_i party hparty
      split at h
      · cases h
      · rename_i hroom
        cases h
        refine ⟨by simpa using hnone, rfl, party, hparty, Nat.lt_of_not_le hroom,
          fun p => ?_, fun c => ?_⟩
        · simp [party?, Std.ExtTreeMap.getElem?_insert]
        · simp [partyOf?, Std.ExtTreeMap.getElem?_insert]

theorem nextId_remove (r : PartyRegistry) (client : ClientId) :
    (r.remove client).2.nextId = r.nextId := by
  unfold remove
  repeat' split
  all_goals rfl

theorem remove_of_none (h : r.partyOf? client = none) : r.remove client = ([], r) := by
  rw [remove, h]

/-- A party whose host leaves is dissolved. -/
theorem remove_of_host (hid : r.partyOf? client = some id) (hparty : r.party? id = some party)
    (hhost : party.host = client) :
    (r.remove client).1 = party.members ∧
      (∀ p, (r.remove client).2.party? p = if id = p then none else r.party? p) ∧
      ∀ c, (r.remove client).2.partyOf? c = if c ∈ party.members then none else r.partyOf? c := by
  unfold remove
  simp only [hid, hparty, if_pos hhost]
  refine ⟨trivial, fun p => ?_, fun c => getElem?_foldl_erase ..⟩
  simp [party?, Std.ExtTreeMap.getElem?_erase]

/-- A party goes on without a member that is not its host. -/
theorem remove_of_member (hid : r.partyOf? client = some id) (hparty : r.party? id = some party)
    (hhost : party.host ≠ client) :
    (r.remove client).1 = [client] ∧
      (∀ p, (r.remove client).2.party? p =
        if id = p then some { party with members := party.members.filter (· ≠ client) }
        else r.party? p) ∧
      ∀ c, (r.remove client).2.partyOf? c = if client = c then none else r.partyOf? c := by
  unfold remove
  simp only [hid, hparty, if_neg hhost]
  refine ⟨trivial, fun p => ?_, fun c => ?_⟩
  · simp [party?, Std.ExtTreeMap.getElem?_insert]
  · simp [partyOf?, Std.ExtTreeMap.getElem?_erase]

theorem step_create (h : r.create host name = some (id, r')) :
    r.step (.create host name) = (.created id, r') := by
  simp only [step, h]

theorem step_create_of_none (h : r.create host name = none) :
    r.step (.create host name) = (.notCreated, r) := by
  simp only [step, h]

theorem step_add (h : r.add id client = .ok r') : r.step (.add id client) = (.added, r') := by
  simp only [step, h]

theorem step_add_of_error {e : WorldError} (h : r.add id client = .error e) :
    r.step (.add id client) = (.notAdded e, r) := by
  simp only [step, h]

/-- A use that is refused changes nothing. -/
theorem step_of_refused {call : Call} (h : (r.step call).1.refused = true) :
    (r.step call).2 = r := by
  cases call with
  | create host name =>
    cases hcreate : r.create host name with
    | none => rw [step_create_of_none hcreate]
    | some made =>
      rw [step_create hcreate] at h
      cases h
  | add id client =>
    cases hadd : r.add id client with
    | error e => rw [step_add_of_error hadd]
    | ok r' =>
      rw [step_add hadd] at h
      cases h
  | remove client => cases h

/-- A number is used up exactly by a party that is created. -/
theorem nextId_step (r : PartyRegistry) (call : Call) :
    (r.step call).2.nextId = if (r.step call).1.isCreated then r.nextId + 1 else r.nextId := by
  cases call with
  | create host name =>
    cases hcreate : r.create host name with
    | none =>
      rw [step_create_of_none hcreate]
      rfl
    | some made =>
      rw [step_create hcreate]
      exact (create_cases hcreate).2.2.1
  | add id client =>
    cases hadd : r.add id client with
    | error e =>
      rw [step_add_of_error hadd]
      rfl
    | ok r' =>
      rw [step_add hadd]
      exact (add_cases hadd).2.1
  | remove client => exact r.nextId_remove client

/-! ## What every use keeps -/

/-- Parties and memberships say the same, and no number that is to come is in use. -/
structure Sound (r : PartyRegistry) : Prop where
  mem_iff : ∀ client id, r.partyOf? client = some id ↔ client ∈ r.membersOf id
  party : ∀ id party, r.party? id = some party → party.Sound
  lt_nextId : ∀ id party, r.party? id = some party → id < r.nextId

namespace Sound

theorem empty : Sound {} where
  mem_iff := by simp [partyOf?, membersOf, party?]
  party := by simp [party?]
  lt_nextId := by simp [party?]

theorem party?_nextId (H : r.Sound) : r.party? r.nextId = none := by
  cases hparty : r.party? r.nextId with
  | none => rfl
  | some party => exact absurd (H.lt_nextId _ _ hparty) (UInt32.lt_irrefl _)

theorem exists_party (H : r.Sound) (hid : r.partyOf? client = some id) :
    ∃ party, r.party? id = some party ∧ client ∈ party.members :=
  mem_membersOf_iff.mp ((H.mem_iff client id).mp hid)

/-- A client without a party is a member of none. -/
theorem notMem (H : r.Sound) (hnone : r.partyOf? client = none) (id : PartyId) :
    client ∉ r.membersOf id := by
  rw [← H.mem_iff, hnone]
  exact nofun

/-- Nobody is a member of two parties. -/
theorem eq_of_mem (H : r.Sound) {p : PartyId} (hid : client ∈ r.membersOf id)
    (hp : client ∈ r.membersOf p) : id = p := by
  rw [← H.mem_iff] at hid hp
  exact Option.some.inj (hid.symm.trans hp)

theorem create (H : r.Sound) (hcreate : r.create host name = some (id, r'))
    (hleft : r.nextId.toNat + 1 < UInt32.size) : r'.Sound := by
  obtain ⟨hnone, rfl, hnext, hparties, hmemberships⟩ := create_cases hcreate
  have hgrown : r.nextId < r'.nextId := by
    rw [hnext, UInt32.lt_iff_toNat_lt, UInt32.toNat_add, UInt32.toNat_one, Nat.mod_eq_of_lt hleft]
    exact Nat.lt_succ_self _
  refine ⟨fun c p => ?_, fun p party hp => ?_, fun p party hp => ?_⟩
  · have hmembers : r'.membersOf p = if r.nextId = p then [host] else r.membersOf p := by
      rw [membersOf, hparties]
      split <;> rfl
    have hfresh : r.membersOf r.nextId = [] := by rw [membersOf, H.party?_nextId, Option.elim_none]
    rw [hmembers, hmemberships]
    have := H.mem_iff c p
    have := H.notMem hnone p
    grind
  · rw [hparties] at hp
    split at hp
    · cases hp
      exact .singleton host name
    · exact H.party _ _ hp
  · rw [hparties] at hp
    split at hp
    · rename_i heq
      exact heq ▸ hgrown
    · exact UInt32.lt_trans (H.lt_nextId _ _ hp) hgrown

theorem add (H : r.Sound) (hadd : r.add id client = .ok r') : r'.Sound := by
  obtain ⟨hnone, hnext, party, hparty, hroom, hparties, hmemberships⟩ := add_cases hadd
  refine ⟨fun c p => ?_, fun p found hp => ?_, fun p found hp => ?_⟩
  · have hmembers : r'.membersOf p =
        if id = p then r.membersOf id ++ [client] else r.membersOf p := by
      rw [membersOf, hparties, membersOf_eq hparty]
      split <;> rfl
    rw [hmembers, hmemberships]
    have := H.mem_iff c p
    have := H.notMem hnone p
    grind
  · rw [hparties] at hp
    split at hp
    · cases hp
      exact (H.party _ _ hparty).add (membersOf_eq hparty ▸ H.notMem hnone id) hroom
    · exact H.party _ _ hp
  · rw [hparties] at hp
    rw [hnext]
    split at hp
    · rename_i heq
      exact heq ▸ H.lt_nextId _ _ hparty
    · exact H.lt_nextId _ _ hp

theorem remove_host (H : r.Sound) (hid : r.partyOf? client = some id)
    (hparty : r.party? id = some party) (hhost : party.host = client) :
    (r.remove client).2.Sound := by
  obtain ⟨-, hparties, hmemberships⟩ := remove_of_host hid hparty hhost
  refine ⟨fun c p => ?_, fun p found hp => ?_, fun p found hp => ?_⟩
  · have hmembers : (r.remove client).2.membersOf p = if id = p then [] else r.membersOf p := by
      rw [membersOf, hparties]
      split <;> rfl
    rw [hmembers, hmemberships, ← membersOf_eq hparty]
    have := H.mem_iff c p
    have heq : c ∈ r.membersOf id → c ∈ r.membersOf p → id = p := H.eq_of_mem
    grind
  · rw [hparties] at hp
    split at hp
    · cases hp
    · exact H.party _ _ hp
  · rw [hparties] at hp
    rw [nextId_remove]
    split at hp
    · cases hp
    · exact H.lt_nextId _ _ hp

theorem remove_member (H : r.Sound) (hid : r.partyOf? client = some id)
    (hparty : r.party? id = some party) (hhost : party.host ≠ client) :
    (r.remove client).2.Sound := by
  obtain ⟨-, hparties, hmemberships⟩ := remove_of_member hid hparty hhost
  refine ⟨fun c p => ?_, fun p found hp => ?_, fun p found hp => ?_⟩
  · have hmembers : (r.remove client).2.membersOf p =
        if id = p then (r.membersOf id).filter (· ≠ client) else r.membersOf p := by
      rw [membersOf, hparties, membersOf_eq hparty]
      split <;> rfl
    have hmem : client ∈ r.membersOf id := (H.mem_iff client id).mp hid
    rw [hmembers, hmemberships]
    have := H.mem_iff c p
    have := H.eq_of_mem (p := p) hmem
    grind
  · rw [hparties] at hp
    split at hp
    · cases hp
      exact (H.party _ _ hparty).remove hhost
    · exact H.party _ _ hp
  · rw [hparties] at hp
    rw [nextId_remove]
    split at hp
    · rename_i heq
      exact heq ▸ H.lt_nextId _ _ hparty
    · exact H.lt_nextId _ _ hp

theorem remove (H : r.Sound) (client : ClientId) : (r.remove client).2.Sound := by
  cases hid : r.partyOf? client with
  | none =>
    rw [remove_of_none hid]
    exact H
  | some id =>
    obtain ⟨party, hparty, -⟩ := H.exists_party hid
    by_cases hhost : party.host = client
    · exact H.remove_host hid hparty hhost
    · exact H.remove_member hid hparty hhost

/-- What one use keeps, as long as there is a number for one more party. -/
theorem step (H : r.Sound) (call : Call)
    (hleft : (r.step call).1.isCreated = true → r.nextId.toNat + 1 < UInt32.size) :
    (r.step call).2.Sound := by
  cases call with
  | create host name =>
    cases hcreate : r.create host name with
    | none =>
      rw [step_create_of_none hcreate]
      exact H
    | some made =>
      rw [step_create hcreate] at hleft ⊢
      exact H.create hcreate (hleft rfl)
  | add id client =>
    cases hadd : r.add id client with
    | error e =>
      rw [step_add_of_error hadd]
      exact H
    | ok r' =>
      rw [step_add hadd]
      exact H.add hadd
  | remove client => exact H.remove client

theorem run (H : r.Sound) (calls : List Call)
    (hleft : r.nextId.toNat + (r.run calls).1.countP Answer.isCreated < UInt32.size) :
    (r.run calls).2.Sound := by
  induction calls generalizing r with
  | nil => exact H
  | cons call calls ih =>
    have hnext := r.nextId_step call
    simp only [PartyRegistry.run, List.countP_cons] at hleft ⊢
    refine ih (H.step call fun hcreated => ?_) ?_
    · rw [if_pos hcreated] at hleft
      omega
    · rw [hnext]
      split
      · rename_i hcreated
        rw [if_pos hcreated] at hleft
        have hsmall : r.nextId.toNat + 1 < UInt32.size := by omega
        rw [UInt32.toNat_add, UInt32.toNat_one, Nat.mod_eq_of_lt hsmall]
        omega
      · omega

/-- Exactly those that lose their party are named, and for all others nothing changes. -/
theorem remove_evicts (H : r.Sound) (client : ClientId) :
    (r.remove client).1 = r.evicted client ∧ (r.evicted client).Nodup ∧
      ∀ c, (r.remove client).2.partyOf? c =
        if c ∈ r.evicted client then none else r.partyOf? c := by
  unfold evicted
  cases hid : r.partyOf? client with
  | none => simp [remove_of_none hid]
  | some id =>
    obtain ⟨party, hparty, -⟩ := H.exists_party hid
    rw [Option.bind_some, hparty]
    dsimp only
    split
    · rename_i hhost
      obtain ⟨hevicted, -, hmemberships⟩ := remove_of_host hid hparty hhost
      exact ⟨hevicted, (H.party _ _ hparty).nodup, hmemberships⟩
    · rename_i hhost
      obtain ⟨hevicted, -, hmemberships⟩ := remove_of_member hid hparty hhost
      exact ⟨hevicted, List.nodup_singleton client, by simpa [eq_comm] using hmemberships⟩

theorem isSome_partyOf?_of_mem_evicted (H : r.Sound) {c : ClientId} (h : c ∈ r.evicted client) :
    (r.partyOf? c).isSome := by
  unfold evicted at h
  split at h
  · rename_i party hparty
    obtain ⟨id, hid, hparty⟩ := Option.bind_eq_some_iff.mp hparty
    split at h
    · rw [(H.mem_iff c id).mpr (membersOf_eq hparty ▸ h)]
      rfl
    · rw [List.mem_singleton.mp h, hid]
      rfl
  · cases h

end Sound

/-- **Parties and memberships mirror each other.** After any uses of a registry that create fewer
parties than there are numbers: a client is in exactly the party that lists it, each party has one
to four members, each once and the host first, and only numbers below the next one are in use, so
that no party takes the place of another. A use that is refused changes nothing. A client that is
taken out of its party, which is there to be found, takes along exactly those that have no party
after it: all members in the order in which they joined if it hosts the party, and nobody else
otherwise. -/
theorem run_sound (calls : List Call)
    (hleft : (run {} calls).1.countP Answer.isCreated < UInt32.size) :
    let r := (run {} calls).2
    (∀ client id, r.partyOf? client = some id ↔
        ∃ party, r.party? id = some party ∧ client ∈ party.members) ∧
      (∀ id party, r.party? id = some party →
        party.members.Nodup ∧ 1 ≤ party.members.length ∧ party.members.length ≤ 4 ∧
          party.members.head? = some party.host ∧ id < r.nextId) ∧
      (∀ host name id r', r.create host name = some (id, r') → r.party? id = none) ∧
      (∀ call, (r.step call).1.refused = true → (r.step call).2 = r) ∧
      ∀ client,
        (∀ id, r.partyOf? client = some id → (r.party? id).isSome = true) ∧
        let (evicted, later) := r.remove client
        evicted = r.evicted client ∧ evicted.Nodup ∧
          (∀ c, c ∈ evicted ↔ (r.partyOf? c).isSome = true ∧ later.partyOf? c = none) ∧
          ∀ c, c ∉ evicted → later.partyOf? c = r.partyOf? c := by
  intro r
  have H : r.Sound := Sound.empty.run calls (by
    rw [show ({} : PartyRegistry).nextId.toNat = 0 from rfl, Nat.zero_add]
    exact hleft)
  refine ⟨fun client id => (H.mem_iff client id).trans mem_membersOf_iff,
    fun id party hparty => ?_, fun host name id r' hcreate => ?_, fun call => step_of_refused,
    fun client => ⟨fun id hid => ?_, ?_⟩⟩
  · have hsound := H.party id party hparty
    exact ⟨hsound.nodup, hsound.length_pos, hsound.length_le, hsound.host,
      H.lt_nextId id party hparty⟩
  · obtain ⟨-, rfl, -⟩ := create_cases hcreate
    exact H.party?_nextId
  · obtain ⟨party, hparty, -⟩ := H.exists_party hid
    rw [hparty]
    rfl
  · obtain ⟨hevicted, hnodup, hlater⟩ := H.remove_evicts client
    dsimp only
    rw [hevicted]
    refine ⟨rfl, hnodup, fun c => ?_, fun c hc => by rw [hlater, if_neg hc]⟩
    rw [hlater]
    by_cases hc : c ∈ r.evicted client
    · simp [hc, H.isSome_partyOf?_of_mem_evicted hc]
    · cases r.partyOf? c <;> simp [hc]

/-- A host that leaves takes its whole party along, and a party that was refused is not there. -/
theorem run_sound_hosted :
    let calls : List Call :=
      [.create 1 "red", .add 0 2, .create 2 "green", .add 0 3, .create 4 "blue", .add 1 3]
    let r := (run {} calls).2
    (run {} calls).1.countP Answer.isCreated < UInt32.size ∧
      r.evicted 1 = [1, 2, 3] ∧ (r.remove 1).1 = [1, 2, 3] ∧
      (r.remove 1).2.partyOf? 4 = r.partyOf? 4 := by
  intro calls r
  have hleft : (run {} calls).1.countP Answer.isCreated < UInt32.size := by decide +kernel
  have hevicted : r.evicted 1 = [1, 2, 3] := by decide +kernel
  obtain ⟨-, hremove, -, -, hothers⟩ := (run_sound calls hleft).2.2.2.2 1
  exact ⟨hleft, hevicted, hremove.trans hevicted, hothers 4 (by decide +kernel)⟩

end PartyRegistry

end GameShip
