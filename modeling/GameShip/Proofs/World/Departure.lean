import GameShip.Proofs.World.Census
import GameShip.Proofs.World.Party
import GameShip.World.Basic

/-!
# The order in which clients leave

Two clients that leave different maps, and their parties, leave the same world behind in either
order (`World.detach_comm`).

* `Instance.depart`: what is left of an instance when a client has been taken out of a map.
* `PartyRegistry.Linked`: a member of a party knows its party. Unlike what `PartyRegistry.Sound`
  says, this is so also when the numbers for parties have run out and are used again.
* `Party.without`: what is left of a party when a client has been taken out of its own.
-/

namespace GameShip

/-! ## Maps -/

namespace Instance

variable {i : Instance} {map map' name : String} {client client' : ClientId}

/-- What is left when a client has been taken out of a map, if it was there. -/
def depart (i : Instance) (map : String) (client : ClientId) : Instance :=
  if (i.map? map).any (client ∈ ·.clients) then i.leave map client else i

theorem map?_leave (hne : map ≠ map') : (i.leave map client).map? map' = i.map? map' := by
  have hleave : (i.leave map client).map? map' =
      (i.map? map').map fun m => if map' = map then m.leave client else m :=
    map?_mapMaps fun _ => rfl
  rw [hleave]
  simp only [if_neg hne.symm]
  exact Option.map_id'

theorem map?_depart (i : Instance) (client : ClientId) (hne : map ≠ map') :
    (i.depart map client).map? map' = i.map? map' := by
  unfold depart
  split
  · exact map?_leave hne
  · rfl

theorem leave_comm (hne : map ≠ map') :
    (i.leave map client).leave map' client' = (i.leave map' client').leave map client := by
  unfold leave mapMaps
  dsimp only
  rw [List.map_map, List.map_map]
  congr 1
  refine List.map_congr_left fun m _ => ?_
  simp only [Function.comp_apply]
  by_cases hmap : m.name = map
  · have hmap' : m.name ≠ map' := hmap ▸ hne
    rw [if_pos hmap, if_neg hmap', if_neg (show (m.leave client).name ≠ map' from hmap'),
      if_pos hmap]
  · rw [if_neg hmap]
    split
    · exact (if_neg (show (m.leave client').name ≠ map from hmap)).symm
    · rfl

theorem depart_comm (hne : map ≠ map') :
    (i.depart map client).depart map' client' = (i.depart map' client').depart map client := by
  have hfirst := i.map?_depart client hne
  have hsecond := i.map?_depart client' hne.symm
  rw [depart, hfirst, depart.eq_1 (i.depart map' client'), hsecond]
  unfold depart
  split <;> split
  · exact leave_comm hne
  all_goals rfl

end Instance

namespace ZoneRegistry

variable {z : ZoneRegistry} {ref ref' : MapRef} {client client' : ClientId}

/-- Only the instance of the map is changed. -/
theorem instance?_removeClient (H : z.Sound) (ref : MapRef) (client : ClientId) (name : String) :
    (z.removeClient ref client).instance? name =
      if ref.instanceName = name then (z.instance? name).map (·.depart ref.map client)
      else z.instance? name := by
  unfold removeClient find
  by_cases hname : ref.instanceName = name
  · rw [if_pos hname, ← hname]
    cases hi : z.instance? ref.instanceName with
    | none => exact hi
    | some i =>
      dsimp only
      rw [Option.map_some, Instance.depart]
      cases hmap : i.map? ref.map with
      | none => exact hi
      | some m =>
        dsimp only
        rw [Option.any_some]
        by_cases hthere : client ∈ m.clients
        · rw [if_pos hthere, if_pos (decide_eq_true hthere), instance?_insert]
          exact if_pos (H _ i hi).named
        · rw [if_neg hthere, if_neg (by simpa using hthere)]
          exact hi
  · rw [if_neg hname]
    cases hi : z.instance? ref.instanceName with
    | none => rfl
    | some i =>
      dsimp only
      cases i.map? ref.map with
      | none => rfl
      | some m =>
        dsimp only
        split
        · have hnamed : (i.leave ref.map client).name = ref.instanceName := (H _ i hi).named
          rw [instance?_insert, hnamed, if_neg hname]
        · rfl

theorem Sound.removeClient_comm (H : z.Sound) (hne : ref ≠ ref') (client client' : ClientId) :
    (z.removeClient ref client).removeClient ref' client' =
      (z.removeClient ref' client').removeClient ref client := by
  refine ext_instance? fun name => ?_
  rw [instance?_removeClient (H.removeClient ref client), instance?_removeClient H,
    instance?_removeClient (H.removeClient ref' client'), instance?_removeClient H]
  by_cases hname : ref.instanceName = name
  · by_cases hname' : ref'.instanceName = name
    · have hmap : ref.map ≠ ref'.map := fun h => hne (by
        cases ref
        cases ref'
        cases hname.trans hname'.symm
        cases h
        rfl)
      rw [if_pos hname, if_pos hname', if_pos hname, if_pos hname', Option.map_map, Option.map_map]
      congr 1
      funext i
      exact Instance.depart_comm hmap
    · rw [if_neg hname', if_pos hname, if_neg hname', if_pos hname]
  · rw [if_neg hname, if_neg hname]

end ZoneRegistry

/-! ## Parties -/

/-- What is left of a party when a client has been taken out of its own: nothing if it is the host
of this one. -/
def Party.without (party : Party) (client : ClientId) : Option Party :=
  if party.host = client then none
  else some { party with members := party.members.filter (· ≠ client) }

namespace Party

variable {party left : Party} {client client' other : ClientId}

theorem without_eq_some : party.without client = some left ↔
    party.host ≠ client ∧ { party with members := party.members.filter (· ≠ client) } = left := by
  unfold without
  split <;> simp [*]

theorem bind_without_of_host (hhost : party.host = client) :
    (party.without client').bind (·.without client) = none := by
  unfold without
  split
  · rfl
  · exact if_pos hhost

theorem without_comm : (party.without client).bind (·.without client') =
    (party.without client').bind (·.without client) := by
  by_cases hhost : party.host = client
  · rw [bind_without_of_host hhost, without, if_pos hhost, Option.bind_none]
  by_cases hhost' : party.host = client'
  · rw [bind_without_of_host hhost', without, if_pos hhost', Option.bind_none]
  · unfold without
    rw [if_neg hhost, if_neg hhost', Option.bind_some, Option.bind_some, if_neg hhost',
      if_neg hhost, List.filter_filter, List.filter_filter]
    simp only [Bool.and_comm]

/-- A client that is not in the party is not missed. -/
theorem without_of_notMem (hhost : party.host ≠ client) (hmem : client ∉ party.members) :
    party.without client = some party := by
  have hall : party.members.filter (· ≠ client) = party.members :=
    List.filter_eq_self.mpr fun other hother =>
      decide_eq_true fun h => hmem (h ▸ hother)
  rw [without, if_neg hhost, hall]

end Party

namespace PartyRegistry

variable {r r' : PartyRegistry} {client client' : ClientId} {id : PartyId} {party : Party}

theorem ext_lookup (hparty : ∀ id, r.party? id = r'.party? id)
    (hpartyOf : ∀ client, r.partyOf? client = r'.partyOf? client) (hnext : r.nextId = r'.nextId) :
    r = r' := by
  have hparties : r.parties = r'.parties := Std.ExtTreeMap.ext_getElem? hparty
  have hmemberships : r.memberships = r'.memberships := Std.ExtTreeMap.ext_getElem? hpartyOf
  cases r
  cases r'
  cases hparties
  cases hmemberships
  cases hnext
  rfl

/-- A client whose party is not there only forgets it. -/
theorem remove_of_missing (hid : r.partyOf? client = some id) (hparty : r.party? id = none) :
    (∀ p, (r.remove client).2.party? p = r.party? p) ∧
      ∀ c, (r.remove client).2.partyOf? c = if client = c then none else r.partyOf? c := by
  unfold remove
  simp only [hid, hparty]
  refine ⟨fun p => rfl, fun c => ?_⟩
  simp [partyOf?, Std.ExtTreeMap.getElem?_erase]

/-- The host of a party is a member, and a member knows its party. -/
structure Linked (r : PartyRegistry) : Prop where
  host : ∀ id party, r.party? id = some party → party.host ∈ party.members
  member : ∀ id party, r.party? id = some party →
    ∀ client ∈ party.members, r.partyOf? client = some id

/-- A client has no party once another is taken out: it is that one, or is in the party that it
hosts. -/
def Loses (r : PartyRegistry) (client other : ClientId) : Prop :=
  other = client ∨ ∃ id party, r.party? id = some party ∧ party.host = client ∧
    other ∈ party.members

namespace Linked

theorem empty : Linked {} := ⟨by simp [party?], by simp [party?]⟩

theorem partyOf?_host (H : r.Linked) (hparty : r.party? id = some party) :
    r.partyOf? party.host = some id :=
  H.member id party hparty party.host (H.host id party hparty)

/-- No party misses a client but the one that the client is in. -/
theorem bind_without (H : r.Linked) (hne : r.partyOf? client ≠ some id) :
    (r.party? id).bind (·.without client) = r.party? id := by
  cases hparty : r.party? id with
  | none => rfl
  | some party =>
    refine Party.without_of_notMem (fun hhost => hne ?_) fun hmem => hne ?_
    · exact hhost ▸ H.partyOf?_host hparty
    · exact H.member id party hparty client hmem

theorem party?_remove (H : r.Linked) (client : ClientId) (id : PartyId) :
    (r.remove client).2.party? id = (r.party? id).bind (·.without client) := by
  cases hid : r.partyOf? client with
  | none =>
    rw [remove_of_none hid, H.bind_without (by rw [hid]; exact nofun)]
  | some own =>
    have hothers : own ≠ id → (r.party? id).bind (·.without client) = r.party? id := fun hne =>
      H.bind_without (by rw [hid]; exact fun h => hne (Option.some.inj h))
    cases hparty : r.party? own with
    | none =>
      rw [(remove_of_missing hid hparty).1]
      by_cases hown : own = id
      · rw [← hown, hparty, Option.bind_none]
      · rw [hothers hown]
    | some party =>
      by_cases hhost : party.host = client
      · rw [(remove_of_host hid hparty hhost).2.1]
        split
        · rename_i hown
          rw [← hown, hparty, Option.bind_some, Party.without, if_pos hhost]
        · exact (hothers ‹_›).symm
      · rw [(remove_of_member hid hparty hhost).2.1]
        split
        · rename_i hown
          rw [← hown, hparty, Option.bind_some, Party.without, if_neg hhost]
        · exact (hothers ‹_›).symm

theorem partyOf?_remove (H : r.Linked) (client other : ClientId) :
    (r.Loses client other → (r.remove client).2.partyOf? other = none) ∧
      (¬r.Loses client other → (r.remove client).2.partyOf? other = r.partyOf? other) := by
  -- a party that the client hosts is its own
  have hown : ∀ id party, r.party? id = some party → party.host = client →
      r.partyOf? client = some id := fun id party hparty hhost => hhost ▸ H.partyOf?_host hparty
  unfold Loses
  cases hid : r.partyOf? client with
  | none =>
    rw [remove_of_none hid]
    refine ⟨?_, fun _ => rfl⟩
    rintro (rfl | ⟨id, party, hparty, hhost, -⟩)
    · exact hid
    · cases hid.symm.trans (hown id party hparty hhost)
  | some own =>
    cases hparty : r.party? own with
    | none =>
      rw [(remove_of_missing hid hparty).2]
      refine ⟨?_, fun hkept => if_neg fun h => hkept (.inl h.symm)⟩
      rintro (rfl | ⟨id, party, hparty', hhost, -⟩)
      · exact if_pos rfl
      · cases hid.symm.trans (hown id party hparty' hhost)
        cases hparty.symm.trans hparty'
    | some party =>
      by_cases hhost : party.host = client
      · rw [(remove_of_host hid hparty hhost).2.2]
        refine ⟨fun h => if_pos ?_, fun hkept => if_neg fun h => hkept ?_⟩
        · rcases h with rfl | ⟨id, party', hparty', hhost', hmem⟩
          · exact hhost ▸ H.host own party hparty
          · cases hid.symm.trans (hown id party' hparty' hhost')
            cases hparty.symm.trans hparty'
            exact hmem
        · exact .inr ⟨own, party, hparty, hhost, h⟩
      · rw [(remove_of_member hid hparty hhost).2.2]
        refine ⟨?_, fun hkept => if_neg fun h => hkept (.inl h.symm)⟩
        rintro (rfl | ⟨id, party', hparty', hhost', -⟩)
        · exact if_pos rfl
        · cases hid.symm.trans (hown id party' hparty' hhost')
          cases hparty.symm.trans hparty'
          exact absurd hhost' hhost

theorem party?_remove_eq_some (H : r.Linked) {left : Party} :
    (r.remove client).2.party? id = some left ↔ ∃ party, r.party? id = some party ∧
      party.host ≠ client ∧ { party with members := party.members.filter (· ≠ client) } = left := by
  rw [H.party?_remove, Option.bind_eq_some_iff]
  simp only [Party.without_eq_some]

theorem remove (H : r.Linked) (client : ClientId) : (r.remove client).2.Linked := by
  constructor
  · intro id left hleft
    obtain ⟨party, hparty, hhost, rfl⟩ := H.party?_remove_eq_some.mp hleft
    exact List.mem_filter.mpr ⟨H.host id party hparty, decide_eq_true hhost⟩
  · intro id left hleft other hother
    obtain ⟨party, hparty, hhost, rfl⟩ := H.party?_remove_eq_some.mp hleft
    obtain ⟨hmem, hne⟩ := List.mem_filter.mp hother
    have hid := H.member id party hparty other hmem
    rw [(H.partyOf?_remove client other).2 ?_, hid]
    rintro (rfl | ⟨id', party', hparty', hhost', hmem'⟩)
    · exact of_decide_eq_true hne rfl
    · cases hid.symm.trans (H.member id' party' hparty' other hmem')
      cases hparty.symm.trans hparty'
      exact hhost hhost'

theorem create {host : ClientId} {name : String} (H : r.Linked)
    (hcreate : r.create host name = some (id, r')) : r'.Linked := by
  obtain ⟨hnone, -, -, hparties, hmemberships⟩ := create_cases hcreate
  constructor
  · intro p party hparty
    rw [hparties] at hparty
    split at hparty
    · cases hparty
      exact List.mem_singleton_self host
    · exact H.host p party hparty
  · intro p party hparty client hmem
    rw [hparties] at hparty
    rw [hmemberships]
    split at hparty
    · rename_i hp
      cases hparty
      rw [if_pos (List.mem_singleton.mp hmem).symm, hp]
    · have hclient := H.member p party hparty client hmem
      rw [if_neg, hclient]
      rintro rfl
      cases hnone.symm.trans hclient

theorem add (H : r.Linked) (hadd : r.add id client = .ok r') : r'.Linked := by
  obtain ⟨hnone, -, grown, hgrown, -, hparties, hmemberships⟩ := add_cases hadd
  constructor
  · intro p party hparty
    rw [hparties] at hparty
    split at hparty
    · cases hparty
      exact List.mem_append_left _ (H.host id grown hgrown)
    · exact H.host p party hparty
  · intro p party hparty other hmem
    rw [hparties] at hparty
    rw [hmemberships]
    by_cases hother : client = other
    · rw [if_pos hother]
      split at hparty
      · rename_i hp
        rw [hp]
      · have hmember := H.member p party hparty other hmem
        rw [← hother, hnone] at hmember
        cases hmember
    · rw [if_neg hother]
      split at hparty
      · rename_i hp
        cases hparty
        obtain hmem | hmem := List.mem_append.mp hmem
        · exact hp ▸ H.member id grown hgrown other hmem
        · exact absurd (List.mem_singleton.mp hmem).symm hother
      · exact H.member p party hparty other hmem

theorem step (H : r.Linked) (call : Call) : (r.step call).2.Linked := by
  cases call with
  | create host name =>
    cases hcreate : r.create host name with
    | none =>
      rw [step_create_of_none hcreate]
      exact H
    | some made =>
      rw [step_create hcreate]
      exact H.create hcreate
  | add id client =>
    cases hadd : r.add id client with
    | error e =>
      rw [step_add_of_error hadd]
      exact H
    | ok r' =>
      rw [step_add hadd]
      exact H.add hadd
  | remove client => exact H.remove client

/-- Who has no party once two are taken out has none once one or the other is. -/
theorem loses_remove (H : r.Linked) {client client' other : ClientId} :
    r.Loses client other ∨ (r.remove client).2.Loses client' other ↔
      r.Loses client other ∨ r.Loses client' other := by
  constructor
  · rintro (h | rfl | ⟨id, left, hleft, hhost, hmem⟩)
    · exact .inl h
    · exact .inr (.inl rfl)
    · obtain ⟨party, hparty, -, rfl⟩ := H.party?_remove_eq_some.mp hleft
      exact .inr (.inr ⟨id, party, hparty, hhost, (List.mem_filter.mp hmem).1⟩)
  · rintro (h | rfl | ⟨id, party, hparty, hhost, hmem⟩)
    · exact .inl h
    · exact .inr (.inl rfl)
    · by_cases hother : other = client
      · exact .inl (.inl hother)
      by_cases hfirst : party.host = client
      · exact .inl (.inr ⟨id, party, hparty, hfirst, hmem⟩)
      · exact .inr (.inr ⟨id, _, H.party?_remove_eq_some.mpr ⟨party, hparty, hfirst, rfl⟩, hhost,
          List.mem_filter.mpr ⟨hmem, decide_eq_true hother⟩⟩)

theorem partyOf?_remove_remove (H : r.Linked) (client client' other : ClientId) :
    let later := ((r.remove client).2.remove client').2
    (r.Loses client other ∨ r.Loses client' other → later.partyOf? other = none) ∧
      (¬(r.Loses client other ∨ r.Loses client' other) →
        later.partyOf? other = r.partyOf? other) := by
  obtain ⟨hlost, hkept⟩ := H.partyOf?_remove client other
  obtain ⟨hlost', hkept'⟩ := (H.remove client).partyOf?_remove client' other
  rw [← H.loses_remove]
  refine ⟨fun h => ?_, fun h => ?_⟩
  · by_cases hlater : (r.remove client).2.Loses client' other
    · exact hlost' hlater
    · rw [hkept' hlater]
      exact hlost (h.resolve_right hlater)
  · rw [not_or] at h
    rw [hkept' h.2, hkept h.1]

theorem remove_comm (H : r.Linked) (client client' : ClientId) :
    ((r.remove client).2.remove client').2 = ((r.remove client').2.remove client).2 := by
  refine ext_lookup (fun id => ?_) (fun other => ?_) ?_
  · rw [(H.remove client).party?_remove, H.party?_remove, (H.remove client').party?_remove,
      H.party?_remove, Option.bind_assoc, Option.bind_assoc]
    exact congrArg _ (funext fun party => Party.without_comm)
  · obtain ⟨hlost, hkept⟩ := H.partyOf?_remove_remove client client' other
    obtain ⟨hlost', hkept'⟩ := H.partyOf?_remove_remove client' client other
    rw [or_comm] at hlost' hkept'
    by_cases hloses : r.Loses client other ∨ r.Loses client' other
    · rw [hlost hloses, hlost' hloses]
    · rw [hkept hloses, hkept' hloses]
  · rw [nextId_remove, nextId_remove, nextId_remove, nextId_remove]

end Linked

end PartyRegistry

/-! ## The world -/

attribute [ext] World

namespace World

variable {w : World} {s t : Session}

/-- What is left of the world when a session has been taken out of it. -/
theorem detach_snd (w : World) (s : Session) :
    (w.detach s).2 = { w with
      zones := s.map.elim w.zones (w.zones.removeClient · s.id)
      parties := (w.parties.remove s.id).2 } := by
  unfold detach leaveMap
  cases s.map <;> rfl

@[simp] theorem zones_detach (w : World) (s : Session) :
    (w.detach s).2.zones = s.map.elim w.zones (w.zones.removeClient · s.id) := by
  rw [detach_snd]

@[simp] theorem objects_detach (w : World) (s : Session) :
    (w.detach s).2.objects = w.objects := by rw [detach_snd]

@[simp] theorem parties_detach (w : World) (s : Session) :
    (w.detach s).2.parties = (w.parties.remove s.id).2 := by rw [detach_snd]

/-- It is only where a session is that it leaves. -/
theorem detach_congr (w : World) (hid : t.id = s.id) (hmap : t.map = s.map) :
    (w.detach t).2 = (w.detach s).2 := by
  rw [detach_snd, detach_snd, hid, hmap]

/-- **Two sessions of different maps leave the same world behind in either order**, whether they
are in one party, in two or in none. -/
theorem detach_comm (hzones : w.zones.Sound) (hparties : w.parties.Linked)
    (hmaps : ∀ ref, s.map = some ref → t.map ≠ some ref) :
    ((w.detach s).2.detach t).2 = ((w.detach t).2.detach s).2 := by
  have hleft : ((w.detach s).2.detach t).2.zones = ((w.detach t).2.detach s).2.zones := by
    simp only [zones_detach]
    cases hs : s.map with
    | none => simp only [Option.elim_none]
    | some ref =>
      cases ht : t.map with
      | none => simp only [Option.elim_none]
      | some ref' =>
        have hne : ref ≠ ref' := fun h => hmaps ref hs (h ▸ ht)
        simp only [Option.elim_some]
        exact hzones.removeClient_comm hne s.id t.id
  refine World.ext hleft ?_ ?_
  · simp only [objects_detach]
  · simp only [parties_detach]
    exact hparties.remove_comm s.id t.id

end World

end GameShip
