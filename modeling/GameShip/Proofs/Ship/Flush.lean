import GameShip.Proofs.Ship.Calm

/-!
# Writing the records to the disk

Before the disk is read, the records of all sessions are written to it. Every session loses what it
had recorded (`Ship.getElem?_flushDumps`), the disk gains it, and the rest of the ship stays.

* `Session.flushed`: a session of which nothing waits to be written.
* `Ship.Written`: nothing waits to be written at all.
-/

namespace GameShip

/-- A session of which all that was recorded has been written. -/
def Session.flushed (s : Session) : Session :=
  { s with dump := s.dump.map fun dump => { dump with recorded := [] } }

@[simp] theorem Session.flushed_flushed (s : Session) : s.flushed.flushed = s.flushed := by
  unfold flushed
  cases s.dump <;> rfl

theorem Session.asRecorded_flushed (s : Session) : s.AsRecorded s.flushed := ⟨_, rfl⟩

namespace Ship

/-- What is written to the disk concerns only the sessions and the disk. -/
structure SameRest (ship later : Ship) : Prop where
  world : later.world = ship.world
  handlers : later.handlers = ship.handlers
  dumpRoot : later.dumpRoot = ship.dumpRoot
  journal : later.journal = ship.journal

theorem SameRest.trans {ship later last : Ship} (h : ship.SameRest later)
    (h' : later.SameRest last) : ship.SameRest last :=
  ⟨h'.world.trans h.world, h'.handlers.trans h.handlers, h'.dumpRoot.trans h.dumpRoot,
    h'.journal.trans h.journal⟩

variable {ship : Ship}

theorem sameRest_flushDump (ship : Ship) (id : ClientId) : ship.SameRest (ship.flushDump id) := by
  unfold flushDump
  split
  · exact ⟨rfl, rfl, rfl, rfl⟩
  · split <;> exact ⟨rfl, rfl, rfl, rfl⟩

theorem sameRest_flushDumps (ship : Ship) : ship.SameRest ship.flushDumps := by
  unfold flushDumps
  generalize SessionTable.ids ship.sessions = ids
  induction ids generalizing ship with
  | nil => exact ⟨rfl, rfl, rfl, rfl⟩
  | cons id ids ih => exact (sameRest_flushDump ship id).trans (ih _)

theorem getElem?_flushDump (hkeyed : ship.sessions.Keyed) (id other : ClientId) :
    (ship.flushDump id).sessions[other]? =
      ship.sessions[other]?.map fun s => if other = id then s.flushed else s := by
  -- a session without a record is left alone, which is what writing it comes to
  have hsame (h : ship.sessions[id]?.map Session.flushed = ship.sessions[id]?) :
      ship.sessions[other]? =
        ship.sessions[other]?.map fun s => if other = id then s.flushed else s := by
    by_cases hother : other = id
    · subst hother
      simpa using h.symm
    · simp [hother]
  unfold flushDump
  cases hs : ship.sessions[id]? with
  | none => exact hsame (by rw [hs]; rfl)
  | some s =>
    cases hdump : s.dump with
    | none =>
      have hflushed : s.flushed = s := by
        rw [Session.flushed, hdump, Option.map_none, ← hdump]
      simp only [hdump]
      exact hsame (by rw [hs, Option.map_some, hflushed])
    | some dump =>
      have hflushed : s.flushed = { s with dump := some (dump.flush ship.disk).1 } := by
        rw [Session.flushed, hdump]
        rfl
      have hid : s.flushed.id = id := hkeyed id s hs
      simp only [hdump, putSession]
      rw [← hflushed, SessionTable.getElem?_put]
      by_cases hother : other = id
      · subst hother
        rw [if_pos hid, hs, Option.map_some, if_pos rfl]
      · have hne : s.flushed.id ≠ other := fun h => hother (h.symm.trans hid)
        simp [hne, hother]

/-- Every session has been written. -/
theorem getElem?_flushDumps (hkeyed : ship.sessions.Keyed) (id : ClientId) :
    ship.flushDumps.sessions[id]? = ship.sessions[id]?.map Session.flushed := by
  have hall (ids : List ClientId) {ship : Ship} (hkeyed : ship.sessions.Keyed) :
      (ids.foldl (fun ship id => ship.flushDump id) ship).sessions[id]? =
        ship.sessions[id]?.map fun s => if id ∈ ids then s.flushed else s := by
    induction ids generalizing ship with
    | nil => simp
    | cons first ids ih =>
      have hfirst := (flushed_flushDump hkeyed first).calm.keyed hkeyed
      rw [List.foldl_cons, ih hfirst, getElem?_flushDump hkeyed, Option.map_map]
      congr 1
      funext s
      by_cases hmem : id ∈ ids <;> by_cases heq : id = first <;> simp [hmem, heq]
  unfold flushDumps
  rw [hall _ hkeyed]
  cases hs : ship.sessions[id]? with
  | none => rfl
  | some s =>
    have hmem : id ∈ SessionTable.ids ship.sessions := by
      rw [SessionTable.ids, Std.ExtTreeMap.mem_keys, Std.ExtTreeMap.mem_iff_isSome_getElem?, hs]
      rfl
    rw [Option.map_some, Option.map_some, if_pos hmem]

/-- Of no session anything waits to be written. -/
def Written (ship : Ship) : Prop :=
  ∀ (id : ClientId) (s : Session), ship.sessions[id]? = some s → s.flushed = s

theorem written_flushDumps (hkeyed : ship.sessions.Keyed) : ship.flushDumps.Written := by
  intro id s hs
  rw [getElem?_flushDumps hkeyed] at hs
  obtain ⟨t, -, rfl⟩ := Option.map_eq_some_iff.mp hs
  exact t.flushed_flushed

theorem Written.flushDump (h : ship.Written) (hkeyed : ship.sessions.Keyed) (id : ClientId) :
    ship.flushDump id = ship := by
  unfold Ship.flushDump
  cases hs : ship.sessions[id]? with
  | none => rfl
  | some s =>
    cases hdump : s.dump with
    | none => simp only [hdump]
    | some dump =>
      have hflushed := congrArg Session.dump (h id s hs)
      rw [Session.flushed, hdump] at hflushed
      have hnothing : dump.recorded = [] :=
        (congrArg Dump.recorded (Option.some.inj hflushed)).symm
      have hflush : dump.flush ship.disk = (dump, ship.disk) := by
        rw [Dump.flush, hnothing, List.foldr_nil, ← hnothing]
      have hsame : { s with dump := some dump } = s := by rw [← hdump]
      simp only [hdump, hflush, hsame, putSession]
      rw [SessionTable.put_self hs (hkeyed id s hs)]

theorem Written.flushDumps (h : ship.Written) (hkeyed : ship.sessions.Keyed) :
    ship.flushDumps = ship := by
  unfold Ship.flushDumps
  generalize SessionTable.ids ship.sessions = ids
  induction ids with
  | nil => rfl
  | cons id ids ih => rw [List.foldl_cons, h.flushDump hkeyed, ih]

theorem flushDumps_withZones (ship : Ship) (zones : ZoneRegistry) :
    (ship.withZones zones).flushDumps = ship.flushDumps.withZones zones := by
  have hone (ship : Ship) (id : ClientId) :
      (ship.withZones zones).flushDump id = (ship.flushDump id).withZones zones := by
    have hsame : (ship.withZones zones).sessions = ship.sessions := rfl
    unfold flushDump
    rw [hsame]
    cases ship.sessions[id]? with
    | none => rfl
    | some s =>
      dsimp only
      cases s.dump <;> rfl
  exact List.foldl_hom (·.withZones zones) fun ship id => hone ship id

end Ship

end GameShip
