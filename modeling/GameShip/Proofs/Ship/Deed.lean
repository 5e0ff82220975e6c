import GameShip.Proofs.Ship.Answering
import GameShip.Proofs.World.Departure

/-!
# What a session does on its own

What comes of the bytes of a client follows from its own session alone (`Ship.exists_deed`). They
change this session, other sessions only where these hear what happens in its map, and the world
only if the client logs out.

* `Session.Deed`: such a change, and `Session.Deed.Of`: what is known of one.
* `Ship.enact`: what it makes of a ship.
-/

namespace GameShip

/-- What a session does while its frames are handled. -/
structure Session.Deed where
  /-- The session after that. -/
  session : Session
  /-- What becomes of another session by it. -/
  told : Session → Session
  /-- The session is taken out of the world. -/
  quits : Bool

namespace Session

variable {s t : Session} {frame : Frame} {g : Session → Option Frame}

/-- A session that is handed a frame hears of the same maps as before. -/
theorem hears_offered (s : Session) (g : Session → Option Frame) :
    (s.offered g).id = s.id ∧ ∀ ref, (s.offered g).hears ref = s.hears ref := by
  unfold offered
  cases g s with
  | none => exact ⟨rfl, fun _ => rfl⟩
  | some frame =>
    obtain ⟨outbox, outCipher, dump, hsent⟩ := s.sendFrame_outbound frame
    dsimp only
    rw [hsent]
    exact ⟨rfl, fun _ => rfl⟩

/-- A session hears of no map but its own. -/
theorem hears_eq_false {ref : MapRef} (h : s.map ≠ some ref) : s.hears ref = false := by
  rw [hears, Bool.and_eq_false_iff]
  exact .inr (beq_eq_false_iff_ne.mpr h)

namespace Deed

/-- The deed is one of this session. It stays where it is unless it quits, and then it is closed.
No other session is moved by it, or changed at all if it hears nothing of the map. -/
structure Of (d : Deed) (s : Session) : Prop where
  id : d.session.id = s.id
  map : d.session.map = if d.quits then none else s.map
  closed : d.quits = true → d.session.closed = true
  keeps : ∀ t, (d.told t).id = t.id ∧ ∀ ref, (d.told t).hears ref = t.hears ref
  deaf : ∀ t, (∀ ref, s.map = some ref → t.hears ref = false) → d.told t = t

/-- The session changes, and nobody is told. -/
def alone (t : Session) : Deed := ⟨t, fun other => other, false⟩

/-- The session changes, and those who hear of it are handed what there is for them. -/
def tell (t : Session) (g : Session → Option Frame) : Deed :=
  ⟨t, (·.offered (t.heardFrom g)), false⟩

/-- The session leaves the world. -/
def quit (s : Session) : Deed := ⟨{ s with map := none, closed := true }, fun other => other, true⟩

/-- One deed, and then another of the session as it is after that. -/
def andThen (d e : Deed) : Deed := ⟨e.session, fun other => e.told (d.told other), e.quits⟩

theorem Of.alone (hid : t.id = s.id) (hmap : t.map = s.map) : (Deed.alone t).Of s :=
  ⟨hid, hmap, nofun, fun _ => ⟨rfl, fun _ => rfl⟩, fun _ _ => rfl⟩

theorem Of.tell (hid : t.id = s.id) (hmap : t.map = s.map) : (Deed.tell t g).Of s := by
  refine ⟨hid, hmap, nofun, fun other => other.hears_offered _, fun other hdeaf => ?_⟩
  have hnone : t.heardFrom g other = none := by
    unfold heardFrom
    rw [hmap]
    cases hs : s.map with
    | none => rfl
    | some ref => simp [hdeaf ref hs]
  unfold Deed.tell
  dsimp only
  rw [offered, hnone]

theorem Of.quit (s : Session) : (Deed.quit s).Of s :=
  ⟨rfl, rfl, fun _ => rfl, fun _ => ⟨rfl, fun _ => rfl⟩, fun _ _ => rfl⟩

theorem Of.congr {d : Deed} (H : d.Of t) (hid : t.id = s.id) (hmap : t.map = s.map) : d.Of s :=
  ⟨H.id.trans hid, hmap ▸ H.map, H.closed, H.keeps, fun other h => H.deaf other (hmap.symm ▸ h)⟩

/-- A session that stays goes on. -/
theorem Of.andThen {d e : Deed} (H : d.Of s) (hstays : d.quits = false) (H' : e.Of d.session) :
    (d.andThen e).Of s := by
  have hmap : d.session.map = s.map := by rw [H.map, hstays, if_neg Bool.false_ne_true]
  have H' := H'.congr H.id hmap
  refine ⟨H'.id, H'.map, H'.closed, fun other => ?_, fun other hdeaf => ?_⟩
  · obtain ⟨hid, hhears⟩ := H.keeps other
    obtain ⟨hid', hhears'⟩ := H'.keeps (d.told other)
    exact ⟨hid'.trans hid, fun ref => (hhears' ref).trans (hhears ref)⟩
  · change e.told (d.told other) = other
    rw [H.deaf other hdeaf, H'.deaf other hdeaf]

end Deed

end Session

open Session (Deed)

namespace Context

variable {ctx : Context} {s t : Session} {g : Session → Option Frame}

/-- What a handler sees after a deed of its session. -/
def enact (ctx : Context) (d : Deed) : Context :=
  { ctx with
    session := d.session
    others := ctx.others.map fun _ t => d.told t
    world := if d.quits then (ctx.world.detach ctx.session).2 else ctx.world }

theorem map_self (sessions : SessionTable) : sessions.map (fun _ other => other) = sessions := by
  refine Std.ExtTreeMap.ext_getElem? fun id => ?_
  rw [Std.ExtTreeMap.getElem?_map, Option.map_id']

/-- It is only where the session is that it quits. -/
theorem enact_congr {d : Deed} (hid : t.id = ctx.session.id) (hmap : t.map = ctx.session.map) :
    ({ ctx with session := t } : Context).enact d = ctx.enact d := by
  unfold enact
  dsimp only
  rw [ctx.world.detach_congr hid hmap]

theorem enact_alone (ctx : Context) (t : Session) :
    ctx.enact (.alone t) = { ctx with session := t } := by
  unfold enact Deed.alone
  dsimp only
  rw [map_self]
  rfl

theorem enact_quit (ctx : Context) : ctx.enact (.quit ctx.session) = ctx.closeSession := by
  unfold enact Deed.quit
  dsimp only
  rw [map_self]
  rfl

theorem enact_tell (ctx : Context) (t : Session) (g : Session → Option Frame) :
    ctx.enact (.tell t g) = { ctx with session := t }.broadcast (·.offered g) := by
  have hothers : ctx.others.map (fun _ other => other.offered (t.heardFrom g)) =
      ({ ctx with session := t }.broadcast (·.offered g)).others := by
    refine Std.ExtTreeMap.ext_getElem? fun id => ?_
    rw [Std.ExtTreeMap.getElem?_map, getElem?_broadcast]
  unfold enact Deed.tell
  dsimp only
  rw [hothers]
  unfold broadcast
  dsimp only
  cases t.map <;> rfl

/-- One deed after another is both in one, if the session does not quit with the first. -/
theorem enact_andThen (ctx : Context) {d e : Deed} (H : d.Of ctx.session)
    (hstays : d.quits = false) : (ctx.enact d).enact e = ctx.enact (d.andThen e) := by
  have hothers : (ctx.others.map fun _ other => d.told other).map (fun _ other => e.told other) =
      ctx.others.map fun _ other => e.told (d.told other) := by
    refine Std.ExtTreeMap.ext_getElem? fun id => ?_
    rw [Std.ExtTreeMap.getElem?_map, Std.ExtTreeMap.getElem?_map, Std.ExtTreeMap.getElem?_map,
      Option.map_map]
    rfl
  have hmap : d.session.map = ctx.session.map := by rw [H.map, hstays, if_neg Bool.false_ne_true]
  unfold enact Deed.andThen
  dsimp only
  rw [hothers, hstays, if_neg Bool.false_ne_true, ctx.world.detach_congr H.id hmap]

end Context

namespace Handler

/-- What a handler does with a frame of a session, at this time and in whatever world. -/
def Does (h : Handler) (s : Session) (clock : UInt64) (flags : PacketFlags) (payload : Bytes)
    (d : Deed) : Prop :=
  ∀ ctx : Context, ctx.session = s → ctx.clock = clock →
    (h.handle ctx flags payload).2 = ctx.enact d

variable {h : Handler} {s t : Session} {clock : UInt64} {flags : PacketFlags} {payload : Bytes}

theorem exists_deed_of_same (hsame : ∀ ctx : Context, ctx.session = s → ctx.clock = clock →
    (h.handle ctx flags payload).2 = ctx) : ∃ d : Deed, d.Of s ∧ h.Does s clock flags payload d :=
  ⟨.alone s, .alone rfl rfl, fun ctx hs hclock => by
    rw [hsame ctx hs hclock, Context.enact_alone, ← hs]⟩

theorem exists_deed_of_reply (frame : Frame) (hid : t.id = s.id) (hmap : t.map = s.map)
    (hreply : ∀ ctx : Context, ctx.session = s → ctx.clock = clock →
      (h.handle ctx flags payload).2 = { ctx with session := t.sendFrame frame }) :
    ∃ d : Deed, d.Of s ∧ h.Does s clock flags payload d := by
  have hsent := Session.Unmoved.sendFrame t frame
  exact ⟨.alone (t.sendFrame frame), .alone (hsent.id.trans hid) (hsent.map.trans hmap),
    fun ctx hs hclock => by rw [hreply ctx hs hclock, Context.enact_alone]⟩

theorem exists_deed_of_broadcast (g : Session → Option Frame) (hid : t.id = s.id)
    (hmap : t.map = s.map) (htold : ∀ ctx : Context, ctx.session = s → ctx.clock = clock →
      (h.handle ctx flags payload).2 = { ctx with session := t }.broadcast (·.offered g)) :
    ∃ d : Deed, d.Of s ∧ h.Does s clock flags payload d :=
  ⟨.tell t g, .tell hid hmap, fun ctx hs hclock => by
    rw [htold ctx hs hclock, Context.enact_tell]⟩

theorem exists_deed (hjournal : h.keepsJournal = false) (s : Session) (clock : UInt64)
    (flags : PacketFlags) (payload : Bytes) :
    ∃ d : Deed, d.Of s ∧ h.Does s clock flags payload d := by
  cases h with
  | recorder => cases hjournal
  | ping => exact exists_deed_of_same fun _ _ _ => rfl
  | logout =>
    refine ⟨.quit s, .quit s, fun ctx hs _ => ?_⟩
    rw [← hs, Context.enact_quit]
    rfl
  | zeroReply opcode size =>
    refine exists_deed_of_reply (t := s) { opcode, payload := Bytes.zeros size } rfl rfl
      fun ctx hs _ => ?_
    rw [← hs]
    rfl
  | keyExchange u =>
    by_cases hkey : s.encrypted = true
    · refine exists_deed_of_same fun ctx hs _ => ?_
      rw [handle_keyExchange, runKeyExchange, hs, if_pos hkey]
    cases hread : (Reader.bytes keyBlobSize).run payload with
    | error e =>
      refine exists_deed_of_same fun ctx hs _ => ?_
      rw [handle_keyExchange, runKeyExchange, hs, if_neg hkey, hread]
    | ok blob =>
      cases hunwrap : u blob with
      | none =>
        refine exists_deed_of_same fun ctx hs _ => ?_
        rw [handle_keyExchange, runKeyExchange, hs, if_neg hkey, hread]
        dsimp only
        rw [hunwrap]
      | some material =>
        refine exists_deed_of_reply (t := s.setKey material.key.toBytes)
          { opcode := Opcode.Server.keyExchangeResponse, payload := material.token.toBytes }
          rfl rfl fun ctx hs _ => ?_
        rw [handle_keyExchange, runKeyExchange, hs, if_neg hkey, hread]
        dsimp only
        rw [hunwrap]
        rfl
  | clientTime =>
    cases hread : Reader.u64.run payload with
    | error e =>
      refine exists_deed_of_same fun ctx hs _ => ?_
      simp only [handle_eq, run, note, hread]
    | ok time =>
      refine exists_deed_of_reply (t := s)
        { opcode := Opcode.Server.serverTime, payload := Wire.u64 time ++ Wire.u64 clock }
        rfl rfl fun ctx hs hclock => ?_
      simp only [handle_eq, run, note, hread, ← hs, ← hclock]
      rfl
  | movement =>
    cases hread : PackedMovement.ofBytes payload with
    | error e =>
      refine exists_deed_of_same fun ctx hs _ => ?_
      simp only [handle_eq, run, note, hread]
    | ok decoded =>
      refine exists_deed_of_broadcast (t := s.applyMovement decoded.1)
        (fun _ => some { opcode := Opcode.Server.movement, flags, payload })
        rfl rfl fun ctx hs _ => ?_
      simp only [handle_eq, run, note, hread, ← hs]
      rfl
  | movementEnd =>
    cases hread : MovementRecord.read.run payload with
    | error e =>
      refine exists_deed_of_same fun ctx hs _ => ?_
      simp only [handle_eq, run, note, hread]
    | ok d =>
      refine exists_deed_of_broadcast (t := s)
        (fun _ => some
          { opcode := Opcode.Server.movementEnd
            flags := .objectRelated
            payload := d.normalized.toBytes })
        rfl rfl fun ctx hs _ => ?_
      simp only [handle_eq, run, note, hread, ← hs]
      rfl
  | movementAction =>
    cases hread : MovementAction.read.run payload with
    | error e =>
      refine exists_deed_of_same fun ctx hs _ => ?_
      simp only [handle_eq, run, note, hread]
    | ok action =>
      cases hsender : s.playerHeader with
      | none =>
        refine exists_deed_of_same fun ctx hs _ => ?_
        simp only [handle_eq, run, note, hread, hs, hsender]
      | some sender =>
        refine exists_deed_of_broadcast (t := s)
          (fun _ => some
            { opcode := Opcode.Server.movementAction
              flags := .union .packed .objectRelated
              payload := action.toBytes sender })
          rfl rfl fun ctx hs _ => ?_
        simp only [handle_eq, run, note, hread, hs, hsender]
        rw [← hs]
        rfl
  | actionUpdate =>
    cases hread : ActionUpdate.read.run payload with
    | error e =>
      refine exists_deed_of_same fun ctx hs _ => ?_
      simp only [handle_eq, run, note, hread]
    | ok update =>
      refine exists_deed_of_broadcast (t := s)
        (fun other => other.playerHeader.map fun recipient =>
          { opcode := Opcode.Server.actionUpdate
            flags := .objectRelated
            payload := update.toBytes recipient })
        rfl rfl fun ctx hs _ => ?_
      simp only [handle_eq, run, note, hread, ← hs]
      -- those who have no header of their own are handed nothing
      congr 1
      funext other
      rw [Session.offered]
      cases other.playerHeader <;> rfl

end Handler

theorem HandlerTable.exists_deed (u : KeyUnwrapper) (s : Session) (clock : UInt64)
    (frame : Frame) : ∃ d : Deed, d.Of s ∧ d.session.inbox = s.inbox ∧
      ∀ ctx : Context, ctx.session = s → ctx.clock = clock →
        (standard u).dispatch ctx frame = ctx.enact d := by
  obtain ⟨d, H, hdoes⟩ : ∃ d : Deed, d.Of s ∧ ∀ ctx : Context, ctx.session = s →
      ctx.clock = clock → (standard u).dispatch ctx frame = ctx.enact d := by
    unfold dispatch
    cases hget : (standard u).get? frame.opcode with
    | none =>
      exact ⟨.alone s, .alone rfl rfl, fun ctx hs _ => by rw [Context.enact_alone, ← hs]⟩
    | some h => exact Handler.exists_deed (keepsJournal_of_get? hget) s clock _ _
  refine ⟨d, H, ?_, hdoes⟩
  -- what the session has not read yet is the same in any world
  let ctx : Context := ⟨s, {}, default, clock, []⟩
  have hinbox := (standard u).inbox_dispatch ctx frame
  rwa [hdoes ctx rfl rfl] at hinbox

/-- What comes of all frames of a session follows from the session. -/
theorem Context.exists_deed (u : KeyUnwrapper) (s : Session) (clock : UInt64) :
    ∃ (frames : List Frame) (d : Deed), d.Of s ∧ ∀ ctx : Context, ctx.session = s →
      ctx.clock = clock → ctx.dispatchAll (.standard u) = (frames, ctx.enact d) := by
  induction hlength : s.inbox.length using Nat.strong_induction_on generalizing s with
  | h length ih =>
    cases hnext : s.nextFrame? with
    | none =>
      refine ⟨[], .alone s, .alone rfl rfl, fun ctx hs _ => ?_⟩
      rw [dispatchAll_of_none (hs ▸ hnext), enact_alone, ← hs]
    | some next =>
      obtain ⟨frame, t⟩ := next
      obtain ⟨-, -, hid, -⟩ := Session.of_nextFrame? hnext
      have hmap := Ship.map_of_nextFrame? hnext
      obtain ⟨d, H, hinbox, hdoes⟩ := HandlerTable.exists_deed u t clock frame
      have H := H.congr hid hmap
      cases hquits : d.quits with
      | true =>
        refine ⟨[frame], d, H, fun ctx hs hclock => ?_⟩
        have hclosed : (({ ctx with session := t } : Context).enact d).session.closed = true :=
          H.closed hquits
        rw [dispatchAll_of_some (hs ▸ hnext), hdoes { ctx with session := t } rfl hclock,
          dispatchAll_of_closed hclosed, enact_congr (hs ▸ hid) (hs ▸ hmap)]
      | false =>
        have hfewer : d.session.inbox.length < length := by
          rw [hinbox, ← hlength]
          exact Session.length_nextFrame?_lt hnext
        obtain ⟨frames, e, H', hrest⟩ := ih _ hfewer d.session rfl
        refine ⟨frame :: frames, d.andThen e, H.andThen hquits H', fun ctx hs hclock => ?_⟩
        rw [dispatchAll_of_some (hs ▸ hnext), hdoes { ctx with session := t } rfl hclock,
          enact_congr (hs ▸ hid) (hs ▸ hmap), hrest (ctx.enact d) rfl hclock,
          enact_andThen ctx (hs ▸ H) hquits]

namespace Ship

variable {ship : Ship} {s t : Session} {d e : Deed} {id : ClientId}

/-- The ship after a deed of one of its sessions. -/
def enact (ship : Ship) (s : Session) (d : Deed) : Ship :=
  { ship with
    sessions := SessionTable.put (ship.sessions.map fun _ other => d.told other) d.session
    world := if d.quits then (ship.world.detach s).2 else ship.world }

/-- **What comes of the bytes of a client follows from its session**, whatever the rest of the ship
is. -/
theorem exists_deed (u : KeyUnwrapper) (s : Session) (data : Bytes) (clock : UInt64) :
    ∃ (frames : List Frame) (d : Deed), d.Of s ∧ ∀ ship : Ship, ship.handlers = .standard u →
      ship.sessions[s.id]? = some s →
        ship.receive s.id data clock = (frames, ship.enact s d) := by
  obtain ⟨hid, -, hmap⟩ := receive_fields s data
  obtain ⟨frames, d, H, hdoes⟩ := Context.exists_deed u (s.receive data).2 clock
  have H := H.congr hid hmap
  refine ⟨frames, { d with session := d.session.compact },
    ⟨H.id, H.map, H.closed, H.keeps, H.deaf⟩, fun ship hstandard hs => ?_⟩
  have hreceive := receive_eq hs data clock
  rw [hstandard, hdoes _ rfl rfl] at hreceive
  have hsessions : SessionTable.put
      ((ship.sessions.erase s.id).map fun _ other => d.told other) d.session.compact =
        SessionTable.put (ship.sessions.map fun _ other => d.told other) d.session.compact := by
    refine Std.ExtTreeMap.ext_getElem? fun other => ?_
    have hown : d.session.compact.id = s.id := H.id
    rw [SessionTable.getElem?_put, SessionTable.getElem?_put, hown, Std.ExtTreeMap.getElem?_map,
      Std.ExtTreeMap.getElem?_map, Std.ExtTreeMap.getElem?_erase]
    by_cases hother : s.id = other <;> simp [hother]
  rw [hreceive]
  unfold Context.enact enact
  dsimp only
  rw [hsessions, ship.world.detach_congr hid hmap, hstandard]

/-! ## Two deeds -/

attribute [ext] Ship

@[simp] theorem handlers_enact (ship : Ship) (s : Session) (d : Deed) :
    (ship.enact s d).handlers = ship.handlers := rfl

@[simp] theorem dumpRoot_enact (ship : Ship) (s : Session) (d : Deed) :
    (ship.enact s d).dumpRoot = ship.dumpRoot := rfl

@[simp] theorem disk_enact (ship : Ship) (s : Session) (d : Deed) :
    (ship.enact s d).disk = ship.disk := rfl

@[simp] theorem journal_enact (ship : Ship) (s : Session) (d : Deed) :
    (ship.enact s d).journal = ship.journal := rfl

theorem world_enact (ship : Ship) (s : Session) (d : Deed) :
    (ship.enact s d).world = if d.quits then (ship.world.detach s).2 else ship.world := rfl

theorem getElem?_enact (ship : Ship) (H : d.Of s) (id : ClientId) :
    (ship.enact s d).sessions[id]? =
      if s.id = id then some d.session else ship.sessions[id]?.map d.told := by
  unfold enact
  dsimp only
  rw [SessionTable.getElem?_put, H.id, Std.ExtTreeMap.getElem?_map]

/-- A session that hears nothing of the map is left as it is. -/
theorem getElem?_enact_of_deaf (H : d.Of s) (ht : ship.sessions[t.id]? = some t)
    (hne : s.id ≠ t.id) (hmaps : ∀ ref, s.map = some ref → t.map ≠ some ref) :
    (ship.enact s d).sessions[t.id]? = some t := by
  rw [getElem?_enact ship H, if_neg hne, ht, Option.map_some,
    H.deaf t fun ref href => Session.hears_eq_false (hmaps ref href)]

/-- Of two deeds in different maps at most one reaches another session. -/
theorem told_comm (H : d.Of s) (H' : e.Of t) (hmaps : ∀ ref, s.map = some ref → t.map ≠ some ref)
    (other : Session) : e.told (d.told other) = d.told (e.told other) := by
  obtain ⟨-, hhears⟩ := H.keeps other
  obtain ⟨-, hhears'⟩ := H'.keeps other
  by_cases hdeaf : ∀ ref, s.map = some ref → other.hears ref = false
  · rw [H.deaf other hdeaf, H.deaf _ fun ref href => (hhears' ref).trans (hdeaf ref href)]
  · have hdeaf' : ∀ ref, t.map = some ref → other.hears ref = false := fun ref href => by
      -- it hears of the other map, so it is in that one
      refine Session.hears_eq_false fun hmap => hdeaf fun ref' href' =>
        Session.hears_eq_false fun hmap' => hmaps ref' href' ?_
      exact href.trans (hmap.symm.trans hmap')
    rw [H'.deaf other hdeaf', H'.deaf _ fun ref href => (hhears ref).trans (hdeaf' ref href)]

/-- After its deed a session hears of its map or of none. -/
theorem told_session (H : d.Of s) (H' : e.Of t)
    (hmaps : ∀ ref, s.map = some ref → t.map ≠ some ref) : d.told e.session = e.session := by
  refine H.deaf _ fun ref href => Session.hears_eq_false ?_
  rw [H'.map]
  split
  · exact nofun
  · exact hmaps ref href

theorem getElem?_enact_enact (H : d.Of s) (H' : e.Of t) (hne : s.id ≠ t.id)
    (hmaps : ∀ ref, s.map = some ref → t.map ≠ some ref) (id : ClientId) :
    ((ship.enact s d).enact t e).sessions[id]? =
      ((ship.enact t e).enact s d).sessions[id]? := by
  rw [getElem?_enact _ H', getElem?_enact _ H, getElem?_enact _ H, getElem?_enact _ H']
  by_cases hs : s.id = id
  · have ht : t.id ≠ id := fun h => hne (hs.trans h.symm)
    rw [if_pos hs, if_neg ht, if_pos hs, Option.map_some,
      told_session H' H fun ref href hs => hmaps ref hs href]
  by_cases ht : t.id = id
  · rw [if_neg hs, if_pos ht, if_pos ht, if_neg hs, Option.map_some, told_session H H' hmaps]
  · rw [if_neg hs, if_neg ht, if_neg hs, if_neg ht, Option.map_map, Option.map_map]
    congr 1
    funext other
    exact told_comm H H' hmaps other

/-- **Deeds of sessions in different maps commute**. -/
theorem enact_comm (H : d.Of s) (H' : e.Of t) (hne : s.id ≠ t.id)
    (hmaps : ∀ ref, s.map = some ref → t.map ≠ some ref) (hzones : ship.world.zones.Sound)
    (hparties : ship.world.parties.Linked) :
    (ship.enact s d).enact t e = (ship.enact t e).enact s d := by
  refine Ship.ext ?_ ?_ (by simp) (by simp) (by simp) (by simp)
  · exact Std.ExtTreeMap.ext_getElem? (getElem?_enact_enact H H' hne hmaps)
  · simp only [world_enact]
    cases d.quits <;> cases e.quits <;> simp only [Bool.false_eq_true, if_false, if_true]
    exact World.detach_comm hzones hparties hmaps

/-- Bytes of another client bring no session about. -/
theorem getElem?_receive_of_none {a b : ClientId} (u : KeyUnwrapper)
    (hstandard : ship.handlers = .standard u) (hkeyed : ship.sessions.Keyed) (hne : a ≠ b)
    (hnone : ship.sessions[a]? = none) (data : Bytes) (clock : UInt64) :
    (ship.receive b data clock).2.sessions[a]? = none := by
  cases ht : ship.sessions[b]? with
  | none =>
    rw [receive_of_none ht]
    exact hnone
  | some t =>
    obtain rfl : t.id = b := hkeyed b t ht
    obtain ⟨frames, e, H, hdoes⟩ := exists_deed u t data clock
    rw [hdoes ship hstandard ht]
    dsimp only
    rw [getElem?_enact ship H, if_neg hne.symm, hnone, Option.map_none]

/-- **Bytes of clients in different maps commute**, whether there are such clients or not. -/
theorem receive_comm (u : KeyUnwrapper) {a b : ClientId} (hstandard : ship.handlers = .standard u)
    (hkeyed : ship.sessions.Keyed) (hzones : ship.world.zones.Sound)
    (hparties : ship.world.parties.Linked) (hne : a ≠ b)
    (hmaps : ∀ ref, ship.sessions.place a = some ref → ship.sessions.place b ≠ some ref)
    (x y : Bytes) (now later : UInt64) :
    ((ship.receive a x now).2.receive b y later).2 =
        ((ship.receive b y later).2.receive a x now).2 ∧
      ((ship.receive a x now).2.receive b y later).1 = (ship.receive b y later).1 ∧
      ((ship.receive b y later).2.receive a x now).1 = (ship.receive a x now).1 := by
  cases hs : ship.sessions[a]? with
  | none =>
    have hs' := getElem?_receive_of_none u hstandard hkeyed hne hs y later
    rw [receive_of_none hs, receive_of_none hs']
    exact ⟨rfl, rfl, rfl⟩
  | some s =>
    cases ht : ship.sessions[b]? with
    | none =>
      have ht' := getElem?_receive_of_none u hstandard hkeyed hne.symm ht x now
      rw [receive_of_none ht, receive_of_none ht']
      exact ⟨rfl, rfl, rfl⟩
    | some t =>
      obtain rfl : s.id = a := hkeyed a s hs
      obtain rfl : t.id = b := hkeyed b t ht
      rw [SessionTable.place_eq hs, SessionTable.place_eq ht] at hmaps
      have hmaps' : ∀ ref, t.map = some ref → s.map ≠ some ref :=
        fun ref href hs => hmaps ref hs href
      obtain ⟨frames, d, H, hdoes⟩ := exists_deed u s x now
      obtain ⟨frames', e, H', hdoes'⟩ := exists_deed u t y later
      rw [hdoes ship hstandard hs, hdoes' ship hstandard ht]
      dsimp only
      rw [hdoes' (ship.enact s d) hstandard (getElem?_enact_of_deaf H ht hne hmaps),
        hdoes (ship.enact t e) hstandard (getElem?_enact_of_deaf H' hs hne.symm hmaps')]
      exact ⟨enact_comm H H' hne hmaps hzones hparties, rfl, rfl⟩

end Ship

end GameShip
