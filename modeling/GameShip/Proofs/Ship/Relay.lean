import GameShip.Proofs.Ship.Rejection

/-!
# Who is told of a movement

A frame of the movement family is passed on to the other sessions in the map of its sender.

* `Frame.Reaches`: the session is one of those.
* `Frame.Relays`: what such a session is handed.
* `SessionTable.deliver`: the sessions are visited one after the other, in any order.
-/

namespace GameShip

/-- The frames that tell how a character moves and acts. -/
def Opcode.Client.movementFamily : List Opcode :=
  [movement, movementAction, actionUpdate, movementEnd]

namespace Session

/-- The session is handed the frame that there is for it. -/
def offered (s : Session) (g : Session → Option Frame) : Session :=
  match g s with
  | some frame => s.sendFrame frame
  | none => s

/-- Sending a frame changes nothing but the outbound side of a session. -/
theorem sendFrame_outbound (s : Session) (frame : Frame) :
    ∃ outbox outCipher dump, s.sendFrame frame = { s with outbox, outCipher, dump } := by
  unfold sendFrame send recordSent enqueue
  dsimp only
  repeat' split
  all_goals exact ⟨_, _, _, rfl⟩

/-- What a session is handed of that which there is for those who hear of another one. -/
def heardFrom (sender : Session) (g : Session → Option Frame) (s : Session) : Option Frame :=
  match sender.map with
  | some map => if s.id ≠ sender.id && s.hears map then g s else none
  | none => none

end Session

namespace SessionTable

/-- Visits sessions one after the other and hands each the frame that there is for it. Gives the
frames that were handed out as well. -/
def deliver (g : Session → Option Frame) :
    List ClientId → SessionTable → List (ClientId × Frame) × SessionTable
  | [], t => ([], t)
  | id :: order, t =>
    let (handed, later) := deliver g order (t.modify id (·.offered g))
    (((t[id]?.bind g).map (id, ·)).toList ++ handed, later)

variable {g : Session → Option Frame} {t : SessionTable} {order : List ClientId} {id : ClientId}

theorem getElem?_modify_of_ne {other : ClientId} (h : id ≠ other) (f : Session → Session) :
    (Std.ExtTreeMap.modify t id f)[other]? = t[other]? := by
  simp [Std.ExtTreeMap.getElem?_modify, h]

/-- A session that is not visited is left as it is. -/
theorem deliver_of_notMem (h : id ∉ order) :
    (deliver g order t).1.filter (·.1 = id) = [] ∧ (deliver g order t).2[id]? = t[id]? := by
  induction order generalizing t with
  | nil => exact ⟨rfl, rfl⟩
  | cons first order ih =>
    obtain ⟨hfirst, hrest⟩ := not_or.mp (mt List.mem_cons.mpr h)
    obtain ⟨hhanded, hlater⟩ := ih (t := t.modify first (·.offered g)) hrest
    rw [getElem?_modify_of_ne (Ne.symm hfirst)] at hlater
    refine ⟨?_, hlater⟩
    rw [deliver, List.filter_append, hhanded]
    cases t[first]?.bind g <;> simp [Ne.symm hfirst]

/-- A session that is visited once is handed what there is for it. -/
theorem deliver_of_mem (hnodup : order.Nodup) (h : id ∈ order) :
    (deliver g order t).1.filter (·.1 = id) = ((t[id]?.bind g).map (id, ·)).toList ∧
      (deliver g order t).2[id]? = t[id]?.map (·.offered g) := by
  induction order generalizing t with
  | nil => cases h
  | cons first order ih =>
    obtain ⟨hfirst, hnodup⟩ := List.nodup_cons.mp hnodup
    rw [deliver, List.filter_append]
    by_cases heq : id = first
    · subst heq
      obtain ⟨hhanded, hlater⟩ := deliver_of_notMem (g := g) (t := t.modify id (·.offered g)) hfirst
      rw [hhanded, hlater, List.append_nil, Std.ExtTreeMap.getElem?_modify_self]
      refine ⟨?_, rfl⟩
      cases t[id]?.bind g <;> simp
    · have hmem : id ∈ order := (List.mem_cons.mp h).resolve_left heq
      obtain ⟨hhanded, hlater⟩ := ih (t := t.modify first (·.offered g)) hnodup hmem
      rw [getElem?_modify_of_ne (Ne.symm heq)] at hhanded hlater
      rw [hhanded]
      refine ⟨?_, hlater⟩
      cases t[first]?.bind g <;> simp [Ne.symm heq]

/-- In whatever order all sessions are visited, each is handed once what there is for it. -/
theorem deliver_of_perm (horder : order.Perm t.ids) (id : ClientId) :
    (deliver g order t).1.filter (·.1 = id) = ((t[id]?.bind g).map (id, ·)).toList ∧
      (deliver g order t).2[id]? = t[id]?.map (·.offered g) := by
  have hmem : id ∈ order ↔ t[id]?.isSome := by
    rw [horder.mem_iff, ← Std.ExtTreeMap.contains_eq_isSome_getElem?]
    exact Std.ExtTreeMap.mem_keys
  by_cases h : id ∈ order
  · exact deliver_of_mem (horder.nodup_iff.mpr Std.ExtTreeMap.nodup_keys) h
  · have hnone : t[id]? = none := Option.not_isSome_iff_eq_none.mp (mt hmem.mpr h)
    obtain ⟨hhanded, hlater⟩ := deliver_of_notMem (g := g) (t := t) h
    rw [hhanded, hlater, hnone]
    exact ⟨rfl, rfl⟩

end SessionTable

namespace Context

/-- A broadcast visits every other session, in whatever order. -/
theorem others_broadcast (ctx : Context) (g : Session → Option Frame) {order : List ClientId}
    (horder : order.Perm ctx.others.ids) : (ctx.broadcast (·.offered g)).others =
      (SessionTable.deliver (ctx.session.heardFrom g) order ctx.others).2 := by
  refine Std.ExtTreeMap.ext_getElem? fun id => ?_
  rw [(SessionTable.deliver_of_perm horder id).2]
  unfold broadcast
  cases hmap : ctx.session.map with
  | none =>
    have hnobody : ∀ s : Session, s.offered (ctx.session.heardFrom g) = s := fun s => by
      rw [Session.offered, Session.heardFrom, hmap]
    dsimp only
    cases ctx.others[id]? with
    | none => rfl
    | some s => rw [Option.map_some, hnobody]
  | some map =>
    have hheard : ∀ s : Session, s.offered (ctx.session.heardFrom g) =
        if s.id ≠ ctx.session.id && s.hears map then s.offered g else s := fun s => by
      rw [Session.offered, Session.heardFrom, hmap]
      dsimp only
      by_cases h : (s.id ≠ ctx.session.id && s.hears map) = true
      · rw [if_pos h, if_pos h, Session.offered]
      · rw [if_neg h, if_neg h]
    dsimp only [SessionTable.broadcast]
    rw [Std.ExtTreeMap.getElem?_map]
    cases ctx.others[id]? with
    | none => rfl
    | some s => rw [Option.map_some, Option.map_some, hheard]

end Context

/-! ## The movement family -/

/-- A frame of the movement family is for this session: another one in the same map that is not
closed and plays a character. What a character does is told only to players with an account. -/
structure Frame.Reaches (frame : Frame) (sender s : Session) : Prop where
  other : s.id ≠ sender.id
  near : ∃ map, sender.map = some map ∧ s.map = some map
  listening : s.closed = false
  character : s.character.isSome = true
  user : frame.opcode = Opcode.Client.actionUpdate → s.user.isSome = true

/-- What a frame of the movement family brings to those whom it reaches. -/
inductive Frame.Relays (sender : Session) : Frame → (Session → Option Frame) → Prop
  /-- The payload of a movement comes as it was sent, with its flags. -/
  | movement {flags : PacketFlags} {flags2 : UInt8} {payload : Bytes}
      {decoded : PackedMovement × Nat} (hread : PackedMovement.ofBytes payload = .ok decoded) :
      Relays sender ⟨Opcode.Client.movement, flags, flags2, payload⟩ fun _ =>
        some ⟨Opcode.Server.movement, flags, 0, payload⟩
  /-- The end of a movement comes in its normal form. -/
  | movementEnd {flags : PacketFlags} {flags2 : UInt8} {payload : Bytes} {d : MovementRecord}
      (hread : MovementRecord.read.run payload = .ok d) :
      Relays sender ⟨Opcode.Client.movementEnd, flags, flags2, payload⟩ fun _ =>
        some ⟨Opcode.Server.movementEnd, .objectRelated, 0, d.normalized.toBytes⟩
  /-- An action is that of the sender for everyone. -/
  | movementAction {flags : PacketFlags} {flags2 : UInt8} {payload : Bytes}
      {action : MovementAction} {header : EntityHeader}
      (hread : MovementAction.read.run payload = .ok action)
      (hsender : sender.playerHeader = some header) :
      Relays sender ⟨Opcode.Client.movementAction, flags, flags2, payload⟩ fun _ =>
        some ⟨Opcode.Server.movementAction, .union .packed .objectRelated, 0,
          action.toBytes header⟩
  /-- A change of an action comes with the header of the player who receives it in front. -/
  | actionUpdate {flags : PacketFlags} {flags2 : UInt8} {payload : Bytes} {update : ActionUpdate}
      (hread : ActionUpdate.read.run payload = .ok update) :
      Relays sender ⟨Opcode.Client.actionUpdate, flags, flags2, payload⟩ fun s =>
        s.playerHeader.map fun recipient =>
          ⟨Opcode.Server.actionUpdate, .objectRelated, 0,
            Wire.header recipient ++ Wire.header update.actor ++ update.data⟩

namespace Frame.Relays

variable {sender s : Session} {frame : Frame} {g : Session → Option Frame}

/-- Of those who have an account all are brought something, and of the others all but those who
would need one for it. -/
theorem isSome_iff (h : frame.Relays sender g) : (g s).isSome = true ↔
    (frame.opcode = Opcode.Client.actionUpdate → s.user.isSome = true) := by
  cases h with
  | actionUpdate =>
    unfold Session.playerHeader
    rw [Option.isSome_map, Option.isSome_map]
    exact ⟨fun h _ => h, fun h => h rfl⟩
  | movement | movementEnd | movementAction =>
    exact ⟨fun _ h => absurd h (by dsimp only; decide), fun _ => rfl⟩

theorem isSome_heardFrom_iff (h : frame.Relays sender g) :
    (sender.heardFrom g s).isSome = true ↔ frame.Reaches sender s := by
  unfold Session.heardFrom
  cases hmap : sender.map with
  | none =>
    refine ⟨fun hnone => absurd hnone (by simp), fun hreaches => ?_⟩
    obtain ⟨map, hsender, -⟩ := hreaches.near
    rw [hmap] at hsender
    cases hsender
  | some map =>
    by_cases hhears : (s.id ≠ sender.id && s.hears map) = true
    · dsimp only
      rw [if_pos hhears, h.isSome_iff]
      simp only [Session.hears, ne_eq, decide_not, Bool.and_eq_true, Bool.not_eq_true',
        decide_eq_false_iff_not, beq_iff_eq] at hhears
      obtain ⟨hother, ⟨hopen, hcharacter⟩, hnear⟩ := hhears
      exact ⟨fun huser => ⟨hother, ⟨map, hmap, hnear⟩, hopen, hcharacter, huser⟩, (·.user)⟩
    · dsimp only
      rw [if_neg hhears]
      refine ⟨fun hnone => absurd hnone (by simp), fun hreaches => absurd ?_ hhears⟩
      obtain ⟨map', hsender, hnear⟩ := hreaches.near
      obtain rfl : map = map' := Option.some.inj (hmap.symm.trans hsender)
      simp [Session.hears, hreaches.other, hreaches.listening, hreaches.character, hnear]

/-- What is offered to a session is offered to it alone. -/
theorem eq_of_heardFrom {out : Frame} (h : sender.heardFrom g s = some out) : g s = some out := by
  unfold Session.heardFrom at h
  split at h
  · split at h
    · exact h
    · cases h
  · cases h

end Frame.Relays

namespace HandlerTable

/-- A frame that does not come to nothing is handled as its handler runs. -/
theorem run_of_not_rejects {u : KeyUnwrapper} {ctx : Context} {frame : Frame} {h : Handler}
    (hget : (standard u).get? frame.opcode = some h)
    (hok : (standard u).rejects ctx frame = false) :
    h.run ctx frame.flags frame.payload = .ok ((standard u).dispatch ctx frame) := by
  unfold rejects at hok
  unfold dispatch
  rw [hget] at hok ⊢
  dsimp only at hok ⊢
  rw [Handler.handle_eq, Handler.note_eq (keepsJournal_of_get? hget)] at hok ⊢
  cases hrun : h.run ctx frame.flags frame.payload with
  | error e => simp [hrun, Except.isOk, Except.toBool] at hok
  | ok later => rfl

/-- What a frame of the movement family does: it may move the sender, and what it brings is offered
to those who hear of it. -/
theorem dispatch_movementFamily {u : KeyUnwrapper} {ctx : Context} {frame : Frame}
    (hfamily : frame.opcode ∈ Opcode.Client.movementFamily)
    (hok : (standard u).rejects ctx frame = false) :
    ∃ g session, frame.Relays ctx.session g ∧
      (∃ location lastPosition movementTimestamp,
        session = { ctx.session with location, lastPosition, movementTimestamp }) ∧
      (frame.opcode ≠ Opcode.Client.movement → session = ctx.session) ∧
      (standard u).dispatch ctx frame = { ctx with session }.broadcast (·.offered g) := by
  obtain ⟨opcode, flags, flags2, payload⟩ := frame
  simp only [Opcode.Client.movementFamily, List.mem_cons, List.not_mem_nil, or_false] at hfamily
  obtain rfl | rfl | rfl | rfl := hfamily
  · have hrun := run_of_not_rejects (h := .movement) rfl hok
    generalize (standard u).dispatch ctx _ = later at hrun ⊢
    simp only [Handler.run] at hrun
    split at hrun <;> cases hrun
    rename_i m size hread
    exact ⟨_, _, .movement hread, ⟨_, _, _, rfl⟩, fun hne => absurd rfl hne, rfl⟩
  · have hrun := run_of_not_rejects (h := .movementAction) rfl hok
    generalize (standard u).dispatch ctx _ = later at hrun ⊢
    simp only [Handler.run] at hrun
    repeat' split at hrun
    all_goals cases hrun
    rename_i action hread _ sender hsender
    exact ⟨_, _, .movementAction hread hsender, ⟨_, _, _, rfl⟩, fun _ => rfl, rfl⟩
  · have hrun := run_of_not_rejects (h := .actionUpdate) rfl hok
    generalize (standard u).dispatch ctx _ = later at hrun ⊢
    simp only [Handler.run] at hrun
    split at hrun <;> cases hrun
    rename_i update hread
    refine ⟨_, _, .actionUpdate hread, ⟨_, _, _, rfl⟩, fun _ => rfl, ?_⟩
    congr 1
    funext other
    unfold Session.offered
    dsimp only
    cases other.playerHeader <;> rfl
  · have hrun := run_of_not_rejects (h := .movementEnd) rfl hok
    generalize (standard u).dispatch ctx _ = later at hrun ⊢
    simp only [Handler.run] at hrun
    split at hrun <;> cases hrun
    rename_i d hread
    exact ⟨_, _, .movementEnd hread, ⟨_, _, _, rfl⟩, fun _ => rfl, rfl⟩

end HandlerTable

/-- What has come of a frame of the movement family. `handed` is what was handed out while the other
sessions were visited in the order `order`. -/
structure Context.Relayed (ctx : Context) (frame : Frame) (order : List ClientId)
    (g : Session → Option Frame) (handed : List (ClientId × Frame)) (later : Context) : Prop where
  relays : frame.Relays ctx.session g
  visited : SessionTable.deliver (ctx.session.heardFrom g) order ctx.others = (handed, later.others)
  /-- A session that the frame reaches is handed one frame, on its outbound side. -/
  reached : ∀ (id : ClientId) (s : Session), ctx.others[id]? = some s →
    frame.Reaches ctx.session s → ∃ out outbox outCipher dump, g s = some out ∧
      handed.filter (·.1 = id) = [(id, out)] ∧ later.others[id]? = some (s.sendFrame out) ∧
      s.sendFrame out = { s with outbox, outCipher, dump }
  /-- Any other session is handed nothing and left as it is. -/
  spared : ∀ (id : ClientId) (s : Session), ctx.others[id]? = some s →
    ¬ frame.Reaches ctx.session s → handed.filter (·.1 = id) = [] ∧ later.others[id]? = some s
  nobody : ∀ id : ClientId, ctx.others[id]? = none →
    handed.filter (·.1 = id) = [] ∧ later.others[id]? = none
  sender : ∃ location lastPosition movementTimestamp,
    later.session = { ctx.session with location, lastPosition, movementTimestamp }
  still : frame.opcode ≠ Opcode.Client.movement → later.session = ctx.session
  world : later.world = ctx.world

theorem Context.world_broadcast (ctx : Context) (f : Session → Session) :
    (ctx.broadcast f).world = ctx.world := by
  unfold broadcast
  split <;> rfl

/-- **Who is told of a movement**. A frame of the movement family that does not come to nothing is
handed, in whatever order the sessions are visited, once to each session that it reaches, and to no
other. Beyond the outbound side of these nothing changes but where the sender of a movement is. -/
theorem relay_dispatch (u : KeyUnwrapper) (ctx : Context) (frame : Frame)
    (hfamily : frame.opcode ∈ Opcode.Client.movementFamily)
    (hok : (HandlerTable.standard u).rejects ctx frame = false) :
    ∃ g, ∀ order : List ClientId, order.Perm ctx.others.ids → ∃ handed,
      ctx.Relayed frame order g handed ((HandlerTable.standard u).dispatch ctx frame) := by
  obtain ⟨g, session, hrelays, hmoved, hstill, hlater⟩ :=
    HandlerTable.dispatch_movementFamily hfamily hok
  refine ⟨g, fun order horder =>
    ⟨(SessionTable.deliver (ctx.session.heardFrom g) order ctx.others).1, ?_⟩⟩
  rw [hlater]
  have hheard : session.heardFrom g = ctx.session.heardFrom g := by
    obtain ⟨_, _, _, rfl⟩ := hmoved
    rfl
  have hothers : ({ ctx with session }.broadcast (·.offered g)).others =
      (SessionTable.deliver (ctx.session.heardFrom g) order ctx.others).2 :=
    hheard ▸ Context.others_broadcast { ctx with session } g horder
  have hdeliver := SessionTable.deliver_of_perm (g := ctx.session.heardFrom g) horder
  refine {
    relays := hrelays
    visited := by rw [hothers]
    reached := fun id s hs hreaches => ?_
    spared := fun id s hs hspared => ?_
    nobody := fun id hnone => ?_
    sender := by rwa [Context.session_broadcast]
    still := fun hother => by rw [Context.session_broadcast, hstill hother]
    world := Context.world_broadcast .. }
  · obtain ⟨hhanded, hleft⟩ := hdeliver id
    obtain ⟨out, hout⟩ := Option.isSome_iff_exists.mp (hrelays.isSome_heardFrom_iff.mpr hreaches)
    obtain ⟨outbox, outCipher, dump, hsent⟩ := s.sendFrame_outbound out
    rw [hs, Option.bind_some, hout] at hhanded
    rw [hs, Option.map_some, Session.offered, hout] at hleft
    exact ⟨out, outbox, outCipher, dump, Frame.Relays.eq_of_heardFrom hout, hhanded,
      hothers ▸ hleft, hsent⟩
  · obtain ⟨hhanded, hleft⟩ := hdeliver id
    have hnone : ctx.session.heardFrom g s = none :=
      Option.not_isSome_iff_eq_none.mp (mt hrelays.isSome_heardFrom_iff.mp hspared)
    rw [hs, Option.bind_some, hnone] at hhanded
    rw [hs, Option.map_some, Session.offered, hnone] at hleft
    exact ⟨hhanded, hothers ▸ hleft⟩
  · obtain ⟨hhanded, hleft⟩ := hdeliver id
    rw [hnone, Option.bind_none] at hhanded
    rw [hnone, Option.map_none] at hleft
    exact ⟨hhanded, hothers ▸ hleft⟩

/-- A change of an action reaches the player beside the sender, and not the one without an account,
whichever of them is visited first. -/
theorem relay_dispatch_lobby :
    let player (id : ClientId) (user : Option User) : Session :=
      { Session.new id with user, character := some ⟨1, "Ash"⟩, map := some ⟨"lobby", "lobby"⟩ }
    let ash := player 2 (some ⟨1002, "ash"⟩)
    let others := SessionTable.put (SessionTable.put {} ash) (player 3 none)
    let ctx : Context := ⟨player 1 (some ⟨1001, "may"⟩), others, .new "", 0, []⟩
    let frame : Frame := { opcode := Opcode.Client.actionUpdate, payload := Bytes.zeros 57 }
    frame.opcode ∈ Opcode.Client.movementFamily ∧
      (HandlerTable.standard .plain).rejects ctx frame = false ∧ [3, 2].Perm ctx.others.ids ∧
      ∃ g handed out, ctx.Relayed frame [3, 2] g handed
        ((HandlerTable.standard .plain).dispatch ctx frame) ∧
        handed.filter (·.1 = 2) = [(2, out)] ∧ handed.filter (·.1 = 3) = [] := by
  intro player ash others ctx frame
  have hfamily : frame.opcode ∈ Opcode.Client.movementFamily := by decide
  have hok : (HandlerTable.standard .plain).rejects ctx frame = false := by decide +kernel
  have horder : [3, 2].Perm ctx.others.ids := by decide +kernel
  obtain ⟨g, hrelayed⟩ := relay_dispatch .plain ctx frame hfamily hok
  obtain ⟨handed, H⟩ := hrelayed [3, 2] horder
  have hash : ctx.others[(2 : ClientId)]? = some ash := by
    simp [ctx, others, player, ash, SessionTable.getElem?_put, Session.new]
  have hstranger : ctx.others[(3 : ClientId)]? = some (player 3 none) := by
    simp [ctx, others, player, SessionTable.getElem?_put, Session.new]
  obtain ⟨out, _, _, _, -, hhanded, -, -⟩ := H.reached 2 ash hash
    ⟨by decide, ⟨_, rfl, rfl⟩, rfl, rfl, fun _ => rfl⟩
  have hspared := H.spared 3 _ hstranger fun h => absurd (h.user rfl) (by decide)
  exact ⟨hfamily, hok, horder, g, handed, out, H, hhanded, hspared.1⟩

end GameShip
