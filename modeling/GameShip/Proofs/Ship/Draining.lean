import GameShip.Proofs.Ship.Step

/-!
# That nothing complete is left behind

When bytes have come in, their frames are handled until none is complete. Each takes at least the
bytes of a header out of the buffer, whatever size it claims, and no handler puts bytes in, so this
comes to an end.

* `FrameBuffer.Starved`: no frame can be taken from the buffer.
* `Context.Drains`: what some frames that are handled leave of a session.
* `Ship.draining_receive`: how many frames are handled, and what is left then.
-/

namespace GameShip

/-- No frame can be taken: its header is not complete, or it claims to be too large, or larger than
what there is. -/
def FrameBuffer.Starved (b : FrameBuffer) : Prop :=
  b.pending.length < 8 ∨ 16 * 1024 * 1024 < Bytes.value (b.pending.take 4) ∨
    b.pending.length < Bytes.value (b.pending.take 4)

theorem FrameBuffer.Starved.compact {b : FrameBuffer} (h : b.Starved) : b.compact.Starved := by
  unfold Starved at h ⊢
  rwa [pending_compact]

namespace Session

variable {s : Session}

/-- A session from which no frame comes is closed, or its buffer is starved. -/
theorem starved_of_nextFrame? (h : s.nextFrame? = none) : s.closed = true ∨ s.inbox.Starved := by
  cases hclosed : s.closed with
  | true => exact .inl rfl
  | false =>
    have hsplit := Frame.split?_eq_none_iff.mp (nextFrame?_eq_none hclosed h)
    refine .inr ?_
    unfold FrameBuffer.Starved
    -- a claimed size that counts as eight is neither too large nor more than a complete header
    omega

theorem length_receive_le (s : Session) (data : Bytes) :
    (s.receive data).2.inbox.length ≤ s.inbox.length + data.length := by
  unfold receive
  by_cases hfits : s.inbox.bytes.size + data.length ≤ s.inbox.capacity
  · obtain ⟨b, hpush, hpending, -, -⟩ := FrameBuffer.push_of_le s.inCipher hfits
    rw [hpush]
    dsimp only
    rw [← FrameBuffer.length_pending, hpending, List.length_append, FrameBuffer.length_pending,
      Rc4.length_through]
  · rw [FrameBuffer.push_of_lt s.inCipher (Nat.not_le.mp hfits)]
    exact Nat.le_add_right _ _

end Session

theorem SessionTable.Rel.mem_iff {R : Session → Session → Prop} {t t' : SessionTable}
    (h : Rel R t t')
    (id : ClientId) : id ∈ t' ↔ id ∈ t := by
  have h := h id
  rw [Std.ExtTreeMap.mem_iff_isSome_getElem?, Std.ExtTreeMap.mem_iff_isSome_getElem?]
  generalize t[id]? = o, t'[id]? = o' at h
  cases h with
  | none => rfl
  | some => exact Iff.rfl

/-- No handler adds or removes a session. -/
theorem HandlerTable.mem_dispatch (t : HandlerTable) (ctx : Context) (frame : Frame)
    (id : ClientId) : id ∈ (t.dispatch ctx frame).others ↔ id ∈ ctx.others := by
  obtain hstays | ⟨journal, hclosed⟩ := t.dispatch_stays ctx frame
  · exact hstays.others.mem_iff id
  · rw [hclosed]
    rfl

/-- What has been handled of a session is at least `count` headers of its pending bytes. The
sessions are still the same. -/
structure Context.Drains (ctx : Context) (count : Nat) (later : Context) : Prop where
  id : later.session.id = ctx.session.id
  mem : ∀ id : ClientId, id ∈ later.others ↔ id ∈ ctx.others
  consumed : Frame.headerSize * count + later.session.inbox.length ≤ ctx.session.inbox.length

namespace Context

variable {handlers : HandlerTable} {ctx later last : Context} {frames : List Frame} {frame : Frame}
  {session : Session}

theorem Drains.refl (ctx : Context) : ctx.Drains 0 ctx :=
  ⟨rfl, fun _ => Iff.rfl, Nat.le_of_eq (Nat.zero_add _)⟩

theorem Drains.trans {m n : Nat} (h : ctx.Drains m later) (h' : later.Drains n last) :
    ctx.Drains (m + n) last := by
  refine ⟨h'.id.trans h.id, fun id => (h'.mem id).trans (h.mem id), ?_⟩
  have hfirst := h.consumed
  have hrest := h'.consumed
  rw [Nat.mul_add]
  omega

/-- Each frame takes a header at least, and its handler puts nothing into the buffer. -/
theorem drains_dispatch (hnext : ctx.session.nextFrame? = some (frame, session)) :
    ctx.Drains 1 (handlers.dispatch { ctx with session } frame) := by
  obtain ⟨hsplit, -, hid, -, -⟩ := Session.of_nextFrame? hnext
  refine ⟨(Ship.id_dispatch handlers { ctx with session } frame).trans hid,
    handlers.mem_dispatch { ctx with session } frame, ?_⟩
  have hlength := Frame.length_split? hsplit
  have hheader := frame.headerSize_le_size
  rw [FrameBuffer.length_pending, FrameBuffer.length_pending] at hlength
  rw [HandlerTable.inbox_dispatch]
  dsimp only
  omega

/-- However many frames are handled, they take as many headers at least. -/
theorem Handled.drains (h : ctx.Handled handlers frames later) :
    ctx.Drains frames.length later := by
  induction h with
  | nil ctx => exact .refl ctx
  | cons hnext _ ih =>
    rw [List.length_cons, Nat.add_comm]
    exact (drains_dispatch hnext).trans ih

end Context

namespace Ship

variable {ship : Ship} {id : ClientId} {s : Session}

/-- A session that was taken out and is put back leaves the same connections, if the others have. -/
theorem mem_put_iff (hs : ship.sessions[id]? = some s) {others : SessionTable} {t : Session}
    (hothers : ∀ client : ClientId, client ∈ others ↔ client ∈ ship.sessions.erase id)
    (hid : t.id = id) (client : ClientId) : client ∈ others.put t ↔ client ∈ ship.sessions := by
  rw [Std.ExtTreeMap.mem_iff_isSome_getElem?, SessionTable.getElem?_put, hid]
  by_cases h : id = client
  · rw [if_pos h, ← h, Std.ExtTreeMap.mem_iff_isSome_getElem?, hs]
    rfl
  · rw [if_neg h, ← Std.ExtTreeMap.mem_iff_isSome_getElem?, hothers]
    simp [h]

/-- The frames of a client that has sent bytes are handled until none is complete, and the session
is put back with a compacted buffer. -/
theorem exists_receive (hkeyed : ship.sessions.Keyed) (hs : ship.sessions[id]? = some s)
    (data : Bytes) (clock : UInt64) :
    ∃ done : Context,
      (ship.opened id s data clock).Handled ship.handlers (ship.receive id data clock).1 done ∧
      done.session.nextFrame? = none ∧ done.session.compact.id = id ∧
      (ship.receive id data clock).2.sessions = done.others.put done.session.compact := by
  obtain ⟨hhandled, hnone⟩ := (ship.opened id s data clock).handled_dispatchAll ship.handlers
  have hid := hhandled.drains.id.trans ((receive_fields s data).1.trans (hkeyed id s hs))
  have hreceive := receive_eq hs data clock
  dsimp only at hreceive
  rw [hreceive]
  exact ⟨_, hhandled, hnone, hid, rfl⟩

/-- **That nothing complete is left behind**. Sessions stand under their own connections, which is
how every call leaves them (`consistent_run`). Bytes of a client that has a session have their
frames handled, each of which takes eight bytes or more of those that have come in, so that no run
of handlers goes on for longer. There is a run that handles all of them. Then all sessions are still
there, the buffer holds nothing but what is in no frame yet, and no frame can be taken from that
unless the session is closed. Bytes of anyone else change nothing. -/
theorem draining_receive (ship : Ship) (hkeyed : ship.sessions.Keyed) (id : ClientId) (data : Bytes)
    (clock : UInt64) :
    let frames := (ship.receive id data clock).1
    let later := (ship.receive id data clock).2
    (∀ client : ClientId, client ∈ later.sessions ↔ client ∈ ship.sessions) ∧
      (ship.sessions[id]? = none → frames = [] ∧ later = ship) ∧
      ∀ s : Session, ship.sessions[id]? = some s →
        (∀ (taken : List Frame) (ctx : Context),
          (ship.opened id s data clock).Handled ship.handlers taken ctx →
          taken.length ≤ (s.inbox.length + data.length) / 8) ∧
        (∃ done : Context, (ship.opened id s data clock).Handled ship.handlers frames done ∧
          done.session.nextFrame? = none) ∧
        ∃ s' : Session, later.sessions[id]? = some s' ∧ s'.inbox.taken = 0 ∧
          (s'.closed = true ∨ s'.inbox.Starved) := by
  intro frames later
  cases hs : ship.sessions[id]? with
  | none =>
    have hreceive := receive_of_none hs data clock
    have hlater : later = ship := congrArg Prod.snd hreceive
    refine ⟨fun client => by rw [hlater], fun _ => ⟨congrArg Prod.fst hreceive, hlater⟩, ?_⟩
    intro s hsome
    cases hsome
  | some s =>
    obtain ⟨done, hhandled, hnone, hid, hlater⟩ := exists_receive hkeyed hs data clock
    refine ⟨fun client => ?_, fun hmissing => ?_, ?_⟩
    · rw [hlater]
      exact mem_put_iff hs hhandled.drains.mem hid client
    · cases hmissing
    rintro _ ⟨⟩
    refine ⟨fun taken ctx htaken => ?_, ⟨done, hhandled, hnone⟩, done.session.compact, ?_, rfl, ?_⟩
    · have hconsumed := htaken.drains.consumed
      have hlength := s.length_receive_le data
      change 8 * taken.length + _ ≤ (s.receive data).2.inbox.length at hconsumed
      omega
    · rw [hlater, SessionTable.getElem?_put, if_pos hid]
    · exact (Session.starved_of_nextFrame? hnone).imp_right FrameBuffer.Starved.compact

/-- The size of the first frame is zero, and that of the second is three. Both are taken to be
eight, so no more than two are handled of the bytes of a new client. -/
theorem draining_receive_short :
    let ship := (start .plain "").run [.connect 1 ⟨.v4 127 0 0 1, 50000, 0⟩]
    let data : Bytes :=
      [0, 0, 0, 0, 0x7F, 0x01, 0, 0, 3, 0, 0, 0, 0x7F, 0x01, 0, 0, 0xFF, 0xFF, 0xFF]
    ship.sessions.Keyed ∧ (∃ s, ship.sessions[(1 : ClientId)]? = some s) ∧
      (ship.receive 1 data 0).1.length ≤ 2 ∧
      ∃ s', (ship.receive 1 data 0).2.sessions[(1 : ClientId)]? = some s' ∧ s'.inbox.taken = 0 ∧
        (s'.closed = true ∨ s'.inbox.Starved) := by
  intro ship data
  have hkeyed : ship.sessions.Keyed := (consistent_run .plain "" none {} (by decide)).keyed
  have hsession : ship.sessions[(1 : ClientId)]?.map (·.inbox.length) = some 0 := by
    decide +kernel
  obtain ⟨s, hs, hempty⟩ := Option.map_eq_some_iff.mp hsession
  obtain ⟨-, -, hdrains⟩ := draining_receive ship hkeyed 1 data 0
  obtain ⟨hbound, ⟨done, hhandled, -⟩, hleft⟩ := hdrains _ hs
  refine ⟨hkeyed, ⟨_, hs⟩, ?_, hleft⟩
  have hlength := hbound _ done hhandled
  rw [hempty] at hlength
  exact Nat.le_trans hlength (by decide)

end Ship

end GameShip
