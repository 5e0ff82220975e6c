import GameShip.Proofs.Frame.Buffer
import GameShip.Proofs.Ship.Standard

/-!
# How the bytes of a client are cut

The frames that a ship with the standard handlers handles for a client, and what it then keeps of
the session, are those that are read from what the chunks of the client are decrypted to
(`Ship.Follows.feed`). So the cuts do not matter as long as no key is agreed on. If one is, they
matter for the bytes between the key and the end of its chunk, which came in before there was a
cipher (`Ship.outcome_connect`).

* `Context.dispatchAll_standard`: what becomes of a session when its frames are handled.
* `Ship.feed`, `Ship.takesAll`: the chunks of a client, and that none of them is refused.
* `Ship.outcome`: what comes of them.
* `Ship.Follows`: what a ship knows of a client of which it has taken chunks in.
-/

namespace GameShip

open Reading (exchange? boundary unlock plaintext behind)

namespace Session

variable {s s' : Session} {frame : Frame}

theorem nextFrame?_eq_none (hopen : s.closed = false) (h : s.nextFrame? = none) :
    Frame.split? s.inbox.pending = none := by
  unfold nextFrame? at h
  rw [if_neg (by simp [hopen])] at h
  split at h
  · cases h
  · rename_i hnext
    exact FrameBuffer.next?_eq_none_iff.mp hnext

theorem nextFrame?_of_closed (hclosed : s.closed = true) : s.nextFrame? = none := by
  rw [nextFrame?, if_pos hclosed]

theorem of_nextFrame? (h : s.nextFrame? = some (frame, s')) :
    Frame.split? s.inbox.pending = some (frame, s'.inbox.pending) ∧
      s'.inbox.capacity = s.inbox.capacity ∧ s'.id = s.id ∧ s'.closed = s.closed ∧
      s'.inCipher = s.inCipher := by
  unfold nextFrame? at h
  split at h
  · cases h
  · split at h
    · rename_i inbox hnext
      cases h
      exact ⟨FrameBuffer.split?_of_next? hnext, (FrameBuffer.bytes_of_next? hnext).2, rfl, rfl, rfl⟩
    · cases h

/-- What becomes of a session when what is read from its bytes has been handled. -/
structure Heard (u : KeyUnwrapper) (s : Session) (r : Reading) (later : Session) : Prop where
  id : later.id = s.id
  closed : later.closed = r.closed
  pending : later.inbox.pending = r.unread
  capacity : later.inbox.capacity = s.inbox.capacity
  cipher : later.inCipher = s.inCipher.or ((exchange? u r.frames).map fun e => Rc4.ofKey e.2)

theorem Heard.nil {u : KeyUnwrapper} {unread : Bytes} (hpending : s.inbox.pending = unread) :
    s.Heard u ⟨[], s.closed, unread⟩ s :=
  ⟨rfl, rfl, hpending, rfl, Option.or_none.symm⟩

/-- One frame before what is heard after it. -/
theorem Heard.cons {u : KeyUnwrapper} {r : Reading} {next later : Session}
    (H : next.Heard u r later)
    (hid : next.id = s.id) (hcapacity : next.inbox.capacity = s.inbox.capacity)
    (hcipher : next.inCipher = s.inCipher.or ((frame.sessionKey? u).map Rc4.ofKey)) :
    s.Heard u { r with frames := frame :: r.frames } later where
  id := H.id.trans hid
  closed := H.closed
  pending := H.pending
  capacity := H.capacity.trans hcapacity
  cipher := by
    have hkeys := congrArg (Option.map Rc4.ofKey)
      (Reading.key_exchange?_cons (u := u) frame r.frames)
    rw [Option.map_or, Option.map_map, Option.map_map] at hkeys
    rw [H.cipher, hcipher, Option.or_assoc]
    exact congrArg s.inCipher.or hkeys.symm

end Session

namespace Context

variable {handlers : HandlerTable} {ctx : Context} {frame : Frame} {t : Session}

theorem dispatchAll_of_none (hnone : ctx.session.nextFrame? = none) :
    ctx.dispatchAll handlers = ([], ctx) := by
  rw [dispatchAll]
  split
  · rfl
  · rename_i hsome
    cases hnone.symm.trans hsome

theorem dispatchAll_of_some (hsome : ctx.session.nextFrame? = some (frame, t)) :
    let later := (handlers.dispatch { ctx with session := t } frame).dispatchAll handlers
    ctx.dispatchAll handlers = (frame :: later.1, later.2) := by
  intro later
  rw [dispatchAll]
  split
  · rename_i hnone
    cases hnone.symm.trans hsome
  · rename_i hsome'
    cases hsome.symm.trans hsome'
    rfl

theorem dispatchAll_of_closed (hclosed : ctx.session.closed = true) :
    ctx.dispatchAll handlers = ([], ctx) :=
  dispatchAll_of_none (Session.nextFrame?_of_closed hclosed)

/-- An open session hears all that can be read from its bytes. -/
theorem dispatchAll_standard (u : KeyUnwrapper) (ctx : Context)
    (hopen : ctx.session.closed = false) :
    let done := ctx.dispatchAll (.standard u)
    let r := Reading.ofBytes ctx.session.inbox.pending
    done.1 = r.frames ∧ ctx.session.Heard u r done.2.session := by
  fun_induction dispatchAll (HandlerTable.standard u) ctx with
  | case1 ctx hnone =>
    rw [Reading.ofBytes_of_none (Session.nextFrame?_eq_none hopen hnone)]
    exact ⟨rfl, rfl, hopen, rfl, rfl, Option.or_none.symm⟩
  | case2 ctx frame session hsome frames later hlater ih =>
    obtain ⟨hsplit, hcapacity, hid, hclosed, hcipher⟩ := Session.of_nextFrame? hsome
    obtain ⟨hid', hclosed', hcipher'⟩ :=
      HandlerTable.dispatch_standard u { ctx with session } frame
    have hinbox := (HandlerTable.standard u).inbox_dispatch { ctx with session } frame
    generalize (HandlerTable.standard u).dispatch { ctx with session } frame = next at *
    dsimp only at hid' hclosed' hcipher' hinbox
    rw [hid] at hid'
    rw [hclosed, hopen, Bool.false_or] at hclosed'
    rw [hcipher] at hcipher'
    rw [← hinbox] at hsplit hcapacity
    by_cases hlogout : frame.opcode = Opcode.Client.logout
    · have hquit : next.session.closed = true := by rw [hclosed', hlogout]; rfl
      rw [dispatchAll_of_closed hquit] at hlater
      cases hlater
      rw [Reading.ofBytes_of_logout hsplit hlogout, ← hquit]
      exact ⟨rfl, (Session.Heard.nil rfl).cons hid' hcapacity hcipher'⟩
    · have hstay : next.session.closed = false := by rw [hclosed', decide_eq_false hlogout]
      obtain ⟨hframes, hheard⟩ := ih hstay
      rw [hlater] at hframes hheard
      rw [Reading.ofBytes_of_some hsplit hlogout, ← hframes]
      exact ⟨rfl, hframes ▸ hheard.cons hid' hcapacity hcipher'⟩

end Context

/-! ## What the chunks of a client come to -/

/-- What has come of the bytes of a client: the frames that were handled, whether its session is
closed, the bytes behind the frames, and whether the client encrypts. -/
structure Outcome where
  reading : Reading
  encrypted : Bool
  deriving DecidableEq, Repr

namespace Ship

/-- The chunks of a client come in, each at its own time. -/
def feed (ship : Ship) (id : ClientId) : List (Bytes × UInt64) → List Frame × Ship
  | [] => ([], ship)
  | (chunk, clock) :: chunks =>
    let (frames, ship) := ship.receive id chunk clock
    let (later, ship) := ship.feed id chunks
    (frames ++ later, ship)

/-- The receive buffer of a client has room for a chunk. -/
def takes (ship : Ship) (id : ClientId) (chunk : Bytes) : Bool :=
  ship.sessions[id]?.any fun s => (s.receive chunk).1

/-- No chunk of a client is refused. -/
def takesAll (ship : Ship) (id : ClientId) : List (Bytes × UInt64) → Bool
  | [] => true
  | (chunk, clock) :: chunks =>
    ship.takes id chunk && (ship.receive id chunk clock).2.takesAll id chunks

/-- What comes of the chunks of a client. -/
def outcome (ship : Ship) (id : ClientId) (chunks : List (Bytes × UInt64)) : Option Outcome :=
  let (frames, later) := ship.feed id chunks
  later.sessions[id]?.map fun s =>
    { reading := { frames, closed := s.closed, unread := s.inbox.pending }
      encrypted := s.encrypted }

end Ship

/-- A session that has heard chunks of its client, and has a compacted buffer of the usual size. -/
structure Session.Listens (u : KeyUnwrapper) (s : Session) (chunks : List Bytes) : Prop where
  closed : s.closed = (Reading.ofBytes (plaintext u chunks)).closed
  pending : s.inbox.pending = (Reading.ofBytes (plaintext u chunks)).unread
  cipher : s.inCipher = Reading.cipher u chunks
  size : s.inbox.bytes.size = s.inbox.pending.length
  capacity : s.inbox.capacity = FrameBuffer.defaultCapacity

namespace Session

variable {u : KeyUnwrapper} {s : Session} {chunks : List Bytes} {chunk : Bytes}

theorem Listens.of_undisturbed {t : Session} (H : s.Listens u chunks) (h : s.Undisturbed t) :
    t.Listens u chunks where
  closed := h.closed.trans H.closed
  pending := h.inbox ▸ H.pending
  cipher := h.cipher.trans H.cipher
  size := h.inbox ▸ H.size
  capacity := h.inbox ▸ H.capacity

theorem listens_nil (hclosed : s.closed = false) (hcipher : s.inCipher = none)
    (hinbox : s.inbox = .empty) : s.Listens u [] where
  closed := by rw [hclosed, Reading.plaintext_nil, Reading.ofBytes_nil]
  pending := by rw [hinbox, Reading.plaintext_nil, Reading.ofBytes_nil]; rfl
  cipher := by rw [hcipher, Reading.cipher_nil]
  size := by rw [hinbox]; rfl
  capacity := by rw [hinbox]; rfl

theorem receive_eq (htakes : (s.receive chunk).1 = true) :
    (s.receive chunk).2.inbox.pending = s.inbox.pending ++ (Rc4.through s.inCipher chunk).1 ∧
      (s.receive chunk).2.inbox.capacity = s.inbox.capacity ∧
      (s.receive chunk).2.inCipher = (Rc4.through s.inCipher chunk).2 ∧
      (s.receive chunk).2.id = s.id ∧ (s.receive chunk).2.closed = s.closed := by
  unfold receive at htakes ⊢
  by_cases hfits : s.inbox.bytes.size + chunk.length ≤ s.inbox.capacity
  · obtain ⟨b, hpush, hpending, -, hcapacity⟩ := FrameBuffer.push_of_le s.inCipher hfits
    rw [hpush]
    exact ⟨hpending, hcapacity, rfl, rfl, rfl⟩
  · rw [FrameBuffer.push_of_lt s.inCipher (Nat.not_le.mp hfits)] at htakes
    cases htakes

end Session

namespace Context

variable {u : KeyUnwrapper} {chunks : List Bytes} {chunk : Bytes}

/-- The frames that one more chunk completes are those that it adds to what is read. -/
theorem heard_dispatchAll (ctx : Context) (H : ctx.session.Listens u chunks)
    (htakes : (ctx.session.receive chunk).1 = true) :
    let done := { ctx with session := (ctx.session.receive chunk).2 }.dispatchAll (.standard u)
    let read := Reading.ofBytes (plaintext u (chunks ++ [chunk]))
    read.frames = (Reading.ofBytes (plaintext u chunks)).frames ++ done.1 ∧
      (ctx.session.receive chunk).2.Heard u { read with frames := done.1 } done.2.session := by
  obtain ⟨hpending, -, -, -, hclosed⟩ := Session.receive_eq htakes
  rw [H.pending, H.cipher] at hpending
  rw [H.closed] at hclosed
  intro done read
  have hread : read = _ := congrArg Reading.ofBytes (Reading.plaintext_concat u chunks chunk)
  rw [Reading.ofBytes_append, Reading.extend, ← hpending, ← hclosed] at hread
  cases hquit : (ctx.session.receive chunk).2.closed with
  | true =>
    have hdone : done = ([], _) := dispatchAll_of_closed hquit
    rw [hquit, if_pos rfl] at hread
    have hnil : (ctx.session.receive chunk).2.Heard u ⟨[], _, _⟩ _ := .nil rfl
    rw [hquit] at hnil
    rw [hread, hdone]
    exact ⟨(List.append_nil _).symm, hnil⟩
  | false =>
    obtain ⟨hframes, hheard⟩ := dispatchAll_standard u
      { ctx with session := (ctx.session.receive chunk).2 } hquit
    have hdone : done.1 = _ := hframes
    rw [hquit, if_neg Bool.false_ne_true] at hread
    rw [hread, hdone]
    exact ⟨rfl, hheard⟩

/-- One more chunk is heard with the cipher that is there when it comes in. -/
theorem listens_dispatchAll (ctx : Context) (H : ctx.session.Listens u chunks)
    (htakes : (ctx.session.receive chunk).1 = true) :
    let done := { ctx with session := (ctx.session.receive chunk).2 }.dispatchAll (.standard u)
    done.2.session.id = ctx.session.id ∧
      done.2.session.compact.Listens u (chunks ++ [chunk]) := by
  obtain ⟨-, hcapacity, hcipher, hid, -⟩ := Session.receive_eq htakes
  obtain ⟨hframes, hheard⟩ := heard_dispatchAll ctx H htakes
  intro done
  refine ⟨hheard.id.trans hid, hheard.closed, ?_, ?_, ?_, ?_⟩
  · exact (FrameBuffer.pending_compact _).trans hheard.pending
  · rw [Reading.cipher_concat hframes, ← H.cipher, ← hcipher]
    exact hheard.cipher
  · simp [Session.compact]
  · exact (hheard.capacity.trans hcapacity).trans H.capacity

end Context

namespace Ship

/-- A ship with the standard handlers that has handled the frames in the chunks of a client. -/
structure Follows (u : KeyUnwrapper) (ship : Ship) (id : ClientId) (chunks : List Bytes)
    (frames : List Frame) : Prop where
  handlers : ship.handlers = .standard u
  frames : frames = (Reading.ofBytes (plaintext u chunks)).frames
  session : ∃ s, ship.sessions[id]? = some s ∧ s.id = id ∧ s.Listens u chunks

variable {u : KeyUnwrapper} {ship : Ship} {id : ClientId} {chunks : List Bytes}
  {frames : List Frame}

theorem receive_eq {s : Session} (h : ship.sessions[id]? = some s) (chunk : Bytes)
    (clock : UInt64) :
    let done := ({ session := (s.receive chunk).2, others := ship.sessions.erase id,
                   world := ship.world, clock, journal := ship.journal } : Context).dispatchAll
      ship.handlers
    ship.receive id chunk clock =
      (done.1, { ship with
        sessions := SessionTable.put done.2.others done.2.session.compact
        world := done.2.world
        journal := done.2.journal }) := by
  unfold receive withSession
  rw [h]
  rfl

theorem receive_of_none (hnone : ship.sessions[id]? = none) (chunk : Bytes) (clock : UInt64) :
    ship.receive id chunk clock = ([], ship) := by
  unfold receive withSession
  rw [hnone]
  rfl

theorem getElem?_put (t : SessionTable) {s : Session} (h : s.id = id) :
    (SessionTable.put t s)[id]? = some s := by
  subst h
  exact Std.ExtTreeMap.getElem?_insert_self

/-- A client that has just connected has said nothing. -/
theorem follows_connect (hstandard : ship.handlers = .standard u) (id : ClientId)
    (address : SocketAddress) : (ship.connect id address).Follows u id [] [] := by
  have hframes : [] = (Reading.ofBytes (plaintext u [])).frames := by
    rw [Reading.plaintext_nil, Reading.ofBytes_nil]
  unfold connect
  dsimp only
  cases ship.newDump id with
  | none =>
    exact ⟨hstandard, hframes, _, getElem?_put _ rfl, rfl,
      (Session.listens_nil rfl rfl rfl).of_undisturbed (.sendFrame ..)⟩
  | some made =>
    exact ⟨hstandard, hframes, _, getElem?_put _ rfl, rfl,
      (Session.listens_nil rfl rfl rfl).of_undisturbed (.sendFrame ..)⟩

theorem Follows.receive (H : ship.Follows u id chunks frames) {chunk : Bytes}
    (htakes : ship.takes id chunk = true) (clock : UInt64) :
    (ship.receive id chunk clock).2.Follows u id (chunks ++ [chunk])
      (frames ++ (ship.receive id chunk clock).1) := by
  obtain ⟨s, hs, rfl, hlistens⟩ := H.session
  have hroom : (s.receive chunk).1 = true := by
    rw [takes, hs] at htakes
    exact htakes
  let ctx : Context := {
    session := s, others := ship.sessions.erase s.id, world := ship.world, clock
    journal := ship.journal }
  obtain ⟨hframes, -⟩ := ctx.heard_dispatchAll hlistens hroom
  obtain ⟨hid, hlistens'⟩ := ctx.listens_dispatchAll hlistens hroom
  rw [receive_eq hs, H.handlers]
  exact ⟨rfl, H.frames ▸ hframes.symm, _, getElem?_put _ hid, hid, hlistens'⟩

/-- The frames that are handled are those that are read from what the chunks are decrypted to. -/
theorem Follows.feed {pairs : List (Bytes × UInt64)} (H : ship.Follows u id chunks frames)
    (htakes : ship.takesAll id pairs = true) :
    (ship.feed id pairs).2.Follows u id (chunks ++ pairs.map (·.1))
      (frames ++ (ship.feed id pairs).1) := by
  induction pairs generalizing ship chunks frames with
  | nil => simpa [Ship.feed] using H
  | cons pair pairs ih =>
    obtain ⟨chunk, clock⟩ := pair
    rw [takesAll, Bool.and_eq_true] at htakes
    have hlater := ih (H.receive htakes.1 clock) htakes.2
    rw [List.append_assoc, List.append_assoc] at hlater
    exact hlater

theorem outcome_eq (H : ship.Follows u id [] []) {pairs : List (Bytes × UInt64)}
    (htakes : ship.takesAll id pairs = true) :
    ship.outcome id pairs = some {
      reading := Reading.ofBytes (plaintext u (pairs.map (·.1)))
      encrypted := (exchange? u (Reading.ofBytes (pairs.map (·.1)).flatten).frames).isSome } := by
  have hfeed := H.feed htakes
  obtain ⟨s, hs, -, hlistens⟩ := hfeed.session
  have hframes := hfeed.frames
  rw [List.nil_append] at hlistens
  rw [List.nil_append, List.nil_append] at hframes
  unfold outcome
  dsimp only
  rw [hs, Option.map_some, hframes, hlistens.closed, hlistens.pending, Session.encrypted,
    hlistens.cipher, Reading.cipher, Option.isSome_map]

theorem Follows.takes (H : ship.Follows u id chunks frames) (chunk : Bytes)
    (h : chunks.flatten.length + chunk.length ≤ FrameBuffer.defaultCapacity) :
    ship.takes id chunk = true := by
  obtain ⟨s, hs, -, hlistens⟩ := H.session
  have hpending := congrArg List.length hlistens.pending
  have hlength := Reading.length_ofBytes (plaintext u chunks)
  rw [Reading.length_plaintext] at hlength
  have hroom : s.inbox.bytes.size + chunk.length ≤ s.inbox.capacity := by
    rw [hlistens.size, hlistens.capacity]
    omega
  obtain ⟨b, hpush, -⟩ := FrameBuffer.push_of_le s.inCipher hroom
  rw [Ship.takes, hs, Option.any_some, Session.receive, hpush]

/-- Nothing is refused of a stream that fits into the receive buffer as a whole. -/
theorem Follows.takesAll {pairs : List (Bytes × UInt64)} (H : ship.Follows u id chunks frames)
    (h : chunks.flatten.length + (pairs.map (·.1)).flatten.length ≤ FrameBuffer.defaultCapacity) :
    ship.takesAll id pairs = true := by
  induction pairs generalizing ship chunks frames with
  | nil => rfl
  | cons pair pairs ih =>
    obtain ⟨chunk, clock⟩ := pair
    rw [List.map_cons, List.flatten_cons, List.length_append] at h
    dsimp only at h
    have hfirst := H.takes chunk (by omega)
    have hlater := ih (H.receive hfirst clock) (by
      rw [List.flatten_append, List.length_append, List.flatten_singleton]
      omega)
    rw [Ship.takesAll, hfirst, hlater]
    rfl

/-- The frame with which a client agrees on a key of sixteen zeros. -/
def zeroKeyFrame : Frame where
  opcode := Opcode.Client.keyExchange
  payload := Bytes.zeros keyBlobSize

theorem ofBytes_zeroKeyFrame (rest : Bytes) :
    Reading.ofBytes (zeroKeyFrame.toBytes ++ rest) =
      { Reading.ofBytes rest with frames := zeroKeyFrame :: (Reading.ofBytes rest).frames } :=
  Reading.ofBytes_of_some (Frame.split?_toBytes_append (by decide +kernel) rest) (by decide)

theorem exchange?_zeroKeyFrame (rest : Bytes) :
    exchange? .plain (Reading.ofBytes (zeroKeyFrame.toBytes ++ rest)).frames =
      some (136, List.replicate 16 0) := by
  have hkey : zeroKeyFrame.sessionKey? .plain = some (List.replicate 16 0) := by decide +kernel
  have hsize : zeroKeyFrame.size = 136 := by decide +kernel
  rw [ofBytes_zeroKeyFrame, exchange?, hkey, hsize]

/-- **How the bytes of a client are cut** matters only for the chunk that completes its key, and
there only for what comes behind the key in the same chunk: this is not decrypted. Two ways to cut
the bytes come to the same exactly if what is heard behind the key is read alike, and come to what
the client meant exactly if it is read like the decrypted bytes. -/
theorem outcome_connect (u : KeyUnwrapper) (ship : Ship) (hstandard : ship.handlers = .standard u)
    (id : ClientId) (address : SocketAddress) (stream : Bytes)
    (pairs pairs' : List (Bytes × UInt64))
    (hstream : (pairs.map (·.1)).flatten = stream) (hstream' : (pairs'.map (·.1)).flatten = stream)
    (htakes : (ship.connect id address).takesAll id pairs = true)
    (htakes' : (ship.connect id address).takesAll id pairs' = true) :
    let outcome chunks := (ship.connect id address).outcome id chunks
    match exchange? u (Reading.ofBytes stream).frames with
    | none =>
      outcome pairs = some ⟨Reading.ofBytes stream, false⟩ ∧
        outcome pairs' = some ⟨Reading.ofBytes stream, false⟩
    | some (stop, key) =>
      let heard (chunks : List (Bytes × UInt64)) := behind key stop (chunks.map (·.1))
      outcome pairs = some ⟨Reading.ofBytes (stream.take stop ++ heard pairs), true⟩ ∧
        (outcome pairs = outcome pairs' ↔
          Reading.ofBytes (heard pairs) = Reading.ofBytes (heard pairs')) ∧
        (outcome pairs = some ⟨Reading.ofBytes (unlock key stop stream), true⟩ ↔
          Reading.ofBytes (heard pairs) =
            Reading.ofBytes ((Rc4.ofKey key).apply (stream.drop stop)).1) := by
  have hconnect := follows_connect hstandard id address
  intro outcome
  have hpairs : outcome pairs = _ := outcome_eq hconnect htakes
  have hpairs' : outcome pairs' = _ := outcome_eq hconnect htakes'
  rw [hstream] at hpairs
  rw [hstream'] at hpairs'
  cases hkey : exchange? u (Reading.ofBytes stream).frames with
  | none =>
    rw [Reading.plaintext_of_none (by rw [hstream, hkey]), hstream, hkey] at hpairs
    rw [Reading.plaintext_of_none (by rw [hstream', hkey]), hstream', hkey] at hpairs'
    exact ⟨hpairs, hpairs'⟩
  | some e =>
    obtain ⟨stop, key⟩ := e
    rw [Reading.plaintext_of_some (by rw [hstream, hkey]), hstream, hkey] at hpairs
    rw [Reading.plaintext_of_some (by rw [hstream', hkey]), hstream', hkey] at hpairs'
    refine ⟨hpairs, ?_, ?_⟩
    · rw [hpairs, hpairs', Option.some.injEq, Outcome.mk.injEq, and_iff_left rfl]
      exact Reading.ofBytes_take_append_inj hkey
    · rw [hpairs, Option.some.injEq, Outcome.mk.injEq, and_iff_left Option.isSome_some]
      exact Reading.ofBytes_take_append_inj hkey

theorem outcome_connect_zeroKeyFrame :
    let key : Bytes := zeroKeyFrame.toBytes
    let more : Bytes := [1, 2, 3, 4, 5, 6, 7, 8]
    let ship : Ship := { world := .new "", handlers := .standard .plain }
    let joined := ship.connect 1 ⟨.v4 127 0 0 1, 50000, 0⟩
    let pairs : List (Bytes × UInt64) := [(key.take 100, 0), (key.drop 100, 5), (more, 9)]
    let pairs' : List (Bytes × UInt64) := [(key, 0), (more.take 3, 2), (more.drop 3, 2)]
    (pairs.map (·.1)).flatten = key ++ more ∧ (pairs'.map (·.1)).flatten = key ++ more ∧
      joined.takesAll 1 pairs = true ∧ joined.takesAll 1 pairs' = true ∧
      joined.outcome 1 pairs = joined.outcome 1 pairs' := by
  intro key more ship joined pairs pairs'
  have hconnect : joined.Follows .plain 1 [] [] := follows_connect rfl 1 _
  have hstream : (pairs.map (·.1)).flatten = key ++ more := by decide +kernel
  have hstream' : (pairs'.map (·.1)).flatten = key ++ more := by decide +kernel
  have htakes : joined.takesAll 1 pairs = true := hconnect.takesAll (by decide +kernel)
  have htakes' : joined.takesAll 1 pairs' = true := hconnect.takesAll (by decide +kernel)
  have h := outcome_connect .plain ship rfl 1 ⟨.v4 127 0 0 1, 50000, 0⟩ (key ++ more) pairs pairs'
    hstream hstream' htakes htakes'
  rw [exchange?_zeroKeyFrame] at h
  refine ⟨hstream, hstream', htakes, htakes', h.2.1.mpr ?_⟩
  -- in both cases the end of the key is the end of a chunk
  have hboundary : boundary 136 (pairs.map (·.1)) = boundary 136 (pairs'.map (·.1)) := by
    decide +kernel
  unfold behind
  beta_reduce
  rw [hboundary, hstream, hstream']

/-- A logout behind the key is heard if it comes in a chunk of its own, and otherwise not. -/
theorem logout_behind_key :
    let key : Bytes := zeroKeyFrame.toBytes
    let logout : Bytes := [0xD6, 0x18, 0x89, 0x41, 0xB2, 0x1C, 0x5D, 0x3A]
    let ship : Ship := { world := .new "", handlers := .standard .plain }
    let joined := ship.connect 1 ⟨.v4 127 0 0 1, 50000, 0⟩
    joined.takesAll 1 [(key ++ logout, 0)] = true ∧
      joined.takesAll 1 [(key, 0), (logout, 0)] = true ∧
      (joined.outcome 1 [(key ++ logout, 0)]).map (·.reading.closed) = some false ∧
      (joined.outcome 1 [(key, 0), (logout, 0)]).map (·.reading.closed) = some true := by
  intro key logout ship joined
  have hconnect : joined.Follows .plain 1 [] [] := follows_connect rfl 1 _
  have htakes : joined.takesAll 1 [(key ++ logout, 0)] = true :=
    hconnect.takesAll (by decide +kernel)
  have htakes' : joined.takesAll 1 [(key, 0), (logout, 0)] = true :=
    hconnect.takesAll (by decide +kernel)
  have hkey := exchange?_zeroKeyFrame logout
  have hlength : key.length = 136 := by decide +kernel
  refine ⟨htakes, htakes', ?_, ?_⟩
  · -- the chunk ends behind the logout, which is left as it is
    have hplain : plaintext .plain [key ++ logout] = key ++ logout := by
      have hboundary : boundary 136 [key ++ logout] = (key ++ logout).length := by decide +kernel
      rw [plaintext, List.flatten_singleton, hkey]
      dsimp only
      rw [hboundary, Reading.unlock_length]
    rw [outcome_eq hconnect htakes, Option.map_some, List.map_singleton, hplain,
      ofBytes_zeroKeyFrame, Reading.ofBytes_of_none (by decide +kernel)]
  · -- the chunk ends before the logout, which is decrypted
    have hplain : plaintext .plain [key, logout] = key ++ [8, 0, 0, 0, 17, 43, 0, 0] := by
      have hflat : [key, logout].flatten = key ++ logout := by simp
      have hboundary : boundary 136 [key, logout] = 136 := by decide +kernel
      have hstream := (Rc4.ofKey (List.replicate 16 0)).take_keyStream 8 8
      rw [Rc4.keyStream_ofKey_zeros] at hstream
      have happly : ((Rc4.ofKey (List.replicate 16 0)).apply logout).1 =
          [8, 0, 0, 0, 17, 43, 0, 0] := by
        have hlogout : logout.length = 8 := rfl
        rw [Rc4.apply_eq, hlogout, ← hstream]
        decide
      rw [plaintext, hflat, hkey]
      dsimp only
      rw [hboundary, unlock, List.take_left' hlength, List.drop_left' hlength, happly]
    have hlogout : Frame.split? [8, 0, 0, 0, 17, 43, 0, 0] =
        some ({ opcode := Opcode.Client.logout, payload := [] }, []) := by decide +kernel
    rw [outcome_eq hconnect htakes', Option.map_some, List.map_cons, List.map_singleton, hplain,
      ofBytes_zeroKeyFrame, Reading.ofBytes_of_logout hlogout rfl]

end Ship

end GameShip
