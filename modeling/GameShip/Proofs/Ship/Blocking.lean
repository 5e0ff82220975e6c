import GameShip.Proofs.Frame.Blocked
import GameShip.Proofs.Ship.Closing
import GameShip.Proofs.Ship.Mirroring

/-!
# A client that blocks its own stream

A client that has announced a frame that is too large is not heard any more, and nobody else
notices what it sends (`Ship.blocking_run`).

* `Session.receive_of_blocked`: what becomes of a chunk of such a client.
-/

namespace GameShip

/-- The session takes in more bytes of its client or refuses them, and that is all. -/
theorem Session.receive_of_blocked {s : Session} (h : s.inbox.Blocked) (data : Bytes) :
    (s.receive data).2.nextFrame? = none ∧ ∃ inbox inCipher, inbox.Blocked ∧
      s.inbox.pending <+: inbox.pending ∧
        (s.receive data).2.compact = { s with inbox, inCipher } := by
  have hnone {t : Session} (ht : t.inbox.Blocked) : t.nextFrame? = none := by
    rw [nextFrame?, ht.next?_eq_none, ite_self]
  cases hpush : s.inbox.push data s.inCipher with
  | error e =>
    rw [receive, hpush]
    have hsame : s.inbox.compact.pending = s.inbox.pending := FrameBuffer.pending_compact _
    exact ⟨hnone h, s.inbox.compact, s.inCipher, h.use .compact, hsame ▸ List.prefix_rfl, rfl⟩
  | ok taken =>
    obtain ⟨inbox, inCipher⟩ := taken
    have huse : s.inbox.use (.push data s.inCipher) =
        (none, (Rc4.through s.inCipher data).1, inbox) := by
      rw [FrameBuffer.use, hpush]
    have hblocked := h.use (.push data s.inCipher)
    have hpending := (s.inbox.pending_use _ (h.use_fst (.push data s.inCipher))).1
    rw [huse] at hblocked hpending
    rw [receive, hpush]
    refine ⟨hnone hblocked, inbox.compact, inCipher, hblocked.use .compact, ?_, rfl⟩
    rw [FrameBuffer.pending_compact]
    exact ⟨_, hpending.symm⟩

namespace Ship

variable {ship : Ship} {client : ClientId} {s : Session} {i : Inbound} {call : Call}
  {calls : List Call}

/-- More bytes of a blocked client come in, and no frame is handled. -/
theorem receive_of_blocked (hid : s.id = client) (hs : ship.sessions[client]? = some s)
    (h : s.inbox.Blocked) (data : Bytes) (clock : UInt64) : ∃ inbox inCipher, inbox.Blocked ∧
      s.inbox.pending <+: inbox.pending ∧
        ship.receive client data clock = ([], ship.putSession { s with inbox, inCipher }) := by
  obtain ⟨hnone, inbox, inCipher, hblocked, hgrows, hlater⟩ := s.receive_of_blocked h data
  refine ⟨inbox, inCipher, hblocked, hgrows, ?_⟩
  have hput := SessionTable.erase_put (s := { s with inbox, inCipher }) ship.sessions hid
  rw [receive_eq hs, Context.dispatchAll_of_none hnone]
  dsimp only
  rw [hlater, hput]
  rfl

theorem given_receive_of_blocked (H : ship.sessions.Keyed) (h : i.inbox.Blocked) (data : Bytes)
    (clock : UInt64) : ∃ j : Inbound, j.client = i.client ∧ j.inbox.Blocked ∧
      i.inbox.pending <+: j.inbox.pending ∧
        (ship.given i).receive i.client data clock = ([], ship.given j) := by
  cases hs : ship.sessions[i.client]? with
  | none =>
    refine ⟨i, rfl, h, List.prefix_rfl, ?_⟩
    rw [given_of_none H hs, receive_of_none hs]
  | some s =>
    have hid : s.id = i.client := H i.client s hs
    have hinbox : (s.given i).inbox = i.inbox := by rw [Session.given, if_pos hid]
    have hs' : (ship.given i).sessions[i.client]? = some (s.given i) := by
      rw [getElem?_given, hs, Option.map_some]
    obtain ⟨inbox, inCipher, hblocked, hgrows, hreceive⟩ :=
      receive_of_blocked ((s.id_given i).trans hid) hs' (hinbox.symm ▸ h) data clock
    let j : Inbound := ⟨i.client, inbox, inCipher⟩
    have hclient : j.client = i.client := rfl
    have hkeyed : (ship.given i).sessions.Keyed := H.given i
    have hgiven := given_eq_adjust hkeyed j
    rw [given_given hclient, hclient, adjust, hs'] at hgiven
    exact ⟨j, hclient, hblocked, hinbox ▸ hgrows, hreceive.trans (Prod.ext rfl hgiven.symm)⟩

theorem connections_filter_isFrom (client : ClientId) (calls : List Call) :
    connections (calls.filter (!·.isFrom client)) = connections calls := by
  unfold connections
  rw [List.filterMap_filter]
  refine List.filterMap_congr fun call _ => ?_
  cases call with
  | receive id data clock => exact ite_self none
  | _ => rfl

theorem handed_of_not_isFrom (h : call.isFrom client = false) (ship : Ship) :
    ship.handed client call = [] := by
  cases call with
  | receive id data clock => exact if_neg (of_decide_eq_false h)
  | _ => rfl

/-- A call to a ship with a blocked client is one to the ship without what that client sends. -/
theorem step_of_blocked (H : ship.sessions.Keyed) (hwritten : ship.Written)
    (h : i.inbox.Blocked) (hnew : call.connection? ≠ some i.client) :
    let unsent := [call].filter (!·.isFrom i.client)
    (ship.given i).handed i.client call = [] ∧
      (∀ other, other ≠ i.client →
        (ship.given i).handed other call = ship.framesOf other unsent) ∧
      ∃ j : Inbound, j.client = i.client ∧ j.inbox.Blocked ∧ i.inbox.pending <+: j.inbox.pending ∧
        (ship.given i).step call = (ship.run unsent).given j := by
  rw [List.filter_cons, List.filter_nil]
  cases hfrom : call.isFrom i.client with
  | true =>
    cases call with
    | receive id data clock =>
      have hid : id = i.client := of_decide_eq_true hfrom
      subst hid
      obtain ⟨j, hclient, hblocked, hgrows, hreceive⟩ := given_receive_of_blocked H h data clock
      refine ⟨?_, fun other hother => ?_, j, hclient, hblocked, hgrows, ?_⟩
      · rw [handed, if_pos rfl, hreceive]
      · rw [handed, if_neg hother.symm]
        rfl
      · have hlater : (ship.given i).perform (.receive i.client data clock) = ship.given j :=
          congrArg Prod.snd hreceive
        rw [step, hlater, flushDumps_given, hwritten.flushDumps H]
        rfl
    | _ => cases hfrom
  | false =>
    refine ⟨handed_of_not_isFrom hfrom _, fun other hother => ?_, i, rfl, h, List.prefix_rfl, ?_⟩
    · rw [handed_given H hother]
      exact (List.append_nil _).symm
    · exact step_given H hnew hfrom

/-- Nobody notices what a blocked client sends. -/
theorem run_of_blocked (H : ship.Consistent) (hwritten : ship.Written)
    (hdistinct : ship.Distinct calls) (h : i.inbox.Blocked) (hnew : i.client ∉ connections calls) :
    let unsent := calls.filter (!·.isFrom i.client)
    (ship.given i).framesOf i.client calls = [] ∧
      (∀ other, other ≠ i.client →
        (ship.given i).framesOf other calls = ship.framesOf other unsent) ∧
      ∃ j : Inbound, j.client = i.client ∧ i.inbox.pending <+: j.inbox.pending ∧
        (ship.given i).run calls = (ship.run unsent).given j := by
  induction calls generalizing ship i with
  | nil => exact ⟨rfl, fun _ _ => rfl, i, rfl, List.prefix_rfl, rfl⟩
  | cons call calls ih =>
    have hcall : call.connection? ≠ some i.client := fun hcall =>
      hnew (List.mem_filterMap.mpr ⟨call, List.mem_cons_self, hcall⟩)
    obtain ⟨hnone, hsame, j, hclient, hblocked, hgrows, hstep⟩ :=
      step_of_blocked H.keyed hwritten h hcall
    have hfirst : ship.Distinct ([call].filter (!·.isFrom i.client) ++ calls) := by
      have hconnections := connections_filter_isFrom i.client [call]
      refine ⟨?_, ?_⟩ <;> rw [connections_append, hconnections, ← connections_append]
      · exact hdistinct.nodup
      · exact hdistinct.fresh
    have hrest : j.client ∉ connections calls := fun hmem =>
      hnew (connections_cons call calls ▸ List.mem_append_right _ (hclient ▸ hmem))
    obtain ⟨hframes, hothers, k, hclient', hgrows', hlast⟩ :=
      ih (H.run hfirst.left) (hwritten.run H hfirst.left) (hfirst.run H) hblocked hrest
    rw [hclient] at hframes hothers hclient' hlast
    have hsplit : (call :: calls).filter (!·.isFrom i.client) =
        [call].filter (!·.isFrom i.client) ++ calls.filter (!·.isFrom i.client) :=
      List.filter_append [call] calls
    rw [hsplit]
    intro unsent
    rw [run_append]
    refine ⟨?_, fun other hother => ?_, k, hclient', hgrows.trans hgrows', ?_⟩
    · rw [framesOf, hnone, hstep, hframes, List.append_nil]
    · rw [framesOf, hsame other hother, hstep, hothers other hother, framesOf_append]
    · exact (congrArg (·.run calls) hstep).trans hlast

/-- **A frame that is too large blocks the stream for ever, and does nothing else.** Whatever is
done with a receive buffer after that, no frame is taken out of it, and the chunks that it accepts
only come behind the bytes that are pending, never more of them than it has room for. So no frame
of the client is handled any more, whatever happens to the ship. All that comes of the bytes that
it sends is that they wait in its own inbox: the frames of the others are handled, and the ship is
left, as if they had not been sent. -/
theorem blocking_run :
    (∀ b : FrameBuffer, b.Blocked → ∀ uses : List FrameBuffer.Use,
      let (frames, gained, later) := b.useAll uses
      frames = [] ∧ later.pending = b.pending ++ gained ∧
        later.pending.take 4 = b.pending.take 4 ∧ later.pending.length ≤ b.capacity) ∧
    ∀ (handlers : HandlerTable) (resources : String) (dumpRoot : Option DiskPath) (disk : Disk)
      (calls later : List Call) (client : ClientId) (s : Session),
      (connections (calls ++ later)).Nodup →
      let ship := (launched handlers resources dumpRoot disk).run calls
      ship.sessions[client]? = some s → s.inbox.Blocked →
      let unsent := later.filter (!·.isFrom client)
      ship.framesOf client later = [] ∧
        (∀ other, other ≠ client → ship.framesOf other later = ship.framesOf other unsent) ∧
        ∃ inbox inCipher, s.inbox.pending <+: inbox.pending ∧
          ship.run later = (ship.run unsent).adjust client ({ · with inbox, inCipher }) := by
  refine ⟨fun b h uses => ?_, ?_⟩
  · obtain ⟨hframes, hpending, hcapacity⟩ := h.useAll uses
    refine ⟨hframes, hpending, ?_, ?_⟩
    · rw [hpending, List.take_append_of_le_length h.sized]
    · rw [← hcapacity]
      exact FrameBuffer.length_pending_le _
  · intro handlers resources dumpRoot disk calls later client s hnodup ship hs h unsent
    have H₀ := consistent_launched handlers resources dumpRoot disk
    have hdistinct₀ : (launched handlers resources dumpRoot disk).Distinct (calls ++ later) :=
      ⟨hnodup, fun _ _ => Std.ExtTreeMap.getElem?_empty⟩
    have hwritten₀ : (launched handlers resources dumpRoot disk).Written := fun _ _ h => by
      rw [launched, Std.ExtTreeMap.getElem?_empty] at h
      cases h
    have H : ship.Consistent := H₀.run hdistinct₀.left
    have hwritten : ship.Written := hwritten₀.run H₀ hdistinct₀.left
    have hdistinct : ship.Distinct later := hdistinct₀.run H₀
    have hnew : client ∉ connections later := fun hmem => by
      cases hs.symm.trans (hdistinct.fresh client hmem)
    have hrun : ship.Distinct unsent := by
      have hsame := connections_filter_isFrom client later
      exact ⟨hsame ▸ hdistinct.nodup, hsame ▸ hdistinct.fresh⟩
    obtain ⟨hframes, hothers, ⟨_, inbox, inCipher⟩, rfl, hgrows, hlast⟩ :=
      run_of_blocked (i := ⟨client, s.inbox, s.inCipher⟩) H hwritten hdistinct h hnew
    rw [given_of_some H.keyed hs] at hframes hothers hlast
    refine ⟨hframes, hothers, inbox, inCipher, hgrows, hlast.trans ?_⟩
    exact given_eq_adjust (H.run hrun).keyed _

/-- A client announces a frame of 128 KiB, and sends a ping. A buffer of eight bytes is blocked by a
frame of nine. -/
theorem blocking_run_announced :
    let ping : Frame := { opcode := Opcode.Client.pingResponse }
    let calls : List Call := [.connect 1 ⟨.v4 127 0 0 1, 50000, 0⟩,
      .connect 2 ⟨.v4 127 0 0 1, 50001, 0⟩, .receive 1 [0, 0, 2, 0] 4]
    let later : List Call := [.receive 1 ping.toBytes 5, .receive 2 ping.toBytes 6]
    let unsent : List Call := [.receive 2 ping.toBytes 6]
    let ship := (launched (.standard .plain) "" none {}).run calls
    let small := ((FrameBuffer.empty 8).use (.push [9, 0, 0, 0] none)).2.2
    small.Blocked ∧
      (small.useAll [.next, .push [3, 9, 0, 0] none, .next, .push [1] none, .next]).1 = [] ∧
      (connections (calls ++ later)).Nodup ∧
      ∃ s, ship.sessions[(1 : ClientId)]? = some s ∧ s.inbox.Blocked ∧
        ship.framesOf 1 later = [] ∧ ship.framesOf 2 later = [ping] ∧
        ∃ inbox inCipher, s.inbox.pending <+: inbox.pending ∧
          ship.run later = (ship.run unsent).adjust 1 ({ · with inbox, inCipher }) := by
  intro ping calls later unsent ship small
  have hsmall : small.Blocked := ⟨by decide, by decide⟩
  have hnodup : (connections (calls ++ later)).Nodup := by decide
  have hinbox : ship.sessions[(1 : ClientId)]?.map (fun s => (s.inbox.capacity, s.inbox.pending)) =
      some (65536, [0, 0, 2, 0]) := by
    decide +kernel
  obtain ⟨s, hs, hinbox⟩ := Option.map_eq_some_iff.mp hinbox
  obtain ⟨hcapacity, hpending⟩ := Prod.mk.inj hinbox
  have hblocked : s.inbox.Blocked := by
    refine ⟨?_, ?_⟩
    · rw [hpending]
      decide
    · rw [hcapacity, hpending]
      decide
  obtain ⟨hbuffer, hship⟩ := blocking_run
  obtain ⟨hframes, hothers, hrun⟩ :=
    hship (.standard .plain) "" none {} calls later 1 s hnodup hs hblocked
  have hping : ship.framesOf 2 unsent = [ping] := by decide +kernel
  exact ⟨hsmall, (hbuffer small hsmall _).1, hnodup, s, hs, hblocked, hframes,
    (hothers 2 (by decide)).trans hping, hrun⟩

end Ship

end GameShip
