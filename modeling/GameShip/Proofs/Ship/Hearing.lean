import GameShip.Proofs.Ship.Step

/-!
# What is heard of a client

What a ship hears of a client follows from what this client does on its connection, whatever the
others do meanwhile and the operator, as long as it does not kick the client
(`Ship.hearing_run`).

* `Input`, `Ship.inputs`: what a client does on its connection.
* `Ear`: what is taken in of that. It needs no ship.
* `Ship.Attends`: a ship that has heard what an ear has.
-/

namespace GameShip

open Reading (plaintext)

/-- What a client does on its connection. -/
inductive Input where
  | connect
  | bytes (data : Bytes)
  | disconnect
  deriving DecidableEq, Repr

/-- What a client has said, and whether its connection is there. -/
structure Ear where
  /-- The chunks that were taken in. -/
  chunks : List Bytes := []
  connected : Bool := false
  deriving DecidableEq, Repr

namespace Ear

/-- What is read from the chunks. -/
def reading (u : KeyUnwrapper) (ear : Ear) : Reading := Reading.ofBytes (plaintext u ear.chunks)

/-- A chunk is taken in if there is room for it beside the bytes that are in no frame yet. -/
def hear (u : KeyUnwrapper) (ear : Ear) : Input → Ear
  | .connect => { ear with connected := true }
  | .bytes data =>
    if ear.connected ∧
        (ear.reading u).unread.length + data.length ≤ FrameBuffer.defaultCapacity then
      { ear with chunks := ear.chunks ++ [data] }
    else ear
  | .disconnect => { ear with connected := false }

end Ear

/-- What a session keeps of what it hears. -/
structure Hearing where
  inbox : FrameBuffer
  cipher : Option Rc4
  closed : Bool

namespace FrameBuffer

/-- A buffer of which nothing is taken is known from its pending bytes. -/
theorem ext_of_compact {b b' : FrameBuffer} (hpending : b.pending = b'.pending)
    (hsize : b.bytes.size = b.pending.length) (hsize' : b'.bytes.size = b'.pending.length)
    (hcapacity : b.capacity = b'.capacity) : b = b' := by
  have htaken {b : FrameBuffer} (h : b.bytes.size = b.pending.length) :
      b.taken = 0 ∧ b.bytes.toList = b.pending := by
    have hlength : b.pending.length = b.bytes.size - b.taken := by simp [pending]
    have hle := b.taken_le
    have hzero : b.taken = 0 ∨ b.bytes.size = 0 := by omega
    have hzero : b.taken = 0 := by omega
    exact ⟨hzero, by rw [pending, hzero, List.drop_zero]⟩
  obtain ⟨hzero, hbytes⟩ := htaken hsize
  obtain ⟨hzero', hbytes'⟩ := htaken hsize'
  have hsame : b.bytes = b'.bytes := Array.toList_inj.mp (by rw [hbytes, hbytes', hpending])
  obtain ⟨_, _, _, _, _⟩ := b
  obtain ⟨_, _, _, _, _⟩ := b'
  cases hcapacity
  cases hsame
  cases hzero
  cases hzero'
  rfl

end FrameBuffer

namespace Ship

/-- What a call means to a client. -/
def Call.input? (client : ClientId) : Call → Option Input
  | .connect id _ => if id = client then some .connect else none
  | .receive id data _ => if id = client then some (.bytes data) else none
  | .disconnect id => if id = client then some .disconnect else none
  | _ => none

/-- What a client does on its connection in the course of calls. -/
def inputs (client : ClientId) (calls : List Call) : List Input :=
  calls.filterMap (Call.input? client)

/-- What the ship keeps of what it hears of a client. -/
def hearing? (ship : Ship) (client : ClientId) : Option Hearing :=
  ship.sessions[client]?.map fun s => ⟨s.inbox, s.inCipher, s.closed⟩

/-- A ship that has heard what an ear has, and has handled the frames. -/
def Attends (u : KeyUnwrapper) (ship : Ship) (client : ClientId) (ear : Ear)
    (frames : List Frame) : Prop :=
  if ear.connected then ship.Follows u client ear.chunks frames
  else ship.handlers = .standard u ∧ frames = (ear.reading u).frames ∧
    ship.sessions[client]? = none

variable {u : KeyUnwrapper} {ship later : Ship} {client : ClientId} {call : Call} {ear : Ear}
  {chunks : List Bytes} {frames : List Frame}

/-! ## Calls that do not concern a client -/

theorem Change.undisturbed (H : ship.Consistent) (h : ship.Change call later)
    (hother : ¬ call.concerns client) :
    Option.Rel Session.Undisturbed ship.sessions[client]? later.sessions[client]? := by
  have hrefl (o : Option Session) : Option.Rel Session.Undisturbed o o := by
    cases o with
    | none => exact .none
    | some s => exact .some (.refl s)
  have hput {t : Session} (hne : t.id ≠ client) :
      Option.Rel Session.Undisturbed ship.sessions[client]? (ship.sessions.put t)[client]? := by
    rw [SessionTable.getElem?_put, if_neg hne]
    exact hrefl _
  have hne {id : ClientId} (hcall : call.concerns id) : id ≠ client := by
    rintro rfl
    exact hother hcall
  cases h with
  | calm h => exact h.sessions.mono (fun h => h.toUndisturbed) client
  | @hear id s t hcall hs hid =>
    have hid := hid.trans (H.keyed id s hs)
    exact hput (hid ▸ hne hcall)
  | @hangUp id hcall =>
    unfold after
    rw [kick_eq]
    cases hs : ship.sessions[id]? with
    | none => exact hrefl _
    | some s =>
      have hid := H.keyed id s hs ▸ hne hcall
      exact hput hid
  | drop hcall =>
    rw [Std.ExtTreeMap.getElem?_erase]
    simp only [compare_eq_iff_eq, hne hcall, if_false]
    exact hrefl _
  | @join s hcall =>
    have hid : call.concerns s.id := by
      cases call with
      | connect => exact Option.some.inj hcall.symm
      | _ => cases hcall
    exact hput (hne hid)
  | @move id s ref location zones objects hlive =>
    obtain ⟨hs, -⟩ := live?_eq_some.mp hlive
    dsimp only [putSession, withObjects, withZones]
    rw [SessionTable.getElem?_put]
    split
    · rename_i hid
      have hid : id = client := (H.keyed id s hs).symm.trans hid
      rw [← hid, hs]
      exact .some ⟨rfl, rfl, rfl, rfl⟩
    · exact hrefl _
  | create => exact hrefl _
  | addMap => exact hrefl _

/-- What does not concern a client leaves what is heard of it as it is. -/
theorem Attends.change (H : ship.Consistent) (h : ship.Attends u client ear frames)
    (hchange : ship.Change call later) (hother : ¬ call.concerns client) :
    later.Attends u client ear frames := by
  have hsame := hchange.undisturbed H hother
  unfold Attends at *
  split at h
  · rename_i hconnected
    obtain ⟨hhandlers, hframes, s, hs, hid, hlistens⟩ := h
    rw [hs] at hsame
    generalize hs' : later.sessions[client]? = o at hsame
    cases hsame with
    | some hr =>
      rw [if_pos hconnected]
      exact ⟨hchange.handlers.trans hhandlers, hframes, _, hs', hr.id.trans hid,
        hlistens.of_undisturbed hr⟩
  · rename_i hconnected
    obtain ⟨hhandlers, hframes, hnone⟩ := h
    rw [hnone] at hsame
    generalize later.sessions[client]? = o at hsame ⊢
    cases hsame with
    | none =>
      rw [if_neg hconnected]
      exact ⟨hchange.handlers.trans hhandlers, hframes, rfl⟩

theorem Attends.changes (H : ship.Consistent) (h : ship.Attends u client ear frames)
    (hchanges : ship.Changes call later) (hother : ¬ call.concerns client) :
    later.Attends u client ear frames := by
  induction hchanges with
  | refl => exact h
  | tail hfirst hlast ih => exact ih.change (H.changes hfirst) hlast hother

/-! ## Chunks -/

theorem Follows.takes_iff (H : ship.Follows u client chunks frames) (chunk : Bytes) :
    ship.takes client chunk = true ↔
      (Reading.ofBytes (plaintext u chunks)).unread.length + chunk.length ≤
        FrameBuffer.defaultCapacity := by
  obtain ⟨s, hs, -, hlistens⟩ := H.session
  rw [Ship.takes, hs, Option.any_some, Session.receive, ← hlistens.pending, ← hlistens.size,
    ← hlistens.capacity]
  by_cases hfits : s.inbox.bytes.size + chunk.length ≤ s.inbox.capacity
  · obtain ⟨b, hpush, -⟩ := FrameBuffer.push_of_le s.inCipher hfits
    rw [hpush]
    exact iff_of_true rfl hfits
  · rw [FrameBuffer.push_of_lt s.inCipher (Nat.not_le.mp hfits)]
    exact iff_of_false Bool.false_ne_true hfits

/-- A chunk that is refused changes nothing that is heard, as no frame is left. -/
theorem Follows.receive_refused (H : ship.Follows u client chunks frames) {chunk : Bytes}
    (hrefused : ship.takes client chunk ≠ true) (clock : UInt64) :
    (ship.receive client chunk clock).1 = [] ∧
      (ship.receive client chunk clock).2.Follows u client chunks frames := by
  obtain ⟨s, hs, hid, hlistens⟩ := H.session
  have hsame : (s.receive chunk).2 = s := by
    rw [Ship.takes, hs, Option.any_some] at hrefused
    unfold Session.receive at hrefused ⊢
    split at hrefused
    · exact absurd rfl hrefused
    · rfl
  -- no frame was left from before, so none is handled now
  have hnone : s.nextFrame? = none := by
    unfold Session.nextFrame?
    split
    · rfl
    · rename_i hopen
      have hclosed := hlistens.closed.symm.trans (eq_false_of_ne_true hopen)
      rw [FrameBuffer.next?_eq_none_iff.mpr (hlistens.pending ▸ Reading.split?_unread hclosed)]
  have hdone : ∀ ctx : Context, ctx.session = s → ctx.dispatchAll ship.handlers = ([], ctx) :=
    fun ctx hctx => Context.dispatchAll_of_none (hctx ▸ hnone)
  have hreceive := receive_eq hs chunk clock
  rw [hdone _ hsame, hsame] at hreceive
  dsimp only at hreceive
  rw [hreceive]
  have hcompact : s.compact.Listens u chunks := by
    refine ⟨hlistens.closed, ?_, hlistens.cipher, ?_, hlistens.capacity⟩
    · exact (FrameBuffer.pending_compact _).trans hlistens.pending
    · simp [Session.compact]
  exact ⟨rfl, H.handlers, H.frames, _, getElem?_put _ hid, hid, hcompact⟩

theorem Attends.receive (h : ship.Attends u client ear frames) (data : Bytes) (clock : UInt64) :
    (ship.receive client data clock).2.Attends u client (ear.hear u (.bytes data))
      (frames ++ (ship.receive client data clock).1) := by
  unfold Attends at h
  split at h
  · rename_i hconnected
    have htakes := h.takes_iff data
    by_cases hroom : (ear.reading u).unread.length + data.length ≤ FrameBuffer.defaultCapacity
    · have hfollows := h.receive (htakes.mpr hroom) clock
      rw [Ear.hear, if_pos ⟨hconnected, hroom⟩, Attends, if_pos hconnected]
      exact hfollows
    · obtain ⟨hframes, hfollows⟩ := h.receive_refused (fun h => hroom (htakes.mp h)) clock
      rw [Ear.hear, if_neg fun h => hroom h.2, hframes, List.append_nil, Attends, if_pos hconnected]
      exact hfollows
  · rename_i hconnected
    rw [receive_of_none h.2.2, List.append_nil, Ear.hear, if_neg fun h => hconnected h.1, Attends,
      if_neg hconnected]
    exact h

theorem Attends.disconnect (h : ship.Attends u client ear frames) :
    (ship.disconnect client).Attends u client (ear.hear u .disconnect) frames := by
  have hgone : (ship.disconnect client).handlers = ship.handlers ∧
      (ship.disconnect client).sessions[client]? = none := by
    unfold Ship.disconnect
    cases hs : ship.sessions[client]? with
    | none => exact ⟨rfl, hs⟩
    | some s => exact ⟨rfl, Std.ExtTreeMap.getElem?_erase_self⟩
  have hheard : ship.handlers = .standard u ∧ frames = (ear.reading u).frames := by
    unfold Attends at h
    split at h
    · exact ⟨h.handlers, h.frames⟩
    · exact ⟨h.1, h.2.1⟩
  rw [Ear.hear, Attends, if_neg Bool.false_ne_true]
  exact ⟨hgone.1.trans hheard.1, hheard.2, hgone.2⟩

/-! ## Runs -/

theorem not_concerns (hinput : call.input? client = none) (hkick : call ≠ .kick client)
    (hkickAll : call ≠ .kickAll) : ¬ call.concerns client := by
  cases call with
  | connect id | receive id | disconnect id =>
    rintro rfl
    rw [Call.input?, if_pos rfl] at hinput
    cases hinput
  | kick id =>
    rintro rfl
    exact hkick rfl
  | kickAll => exact fun _ => hkickAll rfl
  | _ => exact id

theorem handed_of_input?_none (ship : Ship) (hinput : call.input? client = none) :
    ship.handed client call = [] := by
  cases call with
  | receive id data clock =>
    by_cases hid : id = client
    · rw [Call.input?, if_pos hid] at hinput
      cases hinput
    · exact if_neg hid
  | _ => rfl

theorem Attends.perform (H : ship.Consistent) (h : ship.Attends u client ear frames)
    (hfresh : ship.Fresh call) (hnew : call.connection? = some client → ear = {})
    (hkick : call ≠ .kick client) (hkickAll : call ≠ .kickAll) :
    (ship.perform call).Attends u client ((call.input? client).elim ear (ear.hear u))
      (frames ++ ship.handed client call) := by
  cases hinput : call.input? client with
  | none =>
    rw [handed_of_input?_none ship hinput, List.append_nil]
    exact h.changes H (H.changes_perform hfresh) (not_concerns hinput hkick hkickAll)
  | some input =>
    cases call with
    | connect id address =>
      rw [Call.input?] at hinput
      split at hinput <;> cases hinput
      rename_i hid
      subst hid
      cases hnew rfl
      obtain ⟨hhandlers, hframes, -⟩ := h
      have hnil : frames = [] := by
        rw [hframes, Ear.reading, Reading.plaintext_nil, Reading.ofBytes_nil]
      rw [hnil]
      exact follows_connect hhandlers id address
    | receive id data clock =>
      rw [Call.input?] at hinput
      split at hinput <;> cases hinput
      rename_i hid
      subst hid
      rw [handed, if_pos rfl]
      exact h.receive data clock
    | disconnect id =>
      rw [Call.input?] at hinput
      split at hinput <;> cases hinput
      rename_i hid
      subst hid
      have hnone : ship.handed id (.disconnect id) = [] := rfl
      rw [hnone, List.append_nil]
      exact h.disconnect
    | _ => cases hinput

theorem Attends.flushDumps (H : ship.Consistent) (h : ship.Attends u client ear frames) :
    ship.flushDumps.Attends u client ear frames := by
  have hflushed : ship.Changes (.replaceDisk {}) ship.flushDumps :=
    .calm (flushed_flushDumps H.keyed).calm
  exact h.changes H hflushed id

/-- One call, heard with the ear of the client. -/
theorem Attends.step (H : ship.Consistent) (h : ship.Attends u client ear frames)
    (hfresh : ship.Fresh call) (hnew : call.connection? = some client → ear = {})
    (hkick : call ≠ .kick client) (hkickAll : call ≠ .kickAll) :
    (ship.step call).Attends u client ((call.input? client).elim ear (ear.hear u))
      (frames ++ ship.handed client call) := by
  rw [Ship.step]
  exact (h.perform H hfresh hnew hkick hkickAll).flushDumps (H.changes (H.changes_perform hfresh))

/-- What is taken in of what a client does. -/
def earOf (u : KeyUnwrapper) (client : ClientId) (calls : List Call) : Ear :=
  (inputs client calls).foldl (Ear.hear u) {}

variable {calls : List Call}

theorem foldl_inputs_cons (client : ClientId) (call : Call) (calls : List Call) (ear : Ear) :
    (inputs client (call :: calls)).foldl (Ear.hear u) ear =
      (inputs client calls).foldl (Ear.hear u) ((call.input? client).elim ear (ear.hear u)) := by
  unfold inputs
  rw [List.filterMap_cons]
  cases call.input? client <;> rfl

/-- Nothing is heard of a client before it connects. -/
theorem elim_input?_of_new (hother : call.connection? ≠ some client) :
    (call.input? client).elim ({} : Ear) (Ear.hear u {}) = {} := by
  cases call with
  | connect id =>
    have hid : id ≠ client := fun h => hother (congrArg some h)
    rw [Call.input?, if_neg hid, Option.elim_none]
  | receive id | disconnect id =>
    rw [Call.input?]
    split <;> rfl
  | _ => rfl

/-- A whole run, heard with the ear of the client. -/
theorem Attends.run (H : ship.Consistent) (h : ship.Attends u client ear frames)
    (hdistinct : ship.Distinct calls) (hnew : client ∈ connections calls → ear = {})
    (hstay : ∀ call ∈ calls, call ≠ .kick client ∧ call ≠ .kickAll) :
    (ship.run calls).Attends u client ((inputs client calls).foldl (Ear.hear u) ear)
      (frames ++ ship.framesOf client calls) := by
  induction calls generalizing ship ear frames with
  | nil =>
    rw [framesOf, List.append_nil]
    exact h
  | cons call calls ih =>
    obtain ⟨hkick, hkickAll⟩ := hstay call List.mem_cons_self
    have hnodup := hdistinct.nodup
    rw [connections_cons] at hnodup hnew
    have hfirst := h.step H hdistinct.first
      (fun hcall => hnew (by rw [hcall]; exact List.mem_cons_self)) hkick hkickAll
    have hlater := ih (H.changes (H.changes_step hdistinct.first)) hfirst (hdistinct.step H)
      (fun hmem => ?_) fun call hcall => hstay call (List.mem_cons_of_mem _ hcall)
    · rw [List.append_assoc] at hlater
      rw [foldl_inputs_cons]
      exact hlater
    · -- a client that connects later has not been heard yet
      cases hnew (List.mem_append_right _ hmem)
      refine elim_input?_of_new fun hcall => ?_
      rw [hcall] at hnodup
      exact (List.nodup_cons.mp hnodup).1 hmem

theorem attends_run (u : KeyUnwrapper) (resources : String) (dumpRoot : Option DiskPath)
    (disk : Disk) (client : ClientId) (hnodup : (connections calls).Nodup)
    (hstay : ∀ call ∈ calls, call ≠ .kick client ∧ call ≠ .kickAll) :
    let ship := start u resources dumpRoot disk
    (ship.run calls).Attends u client (earOf u client calls) (ship.framesOf client calls) := by
  have hstart : (start u resources dumpRoot disk).Attends u client {} [] := by
    refine ⟨rfl, ?_, Std.ExtTreeMap.getElem?_empty⟩
    rw [Ear.reading, Reading.plaintext_nil, Reading.ofBytes_nil]
  exact hstart.run (consistent_start ..) (.start hnodup) (fun _ => rfl) hstay

/-- The frames, and what is kept of what is heard, follow from what the ear has taken in. -/
theorem Attends.unique {ship' : Ship} {frames' : List Frame} (h : ship.Attends u client ear frames)
    (h' : ship'.Attends u client ear frames') :
    frames = frames' ∧ ship.hearing? client = ship'.hearing? client ∧
      frames = (ear.reading u).frames := by
  unfold Attends at h h'
  unfold hearing?
  split at h
  · rename_i hconnected
    rw [if_pos hconnected] at h'
    obtain ⟨-, hframes, s, hs, -, hlistens⟩ := h
    obtain ⟨-, hframes', s', hs', -, hlistens'⟩ := h'
    have hinbox : s.inbox = s'.inbox := FrameBuffer.ext_of_compact
      (hlistens.pending.trans hlistens'.pending.symm) hlistens.size hlistens'.size
      (hlistens.capacity.trans hlistens'.capacity.symm)
    rw [hs, hs', Option.map_some, Option.map_some, hinbox, hlistens.cipher, hlistens'.cipher,
      hlistens.closed, hlistens'.closed]
    exact ⟨hframes.trans hframes'.symm, rfl, hframes⟩
  · rename_i hconnected
    rw [if_neg hconnected] at h'
    obtain ⟨-, hframes, hnone⟩ := h
    obtain ⟨-, hframes', hnone'⟩ := h'
    rw [hnone, hnone']
    exact ⟨hframes.trans hframes'.symm, rfl, hframes⟩

/-- **What is heard of a client** does not depend on the others. In two runs in which a client does
the same on its connection, and is not kicked, the same frames are handed to handlers for it, and
the same is kept of what was heard. The frames are those that are read from its own bytes, and each
is taken when the handler of the one before it is done. -/
theorem hearing_run (u : KeyUnwrapper) (client : ClientId) (resources resources' : String)
    (dumpRoot dumpRoot' : Option DiskPath) (disk disk' : Disk) (calls calls' : List Call)
    (hnodup : (connections calls).Nodup) (hnodup' : (connections calls').Nodup)
    (hstay : ∀ call ∈ calls, call ≠ .kick client ∧ call ≠ .kickAll)
    (hstay' : ∀ call ∈ calls', call ≠ .kick client ∧ call ≠ .kickAll)
    (hsame : inputs client calls = inputs client calls') :
    let ship := start u resources dumpRoot disk
    let ship' := start u resources' dumpRoot' disk'
    ship.framesOf client calls = ship'.framesOf client calls' ∧
      (ship.run calls).hearing? client = (ship'.run calls').hearing? client ∧
      ship.framesOf client calls = ((earOf u client calls).reading u).frames ∧
      ∀ (before after : List Call) (data : Bytes) (clock : UInt64) (s : Session),
        calls = before ++ .receive client data clock :: after →
        (ship.run before).sessions[client]? = some s →
        let mid := ship.run before
        ∃ done, (mid.opened client s data clock).Handled mid.handlers
            (mid.receive client data clock).1 done ∧
          done.session.nextFrame? = none ∧
          (mid.receive client data clock).2 =
            mid.putBack { done with session := done.session.compact } := by
  have h := attends_run u resources dumpRoot disk client hnodup hstay
  have h' := attends_run u resources' dumpRoot' disk' client hnodup' hstay'
  rw [earOf, ← hsame, ← earOf] at h'
  obtain ⟨hframes, hhearing, hread⟩ := Attends.unique h h'
  refine ⟨hframes, hhearing, hread, fun before _ data clock s _ hs => ?_⟩
  intro mid
  have hreceive := receive_eq hs data clock
  obtain ⟨hhandled, hnone⟩ := (mid.opened client s data clock).handled_dispatchAll mid.handlers
  exact ⟨_, hreceive ▸ hhandled, hnone, congrArg Prod.snd hreceive⟩

/-- A client that answers a ping is heard alike alone and beside a client that logs out. -/
theorem hearing_run_ping :
    let ping : Frame := { opcode := Opcode.Client.pingResponse }
    let logout : Frame := { opcode := Opcode.Client.logout }
    let ship := start .plain ""
    let calls : List Call := [.connect 1 ⟨.v4 127 0 0 1, 50000, 0⟩,
      .connect 2 ⟨.v4 127 0 0 1, 50001, 0⟩, .receive 2 logout.toBytes 4, .receive 1 ping.toBytes 7,
      .kick 2]
    let calls' : List Call :=
      [.connect 1 ⟨.v4 127 0 0 2, 50002, 0⟩, .receive 1 ping.toBytes 9]
    (connections calls).Nodup ∧ (connections calls').Nodup ∧
      (∀ call ∈ calls, call ≠ .kick 1 ∧ call ≠ .kickAll) ∧
      (∀ call ∈ calls', call ≠ .kick 1 ∧ call ≠ .kickAll) ∧
      inputs 1 calls = inputs 1 calls' ∧
      ship.framesOf 1 calls = [ping] ∧ ship.framesOf 1 calls' = [ping] ∧
      (ship.run calls).hearing? 1 = (ship.run calls').hearing? 1 := by
  intro ping logout ship calls calls'
  have hnodup : (connections calls).Nodup := by decide
  have hnodup' : (connections calls').Nodup := by decide
  have hstay : ∀ call ∈ calls, call ≠ .kick 1 ∧ call ≠ .kickAll := by simp [calls]
  have hstay' : ∀ call ∈ calls', call ≠ .kick 1 ∧ call ≠ .kickAll := by simp [calls']
  have hsame : inputs 1 calls = inputs 1 calls' := rfl
  obtain ⟨hframes, hhearing, hread, -⟩ :=
    hearing_run .plain 1 "" "" none none {} {} calls calls' hnodup hnodup' hstay hstay' hsame
  have hbytes : Reading.ofBytes [ping.toBytes].flatten = ⟨[ping], false, []⟩ := by
    have hsplit : Frame.split? [ping.toBytes].flatten = some (ping, []) := by decide +kernel
    rw [Reading.ofBytes_of_some hsplit (by decide), Reading.ofBytes_nil]
  have hear : earOf .plain 1 calls = ⟨[ping.toBytes], true⟩ := by
    have hinputs : inputs 1 calls = [.connect, .bytes ping.toBytes] := rfl
    have hroom : (Ear.reading .plain ⟨[], true⟩).unread.length + ping.toBytes.length ≤
        FrameBuffer.defaultCapacity := by
      rw [Ear.reading, Reading.plaintext_nil, Reading.ofBytes_nil]
      decide +kernel
    rw [earOf, hinputs, List.foldl_cons, List.foldl_cons, List.foldl_nil]
    exact if_pos ⟨rfl, hroom⟩
  have hping : ship.framesOf 1 calls = [ping] := by
    have hkey : Reading.exchange? .plain [ping] = none := by decide +kernel
    rw [hread, hear, Ear.reading, Reading.plaintext_of_none (hbytes ▸ hkey), hbytes]
  exact ⟨hnodup, hnodup', hstay, hstay', hsame, hping, hframes.symm.trans hping, hhearing⟩

end Ship

end GameShip
