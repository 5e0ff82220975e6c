import GameShip.Proofs.Session.Reading
import GameShip.Ship.Basic

/-!
# What the standard handlers do to a session

Of the standard handlers only two change how a session goes on to hear its client: a logout closes
it, and the first good key exchange gives it its ciphers (`HandlerTable.dispatch_standard`). The
others leave it undisturbed.
-/

namespace GameShip

/-- A session that goes on to hear its client as another does. -/
structure Session.Undisturbed (s t : Session) : Prop where
  id : t.id = s.id
  closed : t.closed = s.closed
  cipher : t.inCipher = s.inCipher
  inbox : t.inbox = s.inbox

namespace Session.Undisturbed

theorem refl (s : Session) : Undisturbed s s := ⟨rfl, rfl, rfl, rfl⟩

theorem record (s : Session) (opcode : Opcode) (direction : Direction) (frame : Bytes) :
    Undisturbed s (s.record opcode direction frame) := ⟨rfl, rfl, rfl, rfl⟩

theorem sendFrame (s : Session) (frame : Frame) : Undisturbed s (s.sendFrame frame) := by
  unfold Session.sendFrame send recordSent enqueue
  dsimp only
  repeat' split
  all_goals exact ⟨rfl, rfl, rfl, rfl⟩

theorem applyMovement (s : Session) (m : PackedMovement) : Undisturbed s (s.applyMovement m) :=
  ⟨rfl, rfl, rfl, rfl⟩

end Session.Undisturbed

theorem Reader.run_bytes (count : Nat) (body : Bytes) :
    (Reader.bytes count).run body =
      if count ≤ body.length then .ok (body.take count) else .error (.endedAt 0) := by
  unfold ReadM.run Reader.bytes ReadM.exactly Reader.ofBytes
  by_cases h : count ≤ body.length
  · have htake : (body.take count).length = count := List.length_take_of_le h
    simp only [htake, if_true, h]
  · have htake : (body.take count).length ≠ count := by
      rw [List.length_take]
      omega
    simp only [htake, if_false, h]

namespace Handler

/-- The handlers that leave the session undisturbed. -/
def quiet : Handler → Bool
  | .keyExchange _ | .logout | .recorder _ _ => false
  | _ => true

variable {ctx ctx' : Context} {flags : PacketFlags} {payload : Bytes}

theorem run_undisturbed {h : Handler} (hquiet : h.quiet = true)
    (hrun : h.run ctx flags payload = .ok ctx') : ctx.session.Undisturbed ctx'.session := by
  cases h with
  | keyExchange | logout | recorder => cases hquiet
  | ping =>
    cases hrun
    exact .refl _
  | zeroReply =>
    cases hrun
    exact .sendFrame ..
  | clientTime =>
    simp only [run] at hrun
    split at hrun <;> cases hrun
    exact .sendFrame ..
  | movement =>
    simp only [run] at hrun
    split at hrun <;> cases hrun
    rw [Context.session_broadcast]
    exact .applyMovement ..
  | movementEnd | actionUpdate =>
    simp only [run] at hrun
    split at hrun <;> cases hrun
    rw [Context.session_broadcast]
    exact .refl _
  | movementAction =>
    simp only [run] at hrun
    repeat' split at hrun
    all_goals cases hrun
    rw [Context.session_broadcast]
    exact .refl _

theorem handle_undisturbed {h : Handler} (hquiet : h.quiet = true) (ctx : Context)
    (flags : PacketFlags) (payload : Bytes) :
    ctx.session.Undisturbed (h.handle ctx flags payload).2.session := by
  rw [handle_eq]
  split
  · rename_i ctx' hrun
    simpa using run_undisturbed hquiet hrun
  · rw [session_note]
    exact .refl _

theorem handle_keyExchange (u : KeyUnwrapper) :
    (handle (.keyExchange u) ctx flags payload).2 =
      match runKeyExchange u ctx payload with
      | .ok later => later
      | .error _ => ctx := by
  rw [handle_eq]
  simp only [run, note]
  cases runKeyExchange u ctx payload with
  | error e => rfl
  | ok later => rfl

/-- A key exchange succeeds if there is no key yet and the frame brings one. -/
theorem runKeyExchange_cases (u : KeyUnwrapper) (ctx : Context) {frame : Frame}
    (hopcode : frame.opcode = Opcode.Client.keyExchange) :
    ((∃ cipher, ctx.session.inCipher = some cipher) ∨ frame.sessionKey? u = none) ∧
        (∃ e, runKeyExchange u ctx frame.payload = .error e) ∨
      ∃ key reply, ctx.session.inCipher = none ∧ frame.sessionKey? u = some key ∧
        runKeyExchange u ctx frame.payload =
          .ok ({ ctx with session := ctx.session.setKey key }.reply reply) := by
  unfold runKeyExchange Frame.sessionKey? Session.encrypted
  rw [Reader.run_bytes]
  cases ctx.session.inCipher with
  | some cipher => exact .inl ⟨.inl ⟨cipher, rfl⟩, _, rfl⟩
  | none =>
    by_cases hlength : keyBlobSize ≤ frame.payload.length
    · rw [if_pos hlength, if_pos ⟨hopcode, hlength⟩]
      dsimp only
      cases u (frame.payload.take keyBlobSize) with
      | none => exact .inl ⟨.inr rfl, _, rfl⟩
      | some material => exact .inr ⟨_, _, rfl, rfl, rfl⟩
    · rw [if_neg hlength, if_neg fun h => hlength h.2]
      exact .inl ⟨.inr rfl, _, rfl⟩

/-- The first good key exchange gives the session its ciphers, and any other changes nothing. -/
theorem session_keyExchange (u : KeyUnwrapper) (ctx : Context) {frame : Frame}
    (hopcode : frame.opcode = Opcode.Client.keyExchange) :
    let later := (handle (.keyExchange u) ctx frame.flags frame.payload).2.session
    later.id = ctx.session.id ∧ later.closed = ctx.session.closed ∧
      later.inCipher = ctx.session.inCipher.or ((frame.sessionKey? u).map Rc4.ofKey) := by
  rw [handle_keyExchange]
  obtain ⟨hrefused, e, hrun⟩ | ⟨key, reply, hnone, hkey, hrun⟩ := runKeyExchange_cases u ctx hopcode
  · rw [hrun]
    refine ⟨rfl, rfl, ?_⟩
    obtain ⟨cipher, hcipher⟩ | hkey := hrefused
    · rw [hcipher]
      rfl
    · rw [hkey, Option.map_none, Option.or_none]
  · have hsent := Session.Undisturbed.sendFrame (ctx.session.setKey key) reply
    rw [hrun, hnone, hkey]
    exact ⟨hsent.id, hsent.closed, hsent.cipher⟩

end Handler

namespace HandlerTable

theorem quiet_of_get? {u : KeyUnwrapper} {opcode : Opcode} {h : Handler}
    (hget : (standard u).get? opcode = some h) (hkey : opcode ≠ Opcode.Client.keyExchange)
    (hlogout : opcode ≠ Opcode.Client.logout) : h.quiet = true := by
  have hall : ∀ entry ∈ (standard u).entries, entry.1 = Opcode.Client.keyExchange ∨
      entry.1 = Opcode.Client.logout ∨ entry.2.quiet = true := by
    simp [standard, Handler.quiet]
  obtain ⟨_, _, hentries, -⟩ := List.lookup_eq_some_iff.mp hget
  obtain h | h | h := hall (opcode, h) (by simp [hentries])
  · exact absurd h hkey
  · exact absurd h hlogout
  · exact h

/-- What a standard handler does to how the session hears its client. -/
theorem dispatch_standard (u : KeyUnwrapper) (ctx : Context) (frame : Frame) :
    let later := ((standard u).dispatch ctx frame).session
    later.id = ctx.session.id ∧
      later.closed = (ctx.session.closed || decide (frame.opcode = Opcode.Client.logout)) ∧
      later.inCipher = ctx.session.inCipher.or ((frame.sessionKey? u).map Rc4.ofKey) := by
  by_cases hkey : frame.opcode = Opcode.Client.keyExchange
  · have hdispatch : (standard u).dispatch ctx frame =
        (Handler.handle (.keyExchange u) ctx frame.flags frame.payload).2 := by
      simp only [dispatch, hkey]
      rfl
    have hlogout : frame.opcode ≠ Opcode.Client.logout := by
      rw [hkey]
      decide
    simpa only [hdispatch, hlogout, decide_false, Bool.or_false] using
      Handler.session_keyExchange u ctx hkey
  · rw [Frame.sessionKey?, if_neg fun h => hkey h.1]
    by_cases hlogout : frame.opcode = Opcode.Client.logout
    · have hdispatch : (standard u).dispatch ctx frame = ctx.closeSession := by
        simp only [dispatch, hlogout]
        rfl
      simp [hdispatch, hlogout, Context.closeSession, World.detach, Session.close]
    · have hsame : ctx.session.Undisturbed ((standard u).dispatch ctx frame).session := by
        unfold dispatch
        split
        · rename_i h hget
          exact Handler.handle_undisturbed (quiet_of_get? hget hkey hlogout) ..
        · exact .refl _
      simp [hsame.id, hsame.closed, hsame.cipher, hlogout]

end HandlerTable

end GameShip
