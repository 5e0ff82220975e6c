import GameShip.Proofs.Ship.Traffic

/-!
# One key stream for each direction

On a ship with the standard handlers no byte of a key stream is met by two bytes of the same
direction, whatever the clients and the operator do (`Ship.keyStream_run`).
-/

namespace GameShip

open Session (Use)

/-- A client that has agreed on a key cannot do so again. -/
theorem Handler.handle_alreadyDone {u : KeyUnwrapper} {ctx : Context} {h : Handler}
    (hget : (HandlerTable.standard u).get? Opcode.Client.keyExchange = some h)
    (hencrypted : ctx.session.encrypted = true) (flags : PacketFlags) (payload : Bytes) :
    h.handle ctx flags payload = (.error (.keyExchange .alreadyDone), ctx) := by
  obtain rfl : Handler.keyExchange u = h := Option.some.inj hget
  have hrun : runKeyExchange u ctx payload = .error (.keyExchange .alreadyDone) :=
    if_pos hencrypted
  rw [handle_eq, note_eq rfl, run, hrun]

namespace Session

variable {s t : Session} {uses : List Use}

/-- There is a key exactly if one has been agreed on. -/
theorem Becomes.encrypted_iff (h : s.Becomes uses t) (hplain : s.encrypted = false) :
    t.encrypted = true ↔ ∃ key, Use.agree key ∈ uses := by
  rw [← encrypted_eq h.line]
  constructor
  · intro hencrypted
    by_contra hnone
    have hkept := flow_kept (s := s) fun key hmem => hnone ⟨key, hmem⟩
    have hcipher : s.inCipher = none := by simpa [encrypted] using hplain
    rw [hcipher] at hkept
    obtain ⟨-, hlater⟩ := Prod.mk.inj hkept
    rw [encrypted, hlater] at hencrypted
    cases hencrypted
  · rintro ⟨key, hmem⟩
    obtain ⟨before, after, rfl⟩ := List.append_of_mem hmem
    rw [useAll_append]
    exact encrypted_useAll (s := (s.useAll before).setKey key) rfl after

end Session

namespace Ship

/-- **One key stream for each direction.** What has become of the line of a client in the course of
any calls is what the log of the run says. There is a key exactly if one has been agreed on. Until
then there was none, no other is agreed on before or after it, and it stays. From then on each
direction goes through its key stream once, from the beginning. Another key exchange fails and
changes nothing. -/
theorem keyStream_run (u : KeyUnwrapper) (resources : String) (dumpRoot : Option DiskPath)
    (disk : Disk) (calls : List Call) (client : ClientId) (t : Session)
    (hnodup : (connections calls).Nodup)
    (ht : ((start u resources dumpRoot disk).run calls).sessions[client]? = some t) :
    let ship := start u resources dumpRoot disk
    let uses := ship.usesOf client calls
    ((Session.new client).useAll uses).line = t.line ∧
      (t.encrypted = true ↔ ∃ key, Use.agree key ∈ uses) ∧
      (∀ before key after, uses = before ++ .agree key :: after →
        let s := (Session.new client).useAll before
        s.encrypted = false ∧ (∀ other, Use.agree other ∉ before ∧ Use.agree other ∉ after) ∧
          (∀ first, first <+: after → ((s.setKey key).useAll first).encrypted = true) ∧
          (s.setKey key).Streams key after) ∧
      (∀ first last s, calls = first ++ last → (ship.run first).sessions[client]? = some s →
        s.encrypted = true → t.encrypted = true) ∧
      ∀ (ctx : Context) (h : Handler) (flags : PacketFlags) (payload : Bytes),
        (HandlerTable.standard u).get? Opcode.Client.keyExchange = some h →
          ctx.session.encrypted = true →
            h.handle ctx flags payload = (.error (.keyExchange .alreadyDone), ctx) := by
  intro ship uses
  have H := consistent_start u resources dumpRoot disk
  have hdistinct : ship.Distinct calls := .start hnodup
  have hbecomes := becomes_run H hdistinct ht
  have hnone : ship.sessions[client]? = none := Std.ExtTreeMap.getElem?_empty
  rw [hnone, Option.getD_none] at hbecomes
  refine ⟨hbecomes.line, hbecomes.encrypted_iff rfl, ?_, ?_, ?_⟩
  · intro before key after huses s
    have hfits : (Session.new client).Fits (before ++ .agree key :: after) := huses ▸ hbecomes.fits
    obtain ⟨hplain, honce⟩ := hfits.agree_once
    refine ⟨hplain, honce, fun first _ => Session.encrypted_useAll rfl first, ?_⟩
    exact Session.streams_of_notMem rfl rfl fun other => (honce other).2
  · rintro first last s rfl hs hencrypted
    have hlater : ((ship.run first).run last).sessions[client]? = some t :=
      ship.run_append first last ▸ ht
    have hlog := becomes_run (H.run hdistinct.left) (hdistinct.run H) hlater
    rw [hs, Option.getD_some] at hlog
    rw [← Session.encrypted_eq hlog.line]
    exact Session.encrypted_useAll hencrypted _
  · intro ctx h flags payload hget hencrypted
    exact Handler.handle_alreadyDone hget hencrypted flags payload

/-- A client that sends its key is answered with the key stream of this key. -/
theorem keyStream_run_zeroKeyFrame :
    let calls : List Call :=
      [.connect 1 ⟨.v4 127 0 0 1, 50000, 0⟩, .receive 1 zeroKeyFrame.toBytes 4]
    let ship := start .plain ""
    (connections calls).Nodup ∧ ∃ t, (ship.run calls).sessions[(1 : ClientId)]? = some t ∧
      t.encrypted = true ∧ ∃ before key after, ship.usesOf 1 calls = before ++ .agree key :: after ∧
        (((Session.new 1).useAll before).setKey key).Streams key after := by
  intro calls ship
  have hnodup : (connections calls).Nodup := by decide
  have hsession : (ship.run calls).sessions[(1 : ClientId)]?.map (·.encrypted) = some true := by
    decide +kernel
  obtain ⟨t, ht, hencrypted⟩ := Option.map_eq_some_iff.mp hsession
  have h := keyStream_run .plain "" none {} calls 1 t hnodup ht
  obtain ⟨key, hmem⟩ := h.2.1.mp hencrypted
  obtain ⟨before, after, huses⟩ := List.append_of_mem hmem
  exact ⟨hnodup, t, ht, hencrypted, before, key, after, huses,
    (h.2.2.1 before key after huses).2.2.2⟩

end Ship

end GameShip
