import GameShip.Proofs.Movement.Record
import GameShip.Proofs.Ship.Relay

/-!
# How a movement ends

The record that ends a movement is passed on in its normal form.

* `Frame.ending`: the frame that others receive.
* `Context.HandsOn`: a frame is handed to those whom another one reaches, and nothing else happens.
* `ending_dispatch`: which records are passed on, and what their bytes come to.
-/

namespace GameShip

/-- The frame that tells others how a movement ended, from the record that the mover sent. -/
def Frame.ending (payload : Bytes) : Frame where
  opcode := Opcode.Server.movementEnd
  flags := .objectRelated
  payload := MovementRecord.ending payload

/-- The frame `out` is handed once to each session that `frame` reaches. Nothing else changes. -/
structure Context.HandsOn (ctx : Context) (frame out : Frame) (later : Context) : Prop where
  reached : ∀ (id : ClientId) (s : Session), ctx.others[id]? = some s →
    frame.Reaches ctx.session s → later.others[id]? = some (s.sendFrame out)
  spared : ∀ (id : ClientId) (s : Session), ctx.others[id]? = some s →
    ¬frame.Reaches ctx.session s → later.others[id]? = some s
  nobody : ∀ id : ClientId, ctx.others[id]? = none → later.others[id]? = none
  rest : later = { ctx with others := later.others }

namespace Context

/-- A broadcast hands one frame to all whom a frame of the movement family reaches. -/
theorem handsOn_broadcast (ctx : Context) {frame out : Frame}
    (hrelays : frame.Relays ctx.session fun _ => some out) :
    ctx.HandsOn frame out (ctx.broadcast (·.sendFrame out)) := by
  have hothers : ∀ id : ClientId, (ctx.broadcast (·.sendFrame out)).others[id]? =
      ctx.others[id]?.map (·.offered (ctx.session.heardFrom fun _ => some out)) := fun id => by
    rw [← (SessionTable.deliver_of_perm (.refl _) id).2,
      ← ctx.others_broadcast (fun _ => some out) (.refl _)]
    rfl
  refine {
    reached := fun id s hs hreaches => ?_
    spared := fun id s hs hspared => ?_
    nobody := fun id hnone => by rw [hothers, hnone, Option.map_none]
    rest := ?_ }
  · obtain ⟨given, hgiven⟩ :=
      Option.isSome_iff_exists.mp (hrelays.isSome_heardFrom_iff.mpr hreaches)
    cases Frame.Relays.eq_of_heardFrom hgiven
    rw [hothers, hs, Option.map_some, Session.offered, hgiven]
  · have hnone : ctx.session.heardFrom (fun _ => some out) s = none :=
      Option.not_isSome_iff_eq_none.mp (mt hrelays.isSome_heardFrom_iff.mp hspared)
    rw [hothers, hs, Option.map_some, Session.offered, hnone]
  · unfold broadcast
    split <;> rfl

end Context

namespace HandlerTable

variable {u : KeyUnwrapper} {frame : Frame}

theorem rejects_movementEnd (hopcode : frame.opcode = Opcode.Client.movementEnd) (ctx : Context) :
    (standard u).rejects ctx frame = true ↔ frame.payload.length < MovementRecord.size := by
  have hget : (standard u).get? frame.opcode = some .movementEnd := by
    rw [hopcode]
    rfl
  unfold rejects
  rw [hget, ← Nat.not_le]
  dsimp only
  rw [Handler.handle_eq]
  simp only [Handler.run]
  cases hread : MovementRecord.read.run frame.payload with
  | ok d =>
    have hlength := (MovementRecord.run_read_eq_ok_iff.mp hread).1
    refine ⟨fun hfalse => ?_, fun hshort => absurd hlength hshort⟩
    cases hfalse
  | error e =>
    refine ⟨fun _ hlength => ?_, fun _ => rfl⟩
    rw [MovementRecord.run_read_eq_ok_iff.mpr ⟨hlength, rfl⟩] at hread
    cases hread

/-- A record that is long enough is passed on in its normal form. -/
theorem handsOn_movementEnd (hopcode : frame.opcode = Opcode.Client.movementEnd) (ctx : Context)
    (hlength : MovementRecord.size ≤ frame.payload.length) :
    ctx.HandsOn frame (.ending frame.payload) ((standard u).dispatch ctx frame) := by
  obtain ⟨opcode, flags, flags2, payload⟩ := frame
  obtain rfl : opcode = Opcode.Client.movementEnd := hopcode
  dsimp only at hlength ⊢
  have hread := MovementRecord.run_read_eq_ok_iff.mpr ⟨hlength, rfl⟩
  have hok :
      (standard u).rejects ctx ⟨Opcode.Client.movementEnd, flags, flags2, payload⟩ = false := by
    rw [← Bool.not_eq_true, rejects_movementEnd rfl]
    exact Nat.not_lt_of_le hlength
  have hrelays : Frame.Relays ctx.session ⟨Opcode.Client.movementEnd, flags, flags2, payload⟩
      fun _ => some (.ending payload) := by
    rw [Frame.ending, ← MovementRecord.toBytes_normalized_ofBytes hlength]
    exact .movementEnd hread
  have hrun := run_of_not_rejects (h := .movementEnd) rfl hok
  simp only [Handler.run, hread, Except.ok.injEq] at hrun
  rw [← hrun, MovementRecord.toBytes_normalized_ofBytes hlength]
  exact ctx.handsOn_broadcast hrelays

end HandlerTable

/-- **How a movement ends**. A record fails exactly if it is too short. Any other is passed on in
its normal form, which is as long as a record, and which comes out again if it is sent itself. -/
theorem ending_dispatch (u : KeyUnwrapper) (ctx : Context) (frame : Frame)
    (hopcode : frame.opcode = Opcode.Client.movementEnd) :
    ((HandlerTable.standard u).rejects ctx frame = true ↔ frame.payload.length < 56) ∧
      (56 ≤ frame.payload.length →
        (MovementRecord.ending frame.payload).length = 56 ∧
        ctx.HandsOn frame (.ending frame.payload) ((HandlerTable.standard u).dispatch ctx frame) ∧
        ∀ (ctx' : Context) (again : Frame), again.opcode = Opcode.Client.movementEnd →
          again.payload = MovementRecord.ending frame.payload →
          (HandlerTable.standard u).rejects ctx' again = false ∧
          ctx'.HandsOn again (.ending frame.payload)
            ((HandlerTable.standard u).dispatch ctx' again)) := by
  refine ⟨HandlerTable.rejects_movementEnd hopcode ctx, fun hlength => ?_⟩
  have hsize := MovementRecord.length_ending hlength
  refine ⟨hsize, HandlerTable.handsOn_movementEnd hopcode ctx hlength,
    fun ctx' again hagain hpayload => ?_⟩
  have hlong : MovementRecord.size ≤ again.payload.length := by rw [hpayload, hsize]
  have hsame : Frame.ending again.payload = .ending frame.payload := by
    rw [Frame.ending, hpayload, MovementRecord.ending_ending hlength, Frame.ending]
  refine ⟨?_, hsame ▸ HandlerTable.handsOn_movementEnd hagain ctx' hlong⟩
  rw [← Bool.not_eq_true, HandlerTable.rejects_movementEnd hagain]
  exact Nat.not_lt_of_le hlong

/-- The player beside the sender receives a record that names its entity in both places. It was sent
with a time stamp, a signalling NaN and a byte too many. -/
theorem ending_dispatch_lobby :
    let player (id : ClientId) : Session :=
      { Session.new id with character := some ⟨1, "Ash"⟩, map := some ⟨"lobby", "lobby"⟩ }
    let ctx : Context := ⟨player 1, SessionTable.put {} (player 2), .new "", 0, []⟩
    let entity : Bytes := [9, 0, 0, 0, 0, 0, 0, 0, 6, 0, 2, 0]
    let unknown : Bytes := [5, 0, 0, 0, 0, 0, 0, 0, 1, 0, 2, 0, 0, 0]
    let frame : Frame :=
      { opcode := Opcode.Client.movementEnd
        payload := Bytes.zeros 8 ++ [4, 0, 1, 0] ++ entity ++ [1, 2, 3, 4] ++ [1, 0x7C] ++
          Bytes.zeros 12 ++ unknown ++ [0xFF] }
    frame.opcode = Opcode.Client.movementEnd ∧ 56 ≤ frame.payload.length ∧
      MovementRecord.ending frame.payload =
        entity ++ entity ++ Bytes.zeros 4 ++ [1, 0x7E] ++ Bytes.zeros 12 ++ unknown ∧
      ((HandlerTable.standard .plain).dispatch ctx frame).others[(2 : ClientId)]? =
        some ((player 2).sendFrame (.ending frame.payload)) := by
  intro player ctx entity unknown frame
  have hlength : 56 ≤ frame.payload.length := by decide
  have hash : ctx.others[(2 : ClientId)]? = some (player 2) := by
    simp [ctx, player, SessionTable.getElem?_put, Session.new]
  have hdispatch := ((ending_dispatch .plain ctx frame rfl).2 hlength).2.1
  refine ⟨rfl, hlength, by decide, hdispatch.reached 2 _ hash ?_⟩
  exact ⟨by decide, ⟨_, rfl, rfl⟩, rfl, rfl, fun hupdate => absurd hupdate (by decide)⟩

end GameShip
