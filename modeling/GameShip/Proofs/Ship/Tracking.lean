import GameShip.Proofs.Movement.Packed
import GameShip.Proofs.Ship.Standard

/-!
# Where a character is taken to be

* `Tracked`: the eleven numbers of a session that movement updates change.
* `Tracked.told`, `Tracked.latest`: what an update, or the last of several, says about such a
  number.
* `MovementField.carried?`: the bytes of a field in the body of an update.
* `tracking_dispatch`: each number is as the last update that announces it says.
-/

namespace GameShip

/-- A number of a session that movement updates change. The last position comes in the fields whose
meaning is not known. -/
inductive Tracked where
  | timestamp
  | rotationX
  | rotationY
  | rotationZ
  | rotationW
  | positionX
  | positionY
  | positionZ
  | lastX
  | lastY
  | lastZ
  deriving DecidableEq, Repr

namespace Tracked

/-- The field that brings the number. -/
def field : Tracked → MovementField
  | timestamp => .timestamp
  | rotationX => .rotationX
  | rotationY => .rotationY
  | rotationZ => .rotationZ
  | rotationW => .rotationW
  | positionX => .positionX
  | positionY => .positionY
  | positionZ => .positionZ
  | lastX => .unknownX
  | lastY => .unknownY
  | lastZ => .unknownZ

/-- The bits of the number. -/
def bits (s : Session) : Tracked → Nat
  | timestamp => s.movementTimestamp.toNat
  | rotationX => s.location.rotation.x.bits.toNat
  | rotationY => s.location.rotation.y.bits.toNat
  | rotationZ => s.location.rotation.z.bits.toNat
  | rotationW => s.location.rotation.w.bits.toNat
  | positionX => s.location.position.x.bits.toNat
  | positionY => s.location.position.y.bits.toNat
  | positionZ => s.location.position.z.bits.toNat
  | lastX => s.lastPosition.x.bits.toNat
  | lastY => s.lastPosition.y.bits.toNat
  | lastZ => s.lastPosition.z.bits.toNat

/-- What the body of an update says about the number: nothing if it is no update or does not
announce the field. -/
def told (c : Tracked) (body : Bytes) : Option Nat :=
  match PackedMovement.ofBytes body with
  | .ok (m, _) => if m.flags.has c.field then some (c.field.bits m.record) else none
  | .error _ => none

/-- What the last of several updates that says anything about the number says. -/
def latest (c : Tracked) (bodies : List Bytes) : Option Nat := bodies.reverse.findSome? c.told

theorem latest_cons (c : Tracked) (body : Bytes) (bodies : List Bytes) :
    c.latest (body :: bodies) = (c.latest bodies).or (c.told body) := by
  rw [latest, List.reverse_cons, List.findSome?_append, List.findSome?_singleton, latest]

/-- An update that is taken over changes the numbers that it announces. -/
theorem bits_applyMovement (c : Tracked) (s : Session) (m : PackedMovement) :
    c.bits (s.applyMovement m) =
      if m.flags.has c.field then c.field.bits m.record else c.bits s := by
  cases c with
  | timestamp => exact apply_ite UInt32.toNat _ _ _
  | rotationX | rotationY | rotationZ | rotationW | positionX | positionY | positionZ
  | lastX | lastY | lastZ => exact apply_ite (fun x : Single => x.bits.toNat) _ _ _

end Tracked

/-! ## The bytes of a field -/

/-- The bytes of a field in the body of an update, if the body is one and announces it. -/
def MovementField.carried? (f : MovementField) (body : Bytes) : Option Bytes :=
  let flags := MovementFlags.ofBody body
  let size := PackedMovement.prologueSize + flags.encodedLength
  if PackedMovement.prologueSize ≤ body.length ∧ size ≤ body.length then
    (parts flags.short flags.announced
      ((body.take size).drop PackedMovement.prologueSize)).lookup f
  else none

/-- A field of an update is announced exactly if there are bytes for it, and is as these say. -/
theorem PackedMovement.bits_ofFields (f : MovementField) {flags : MovementFlags} {fields : Bytes}
    (hlength : fields.length = flags.encodedLength) :
    (if flags.has f then some (f.bits (ofFields flags fields).record) else none) =
      ((MovementField.parts flags.short flags.announced fields).lookup f).map
        fun bytes => f.received (Bytes.value bytes) := by
  have hfst := MovementField.map_fst_parts flags.short flags.announced fields
  cases hlookup : (MovementField.parts flags.short flags.announced fields).lookup f with
  | none =>
    have hmissing : ¬flags.has f = true := fun hhas => by
      rw [← MovementFlags.mem_announced_iff, ← hfst, List.mem_map] at hhas
      obtain ⟨part, hpart, rfl⟩ := hhas
      simpa using List.lookup_eq_none_iff.mp hlookup part hpart
    rw [if_neg hmissing, Option.map_none]
  | some bytes =>
    obtain ⟨before, after, hparts, -⟩ := List.lookup_eq_some_iff.mp hlookup
    have hpart : (f, bytes) ∈ MovementField.parts flags.short flags.announced fields := by
      rw [hparts]
      exact List.mem_append_right _ List.mem_cons_self
    have hhas : flags.has f = true := by
      rw [← MovementFlags.mem_announced_iff, ← hfst]
      exact List.mem_map_of_mem hpart
    have hbytes :=
      MovementField.length_of_mem_parts (hlength.trans flags.encodedLength_eq) hpart
    rw [if_pos hhas, bits_ofFields_of_mem hpart hbytes, Option.map_some]

/-- What an update says about a number is what the bytes of its field say. -/
theorem Tracked.told_eq (c : Tracked) (body : Bytes) :
    c.told body =
      (c.field.carried? body).map fun bytes => c.field.received (Bytes.value bytes) := by
  unfold told MovementField.carried?
  dsimp only
  by_cases hbody : PackedMovement.prologueSize ≤ body.length ∧
      PackedMovement.prologueSize + (MovementFlags.ofBody body).encodedLength ≤ body.length
  · have hread := PackedMovement.ofBytes_take hbody.2
      (body.drop (PackedMovement.prologueSize + (MovementFlags.ofBody body).encodedLength))
    rw [List.take_append_drop] at hread
    rw [hread, if_pos hbody]
    refine PackedMovement.bits_ofFields c.field ?_
    rw [List.length_drop, List.length_take_of_le hbody.2, Nat.add_sub_cancel_left]
    rfl
  · obtain ⟨e, herror⟩ := PackedMovement.ofBytes_of_short hbody
    rw [herror, if_neg hbody, Option.map_none]

variable {u : KeyUnwrapper} {ctx : Context} {frame : Frame}

/-! ## One update after the other -/

namespace HandlerTable

/-- An update is taken over if it can be read, and leaves the session alone otherwise. -/
theorem session_movement (hopcode : frame.opcode = Opcode.Client.movement) :
    ((standard u).dispatch ctx frame).session =
      match PackedMovement.ofBytes frame.payload with
      | .ok (m, _) => ctx.session.applyMovement m
      | .error _ => ctx.session := by
  have hget : (standard u).get? frame.opcode = some .movement := by
    rw [hopcode]
    rfl
  unfold dispatch
  rw [hget]
  dsimp only
  rw [Handler.handle_eq]
  simp only [Handler.run, Handler.note]
  cases PackedMovement.ofBytes frame.payload with
  | ok decoded => exact Context.session_broadcast _ _
  | error e => rfl

/-- An update makes each number what it says about it. -/
theorem bits_movement (hopcode : frame.opcode = Opcode.Client.movement) (c : Tracked) :
    c.bits ((standard u).dispatch ctx frame).session =
      (c.told frame.payload).getD (c.bits ctx.session) := by
  rw [session_movement hopcode, Tracked.told]
  cases PackedMovement.ofBytes frame.payload with
  | ok decoded =>
    dsimp only
    rw [c.bits_applyMovement]
    split <;> rfl
  | error e => rfl

end HandlerTable

namespace Context

variable {frames : List Frame}

/-- Updates change nothing of a session but where its character is taken to be. -/
theorem session_updates (hupdates : ∀ frame ∈ frames, frame.opcode = Opcode.Client.movement) :
    ∃ location lastPosition movementTimestamp,
      (frames.foldl (HandlerTable.standard u).dispatch ctx).session =
        { ctx.session with location, lastPosition, movementTimestamp } := by
  induction frames generalizing ctx with
  | nil => exact ⟨_, _, _, rfl⟩
  | cons frame frames ih =>
    obtain ⟨hframe, hupdates⟩ := List.forall_mem_cons.mp hupdates
    have hfirst : ∃ location lastPosition movementTimestamp,
        ((HandlerTable.standard u).dispatch ctx frame).session =
          { ctx.session with location, lastPosition, movementTimestamp } := by
      rw [HandlerTable.session_movement hframe]
      split
      · exact ⟨_, _, _, rfl⟩
      · exact ⟨_, _, _, rfl⟩
    obtain ⟨_, _, _, hsession⟩ := hfirst
    obtain ⟨location, lastPosition, movementTimestamp, hlater⟩ :=
      @ih ((HandlerTable.standard u).dispatch ctx frame) hupdates
    refine ⟨location, lastPosition, movementTimestamp, ?_⟩
    rw [List.foldl_cons, hlater, hsession]

/-- After updates each number is as the last one that says anything about it says. -/
theorem bits_updates (hupdates : ∀ frame ∈ frames, frame.opcode = Opcode.Client.movement)
    (c : Tracked) :
    c.bits (frames.foldl (HandlerTable.standard u).dispatch ctx).session =
      (c.latest (frames.map Frame.payload)).getD (c.bits ctx.session) := by
  induction frames generalizing ctx with
  | nil => rfl
  | cons frame frames ih =>
    obtain ⟨hframe, hupdates⟩ := List.forall_mem_cons.mp hupdates
    rw [List.foldl_cons, ih hupdates, HandlerTable.bits_movement hframe, List.map_cons,
      Tracked.latest_cons, Option.getD_or]

end Context

/-- **Where a character is taken to be**. After any movement updates, some of which may be
malformed, each number is as the last one that announces it says, which is what the bytes of its
field stand for, and as it was if there is none. Nothing else of the session changes. What an update
makes of a number depends on the bytes of its field alone, not on the other fields that come with
it. -/
theorem tracking_dispatch (u : KeyUnwrapper) :
    (∀ (ctx : Context) (frames : List Frame),
      (∀ frame ∈ frames, frame.opcode = Opcode.Client.movement) →
      let later := (frames.foldl (HandlerTable.standard u).dispatch ctx).session
      (∀ c : Tracked,
        c.bits later = (c.latest (frames.map Frame.payload)).getD (c.bits ctx.session)) ∧
      ∃ location lastPosition movementTimestamp,
        later = { ctx.session with location, lastPosition, movementTimestamp }) ∧
    (∀ (c : Tracked) (body : Bytes), c.told body =
      (c.field.carried? body).map fun bytes => c.field.received (Bytes.value bytes)) ∧
    ∀ (c : Tracked) (ctx ctx' : Context) (frame frame' : Frame),
      frame.opcode = Opcode.Client.movement → frame'.opcode = Opcode.Client.movement →
      c.bits ctx.session = c.bits ctx'.session →
      c.field.carried? frame.payload = c.field.carried? frame'.payload →
      c.bits ((HandlerTable.standard u).dispatch ctx frame).session =
        c.bits ((HandlerTable.standard u).dispatch ctx' frame').session := by
  refine ⟨fun ctx frames hupdates =>
    ⟨Context.bits_updates hupdates, Context.session_updates hupdates⟩, Tracked.told_eq, ?_⟩
  intro c ctx ctx' frame frame' hframe hframe' hbits hcarried
  rw [HandlerTable.bits_movement hframe, HandlerTable.bits_movement hframe', c.told_eq, c.told_eq,
    hbits, hcarried]

/-- The first update brings a time stamp and a position, the second is cut short, and the third
brings a last position and a position again. -/
theorem tracking_dispatch_lobby :
    let update (payload : Bytes) : Frame := { opcode := Opcode.Client.movement, payload }
    let stamped := update [0, 0, 0, 0, 0, 0, 0x40, 0x08, 0, 7, 0, 0, 0, 0x00, 0x3C]
    let short := update [0, 0, 0, 0, 0, 0, 0x40, 0, 0, 9]
    let moved := update [0, 0, 0, 0, 0, 0, 0, 0x88, 0, 0x00, 0x40, 0x00, 0xC0, 0xFF]
    let alone := update [0, 0, 0, 0, 0, 0, 0, 0x08, 0, 0x00, 0x40]
    let frames := [stamped, short, moved]
    let ctx : Context := ⟨.new 1, {}, .new "", 0, []⟩
    let later := (frames.foldl (HandlerTable.standard .plain).dispatch ctx).session
    (∀ frame ∈ frames, frame.opcode = Opcode.Client.movement) ∧
      Tracked.timestamp.bits later = 7 ∧ Tracked.positionX.bits later = 0x40000000 ∧
      Tracked.lastX.bits later = 0xC0000000 ∧ Tracked.positionY.bits later = 0 ∧
      Tracked.positionX.field.carried? moved.payload =
        Tracked.positionX.field.carried? alone.payload ∧
      Tracked.positionX.bits ((HandlerTable.standard .plain).dispatch ctx moved).session =
        Tracked.positionX.bits ((HandlerTable.standard .plain).dispatch ctx alone).session := by
  intro update stamped short moved alone frames ctx later
  have hupdates : ∀ frame ∈ frames, frame.opcode = Opcode.Client.movement := by
    simp [frames, stamped, short, moved, update]
  obtain ⟨hfollows, -, hindependent⟩ := tracking_dispatch .plain
  obtain ⟨hbits, -⟩ := hfollows ctx frames hupdates
  have hcarried : Tracked.positionX.field.carried? moved.payload =
      Tracked.positionX.field.carried? alone.payload := by decide
  refine ⟨hupdates, (hbits .timestamp).trans (by decide), (hbits .positionX).trans (by decide),
    (hbits .lastX).trans (by decide), (hbits .positionY).trans (by decide), hcarried, ?_⟩
  exact hindependent .positionX ctx ctx moved alone rfl rfl rfl hcarried

end GameShip
