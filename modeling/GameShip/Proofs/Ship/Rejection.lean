import GameShip.Proofs.Ship.Step

/-!
# Frames that come to nothing

A frame for which there is no handler, or whose handler fails, changes nothing at all. So the frames
of a session that come to nothing could as well not have been sent.

* `HandlerTable.rejects`, `Ship.rejects`: a frame comes to nothing.
* `Ship.dispatch`, `Ship.dispatchEach`: frames are handed to their handlers.
* `Ship.accepted`: the frames among them that do not come to nothing.
-/

namespace GameShip

namespace Handler

/-- The handler keeps a journal of its own, in which it notes also what it then fails to do. -/
def keepsJournal : Handler → Bool
  | .recorder _ _ => true
  | _ => false

variable {h : Handler} {ctx : Context} {flags : PacketFlags} {payload : Bytes}

theorem note_eq (hjournal : h.keepsJournal = false) : h.note ctx flags payload = ctx := by
  cases h with
  | recorder => cases hjournal
  | _ => rfl

/-- A handler that fails has changed nothing. -/
theorem snd_handle_of_error {e : HandlerError} (hjournal : h.keepsJournal = false)
    (hfail : (h.handle ctx flags payload).1 = .error e) :
    (h.handle ctx flags payload).2 = ctx := by
  rw [handle_eq, note_eq hjournal] at hfail ⊢
  split at hfail
  · cases hfail
  · rfl

end Handler

namespace HandlerTable

/-- A frame comes to nothing: it has no handler, or its handler fails. -/
def rejects (t : HandlerTable) (ctx : Context) (frame : Frame) : Bool :=
  match t.get? frame.opcode with
  | some h => !(h.handle ctx frame.flags frame.payload).1.isOk
  | none => true

theorem keepsJournal_of_get? {u : KeyUnwrapper} {opcode : Opcode} {h : Handler}
    (hget : (standard u).get? opcode = some h) : h.keepsJournal = false := by
  have hall : ∀ entry ∈ (standard u).entries, entry.2.keepsJournal = false := by
    simp [standard, Handler.keepsJournal]
  obtain ⟨_, _, hentries, -⟩ := List.lookup_eq_some_iff.mp hget
  exact hall (opcode, h) (by simp [hentries])

theorem dispatch_of_rejects {u : KeyUnwrapper} {ctx : Context} {frame : Frame}
    (hrejects : (standard u).rejects ctx frame = true) : (standard u).dispatch ctx frame = ctx := by
  unfold rejects at hrejects
  unfold dispatch
  cases hget : (standard u).get? frame.opcode with
  | none => rfl
  | some h =>
    rw [hget] at hrejects
    cases hresult : (h.handle ctx frame.flags frame.payload).1 with
    | ok => simp [hresult, Except.isOk, Except.toBool] at hrejects
    | error e => exact Handler.snd_handle_of_error (keepsJournal_of_get? hget) hresult

theorem keyed_dispatch (t : HandlerTable) {ctx : Context} (hkeyed : ctx.others.Keyed)
    (frame : Frame) : (t.dispatch ctx frame).others.Keyed := by
  obtain hstays | ⟨journal, hclosed⟩ := t.dispatch_stays ctx frame
  · exact hstays.others.keyed (fun h => h.id) hkeyed
  · rw [hclosed]
    exact hkeyed

end HandlerTable

namespace Ship

/-- What a handler sees when a frame of a session is handed to it. -/
def taken (ship : Ship) (s : Session) (clock : UInt64) : Context where
  session := s
  others := ship.sessions.erase s.id
  world := ship.world
  clock
  journal := ship.journal

/-- Hands a frame of a session to its handler, if there is such a session. -/
def dispatch (ship : Ship) (id : ClientId) (clock : UInt64) (frame : Frame) : Ship :=
  match ship.withSession id clock fun ctx => ((), ship.handlers.dispatch ctx frame) with
  | some ((), later) => later
  | none => ship

/-- A frame of a session comes to nothing. -/
def rejects (ship : Ship) (id : ClientId) (clock : UInt64) (frame : Frame) : Bool :=
  match ship.withSession id clock fun ctx => (ship.handlers.rejects ctx frame, ctx) with
  | some (rejected, _) => rejected
  | none => true

/-- Hands frames of a session to their handlers, each at its time. -/
def dispatchEach (ship : Ship) (id : ClientId) (frames : List (UInt64 × Frame)) : Ship :=
  frames.foldl (fun ship (clock, frame) => ship.dispatch id clock frame) ship

/-- Those of the frames of a session that do not come to nothing when all of them are handed to
their handlers. -/
def accepted (ship : Ship) (id : ClientId) : List (UInt64 × Frame) → List (UInt64 × Frame)
  | [] => []
  | (clock, frame) :: frames =>
    let rest := (ship.dispatch id clock frame).accepted id frames
    if ship.rejects id clock frame then rest else (clock, frame) :: rest

variable {ship : Ship} {u : KeyUnwrapper} {id : ClientId} {clock : UInt64} {frame : Frame}

theorem dispatch_eq {s : Session} (hs : ship.sessions[id]? = some s) (hid : s.id = id) :
    ship.dispatch id clock frame =
      ship.putBack (ship.handlers.dispatch (ship.taken s clock) frame) := by
  unfold dispatch withSession taken
  rw [hs, hid]
  rfl

theorem handlers_dispatch : (ship.dispatch id clock frame).handlers = ship.handlers := by
  unfold dispatch withSession
  cases ship.sessions[id]? <;> rfl

theorem keyed_dispatch (hkeyed : ship.sessions.Keyed) :
    (ship.dispatch id clock frame).sessions.Keyed := by
  cases hs : ship.sessions[id]? with
  | none =>
    unfold dispatch withSession
    rw [hs]
    exact hkeyed
  | some s =>
    rw [dispatch_eq hs (hkeyed id s hs)]
    have hothers : (ship.handlers.dispatch (ship.taken s clock) frame).others.Keyed :=
      ship.handlers.keyed_dispatch (hkeyed.erase s.id) frame
    exact hothers.put _

theorem dispatch_of_rejects (hstandard : ship.handlers = .standard u)
    (hkeyed : ship.sessions.Keyed) (hrejects : ship.rejects id clock frame = true) :
    ship.dispatch id clock frame = ship := by
  cases hs : ship.sessions[id]? with
  | none =>
    unfold dispatch withSession
    rw [hs]
  | some s =>
    have hid := hkeyed id s hs
    rw [dispatch_eq hs hid, hstandard]
    have hrejects' : (HandlerTable.standard u).rejects (ship.taken s clock) frame = true := by
      unfold rejects withSession at hrejects
      rw [hs, hstandard] at hrejects
      unfold taken
      rw [hid]
      exact hrejects
    rw [HandlerTable.dispatch_of_rejects hrejects']
    unfold putBack taken
    dsimp only
    rw [SessionTable.put_erase (hid ▸ hs) rfl]

theorem dispatchEach_cons (ship : Ship) (id : ClientId) (clock : UInt64) (frame : Frame)
    (frames : List (UInt64 × Frame)) : ship.dispatchEach id ((clock, frame) :: frames) =
      (ship.dispatch id clock frame).dispatchEach id frames := rfl

theorem dispatchEach_accepted (hstandard : ship.handlers = .standard u)
    (hkeyed : ship.sessions.Keyed) (id : ClientId) (frames : List (UInt64 × Frame)) :
    ship.dispatchEach id (ship.accepted id frames) = ship.dispatchEach id frames := by
  induction frames generalizing ship with
  | nil => rfl
  | cons first frames ih =>
    obtain ⟨clock, frame⟩ := first
    have hrest : (ship.dispatch id clock frame).dispatchEach id _ = _ :=
      ih (handlers_dispatch.trans hstandard) (keyed_dispatch hkeyed)
    rw [accepted, dispatchEach_cons]
    by_cases hrejects : ship.rejects id clock frame = true
    · rw [if_pos hrejects]
      rw [dispatch_of_rejects hstandard hkeyed hrejects] at hrest ⊢
      exact hrest
    · rw [if_neg hrejects, dispatchEach_cons]
      exact hrest

/-- **Frames that come to nothing.** A frame for which there is no handler, or whose handler fails,
leaves the session, the other sessions and the world as they were. So a ship is the same after the
frames of a session and after those of them alone that do not come to nothing. -/
theorem rejection_dispatch (u : KeyUnwrapper) :
    (∀ (ctx : Context) (frame : Frame), (HandlerTable.standard u).rejects ctx frame = true →
      (HandlerTable.standard u).dispatch ctx frame = ctx) ∧
    ∀ (ship : Ship) (id : ClientId) (frames : List (UInt64 × Frame)),
      ship.handlers = .standard u → ship.sessions.Keyed →
        ship.dispatchEach id (ship.accepted id frames) = ship.dispatchEach id frames :=
  ⟨fun _ _ hrejects => HandlerTable.dispatch_of_rejects hrejects,
    fun _ id frames hstandard hkeyed => dispatchEach_accepted hstandard hkeyed id frames⟩

/-- With an unwrapper that refuses every blob, a key exchange comes to nothing, and so do a movement
that is cut short and a frame of an unknown kind. The question for the time between them is all
that is left. -/
theorem rejection_dispatch_refused :
    let u : KeyUnwrapper := fun _ => none
    let ship := (start u "").run [.connect 1 ⟨.v4 127 0 0 1, 50000, 0⟩]
    let cut : Frame :=
      { opcode := Opcode.Client.movement, payload := [0, 0, 0, 0, 0, 0, 64, 0, 0, 7] }
    let unknown : Frame := { opcode := ⟨0xFF, 0xFF⟩ }
    let time : Frame := { opcode := Opcode.Client.clientTime, payload := Bytes.zeros 8 }
    let refused : Frame :=
      { opcode := Opcode.Client.keyExchange, payload := Bytes.zeros keyBlobSize }
    let ctx := ship.taken (.new 1) 0
    (HandlerTable.standard u).rejects ctx refused = true ∧
      (HandlerTable.standard u).dispatch ctx refused = ctx ∧
      ship.handlers = .standard u ∧ ship.sessions.Keyed ∧
      ship.dispatchEach 1 [(4, time)] =
        ship.dispatchEach 1 [(2, cut), (3, unknown), (4, time), (5, refused)] := by
  intro u ship cut unknown time refused ctx
  have hrefused : (HandlerTable.standard u).rejects ctx refused = true := by decide +kernel
  have hkeyed : ship.sessions.Keyed := (consistent_run u "" none {} (by decide)).keyed
  have hstandard : ship.handlers = .standard u :=
    (consistent_start u "" none {}).handlers_run (.start (by decide))
  have haccepted : ship.accepted 1 [(2, cut), (3, unknown), (4, time), (5, refused)] =
    [(4, time)] := by decide +kernel
  have h := rejection_dispatch u
  refine ⟨hrefused, h.1 ctx refused hrefused, hstandard, hkeyed, ?_⟩
  have hframes := h.2 ship 1 [(2, cut), (3, unknown), (4, time), (5, refused)] hstandard hkeyed
  rwa [haccepted] at hframes

end Ship

end GameShip
