import GameShip.Bytes

/-!
# The send queue

Bytes that wait until a connection can take them.

* `SendQueue.push`: takes in bytes, whole or not at all.
* `SendQueue.egress`: hands bytes to a connection, which answers each write in its own way.
-/

namespace GameShip

/-- A bounded queue of bytes that wait to be sent. -/
structure SendQueue where
  capacity : Nat
  /-- The bytes that wait, the one that came last first, so that adding to them copies none. -/
  latest : Bytes
  /-- The number of bytes that wait. -/
  length : Nat
  length_eq : length = latest.length
  length_le : length ≤ capacity

/-- Bytes did not fit into a send queue. -/
structure QueueFull where
  queued : Nat
  incoming : Nat
  deriving DecidableEq, Repr

/-- Says how much there was and how much came. -/
def QueueFull.message (e : QueueFull) : String :=
  "write queue is full (" ++ toString e.queued ++ " queued, " ++ toString e.incoming ++ " incoming)"

/-- How a connection answers one write. -/
inductive WriteOutcome where
  /-- It takes at most so many bytes. -/
  | accepts (limit : Nat)
  /-- It was interrupted and is to be asked again. -/
  | interrupted
  /-- It can take nothing now. -/
  | wouldBlock
  /-- It is broken. -/
  | broken
  deriving DecidableEq, Repr

/-- Why handing bytes to a connection ended badly. -/
inductive EgressError where
  /-- The connection took no bytes although it was ready: it is lost. -/
  | writeZero
  | brokenPipe
  deriving DecidableEq, Repr

/-- What came of handing bytes to a connection. -/
structure Egress where
  /-- The bytes the connection took. -/
  accepted : Bytes := []
  /-- The bytes that are still to be sent. -/
  rest : Bytes
  /-- What each write was given. -/
  offered : List Bytes := []
  error : Option EgressError := none
  deriving DecidableEq, Repr

/-- Writes `pending` to a connection that answers as listed, and with `wouldBlock` after that. -/
def Egress.run : (pending : Bytes) → List WriteOutcome → Egress
  | [], _ => { rest := [] }
  | b :: bs, [] => { rest := b :: bs, offered := [b :: bs] }
  | b :: bs, .accepts 0 :: _ =>
    { rest := b :: bs, offered := [b :: bs], error := some .writeZero }
  | b :: bs, .accepts (limit + 1) :: outcomes =>
    let later := run (bs.drop limit) outcomes
    { later with
      accepted := b :: bs.take limit ++ later.accepted
      offered := (b :: bs) :: later.offered }
  | b :: bs, .interrupted :: outcomes =>
    let later := run (b :: bs) outcomes
    { later with offered := (b :: bs) :: later.offered }
  | b :: bs, .wouldBlock :: _ => { rest := b :: bs, offered := [b :: bs] }
  | b :: bs, .broken :: _ => { rest := b :: bs, offered := [b :: bs], error := some .brokenPipe }

/-- What is still to be sent is no more than there was. -/
theorem Egress.length_rest_le (pending : Bytes) (outcomes : List WriteOutcome) :
    (run pending outcomes).rest.length ≤ pending.length := by
  induction outcomes generalizing pending with
  | nil => cases pending <;> simp [run]
  | cons outcome outcomes ih =>
    cases pending with
    | nil => simp [run]
    | cons b bs =>
      match outcome with
      | .accepts 0 => simp [run]
      | .accepts (limit + 1) =>
        have := ih (bs.drop limit)
        simp only [run, List.length_drop, List.length_cons] at *
        omega
      | .interrupted => exact ih (b :: bs)
      | .wouldBlock => simp [run]
      | .broken => simp [run]

namespace SendQueue

/-- The capacity of the send queue of a session. -/
def defaultCapacity : Nat := 1024 * 1024

/-- A queue without any bytes. -/
def empty (capacity : Nat := defaultCapacity) : SendQueue where
  capacity
  latest := []
  length := 0
  length_eq := rfl
  length_le := Nat.zero_le capacity

instance : Inhabited SendQueue := ⟨.empty⟩

/-- The bytes that wait, in the order in which they came. -/
def toList (q : SendQueue) : Bytes := q.latest.reverse

@[simp] theorem length_toList (q : SendQueue) : q.toList.length = q.length := by
  rw [toList, List.length_reverse, q.length_eq]

/-- Takes in bytes, or refuses the whole of them. -/
def push (q : SendQueue) (bytes : Bytes) : Except QueueFull SendQueue :=
  if h : q.length + bytes.length ≤ q.capacity then
    .ok { q with
      latest := bytes.reverseAux q.latest
      length := q.length + bytes.length
      length_eq := by
        rw [List.reverseAux_eq, List.length_append, List.length_reverse, q.length_eq]
        exact Nat.add_comm ..
      length_le := h }
  else .error ⟨q.length, bytes.length⟩

/-- Hands the bytes that wait to a connection that answers as listed. What the connection took
leaves the queue, also when the last write went wrong. -/
def egress (q : SendQueue) (outcomes : List WriteOutcome) : Egress × SendQueue :=
  let report := Egress.run q.toList outcomes
  (report,
    { q with
      latest := report.rest.reverse
      length := report.rest.length
      length_eq := List.length_reverse.symm
      length_le :=
        Nat.le_trans (q.length_toList ▸ Egress.length_rest_le q.toList outcomes) q.length_le })

/-- Bytes that are taken in come after those that waited. -/
theorem toList_push {q q' : SendQueue} {bytes : Bytes} (h : q.push bytes = .ok q') :
    q'.toList = q.toList ++ bytes := by
  unfold push at h
  split at h
  · cases h
    simp [toList, List.reverseAux_eq]
  · cases h

/-- What is left after handing bytes out waits in the same order. -/
@[simp] theorem toList_egress (q : SendQueue) (outcomes : List WriteOutcome) :
    (q.egress outcomes).2.toList = (Egress.run q.toList outcomes).rest := by
  simp [egress, toList]

/-- Hands all the bytes that wait to a connection that takes everything. -/
def drain (q : SendQueue) : Bytes × SendQueue :=
  let (report, q) := q.egress [.accepts q.length]
  (report.accepted, q)

end SendQueue

end GameShip
