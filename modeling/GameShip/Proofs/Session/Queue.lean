import GameShip.SendQueue

/-!
# What becomes of the bytes in a send queue

Every byte that a queue accepts is taken by a connection once and in its turn, or still waits
(`SendQueue.conservation_run`). This holds also if a write goes wrong.

* `WriteOutcome.takes`: what a connection takes of the bytes that it is given.
* `Egress.loop`: how far the writes get, counted in bytes of the whole queue.
* `SendQueue.Call`, `SendQueue.run`: uses of a queue, and what can be seen of them.
-/

namespace GameShip

def WriteOutcome.takes : WriteOutcome → Bytes → Bytes
  | .accepts limit, bytes => bytes.take limit
  | .interrupted, _ | .wouldBlock, _ | .broken, _ => []

namespace Egress

/-- What each write takes of what it is given. -/
def takings (report : Egress) (outcomes : List WriteOutcome) : List Bytes :=
  report.offered.zipWith (fun bytes outcome => outcome.takes bytes) outcomes

/-- The writes go on from an offset in the whole of the queue until all of it is written. Gives how
far they got, unless one of them goes wrong, and the queue without all that was taken. -/
def loop (queue : Bytes) : (written : Nat) → List WriteOutcome → Except EgressError Nat × Bytes
  | written, [] => (.ok written, queue.drop written)
  | written, outcome :: outcomes =>
    if written < queue.length then
      match outcome with
      | .accepts limit =>
        let count := min limit (queue.length - written)
        if count = 0 then (.error .writeZero, queue.drop written)
        else loop queue (written + count) outcomes
      | .interrupted => loop queue written outcomes
      | .wouldBlock => (.ok written, queue.drop written)
      | .broken => (.error .brokenPipe, queue.drop written)
    else (.ok written, queue.drop written)

/-- What is answered if the writes began at an offset. -/
def answerFrom (written : Nat) (report : Egress) : Except EgressError Nat :=
  match report.error with
  | none => .ok (written + report.accepted.length)
  | some e => .error e

variable (pending : Bytes) (outcomes : List WriteOutcome)

theorem accepted_append_rest :
    (run pending outcomes).accepted ++ (run pending outcomes).rest = pending := by
  induction outcomes generalizing pending with
  | nil => cases pending <;> rfl
  | cons outcome outcomes ih =>
    cases pending with
    | nil => rfl
    | cons b bs =>
      match outcome with
      | .accepts 0 | .wouldBlock | .broken => rfl
      | .accepts (limit + 1) =>
        have := ih (bs.drop limit)
        simp only [run, List.cons_append, List.append_assoc, this, List.take_append_drop]
      | .interrupted => exact ih (b :: bs)

theorem rest_run_accepts (limit : Nat) (h : pending.length ≤ limit) :
    (run pending (.accepts limit :: outcomes)).rest = [] := by
  match pending, limit with
  | [], _ => rfl
  | b :: bs, limit + 1 =>
    rw [List.length_cons, Nat.add_le_add_iff_right] at h
    simp only [run, List.drop_eq_nil_of_le h]

/-- What is accepted in all is what the single writes take. -/
theorem flatten_takings :
    ((run pending outcomes).takings outcomes).flatten = (run pending outcomes).accepted := by
  induction outcomes generalizing pending with
  | nil => cases pending <;> rfl
  | cons outcome outcomes ih =>
    cases pending with
    | nil => rfl
    | cons b bs =>
      match outcome with
      | .accepts 0 | .wouldBlock | .broken => rfl
      | .accepts (limit + 1) => exact congrArg (b :: bs.take limit ++ ·) (ih (bs.drop limit))
      | .interrupted => exact ih (b :: bs)

/-- Each write is given what the writes before it have left. -/
theorem take_takings_append {n : Nat} {bytes : Bytes}
    (h : (run pending outcomes).offered[n]? = some bytes) :
    (((run pending outcomes).takings outcomes).take n).flatten ++ bytes = pending := by
  induction outcomes generalizing pending n with
  | nil =>
    cases pending with
    | nil => cases h
    | cons b bs =>
      cases n with
      | zero =>
        cases h
        rfl
      | succ n => cases h
  | cons outcome outcomes ih =>
    cases pending with
    | nil => cases h
    | cons b bs =>
      cases n with
      | zero =>
        have hfirst : (run (b :: bs) (outcome :: outcomes)).offered[0]? = some (b :: bs) := by
          match outcome with
          | .accepts 0 | .accepts (_ + 1) | .interrupted | .wouldBlock | .broken => rfl
        rw [hfirst] at h
        cases h
        rfl
      | succ n =>
        match outcome with
        | .accepts 0 | .wouldBlock | .broken => cases h
        | .accepts (limit + 1) =>
          have hrest := ih (bs.drop limit) h
          calc
            _ = b :: bs.take limit ++ ((((run (bs.drop limit) outcomes).takings outcomes).take
                  n).flatten ++ bytes) := List.append_assoc ..
            _ = b :: bs := by rw [hrest, List.cons_append, List.take_append_drop]
        | .interrupted => exact ih (b :: bs) h

/-- The loop over the whole queue comes to what the writes from its offset on come to. -/
theorem loop_eq (queue : Bytes) (written : Nat) : loop queue written outcomes =
    (answerFrom written (run (queue.drop written) outcomes),
      (run (queue.drop written) outcomes).rest) := by
  induction outcomes generalizing written with
  | nil => cases h : queue.drop written <;> simp [loop, run, answerFrom, h]
  | cons outcome outcomes ih =>
    cases hdrop : queue.drop written with
    | nil =>
      rw [loop.eq_def]
      dsimp only
      rw [if_neg (Nat.not_lt.mpr (List.drop_eq_nil_iff.mp hdrop)), hdrop]
      rfl
    | cons b bs =>
      have hlength := congrArg List.length hdrop
      rw [List.length_drop, List.length_cons] at hlength
      rw [loop.eq_def]
      dsimp only
      rw [if_pos (by omega), hdrop]
      cases outcome with
      | accepts limit =>
        cases limit with
        | zero =>
          dsimp only
          rw [Nat.zero_min, if_pos rfl]
          rfl
        | succ limit =>
          have hcount : min (limit + 1) (queue.length - written) = min limit bs.length + 1 := by
            rw [hlength, Nat.add_min_add_right]
          have hrest : queue.drop (written + (min limit bs.length + 1)) = bs.drop limit := by
            rw [← List.drop_drop, hdrop, List.drop_succ_cons, ← List.drop_eq_drop_min]
          dsimp only
          rw [hcount, if_neg (Nat.succ_ne_zero _), ih, hrest, run]
          simp only [answerFrom, List.length_append, List.length_cons, List.length_take]
          split
          · congr 2
            omega
          · rfl
      | interrupted =>
        dsimp only
        rw [ih, hdrop]
        rfl
      | wouldBlock => rfl
      | broken => rfl

end Egress

namespace SendQueue

variable {q q' : SendQueue} {bytes : Bytes}

theorem isOk_push : (q.push bytes).isOk = decide (q.length + bytes.length ≤ q.capacity) := by
  unfold push
  split <;> simp [Except.isOk, Except.toBool, *]

theorem capacity_push (h : q.push bytes = .ok q') : q'.capacity = q.capacity := by
  unfold push at h
  split at h <;> cases h
  rfl

/-- A use of a send queue. Each time bytes are handed out this may be to another connection. -/
inductive Call where
  | push (bytes : Bytes)
  | egress (outcomes : List WriteOutcome)
  deriving DecidableEq, Repr

/-- What went into a queue and came out of it. -/
structure Traffic where
  /-- The chunks that were accepted. -/
  accepted : List Bytes := []
  /-- The bytes that connections took. -/
  taken : Bytes := []
  deriving DecidableEq, Repr

def step (q : SendQueue) : Call → Traffic × SendQueue
  | .push bytes =>
    match q.push bytes with
    | .ok later => ({ accepted := [bytes] }, later)
    | .error _ => ({}, q)
  | .egress outcomes => ({ taken := (q.egress outcomes).1.accepted }, (q.egress outcomes).2)

def run (q : SendQueue) : List Call → Traffic × SendQueue
  | [] => ({}, q)
  | call :: calls =>
    let (first, q) := q.step call
    let (later, q) := q.run calls
    (⟨first.accepted ++ later.accepted, first.taken ++ later.taken⟩, q)

variable (q) in
/-- One use keeps the balance of what waits, what came and what was taken. -/
theorem step_conserves (call : Call) :
    q.toList ++ (q.step call).1.accepted.flatten = (q.step call).1.taken ++ (q.step call).2.toList ∧
      (q.step call).2.capacity = q.capacity := by
  cases call with
  | push bytes =>
    rw [step]
    cases h : q.push bytes with
    | error e => exact ⟨List.append_nil _, rfl⟩
    | ok later =>
      refine ⟨?_, capacity_push h⟩
      rw [List.flatten_singleton]
      exact (toList_push h).symm
  | egress outcomes =>
    refine ⟨?_, rfl⟩
    dsimp only [step]
    rw [toList_egress, List.flatten_nil, List.append_nil]
    exact (Egress.accepted_append_rest ..).symm

variable (q) in
theorem run_conserves (calls : List Call) :
    q.toList ++ (q.run calls).1.accepted.flatten = (q.run calls).1.taken ++ (q.run calls).2.toList ∧
      (q.run calls).2.capacity = q.capacity := by
  induction calls generalizing q with
  | nil => exact ⟨List.append_nil _, rfl⟩
  | cons call calls ih =>
    obtain ⟨hfirst, hcapacity⟩ := q.step_conserves call
    obtain ⟨hlater, hcapacity'⟩ := ih (q.step call).2
    refine ⟨?_, hcapacity'.trans hcapacity⟩
    dsimp only [run]
    calc
      q.toList ++ ((q.step call).1.accepted ++ ((q.step call).2.run calls).1.accepted).flatten
      _ = q.toList ++ (q.step call).1.accepted.flatten ++
          ((q.step call).2.run calls).1.accepted.flatten := by
        rw [List.flatten_append, List.append_assoc]
      _ = (q.step call).1.taken ++ ((q.step call).2.toList ++
          ((q.step call).2.run calls).1.accepted.flatten) := by rw [hfirst, List.append_assoc]
      _ = _ := by rw [hlater, ← List.append_assoc]

/-- **A send queue neither loses bytes nor repeats or reorders them.** After any uses of a queue the
chunks that it accepted are the bytes that connections took, followed by those that wait, and these
are no more than the capacity. Of the next use this says: a chunk is accepted if it fits and
otherwise changes nothing; each write is given what the writes before it have left; what they take
leaves the queue, also if one of them goes wrong; and the answer, if none does, is the number of
bytes that were taken. -/
theorem conservation_run (capacity : Nat) (calls : List Call) :
    let (traffic, q) := (SendQueue.empty capacity).run calls
    traffic.accepted.flatten = traffic.taken ++ q.toList ∧ q.toList.length ≤ capacity ∧
      (∀ bytes : Bytes, if q.toList.length + bytes.length ≤ capacity then
          ∃ later, q.step (.push bytes) = ({ accepted := [bytes] }, later) ∧
            later.toList = q.toList ++ bytes
        else q.push bytes = .error ⟨q.toList.length, bytes.length⟩ ∧
          q.step (.push bytes) = ({}, q)) ∧
      ∀ outcomes : List WriteOutcome,
        let report := (q.egress outcomes).1
        let later := (q.egress outcomes).2
        report.accepted ++ later.toList = q.toList ∧
          report.accepted = (report.takings outcomes).flatten ∧
          (∀ (n : Nat) (bytes : Bytes), report.offered[n]? = some bytes →
            ((report.takings outcomes).take n).flatten ++ bytes = q.toList) ∧
          (Egress.loop q.toList 0 outcomes).2 = later.toList ∧
          match (Egress.loop q.toList 0 outcomes).1 with
          | .ok n => report.error = none ∧ report.accepted.length = n ∧ later.length + n = q.length
          | .error e => report.error = some e := by
  obtain ⟨hconserves, hcapacity⟩ := (SendQueue.empty capacity).run_conserves calls
  generalize (SendQueue.empty capacity).run calls = result at *
  obtain ⟨traffic, q⟩ := result
  replace hcapacity : q.capacity = capacity := hcapacity
  have hlength := q.length_toList
  refine ⟨hconserves, ?_, fun bytes => ?_, fun outcomes => ?_⟩
  · rw [hlength, ← hcapacity]
    exact q.length_le
  · rw [hlength, ← hcapacity]
    split
    · rename_i hfits
      have hpush : ∃ later, q.push bytes = .ok later := by
        rw [push, dif_pos hfits]
        exact ⟨_, rfl⟩
      obtain ⟨later, hpush⟩ := hpush
      exact ⟨later, by rw [step, hpush], toList_push hpush⟩
    · rename_i hfull
      have hpush : q.push bytes = .error ⟨q.length, bytes.length⟩ := by rw [push, dif_neg hfull]
      exact ⟨hpush, by rw [step, hpush]⟩
  · have hloop := Egress.loop_eq outcomes q.toList 0
    rw [List.drop_zero] at hloop
    have htaken := Egress.accepted_append_rest q.toList outcomes
    have hbalance := congrArg List.length htaken
    rw [List.length_append, hlength] at hbalance
    intro report later
    have hlater : later.toList = _ := q.toList_egress outcomes
    refine ⟨?_, ?_, ?_, ?_, ?_⟩
    · rw [hlater]
      exact htaken
    · exact (Egress.flatten_takings ..).symm
    · intro n bytes h
      exact Egress.take_takings_append q.toList outcomes h
    · rw [hloop, hlater]
    · rw [hloop]
      have hreport : report = Egress.run q.toList outcomes := rfl
      have hleft : later.length = (Egress.run q.toList outcomes).rest.length := rfl
      rw [← hreport] at hbalance hleft ⊢
      unfold Egress.answerFrom
      cases report.error with
      | some e => rfl
      | none =>
        refine ⟨rfl, (Nat.zero_add _).symm, ?_⟩
        omega

end SendQueue

end GameShip
