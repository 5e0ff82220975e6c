import GameShip.Proofs.Cipher.KeyStream
import GameShip.Proofs.Session.Queue
import GameShip.Session.Basic

/-!
# The bytes that a session sends

The bytes that connections took and those that still wait are the bytes that entered the queue, in
the order in which they entered it (`Session.outRun_conserves`). Before a key is set these are the
accepted packets as they were given. After that each packet goes through the cipher before the
queue is asked, so a refused packet uses up its part of the key stream
(`Session.outRun_entered`), and a client that decrypts what reaches it gets the accepted packets
exactly if they met the key stream from its beginning on (`Session.apply_entered_iff`).

* `OutCall`, `Session.outRun`: uses of the sending side, and what can be seen of them.
* `Rc4.encodeKept`, `Rc4.met`: what becomes of offered packets, and the key stream bytes that the
  accepted ones met.
-/

namespace GameShip

namespace Rc4

/-- What is kept of packets that all go through a cipher, those marked. -/
def encodeKept : Option Rc4 → List (Bytes × Bool) → Bytes × Option Rc4
  | cipher, [] => ([], cipher)
  | cipher, (packet, kept) :: offers =>
    let here := through cipher packet
    let later := encodeKept here.2 offers
    ((if kept then here.1 else []) ++ later.1, later.2)

/-- The bytes of the key stream that the marked packets meet when all of them go through. -/
def met : Rc4 → List (Bytes × Bool) → Bytes
  | _, [] => []
  | cipher, (packet, kept) :: offers =>
    (if kept then cipher.keyStream packet.length else []) ++
      (cipher.advance packet.length).met offers

/-- Where in the key stream the bytes of the marked packets stand when all go through from a
position on. -/
def positions : Nat → List (Bytes × Bool) → List Nat
  | _, [] => []
  | start, (packet, kept) :: offers =>
    (if kept then List.range' start packet.length else []) ++
      positions (start + packet.length) offers

/-- The packets that are marked. -/
def kept (offers : List (Bytes × Bool)) : List Bytes := (offers.filter (·.2)).map (·.1)

@[simp] theorem kept_nil : kept [] = [] := rfl

@[simp] theorem kept_cons (packet : Bytes) (mark : Bool) (offers : List (Bytes × Bool)) :
    kept ((packet, mark) :: offers) = (if mark then [packet] else []) ++ kept offers := by
  cases mark <;> rfl

theorem encodeKept_append (cipher : Option Rc4) (offers more : List (Bytes × Bool)) :
    encodeKept cipher (offers ++ more) =
      ((encodeKept cipher offers).1 ++ (encodeKept (encodeKept cipher offers).2 more).1,
        (encodeKept (encodeKept cipher offers).2 more).2) := by
  induction offers generalizing cipher with
  | nil => rfl
  | cons offer offers ih => simp only [List.cons_append, encodeKept, ih, List.append_assoc]

theorem encodeKept_none (offers : List (Bytes × Bool)) :
    encodeKept none offers = ((kept offers).flatten, none) := by
  induction offers with
  | nil => rfl
  | cons offer offers ih =>
    obtain ⟨packet, mark⟩ := offer
    cases mark <;> simp [encodeKept, through, ih]

theorem length_met (cipher : Rc4) (offers : List (Bytes × Bool)) :
    (cipher.met offers).length = (kept offers).flatten.length := by
  induction offers generalizing cipher with
  | nil => rfl
  | cons offer offers ih =>
    obtain ⟨packet, mark⟩ := offer
    cases mark <;> simp [met, ih]

theorem met_eq (cipher : Rc4) (start : Nat) (offers : List (Bytes × Bool)) :
    (cipher.advance start).met offers = (positions start offers).map cipher.byteAt := by
  induction offers generalizing start with
  | nil => rfl
  | cons offer offers ih =>
    obtain ⟨packet, mark⟩ := offer
    rw [met, positions, List.map_append, advance_advance, ih, keyStream_advance]
    cases mark <;> rfl

theorem le_of_mem_positions {start n : Nat} {offers : List (Bytes × Bool)}
    (h : n ∈ positions start offers) : start ≤ n := by
  induction offers generalizing start with
  | nil => cases h
  | cons offer offers ih =>
    obtain ⟨packet, mark⟩ := offer
    rcases List.mem_append.mp h with h | h
    · cases mark with
      | false => cases h
      | true => exact (List.mem_range'_1.mp h).1
    · exact Nat.le_trans (Nat.le_add_right ..) (ih h)

/-- No byte of the key stream is met twice, and those of later packets are later. -/
theorem pairwise_positions (start : Nat) (offers : List (Bytes × Bool)) :
    (positions start offers).Pairwise (· < ·) := by
  induction offers generalizing start with
  | nil => exact .nil
  | cons offer offers ih =>
    obtain ⟨packet, mark⟩ := offer
    apply List.pairwise_append.mpr
    refine ⟨?_, ih _, ?_⟩
    · cases mark with
      | false => exact .nil
      | true => exact List.pairwise_lt_range'
    · intro n hn m hm
      have hlater := le_of_mem_positions hm
      cases mark with
      | false => cases hn
      | true =>
        have hearlier := (List.mem_range'_1.mp hn).2
        omega

theorem encodeKept_some (cipher : Rc4) (offers : List (Bytes × Bool)) :
    (encodeKept (some cipher) offers).1 =
      (kept offers).flatten.zipWith (· ^^^ ·) (cipher.met offers) := by
  induction offers generalizing cipher with
  | nil => rfl
  | cons offer offers ih =>
    obtain ⟨packet, mark⟩ := offer
    simp only [encodeKept, through, apply_eq, ih, met]
    cases mark with
    | false => rfl
    | true =>
      simp only [if_true, kept_cons, List.singleton_append, List.flatten_cons]
      rw [List.zipWith_append (by simp)]

/-- As long as all packets are kept they meet the key stream from its beginning on. -/
theorem met_of_forall_kept (cipher : Rc4) {offers : List (Bytes × Bool)}
    (h : ∀ offer ∈ offers, offer.2 = true) :
    cipher.met offers = cipher.keyStream (kept offers).flatten.length := by
  induction offers generalizing cipher with
  | nil => rfl
  | cons offer offers ih =>
    obtain ⟨packet, mark⟩ := offer
    obtain rfl : mark = true := h _ List.mem_cons_self
    rw [met, ih _ fun o ho => h o (List.mem_cons_of_mem _ ho)]
    simp [keyStream_add]

end Rc4

/-- A use of the sending side of a session. -/
inductive OutCall where
  | send (packet : Bytes)
  | egress (outcomes : List WriteOutcome)
  deriving DecidableEq, Repr

/-- What can be seen of uses of the sending side of a session. -/
structure Outflow where
  /-- The packets for which the queue was asked, and whether it accepted them. -/
  offers : List (Bytes × Bool) := []
  /-- The bytes by which the queue grew. -/
  entered : Bytes := []
  /-- The bytes that connections took. -/
  taken : Bytes := []
  deriving DecidableEq, Repr

namespace Outflow

/-- The packets that the queue accepted. -/
def accepted (flow : Outflow) : List Bytes := Rc4.kept flow.offers

instance : Append Outflow where
  append first later := {
    offers := first.offers ++ later.offers
    entered := first.entered ++ later.entered
    taken := first.taken ++ later.taken }

@[simp] theorem offers_append (first later : Outflow) :
    (first ++ later).offers = first.offers ++ later.offers := rfl

@[simp] theorem entered_append (first later : Outflow) :
    (first ++ later).entered = first.entered ++ later.entered := rfl

@[simp] theorem taken_append (first later : Outflow) :
    (first ++ later).taken = first.taken ++ later.taken := rfl

end Outflow

namespace Session

variable (s : Session) (packet : Bytes) (calls : List OutCall)

/-- The queue has room for a packet. -/
def accepts : Bool := (s.outbox.push (Rc4.through s.outCipher packet).1).isOk

/-- One use of the sending side. -/
def outStep : OutCall → Outflow × Session
  | .send packet =>
    let later := s.send packet
    ({ offers := if s.closed then [] else [(packet, s.accepts packet)]
       entered := later.outbox.toList.drop s.outbox.length }, later)
  | .egress outcomes =>
    let (report, outbox) := s.outbox.egress outcomes
    ({ taken := report.accepted }, { s with outbox })

/-- One use of the sending side after the other. -/
def outRun : Session → List OutCall → Outflow × Session
  | s, [] => ({}, s)
  | s, call :: calls =>
    let (flow, s) := s.outStep call
    let (later, s) := outRun s calls
    (flow ++ later, s)

@[simp] theorem outbox_recordSent : (s.recordSent packet).outbox = s.outbox := by
  unfold recordSent
  split <;> rfl

@[simp] theorem outCipher_recordSent : (s.recordSent packet).outCipher = s.outCipher := by
  unfold recordSent
  split <;> rfl

theorem accepts_recordSent : (s.recordSent packet).accepts packet = s.accepts packet := by
  simp only [accepts, outbox_recordSent, outCipher_recordSent]

theorem accepts_eq :
    s.accepts packet = decide (s.outbox.length + packet.length ≤ s.outbox.capacity) := by
  rw [accepts, SendQueue.isOk_push, Rc4.length_through]

/-- The cipher goes on whether or not the queue accepts. -/
theorem outCipher_enqueue : (s.enqueue packet).outCipher = (Rc4.through s.outCipher packet).2 := by
  unfold enqueue
  dsimp only
  split <;> rfl

/-- Either the whole packet enters the queue, encrypted, or nothing does. -/
theorem toList_outbox_enqueue :
    (s.enqueue packet).outbox.toList =
      s.outbox.toList ++ if s.accepts packet then (Rc4.through s.outCipher packet).1 else [] := by
  unfold enqueue accepts
  dsimp only
  cases h : s.outbox.push (Rc4.through s.outCipher packet).1 with
  | error e => exact (List.append_nil _).symm
  | ok outbox => exact SendQueue.toList_push h

@[simp] theorem closed_send : (s.send packet).closed = s.closed := by
  unfold send recordSent enqueue
  dsimp only
  repeat' split
  all_goals rfl

theorem outbox_send_of_refused (h : s.accepts packet = false) :
    (s.send packet).outbox = s.outbox := by
  rw [← accepts_recordSent] at h
  unfold send enqueue
  unfold accepts at h
  dsimp only
  split
  · rfl
  · split
    · rename_i hpush
      rw [hpush] at h
      cases h
    · exact s.outbox_recordSent packet

theorem outbox_send_of_accepts (hopen : s.closed = false) (h : s.accepts packet = true) :
    (s.send packet).outbox.length = s.outbox.length + packet.length ∧
      (s.send packet).outbox.capacity = s.outbox.capacity := by
  have hlist := (s.recordSent packet).toList_outbox_enqueue packet
  rw [accepts_recordSent, h] at hlist
  rw [send, if_neg (by simp [hopen])]
  constructor
  · rw [← SendQueue.length_toList, hlist]
    simp
  · unfold enqueue
    dsimp only
    split
    · rename_i hpush
      rw [SendQueue.capacity_push hpush, outbox_recordSent]
    · rw [outbox_recordSent]

/-- Packets for which there is room are queued as a whole, encrypted by one run of the cipher. -/
theorem toList_outbox_foldl_send {packets : List Bytes} (hopen : s.closed = false)
    (hroom : s.outbox.length + packets.flatten.length ≤ s.outbox.capacity) :
    (packets.foldl send s).outbox.toList =
      s.outbox.toList ++ (Rc4.through s.outCipher packets.flatten).1 := by
  induction packets generalizing s with
  | nil => simp
  | cons packet packets ih =>
    rw [List.flatten_cons, List.length_append] at hroom
    have haccepts : s.accepts packet = true := by
      rw [accepts_eq, decide_eq_true_iff]
      omega
    obtain ⟨hlength, hcapacity⟩ := s.outbox_send_of_accepts packet hopen haccepts
    have hsend : s.send packet = (s.recordSent packet).enqueue packet := by
      rw [send, if_neg (by simp [hopen])]
    have hlist := (s.recordSent packet).toList_outbox_enqueue packet
    have hcipher := (s.recordSent packet).outCipher_enqueue packet
    rw [← hsend, accepts_recordSent, haccepts, if_pos rfl, outbox_recordSent,
      outCipher_recordSent] at hlist
    rw [← hsend, outCipher_recordSent] at hcipher
    have hrest := ih (s := s.send packet) ((s.closed_send _).trans hopen) (by omega)
    rw [List.foldl_cons, List.flatten_cons, Rc4.through_append]
    rw [hlist, hcipher, List.append_assoc] at hrest
    exact hrest

theorem outStep_entered (call : OutCall) :
    ((s.outStep call).1.entered, (s.outStep call).2.outCipher) =
      Rc4.encodeKept s.outCipher (s.outStep call).1.offers := by
  cases call with
  | egress outcomes => rfl
  | send packet =>
    have hlength : s.outbox.length = s.outbox.toList.length := s.outbox.length_toList.symm
    unfold outStep send
    dsimp only
    rw [hlength]
    cases s.closed with
    | true => simp [Rc4.encodeKept]
    | false =>
      simp [Rc4.encodeKept, toList_outbox_enqueue, outCipher_enqueue, accepts_recordSent]

theorem outStep_conserves (call : OutCall) :
    (s.outStep call).1.taken ++ (s.outStep call).2.outbox.toList =
      s.outbox.toList ++ (s.outStep call).1.entered := by
  cases call with
  | egress outcomes =>
    unfold outStep
    dsimp only
    rw [SendQueue.toList_egress, List.append_nil]
    exact Egress.accepted_append_rest ..
  | send packet =>
    have hlength : s.outbox.length = s.outbox.toList.length := s.outbox.length_toList.symm
    unfold outStep send
    dsimp only
    rw [List.nil_append, hlength]
    split
    · simp
    · rw [toList_outbox_enqueue, outbox_recordSent, List.drop_left]

/-- What entered the queue is what became of the offered packets. -/
theorem outRun_entered :
    ((s.outRun calls).1.entered, (s.outRun calls).2.outCipher) =
      Rc4.encodeKept s.outCipher (s.outRun calls).1.offers := by
  induction calls generalizing s with
  | nil => rfl
  | cons call calls ih =>
    have hstep := s.outStep_entered call
    have hlater := ih (s.outStep call).2
    simp only [outRun, Outflow.entered_append, Outflow.offers_append, Rc4.encodeKept_append,
      ← hstep, ← hlater]

/-- What connections took and what still waits is what waited and what entered, in order. -/
theorem outRun_conserves :
    (s.outRun calls).1.taken ++ (s.outRun calls).2.outbox.toList =
      s.outbox.toList ++ (s.outRun calls).1.entered := by
  induction calls generalizing s with
  | nil => simp [outRun]
  | cons call calls ih =>
    have hstep := s.outStep_conserves call
    have hlater := ih (s.outStep call).2
    simp only [outRun, Outflow.taken_append, Outflow.entered_append]
    rw [List.append_assoc, hlater, ← List.append_assoc, hstep, List.append_assoc]

theorem outRun_entered_of_none (h : s.outCipher = none) :
    (s.outRun calls).1.entered = (s.outRun calls).1.accepted.flatten := by
  have hrun := s.outRun_entered calls
  rw [h, Rc4.encodeKept_none] at hrun
  exact congrArg Prod.fst hrun

/-- What was encrypted decrypts to the accepted packets exactly if these met the key stream from
its beginning on. -/
theorem apply_entered_iff {cipher : Rc4} (h : s.outCipher = some cipher) :
    (cipher.apply (s.outRun calls).1.entered).1 = (s.outRun calls).1.accepted.flatten ↔
      cipher.met (s.outRun calls).1.offers =
        cipher.keyStream (s.outRun calls).1.accepted.flatten.length := by
  have hrun := s.outRun_entered calls
  rw [h] at hrun
  have hentered := congrArg Prod.fst hrun
  rw [Rc4.encodeKept_some] at hentered
  dsimp only at hentered
  unfold Outflow.accepted
  rw [hentered, Rc4.apply_zipWith_eq_iff _ (Rc4.length_met ..)]

/-- As long as the queue accepts all packets, what was encrypted decrypts to them. -/
theorem apply_entered_of_forall_kept {cipher : Rc4} (h : s.outCipher = some cipher)
    (hkept : ∀ offer ∈ (s.outRun calls).1.offers, offer.2 = true) :
    (cipher.apply (s.outRun calls).1.entered).1 = (s.outRun calls).1.accepted.flatten :=
  (s.apply_entered_iff calls h).mpr (cipher.met_of_forall_kept hkept)

/-- A full queue refuses a packet, and accepts it after a connection has taken everything. -/
theorem offers_of_full (hopen : s.closed = false) (hfull : s.outbox.length = s.outbox.capacity)
    (hpos : 0 < packet.length) (hle : packet.length ≤ s.outbox.capacity) {limit : Nat}
    (hlimit : s.outbox.capacity ≤ limit) :
    (s.outRun [.send packet, .egress [.accepts limit], .send packet]).1.offers =
      [(packet, false), (packet, true)] := by
  have hrefused : s.accepts packet = false := by
    rw [accepts_eq, decide_eq_false_iff_not]
    omega
  have hrest := Egress.rest_run_accepts s.outbox.toList [] limit
    (by rw [s.outbox.length_toList]; omega)
  simp [outRun, outStep, hopen, hrefused, accepts_eq, outbox_send_of_refused, SendQueue.egress,
    hrest, hle]

/-- The same after one packet has filled the queue and a key is set. -/
theorem offers_of_filling {filling : Bytes} (key : Bytes) (hopen : s.closed = false)
    (hempty : s.outbox.length = 0) (hfilling : filling.length = s.outbox.capacity)
    (hpos : 0 < packet.length) (hle : packet.length ≤ s.outbox.capacity) {limit : Nat}
    (hlimit : s.outbox.capacity ≤ limit) :
    (((s.outRun [.send filling]).2.setKey key).outRun
      [.send packet, .egress [.accepts limit], .send packet]).1.offers =
      [(packet, false), (packet, true)] := by
  have hfits : s.accepts filling = true := by
    rw [accepts_eq, decide_eq_true_eq]
    omega
  obtain ⟨hlength, hcapacity⟩ := s.outbox_send_of_accepts filling hopen hfits
  rw [hempty, Nat.zero_add, hfilling, ← hcapacity] at hlength
  rw [← hcapacity] at hle hlimit
  exact offers_of_full ((s.send filling).setKey key) packet ((s.closed_send filling).trans hopen)
    hlength hpos hle hlimit

/-- **The bytes that a session sends** are the accepted packets in order: those of before the key
is set as they are, and those of after it decrypt to the packets exactly if the accepted ones met
the key stream from its beginning on. -/
theorem sent_eq (hplain : s.outCipher = none) (before after : List OutCall) (key : Bytes) :
    let first := s.outRun before
    let later := (first.2.setKey key).outRun after
    first.1.taken ++ later.1.taken ++ later.2.outbox.toList =
        s.outbox.toList ++ first.1.entered ++ later.1.entered ∧
      first.1.entered = first.1.accepted.flatten ∧
      (((Rc4.ofKey key).apply later.1.entered).1 = later.1.accepted.flatten ↔
        (Rc4.ofKey key).met later.1.offers =
          (Rc4.ofKey key).keyStream later.1.accepted.flatten.length) := by
  intro first later
  refine ⟨?_, s.outRun_entered_of_none before hplain, apply_entered_iff _ after rfl⟩
  have hfirst := s.outRun_conserves before
  have hlater := (first.2.setKey key).outRun_conserves after
  rw [List.append_assoc, hlater, ← hfirst, List.append_assoc]
  rfl

theorem sent_eq_of_new :
    (Session.new 1).outCipher = none ∧
      let first := (Session.new 1).outRun [.send [8, 0, 0, 0, 17, 0, 0, 0]]
      let later := (first.2.setKey [1, 2, 3]).outRun
        [.egress [.accepts 5], .send [9, 0, 0, 0, 17, 2, 0, 0, 7], .egress [.accepts 20]]
      first.1.entered = [8, 0, 0, 0, 17, 0, 0, 0] ∧
        ((Rc4.ofKey [1, 2, 3]).apply later.1.entered).1 = [9, 0, 0, 0, 17, 2, 0, 0, 7] :=
  have h := sent_eq (Session.new 1) rfl [.send [8, 0, 0, 0, 17, 0, 0, 0]]
    [.egress [.accepts 5], .send [9, 0, 0, 0, 17, 2, 0, 0, 7], .egress [.accepts 20]] [1, 2, 3]
  ⟨rfl, h.2.1, h.2.2.mpr rfl⟩

/-- A packet that is refused between the key and the next packet garbles that packet. -/
theorem refused_packet_garbles :
    let filling : Bytes := [0, 0, 16, 0, 3, 8, 0, 0] ++ List.replicate (1024 * 1024 - 8) 0
    let packet : Bytes := [8, 0, 0, 0, 3, 43, 0, 0]
    let key : Bytes := List.replicate 16 0
    let first := (Session.new 1).outRun [.send filling]
    let later := (first.2.setKey key).outRun
      [.send packet, .egress [.accepts (1024 * 1024)], .send packet]
    later.1.accepted = [packet] ∧ ((Rc4.ofKey key).apply later.1.entered).1 ≠ packet := by
  intro filling packet key first later
  have hlength : filling.length = SendQueue.defaultCapacity := by
    rw [List.length_append, List.length_replicate, SendQueue.defaultCapacity]
    simp only [List.length_cons, List.length_nil]
  clear_value filling
  have hoffers : later.1.offers = [(packet, false), (packet, true)] :=
    offers_of_filling (Session.new 1) packet key rfl rfl hlength (by decide) (by decide) (by decide)
  have haccepted : later.1.accepted = [packet] := by
    rw [Outflow.accepted, hoffers]
    rfl
  refine ⟨haccepted, fun h => ?_⟩
  have hmet := (apply_entered_iff (first.2.setKey key)
    [.send packet, .egress [.accepts (1024 * 1024)], .send packet] rfl).mp
    (by rw [haccepted]; exact h.trans (List.append_nil packet).symm)
  rw [hoffers, haccepted] at hmet
  -- the packet met the second eight bytes of the key stream, which are not the first eight
  have hfirst := (Rc4.ofKey key).take_keyStream 8 8
  have hsecond := (Rc4.ofKey key).drop_keyStream 8 8
  have hsame : ((Rc4.ofKey key).advance 8).keyStream 8 = (Rc4.ofKey key).keyStream 8 :=
    (List.append_nil _).symm.trans hmet
  rw [Rc4.keyStream_ofKey_zeros] at hfirst hsecond
  rw [hsame, ← hfirst] at hsecond
  revert hsecond
  decide

end Session

end GameShip
