import GameShip.Proofs.Frame.Buffer
import GameShip.Proofs.Session.Outbound

/-!
# Uses of a line

The line of a session is what it shares with its client: the two buffers, the two ciphers, and
whether it is closed. All that happens to a line is a sequence of a few kinds of uses. As long as
no key is agreed on in between, each cipher goes once through the bytes of its own direction
(`Session.streams_of_notMem`).

* `Session.line`, `Session.Use`: a line, and what is done with it.
* `Session.Becomes`: uses of a line, at most one of which agrees on a key.
* `Session.flow`: what can be seen of uses.
-/

namespace GameShip

namespace Session

structure Line where
  inbox : FrameBuffer
  inCipher : Option Rc4
  outbox : SendQueue
  outCipher : Option Rc4
  closed : Bool

def line (s : Session) : Line := ⟨s.inbox, s.inCipher, s.outbox, s.outCipher, s.closed⟩

inductive Use where
  /-- Bytes come in. -/
  | hear (chunk : Bytes)
  /-- The next frame is taken out of the inbox. -/
  | take
  | compact
  /-- Both directions are encrypted from here on. -/
  | agree (key : Bytes)
  | send (packet : Bytes)
  /-- A connection is given bytes that wait for it. -/
  | write (outcomes : List WriteOutcome)
  | close
  deriving DecidableEq, Repr

def use (s : Session) : Use → Session
  | .hear chunk => (s.receive chunk).2
  | .take => (s.nextFrame?.map (·.2)).getD s
  | .compact => s.compact
  | .agree key => s.setKey key
  | .send packet => s.send packet
  | .write outcomes => { s with outbox := (s.outbox.egress outcomes).2 }
  | .close => s.close

def useAll (s : Session) (uses : List Use) : Session := uses.foldl use s

/-- A key is agreed on only if there is none yet. -/
def Fits : Session → List Use → Prop
  | _, [] => True
  | s, u :: uses => (∀ key, u = .agree key → s.encrypted = false) ∧ (s.use u).Fits uses

structure Becomes (s : Session) (uses : List Use) (t : Session) : Prop where
  line : (s.useAll uses).line = t.line
  fits : s.Fits uses

variable {s t r : Session} {u : Use} {uses more : List Use}

theorem useAll_append (s : Session) (uses more : List Use) :
    s.useAll (uses ++ more) = (s.useAll uses).useAll more := List.foldl_append

/-! ## Lines -/

theorem line_recordSent (s : Session) (packet : Bytes) : (s.recordSent packet).line = s.line := by
  unfold recordSent
  split <;> rfl

theorem line_enqueue (h : s.line = t.line) (packet : Bytes) :
    (s.enqueue packet).line = (t.enqueue packet).line := by
  injection h with hinbox hin houtbox hout hclosed
  unfold enqueue line
  rw [hout, houtbox]
  dsimp only
  split
  · simp only [hinbox, hin, hclosed]
  · simp only [hinbox, hin, hclosed]

/-- What a use does to a line depends on nothing else. -/
theorem line_use (h : s.line = t.line) (u : Use) : (s.use u).line = (t.use u).line := by
  have hline := h
  injection h with hinbox hin houtbox hout hclosed
  cases u with
  | hear chunk =>
    unfold use receive
    dsimp only
    rw [hinbox, hin]
    split
    · simp only [line, houtbox, hout, hclosed]
    · exact hline
  | take =>
    unfold use nextFrame?
    dsimp only
    rw [hclosed, hinbox]
    split
    · exact hline
    · split
      · simp only [line, record, hin, houtbox, hout, Option.map_some, Option.getD_some]
      · exact hline
  | compact => simp only [use, compact, line, hinbox, hin, houtbox, hout, hclosed]
  | agree key => simp only [use, setKey, line, hinbox, houtbox, hclosed]
  | send packet =>
    unfold use send
    dsimp only
    rw [hclosed]
    split
    · exact hline
    · apply line_enqueue
      rw [line_recordSent, line_recordSent, hline]
  | write outcomes => simp only [use, line, hinbox, hin, houtbox, hout, hclosed]
  | close => simp only [use, close, line, hinbox, hin, houtbox, hout]

theorem line_useAll (h : s.line = t.line) (uses : List Use) :
    (s.useAll uses).line = (t.useAll uses).line := by
  induction uses generalizing s t with
  | nil => exact h
  | cons u uses ih => exact ih (line_use h u)

theorem encrypted_eq (h : s.line = t.line) : s.encrypted = t.encrypted :=
  congrArg (·.inCipher.isSome) h

theorem closed_eq (h : s.line = t.line) : s.closed = t.closed := congrArg Line.closed h

theorem Fits.congr (h : s.line = t.line) (hfits : s.Fits uses) : t.Fits uses := by
  induction uses generalizing s t with
  | nil => trivial
  | cons u uses ih =>
    obtain ⟨hfirst, hrest⟩ := hfits
    exact ⟨fun key hkey => (encrypted_eq h).symm.trans (hfirst key hkey),
      ih (line_use h u) hrest⟩

theorem fits_append : s.Fits (uses ++ more) ↔ s.Fits uses ∧ (s.useAll uses).Fits more := by
  induction uses generalizing s with
  | nil => exact ⟨fun h => ⟨trivial, h⟩, (·.2)⟩
  | cons u uses ih =>
    rw [List.cons_append, Fits, Fits, ih, and_assoc]
    rfl

theorem fits_of_notMem (h : ∀ key, Use.agree key ∉ uses) : s.Fits uses := by
  induction uses generalizing s with
  | nil => trivial
  | cons u uses ih =>
    refine ⟨fun key hkey => ?_, ih fun key hmem => h key (List.mem_cons_of_mem _ hmem)⟩
    exact absurd (hkey ▸ List.mem_cons_self) (h key)

namespace Becomes

theorem refl (h : s.line = t.line) : s.Becomes [] t := ⟨h, trivial⟩

theorem one (h : (s.use u).line = t.line) (hagree : ∀ key, u ≠ .agree key) :
    s.Becomes [u] t :=
  ⟨h, fun key hkey => absurd hkey (hagree key), trivial⟩

theorem take (s : Session) : s.Becomes [.take] (s.use .take) := .one rfl fun _ => nofun

theorem trans (h : s.Becomes uses t) (h' : t.Becomes more r) : s.Becomes (uses ++ more) r where
  line := by
    rw [useAll_append, line_useAll h.line]
    exact h'.line
  fits := fits_append.mpr ⟨h.fits, h'.fits.congr h.line.symm⟩

theorem congr {s' t' : Session} (hs : s.line = s'.line) (ht : t.line = t'.line)
    (h : s.Becomes uses t) : s'.Becomes uses t' :=
  ⟨(line_useAll hs.symm uses).trans (h.line.trans ht), h.fits.congr hs⟩

theorem sendAll (s : Session) (frames : List Frame) :
    s.Becomes (frames.map (.send ·.toBytes)) (frames.foldl sendFrame s) where
  line := by
    rw [useAll, List.foldl_map]
    rfl
  fits := fits_of_notMem fun key hmem => by
    obtain ⟨frame, -, h⟩ := List.mem_map.mp hmem
    cases h

end Becomes

/-! ## The key -/

theorem inCipher_send (s : Session) (packet : Bytes) : (s.send packet).inCipher = s.inCipher := by
  unfold send recordSent enqueue
  dsimp only
  repeat' split
  all_goals rfl

theorem inCipher_take (s : Session) : (s.use .take).inCipher = s.inCipher := by
  unfold use nextFrame?
  dsimp only
  repeat' split
  all_goals rfl

/-- A chunk is refused, or goes through the cipher and comes after the bytes that are in no frame
yet. -/
theorem receive_cases (s : Session) (chunk : Bytes) :
    s.receive chunk = (false, s) ∨
      ∃ inbox, inbox.pending = s.inbox.pending ++ (Rc4.through s.inCipher chunk).1 ∧
        s.receive chunk =
          (true, { s with inbox, inCipher := (Rc4.through s.inCipher chunk).2 }) := by
  unfold receive
  by_cases h : s.inbox.bytes.size + chunk.length ≤ s.inbox.capacity
  · obtain ⟨inbox, hpush, hpending, -⟩ := FrameBuffer.push_of_le s.inCipher h
    refine .inr ⟨inbox, hpending, ?_⟩
    rw [hpush]
  · rw [FrameBuffer.push_of_lt s.inCipher (Nat.not_le.mp h)]
    exact .inl rfl

theorem outSide_receive (s : Session) (chunk : Bytes) :
    (s.receive chunk).2.outCipher = s.outCipher ∧ (s.receive chunk).2.outbox = s.outbox := by
  unfold receive
  split <;> exact ⟨rfl, rfl⟩

theorem outSide_take (s : Session) :
    (s.use .take).outCipher = s.outCipher ∧ (s.use .take).outbox = s.outbox := by
  unfold use nextFrame?
  dsimp only
  repeat' split
  all_goals exact ⟨rfl, rfl⟩

/-- A session that has a key keeps one. -/
theorem encrypted_use (h : s.encrypted = true) (u : Use) : (s.use u).encrypted = true := by
  unfold encrypted at *
  cases u with
  | hear chunk =>
    rw [use]
    rcases receive_cases s chunk with hreceive | ⟨inbox, -, hreceive⟩
    · rwa [hreceive]
    · obtain ⟨cipher, hcipher⟩ := Option.isSome_iff_exists.mp h
      rw [hreceive, hcipher]
      rfl
  | take => rwa [inCipher_take]
  | send packet => rwa [use, inCipher_send]
  | agree key => rfl
  | compact => exact h
  | write outcomes => exact h
  | close => exact h

theorem encrypted_useAll (h : s.encrypted = true) (uses : List Use) :
    (s.useAll uses).encrypted = true := by
  induction uses generalizing s with
  | nil => exact h
  | cons u uses ih => exact ih (encrypted_use h u)

theorem notMem_of_fits (h : s.encrypted = true) (hfits : s.Fits uses) (key : Bytes) :
    .agree key ∉ uses := by
  induction uses generalizing s with
  | nil => exact List.not_mem_nil
  | cons u uses ih =>
    obtain ⟨hfirst, hrest⟩ := hfits
    intro hmem
    rcases List.mem_cons.mp hmem with hu | hmem
    · rw [hfirst key hu.symm] at h
      cases h
    · exact ih (encrypted_use h u) hrest hmem

/-- **One key.** Before a key is agreed on there is none, and no other is agreed on before it or
after it. -/
theorem Fits.agree_once {key : Bytes} (hfits : s.Fits (uses ++ .agree key :: more)) :
    (s.useAll uses).encrypted = false ∧
      ∀ other, Use.agree other ∉ uses ∧ Use.agree other ∉ more := by
  obtain ⟨hbefore, hfirst, hafter⟩ := fits_append.mp hfits
  have hplain := hfirst key rfl
  refine ⟨hplain, fun other => ⟨fun hmem => ?_, ?_⟩⟩
  · -- a key that is agreed on stays, and would be there still
    obtain ⟨first, last, rfl⟩ := List.append_of_mem hmem
    have hstays := encrypted_useAll (s := (s.useAll first).setKey other) rfl last
    rw [useAll_append] at hplain
    exact absurd (hstays.symm.trans hplain) (by decide)
  · exact notMem_of_fits rfl hafter other

/-! ## What can be seen of uses -/

structure Flow extends Outflow where
  /-- The chunks that were taken in. -/
  heard : List Bytes := []
  /-- The bytes by which the inbox grew. -/
  kept : Bytes := []

namespace Flow

instance : Append Flow where
  append first later :=
    { toOutflow := first.toOutflow ++ later.toOutflow
      heard := first.heard ++ later.heard
      kept := first.kept ++ later.kept }

@[simp] theorem toOutflow_append (first later : Flow) :
    (first ++ later).toOutflow = first.toOutflow ++ later.toOutflow := rfl

@[simp] theorem heard_append (first later : Flow) :
    (first ++ later).heard = first.heard ++ later.heard := rfl

@[simp] theorem kept_append (first later : Flow) :
    (first ++ later).kept = first.kept ++ later.kept := rfl

end Flow

def flowOf (s : Session) : Use → Flow
  | .hear chunk =>
    { heard := if (s.receive chunk).1 then [chunk] else []
      kept := (s.receive chunk).2.inbox.pending.drop s.inbox.pending.length }
  | .send packet => { toOutflow := (s.outStep (.send packet)).1 }
  | .write outcomes => { toOutflow := (s.outStep (.egress outcomes)).1 }
  | .take | .compact | .agree _ | .close => {}

def flow : Session → List Use → Flow
  | _, [] => {}
  | s, u :: uses => s.flowOf u ++ (s.use u).flow uses

theorem flowOf_hear (s : Session) (chunk : Bytes) :
    ((s.flowOf (.hear chunk)).kept, (s.use (.hear chunk)).inCipher) =
      Rc4.through s.inCipher (s.flowOf (.hear chunk)).heard.flatten := by
  rw [flowOf, use]
  rcases receive_cases s chunk with hreceive | ⟨inbox, hpending, hreceive⟩
  · rw [hreceive]
    simp
  · rw [hreceive]
    simp [hpending]

/-- As long as no key is agreed on, what the inbox gains is what becomes of the chunks when they go
through the cipher in the order in which they came. -/
theorem flow_kept (h : ∀ key, Use.agree key ∉ uses) :
    ((s.flow uses).kept, (s.useAll uses).inCipher) =
      Rc4.through s.inCipher (s.flow uses).heard.flatten := by
  induction uses generalizing s with
  | nil => exact (Rc4.through_nil _).symm
  | cons u uses ih =>
    have hlater := ih (s := s.use u) fun key hmem => h key (List.mem_cons_of_mem _ hmem)
    have hfirst : ((s.flowOf u).kept, (s.use u).inCipher) =
        Rc4.through s.inCipher (s.flowOf u).heard.flatten := by
      have hstill {cipher : Option Rc4} (h : cipher = s.inCipher) :
          ([], cipher) = Rc4.through s.inCipher [] := by
        rw [h, Rc4.through_nil]
      cases u with
      | hear chunk => exact flowOf_hear s chunk
      | take => exact hstill (inCipher_take s)
      | send packet => exact hstill (inCipher_send s packet)
      | agree key => exact absurd List.mem_cons_self (h key)
      | compact => exact hstill rfl
      | write outcomes => exact hstill rfl
      | close => exact hstill rfl
    rw [flow, Flow.kept_append, Flow.heard_append, List.flatten_append, Rc4.through_append,
      ← hfirst, ← hlater]
    rfl

/-- As long as no key is agreed on, what the queue gains is what becomes of the packets when all of
them go through the cipher in the order in which they were sent. -/
theorem flow_entered (h : ∀ key, Use.agree key ∉ uses) :
    ((s.flow uses).entered, (s.useAll uses).outCipher) =
      Rc4.encodeKept s.outCipher (s.flow uses).offers := by
  induction uses generalizing s with
  | nil => rfl
  | cons u uses ih =>
    have hlater := ih (s := s.use u) fun key hmem => h key (List.mem_cons_of_mem _ hmem)
    have hfirst : ((s.flowOf u).entered, (s.use u).outCipher) =
        Rc4.encodeKept s.outCipher (s.flowOf u).offers := by
      cases u with
      | send packet => exact s.outStep_entered (.send packet)
      | write outcomes => exact s.outStep_entered (.egress outcomes)
      | agree key => exact absurd List.mem_cons_self (h key)
      | hear chunk => exact Prod.ext rfl (outSide_receive s chunk).1
      | take => exact Prod.ext rfl (outSide_take s).1
      | compact => rfl
      | close => rfl
    rw [flow, Flow.toOutflow_append, Outflow.entered_append, Outflow.offers_append,
      Rc4.encodeKept_append, ← hfirst, ← hlater]
    rfl

/-- What connections took and what still waits is what waited and what entered, in order. -/
theorem flow_conserves (s : Session) (uses : List Use) :
    (s.flow uses).taken ++ (s.useAll uses).outbox.toList =
      s.outbox.toList ++ (s.flow uses).entered := by
  induction uses generalizing s with
  | nil => exact (List.append_nil _).symm
  | cons u uses ih =>
    have hfirst : (s.flowOf u).taken ++ (s.use u).outbox.toList =
        s.outbox.toList ++ (s.flowOf u).entered := by
      have hstill {t : Session} (h : t.outbox = s.outbox) :
          [] ++ t.outbox.toList = s.outbox.toList ++ [] := by
        rw [h, List.append_nil, List.nil_append]
      cases u with
      | send packet => exact s.outStep_conserves (.send packet)
      | write outcomes => exact s.outStep_conserves (.egress outcomes)
      | hear chunk => exact hstill (outSide_receive s chunk).2
      | take => exact hstill (outSide_take s).2
      | agree key => exact hstill rfl
      | compact => exact hstill rfl
      | close => exact hstill rfl
    have hlater := ih (s.use u)
    rw [flow, Flow.toOutflow_append, Outflow.taken_append, Outflow.entered_append,
      List.append_assoc, ← List.append_assoc s.outbox.toList, ← hfirst, List.append_assoc]
    exact congrArg _ hlater

/-- Both directions of a line go through the key stream of a key, each from the beginning and
without coming back. -/
structure Streams (s : Session) (key : Bytes) (uses : List Use) : Prop where
  /-- The chunks that are taken in meet it byte for byte, in the order in which they come. -/
  kept : (s.flow uses).kept = (s.flow uses).heard.flatten.zipWith (· ^^^ ·)
    ((List.range (s.flow uses).heard.flatten.length).map (Rc4.ofKey key).byteAt)
  inCipher : (s.useAll uses).inCipher =
    some ((Rc4.ofKey key).advance (s.flow uses).heard.flatten.length)
  /-- The packets that enter the queue meet it in the order in which they are sent. -/
  entered : (s.flow uses).entered = (s.flow uses).accepted.flatten.zipWith (· ^^^ ·)
    ((Rc4.positions 0 (s.flow uses).offers).map (Rc4.ofKey key).byteAt)
  length_positions : (Rc4.positions 0 (s.flow uses).offers).length =
    (s.flow uses).accepted.flatten.length
  /-- No two of their bytes meet the same byte of it. -/
  increasing : (Rc4.positions 0 (s.flow uses).offers).Pairwise (· < ·)
  /-- What entered the queue is taken by connections in its turn, or still waits. -/
  waiting : (s.flow uses).taken ++ (s.useAll uses).outbox.toList =
    s.outbox.toList ++ (s.flow uses).entered

theorem streams_of_notMem {key : Bytes} (hin : s.inCipher = some (.ofKey key))
    (hout : s.outCipher = some (.ofKey key)) (h : ∀ other, Use.agree other ∉ uses) :
    s.Streams key uses := by
  have hheard := flow_kept (s := s) h
  have hsent := flow_entered (s := s) h
  rw [hin] at hheard
  rw [hout] at hsent
  obtain ⟨hkept, hcipher⟩ := Prod.mk.inj hheard
  have hentered := congrArg Prod.fst hsent
  have hmet := (Rc4.ofKey key).met_eq 0 (s.flow uses).offers
  have hlength := (Rc4.ofKey key).length_met (s.flow uses).offers
  rw [Rc4.encodeKept_some] at hentered
  rw [Rc4.advance] at hmet
  rw [hmet] at hentered hlength
  refine {
    kept := ?_
    inCipher := ?_
    entered := hentered
    length_positions := by rwa [List.length_map] at hlength
    increasing := Rc4.pairwise_positions ..
    waiting := s.flow_conserves uses }
  · rw [hkept, List.range_eq_range', ← Rc4.keyStream_advance]
    exact congrArg Prod.fst (Rc4.apply_eq _ _)
  · rw [hcipher]
    exact congrArg some (Rc4.apply_snd _ _)

end Session

end GameShip
