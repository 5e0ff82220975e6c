import GameShip.Proofs.Disk.Writing
import GameShip.Proofs.Session.Use

/-!
# Sessions whose frames are recorded

Whether the frames of a session are recorded makes no difference to what it answers and to what
becomes of it. The directory of the record gains one file for every frame that passes, numbered in
the order in which they pass, with the bytes as they are before encryption
(`Session.dumping_run`).

* `Passage`: a frame that passes through a session, and the file for it.
* `Session.passed`: the frames that pass in the course of uses.
* `Session.runOn`: uses of a session, where what is recorded is written to a disk at once.
-/

namespace GameShip

/-- A frame that passes through a session. -/
structure Passage where
  opcode : Opcode
  direction : Direction
  frame : Bytes
  deriving DecidableEq, Repr

namespace Passage

def fileName (p : Passage) (number : Nat) : String :=
  let letter := match p.direction with
    | .client => "C"
    | .ship => "S"
  toString number ++ "." ++ Opcode.hexByte p.opcode.kind ++ "." ++
    Opcode.hexByte p.opcode.subtype ++ "." ++ letter ++ ".bin"

/-- The files for frames, which are numbered from `first` on. -/
def files (first : Nat) (passed : List Passage) : List (String × Bytes) :=
  (passed.zipIdx first).map fun (p, number) => (p.fileName number, p.frame)

variable {p q : Passage} {m n : Nat}

/-- The number can be read off the name. -/
theorem takeWhile_fileName (p : Passage) (number : Nat) :
    (p.fileName number).toList.takeWhile Char.isDigit = Nat.toDigits 10 number := by
  have hdigits : ∀ c ∈ Nat.toDigits 10 number, c.isDigit = true := fun c hc =>
    Nat.isDigit_of_mem_toDigits (by decide) (by decide) hc
  unfold fileName
  simp only [String.toList_append, List.append_assoc]
  rw [Nat.toString_eq_repr, Nat.toList_repr, List.takeWhile_append_of_pos hdigits]
  exact List.append_nil _

theorem fileName_inj (h : p.fileName m = q.fileName n) : m = n := by
  have hdigits : Nat.toDigits 10 m = Nat.toDigits 10 n := by
    rw [← takeWhile_fileName p, h, takeWhile_fileName]
  rw [← Nat.ofDigitChars_ten_toDigits (n := m), hdigits, Nat.ofDigitChars_ten_toDigits]

/-- No two frames have the same file. -/
theorem nodup_files (first : Nat) (passed : List Passage) :
    ((files first passed).map (·.1)).Nodup := by
  have hnumbers : ((passed.zipIdx first).map (·.2)).Nodup := by
    rw [List.zipIdx_map_snd]
    exact List.nodup_range'
  rw [files, List.map_map, List.Nodup, List.pairwise_map]
  exact (List.pairwise_map.mp hnumbers).imp fun hne hname => hne (fileName_inj hname)

end Passage

namespace Dump

variable {disk last : Disk} {directory : DiskPath} {first : Nat} {passed : List Passage}

/-- Records frames, of which each is written to the disk at once. -/
def keep (dump : Dump) (disk : Disk) (passed : List Passage) : Dump × Disk :=
  passed.foldl (fun (dump, disk) p => (dump.record p.opcode p.direction p.frame).flush disk)
    (dump, disk)

theorem keep_append (dump : Dump) (disk : Disk) (passed more : List Passage) :
    dump.keep disk (passed ++ more) =
      (dump.keep disk passed).1.keep (dump.keep disk passed).2 more := List.foldl_append

theorem recorded_keep {dump : Dump} (h : dump.recorded = []) (disk : Disk)
    (passed : List Passage) : (dump.keep disk passed).1.recorded = [] := by
  induction passed generalizing dump disk with
  | nil => exact h
  | cons p passed ih => exact ih rfl _

/-- A frame is recorded under the number of those before it, as long as they can be counted. -/
theorem flush_record (hcount : first < UInt32.size) (disk : Disk) (p : Passage) :
    (record { directory, count := .ofNat first } p.opcode p.direction p.frame).flush disk =
      ({ directory, count := .ofNat (first + 1) },
        (disk.write (directory ++ [p.fileName first]) p.frame).getD disk) := by
  have hname : fileName { directory, count := .ofNat first } p.opcode p.direction =
      p.fileName first := by
    have hnumber : toString (UInt32.ofNat first) = toString first :=
      congrArg toString (UInt32.toNat_ofNat_of_lt' hcount)
    unfold fileName
    rw [hnumber]
    rfl
  unfold record
  rw [hname, UInt32.ofNat_add]
  rfl

theorem keep_eq (hcount : first + passed.length ≤ UInt32.size)
    (hwrite : disk.writeAll? directory (Passage.files first passed) = some last) :
    keep { directory, count := .ofNat first } disk passed =
      ({ directory, count := .ofNat (first + passed.length) }, last) := by
  induction passed generalizing first disk with
  | nil =>
    cases hwrite
    rfl
  | cons p passed ih =>
    rw [List.length_cons] at hcount ⊢
    rw [Passage.files, List.zipIdx_cons, List.map_cons, Disk.writeAll?_cons] at hwrite
    obtain ⟨disk', hfirst, hrest⟩ := Option.bind_eq_some_iff.mp hwrite
    rw [keep, List.foldl_cons]
    dsimp only
    rw [flush_record (by omega), hfirst, Option.getD_some]
    rw [← Nat.add_assoc, Nat.add_right_comm]
    exact ih (by omega) hrest

end Dump

namespace Session

/-- What is answered to a use. -/
inductive Reply where
  /-- The bytes were taken in, or refused. -/
  | heard (accepted : Bool)
  | taken (frame : Option Frame)
  | written (report : Egress)
  | done
  deriving DecidableEq

def reply (s : Session) : Use → Reply
  | .hear chunk => .heard (s.receive chunk).1
  | .take => .taken (s.nextFrame?.map (·.1))
  | .write outcomes => .written (s.outbox.egress outcomes).1
  | .compact | .agree _ | .send _ | .close => .done

/-- The frame that passes in a use: one that is taken, with its size in the header, or one that is
sent, as far as it reaches to its opcode, whether or not the queue has room for it. -/
def passing (s : Session) : Use → Option Passage
  | .take => s.nextFrame?.map fun (frame, _) => ⟨frame.opcode, .client, frame.toBytes⟩
  | .send packet =>
    if h : s.closed = false ∧ 6 ≤ packet.length then
      some ⟨⟨packet[4], packet[5]⟩, .ship, packet⟩
    else none
  | .hear _ | .compact | .agree _ | .write _ | .close => none

def passed : Session → List Use → List Passage
  | _, [] => []
  | s, u :: uses => (s.passing u).toList ++ (s.use u).passed uses

def replies : Session → List Use → List Reply
  | _, [] => []
  | s, u :: uses => s.reply u :: (s.use u).replies uses

/-- Writes what has been recorded to the disk. -/
def flush (s : Session) (disk : Disk) : Session × Disk :=
  match s.dump with
  | none => (s, disk)
  | some dump =>
    let (dump, disk) := dump.flush disk
    ({ s with dump := some dump }, disk)

/-- One use after the other. What one of them records is written to the disk before the next. -/
def runOn : Session → Disk → List Use → List Reply × Session × Disk
  | s, disk, [] => ([], s, disk)
  | s, disk, u :: uses =>
    let (later, disk) := (s.use u).flush disk
    let (replies, last) := later.runOn disk uses
    (s.reply u :: replies, last)

/-! ## What a record changes -/

def withDump (s : Session) (dump : Option Dump) : Session := { s with dump }

section

variable (s : Session) (dump : Option Dump)

theorem record_eq (opcode : Opcode) (direction : Direction) (frame : Bytes) :
    s.record opcode direction frame = s.withDump (s.dump.map (·.record opcode direction frame)) :=
  rfl

theorem record_withDump (opcode : Opcode) (direction : Direction) (frame : Bytes) :
    (s.withDump dump).record opcode direction frame =
      s.withDump (dump.map (·.record opcode direction frame)) := rfl

theorem nextFrame?_withDump : (s.withDump dump).nextFrame? = s.nextFrame?.map fun (frame, later) =>
    (frame, later.withDump (dump.map (·.record frame.opcode .client frame.toBytes))) := by
  unfold nextFrame? withDump
  dsimp only
  split
  · rfl
  · cases s.inbox.next? <;> rfl

theorem receive_withDump (chunk : Bytes) : (s.withDump dump).receive chunk =
    ((s.receive chunk).1, (s.receive chunk).2.withDump dump) := by
  unfold receive withDump
  dsimp only
  cases s.inbox.push chunk s.inCipher <;> rfl

theorem enqueue_withDump (packet : Bytes) :
    (s.withDump dump).enqueue packet = (s.enqueue packet).withDump dump := by
  unfold enqueue withDump
  dsimp only
  cases s.outbox.push (Rc4.through s.outCipher packet).1 <;> rfl

theorem recordSent_of_le {packet : Bytes} (h : 6 ≤ packet.length) :
    s.recordSent packet = s.record ⟨packet[4], packet[5]⟩ .ship packet := by
  match packet, h with
  | _ :: _ :: _ :: _ :: _ :: _ :: _, _ => rfl

theorem recordSent_of_lt {packet : Bytes} (h : packet.length < 6) : s.recordSent packet = s := by
  unfold recordSent
  split
  · simp only [List.length_cons] at h
    omega
  · rfl

theorem reply_withDump (u : Use) : (s.withDump dump).reply u = s.reply u := by
  cases u with
  | hear chunk => rw [reply, receive_withDump, reply]
  | take =>
    rw [reply, nextFrame?_withDump, Option.map_map, reply]
    rfl
  | _ => rfl

theorem passing_withDump (u : Use) : (s.withDump dump).passing u = s.passing u := by
  cases u with
  | take =>
    rw [passing, nextFrame?_withDump, Option.map_map, passing]
    rfl
  | _ => rfl

/-- What is recorded in a use is the frame that passes, and nothing else depends on the record. -/
theorem use_withDump (u : Use) :
    (s.withDump dump).use u = (s.use u).withDump ((s.passing u).elim dump fun p =>
      dump.map (·.record p.opcode p.direction p.frame)) := by
  cases u with
  | hear chunk =>
    rw [use, receive_withDump]
    rfl
  | take =>
    rw [use, nextFrame?_withDump, passing, use]
    cases s.nextFrame? <;> rfl
  | send packet =>
    have hsend (t : Session) : t.send packet =
        if t.closed then t else (t.recordSent packet).enqueue packet := rfl
    have hsame : (s.withDump dump).closed = s.closed := rfl
    rw [use, use, passing, hsend, hsend, hsame]
    by_cases hclosed : s.closed = true
    · have hnone : ¬(s.closed = false ∧ 6 ≤ packet.length) := fun h =>
        Bool.false_ne_true (h.1.symm.trans hclosed)
      rw [if_pos hclosed, if_pos hclosed, dif_neg hnone]
      rfl
    rw [if_neg hclosed, if_neg hclosed]
    have hopen := Bool.eq_false_iff.mpr hclosed
    by_cases hlength : 6 ≤ packet.length
    · rw [dif_pos ⟨hopen, hlength⟩, recordSent_of_le _ hlength, recordSent_of_le _ hlength,
        record_withDump, record_eq, enqueue_withDump, enqueue_withDump]
      rfl
    · have hshort := Nat.lt_of_not_le hlength
      rw [dif_neg fun h => hlength h.2, recordSent_of_lt _ hshort, recordSent_of_lt _ hshort]
      exact enqueue_withDump s dump packet
  | _ => rfl

theorem passed_withDump (uses : List Use) : (s.withDump dump).passed uses = s.passed uses := by
  induction uses generalizing s dump with
  | nil => rfl
  | cons u uses ih => rw [passed, passing_withDump, use_withDump, ih, passed]

end

/-! ## Runs -/

variable {s : Session}

theorem runOn_none (s : Session) (disk : Disk) (uses : List Use) :
    (s.withDump none).runOn disk uses = (s.replies uses, (s.useAll uses).withDump none, disk) := by
  induction uses generalizing s with
  | nil => rfl
  | cons u uses ih =>
    have hstep : ((s.withDump none).use u).flush disk = ((s.use u).withDump none, disk) := by
      rw [use_withDump]
      cases s.passing u <;> rfl
    rw [runOn, hstep, reply_withDump]
    dsimp only
    rw [ih]
    rfl

theorem runOn_some {dump : Dump} (h : dump.recorded = []) (disk : Disk) (uses : List Use) :
    (s.withDump (some dump)).runOn disk uses =
      (s.replies uses, (s.useAll uses).withDump (some (dump.keep disk (s.passed uses)).1),
        (dump.keep disk (s.passed uses)).2) := by
  induction uses generalizing s dump disk with
  | nil => rfl
  | cons u uses ih =>
    let now := dump.keep disk (s.passing u).toList
    have hstep : ((s.withDump (some dump)).use u).flush disk =
        ((s.use u).withDump (some now.1), now.2) := by
      rw [use_withDump]
      cases hp : s.passing u with
      | none =>
        unfold now
        rw [hp]
        obtain ⟨directory, count, recorded⟩ := dump
        cases h
        rfl
      | some p =>
        unfold now
        rw [hp]
        rfl
    rw [runOn, hstep, reply_withDump]
    dsimp only
    rw [ih (dump.recorded_keep h disk _), passed, Dump.keep_append]
    rfl

/-- **Recording is complete and cannot be seen.** Take any session and any uses of it, once with a
record and once without. All that is answered is the same, and so is all of the session but the
record. If there are fewer frames than can be counted and all of their files can be written, then
the directory gains a file for each frame that passes, and nothing else on the disk changes. -/
theorem dumping_run (s : Session) (directory : DiskPath) (disk : Disk) (uses : List Use) :
    let plain := (s.withDump none).runOn disk uses
    let dumped := (s.withDump (some { directory })).runOn disk uses
    let files := Passage.files 0 ((s.withDump none).passed uses)
    dumped.1 = plain.1 ∧ dumped.2.1.withDump none = plain.2.1 ∧ plain.2.2 = disk ∧
      ∀ last, files.length < UInt32.size → disk.writeAll? directory files = some last →
        dumped.2.2 = last ∧ disk.Gains directory files last := by
  have hempty : ({ directory } : Dump).recorded = [] := rfl
  rw [runOn_none, runOn_some hempty, passed_withDump]
  refine ⟨rfl, rfl, rfl, fun last hcount hwrite => ?_⟩
  rw [Passage.files, List.length_map, List.length_zipIdx] at hcount
  have hnumbers : 0 + (s.passed uses).length ≤ UInt32.size := by omega
  have hkeep := Dump.keep_eq hnumbers hwrite
  exact ⟨congrArg Prod.snd hkeep, Disk.gains_of_writeAll? hwrite (Passage.nodup_files ..)⟩

/-- A frame is taken that claims a size below that of its header. Then three bytes are sent, which
do not reach to an opcode, then a frame for which the queue has no room, and one to a session that
is closed. The record has the first frame and the one that was refused. -/
theorem dumping_run_refused :
    let s := { Session.new 1 with outbox := .empty 8 }
    let uses : List Use := [.hear [2, 0, 0, 0, 0x03, 0x0C, 0, 0], .take, .send [9, 9, 9],
      .send [6, 0, 0, 0, 0x11, 0x0E], .close, .send [6, 0, 0, 0, 0x11, 0x0E]]
    let disk := ({} : Disk).put ["7"] .directory
    let files := Passage.files 0 ((s.withDump none).passed uses)
    let dumped := (s.withDump (some { directory := ["7"] })).runOn disk uses
    files.length < UInt32.size ∧ (disk.writeAll? ["7"] files).isSome = true ∧
      dumped.2.1.outbox.toList = [9, 9, 9] ∧
      (dumped.2.2.children ["7"]).Perm
        [("0.03.0C.C.bin", .file [8, 0, 0, 0, 0x03, 0x0C, 0, 0]),
          ("1.11.0E.S.bin", .file [6, 0, 0, 0, 0x11, 0x0E])] := by
  intro s uses disk files dumped
  have hcount : files.length < UInt32.size := by decide +kernel
  have hwrite : (disk.writeAll? ["7"] files).isSome = true := by decide +kernel
  have hqueue : dumped.2.1.outbox.toList = [9, 9, 9] := by decide +kernel
  have hempty : disk.children ["7"] = [] := by decide +kernel
  have hnames : files.map (fun f => (f.1, .file f.2)) =
      [("0.03.0C.C.bin", .file [8, 0, 0, 0, 0x03, 0x0C, 0, 0]),
        ("1.11.0E.S.bin", DiskEntry.file [6, 0, 0, 0, 0x11, 0x0E])] := by decide +kernel
  obtain ⟨last, hlast⟩ := Option.isSome_iff_exists.mp hwrite
  obtain ⟨-, -, -, hfiles⟩ := dumping_run s ["7"] disk uses
  obtain ⟨hdisk, hgains⟩ := hfiles last hcount hlast
  refine ⟨hcount, hwrite, hqueue, ?_⟩
  rw [hdisk, ← hnames]
  exact hgains.perm_of_empty hempty

end Session

end GameShip
