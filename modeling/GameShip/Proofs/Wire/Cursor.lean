import GameShip.Proofs.Wire.Layout
import GameShip.Proofs.Wire.Script
import Mathlib.Algebra.GroupWithZero.Nat

/-!
# How far reads get

Every read goes through parts one after the other, each a run of bytes that fits into what is left
or does not. It stops before the first part that does not fit, so that a reader only goes forward
and never past the end, however often a read fails (`Reader.cursor_run`).

* `ReadPlan`: a read as its parts. What a part holds says how to go on.
* `Reader.attempt`, `Reader.fitted`: a read after which the reader goes on from where it stopped,
  and how far that is.
* `ReadCall`: anything that can be asked of a reader, with the widths of its parts.
-/

namespace GameShip

namespace Reader

/-- The reader of a body at a position of it. -/
def within (body : Bytes) (position : Nat) : Reader := ⟨position, body.drop position⟩

/-- The reader after it has consumed some more bytes. -/
def advance (r : Reader) (count : Nat) : Reader := ⟨r.position + count, r.rest.drop count⟩

/-- What comes of a read, and the reader after it, also if the read failed. -/
def attempt {α : Type} (r : Reader) (read : ReadM α) : Except ReadError α × Reader :=
  match read r with
  | .ok a later => (.ok a, later)
  | .error e later => (.error e, later)

/-- How many bytes are taken by parts one after the other, up to the first that does not fit. -/
def fitted : (remaining : Nat) → (parts : List Nat) → Nat
  | _, [] => 0
  | remaining, part :: parts =>
    if part ≤ remaining then part + fitted (remaining - part) parts else 0

@[simp] theorem position_advance (r : Reader) (count : Nat) :
    (r.advance count).position = r.position + count := rfl

@[simp] theorem rest_advance (r : Reader) (count : Nat) :
    (r.advance count).rest = r.rest.drop count := rfl

@[simp] theorem remaining_advance (r : Reader) (count : Nat) :
    (r.advance count).remaining = r.remaining - count := List.length_drop

@[simp] theorem advance_zero (r : Reader) : r.advance 0 = r := rfl

theorem advance_advance (r : Reader) (count more : Nat) :
    (r.advance count).advance more = r.advance (count + more) := by
  rw [advance, advance, advance, Nat.add_assoc, List.drop_drop]

theorem advance_inj {r : Reader} {count more : Nat} (h : r.advance count = r.advance more) :
    count = more :=
  Nat.add_left_cancel (congrArg position h)

theorem advance_within (body : Bytes) (position count : Nat) :
    (within body position).advance count = within body (position + count) := by
  rw [advance, within, within, List.drop_drop]

theorem remaining_within (body : Bytes) (position : Nat) :
    (within body position).remaining = body.length - position := List.length_drop

theorem fitted_le (remaining : Nat) (parts : List Nat) : fitted remaining parts ≤ remaining := by
  induction parts generalizing remaining with
  | nil => exact Nat.zero_le _
  | cons part parts ih =>
    have hlater := ih (remaining - part)
    rw [fitted]
    split <;> omega

end Reader

/-- A read as the parts that it goes through. A part that does not fit is an error, which may tell
the position. -/
inductive ReadPlan (α : Type) where
  | done (a : α)
  | part (width : Nat) (error : Nat → ReadError) (next : Bytes → ReadPlan α)

namespace ReadPlan

open Reader ReadM

variable {α β : Type}

/-- Reads as planned. -/
def read : ReadPlan α → ReadM α
  | done a => pure a
  | part width error next => fun r =>
    if width ≤ r.remaining then (next (r.rest.take width)).read (r.advance width)
    else .error (error r.position) r

/-- The widths of the parts, if these bytes are ahead. -/
def widths : ReadPlan α → Bytes → List Nat
  | done _, _ => []
  | part width _ next, ahead =>
    width :: (next (ahead.take width)).widths (ahead.drop width)

/-- A read of one part. -/
def one (width : Nat) (error : Nat → ReadError) (decode : Bytes → α) : ReadPlan α :=
  part width error fun bytes => done (decode bytes)

section Attempt

variable {width : Nat} {error : Nat → ReadError} {next : Bytes → ReadPlan α} {r r' : Reader}

theorem read_part_of_le (h : width ≤ r.remaining) :
    (part width error next).read r = (next (r.rest.take width)).read (r.advance width) :=
  if_pos h

theorem read_part_of_lt (h : r.remaining < width) :
    (part width error next).read r = .error (error r.position) r :=
  if_neg (Nat.not_le.mpr h)

theorem attempt_part_of_le (h : width ≤ r.remaining) :
    r.attempt (part width error next).read =
      (r.advance width).attempt (next (r.rest.take width)).read := by
  rw [attempt, read_part_of_le h, attempt]

theorem attempt_part_of_lt (h : r.remaining < width) :
    r.attempt (part width error next).read = (.error (error r.position), r) := by
  rw [attempt, read_part_of_lt h]

/-- The reader stops before the first part that does not fit. -/
theorem attempt_snd (p : ReadPlan α) (r : Reader) :
    (r.attempt p.read).2 = r.advance (fitted r.remaining (p.widths r.rest)) := by
  induction p generalizing r with
  | done a => rfl
  | part width error next ih =>
    rw [widths, fitted]
    by_cases h : width ≤ r.remaining
    · rw [if_pos h, attempt_part_of_le h, ih, remaining_advance, advance_advance, rest_advance]
    · rw [if_neg h, attempt_part_of_lt (Nat.lt_of_not_le h), advance_zero]

/-- The read succeeds if all parts fit. -/
theorem isOk_attempt (p : ReadPlan α) (r : Reader) :
    (r.attempt p.read).1.isOk = decide ((p.widths r.rest).sum ≤ r.remaining) := by
  induction p generalizing r with
  | done a => exact (decide_eq_true (Nat.zero_le _)).symm
  | part width error next ih =>
    rw [widths, List.sum_cons]
    by_cases h : width ≤ r.remaining
    · rw [attempt_part_of_le h, ih, remaining_advance, rest_advance]
      exact decide_eq_decide.mpr ⟨fun hle => by omega, fun hle => by omega⟩
    · rw [attempt_part_of_lt (Nat.lt_of_not_le h)]
      exact (decide_eq_false (by omega)).symm

/-- A reader at the same position comes to the same if it has the same bytes ahead as far as they
are consumed. How many there are behind these matters only if the read fails. -/
theorem attempt_congr (p : ReadPlan α) {n : Nat} (hn : (r.attempt p.read).2 = r.advance n)
    (hle : n ≤ r.remaining) (hposition : r'.position = r.position)
    (htake : r'.rest.take n = r.rest.take n) (hroom : n ≤ r'.remaining)
    (hfailed : (r.attempt p.read).1.isOk = false → r'.remaining = r.remaining) :
    r'.attempt p.read = ((r.attempt p.read).1, r'.advance n) := by
  induction p generalizing r r' n with
  | done a =>
    obtain rfl : 0 = n := advance_inj (r.advance_zero.trans hn)
    rfl
  | part width error next ih =>
    by_cases h : width ≤ r.remaining
    · rw [attempt_part_of_le h] at hn hfailed ⊢
      obtain ⟨m, rfl⟩ : ∃ m, n = width + m := by
        have hlater := hn
        rw [attempt_snd, advance_advance] at hlater
        exact ⟨_, (advance_inj hlater).symm⟩
      have hwidth : r'.rest.take width = r.rest.take width := by
        have := congrArg (List.take width) htake
        rwa [List.take_take, List.take_take, Nat.min_eq_left (Nat.le_add_right ..)] at this
      have hrest : (r'.rest.drop width).take m = (r.rest.drop width).take m := by
        rw [List.take_drop, htake, ← List.take_drop]
      rw [attempt_part_of_le (by omega), hwidth, ← advance_advance]
      refine ih _ ?_ ?_ ?_ hrest ?_ ?_
      · rw [hn, advance_advance]
      · rw [remaining_advance]
        omega
      · rw [position_advance, position_advance, hposition]
      · rw [remaining_advance]
        omega
      · intro hisOk
        rw [remaining_advance, remaining_advance, hfailed hisOk]
    · have hlt := Nat.lt_of_not_le h
      rw [attempt_part_of_lt hlt] at hn hfailed ⊢
      obtain rfl : 0 = n := advance_inj (r.advance_zero.trans hn)
      rw [attempt_part_of_lt (by rw [hfailed rfl]; exact hlt), hposition, advance_zero]

/-- The same of the reader of another body, at the same position. -/
theorem attempt_within (p : ReadPlan α) {body : Bytes} (other : Bytes) {position n : Nat}
    (hle : n ≤ body.length - position)
    (hn : ((within body position).attempt p.read).2 = (within body position).advance n)
    (hposition : position ≤ other.length)
    (hextract : other.extract position (position + n) = body.extract position (position + n))
    (hfailed : ((within body position).attempt p.read).1.isOk = false →
      other.length = body.length) :
    (within other position).attempt p.read =
      (((within body position).attempt p.read).1, within other (position + n)) := by
  rw [List.extract_eq_take_drop, List.extract_eq_take_drop, Nat.add_sub_cancel_left] at hextract
  have hroom : n ≤ other.length - position := by
    have hlength := congrArg List.length hextract
    rw [List.length_take, List.length_take, List.length_drop, List.length_drop] at hlength
    omega
  rw [← advance_within]
  refine p.attempt_congr hn ?_ rfl hextract ?_ ?_
  · rwa [remaining_within]
  · rwa [remaining_within]
  · intro hisOk
    rw [remaining_within, remaining_within, hfailed hisOk]

end Attempt

/-! ## Reads as plans -/

section Reads

variable {x : ReadM α} {f : α → ReadM β} {width : Nat} {error : Nat → ReadError}
  {decode : Bytes → α}

theorem read_one_of_le {r : Reader} (h : width ≤ r.remaining) :
    (one width error decode).read r = .ok (decode (r.rest.take width)) (r.advance width) :=
  read_part_of_le h

theorem read_one_of_lt {r : Reader} (h : r.remaining < width) :
    (one width error decode).read r = .error (error r.position) r :=
  read_part_of_lt h

theorem exactly_eq (width : Nat) (error : Nat → ReadError) :
    ReadM.exactly width (fun r => error r.position) = (one width error id).read := by
  funext r
  by_cases h : width ≤ r.remaining
  · rw [read_one_of_le h]
    exact (Fixed.exactly width _).ok h
  · have hshort : (r.rest.take width).length ≠ width := by
      unfold remaining at h
      rw [List.length_take]
      omega
    rw [read_one_of_lt (Nat.lt_of_not_le h)]
    exact if_neg hshort

theorem bind_eq (next : α → ReadPlan β) (hx : x = (one width error decode).read)
    (hf : ∀ a, f a = (next a).read) :
    x >>= f = (part width error fun bytes => next (decode bytes)).read := by
  funext r
  rw [hx]
  by_cases h : width ≤ r.remaining
  · rw [bind_of_ok (read_one_of_le h), read_part_of_le h, hf]
  · have hlt := Nat.lt_of_not_le h
    rw [bind_of_error (read_one_of_lt hlt), read_part_of_lt hlt]

theorem map_eq (hx : x = (one width error decode).read) (g : α → β) :
    (do return g (← x) : ReadM β) = (one width error fun bytes => g (decode bytes)).read :=
  bind_eq (fun a => done (g a)) hx fun _ => rfl

end Reads

end ReadPlan

/-- The read fails only because a field of fixed width does not fit. -/
def ReadM.Truncates {α : Type} (x : ReadM α) : Prop :=
  ∀ (r later : Reader) (e : ReadError), x r = .error e later → e = .truncated

namespace ReadM.Truncates

open ReadPlan

variable {α β : Type} {x : ReadM α} {f : α → ReadM β} {width : Nat} {decode : Bytes → α}

theorem of_eq (hx : x = (one width (fun _ => .truncated) decode).read) : x.Truncates := by
  intro r later e h
  rw [hx] at h
  by_cases hwidth : width ≤ r.remaining
  · rw [read_one_of_le hwidth] at h
    cases h
  · rw [read_one_of_lt (Nat.lt_of_not_le hwidth)] at h
    cases h
    rfl

theorem pure (a : α) : (Pure.pure a : ReadM α).Truncates := fun _ _ _ h => by cases h

theorem bind (hx : x.Truncates) (hf : ∀ a, (f a).Truncates) : (x >>= f).Truncates := by
  intro r later e h
  cases hfirst : x r with
  | ok a mid =>
    rw [bind_of_ok hfirst] at h
    exact hf a mid later e h
  | error e' mid =>
    rw [bind_of_error hfirst] at h
    cases h
    exact hx r _ e hfirst

/-- A read of several fields that puts the reader back is a read of one part. -/
theorem restoring_eq (hx : x.Truncates) (hfixed : (ReadM.restoring x).Fixed width decode) :
    ReadM.restoring x = (one width (fun _ => .truncated) decode).read := by
  funext r
  by_cases h : width ≤ r.remaining
  · rw [read_one_of_le h]
    exact hfixed.ok h
  · have hlt := Nat.lt_of_not_le h
    obtain ⟨e, later, herror⟩ := hfixed.short hlt
    rw [read_one_of_lt hlt]
    rw [ReadM.restoring] at herror ⊢
    cases hfirst : x r with
    | ok a mid =>
      rw [hfirst] at herror
      cases herror
    | error e' mid => rw [hx r mid e' hfirst]

end ReadM.Truncates

/-! ## Everything that can be asked of a reader -/

/-- The count that stands disguised at the front of bytes. -/
def Obfuscation.countAhead (key : Obfuscation) (ahead : Bytes) : Nat :=
  (key.reveal (UInt32.ofNat (Bytes.value (ahead.take 4)))).toNat

namespace FieldKind

open ReadPlan ReadM Reader

/-- The number of bytes of a field, if it is the same for all fields of the kind. -/
def width? : FieldKind → Option Nat
  | u8 => some 1
  | u16 | half => some 2
  | u32 | hidden _ => some 4
  | u64 => some 8
  | header => some EntityHeader.size
  | location => some Location.size
  | bytes count | zeros count | fixedAscii count => some count
  | fixedUtf16 size => some (2 * size)
  | ascii _ | utf16 _ => none

/-- The widths of the parts of a field, if these bytes are ahead. A text behind its disguised
length is that length, the text and what fills it up. -/
def parts : FieldKind → Bytes → List Nat
  | ascii key, ahead => 4 :: match key.countAhead ahead with
    | 0 => []
    | length + 1 => [length, 4 - length % 4]
  | utf16 key, ahead => 4 :: match key.countAhead ahead with
    | 0 => []
    | length + 1 => 2 * (length + 1) :: if (length + 1) % 2 = 1 then [2] else []
  | kind, _ => kind.width?.toList

/-- How a text of so many bytes is read behind its length, with what fills it up. -/
def asciiPlan : (length : Nat) → ReadPlan String
  | 0 => done ""
  | length + 1 => part length .endedAt fun content =>
    part (4 - length % 4) .endedAt fun _ => done (Utf8.untilNul content)

/-- How a text of so many units is read behind its length, with what fills it up. -/
def utf16Plan : (length : Nat) → ReadPlan String
  | 0 => done ""
  | length + 1 => part (2 * (length + 1) % UInt64.size) .endedAt fun content =>
    if (length + 1) % 2 = 1 then part 2 .endedAt fun _ => done (Utf16.untilNul content)
    else done (Utf16.untilNul content)

/-- How a field is read. -/
def plan : (kind : FieldKind) → ReadPlan kind.Value
  | u8 => one 1 (fun _ => .truncated) fun bytes => UInt8.ofNat (Bytes.value bytes)
  | u16 => one 2 (fun _ => .truncated) fun bytes => UInt16.ofNat (Bytes.value bytes)
  | u32 => one 4 (fun _ => .truncated) fun bytes => UInt32.ofNat (Bytes.value bytes)
  | u64 => one 8 (fun _ => .truncated) fun bytes => UInt64.ofNat (Bytes.value bytes)
  | half => one 2 (fun _ => .truncated) fun bytes => (Half.ofBytes bytes).toSingle
  | header => one EntityHeader.size (fun _ => .truncated) EntityHeader.ofBytes
  | location => one Location.size (fun _ => .truncated) Location.ofBytes
  | bytes count => one count .endedAt id
  | zeros count => one count .endedAt fun _ => ()
  | hidden key => one 4 (fun _ => .truncated) fun bytes =>
    key.reveal (UInt32.ofNat (Bytes.value bytes))
  | fixedAscii size => one size .endedAt Utf8.untilNul
  | fixedUtf16 size => one (2 * size % UInt64.size) .endedAt Utf16.untilNul
  | ascii key => part 4 (fun _ => .truncated) fun word =>
    asciiPlan (key.reveal (UInt32.ofNat (Bytes.value word))).toNat
  | utf16 key => part 4 (fun _ => .truncated) fun word =>
    utf16Plan (key.reveal (UInt32.ofNat (Bytes.value word))).toNat

theorem number_eq (width : Nat) :
    number width = (one width (fun _ => .truncated) Bytes.value).read :=
  map_eq (exactly_eq width fun _ => .truncated) Bytes.value

theorem bytes_eq (count : Nat) : Reader.bytes count = (one count .endedAt id).read :=
  exactly_eq count .endedAt

theorem skip_eq (count : Nat) : skip count = (one count .endedAt fun _ => ()).read :=
  map_eq (bytes_eq count) fun _ => ()

theorem u16_eq : Reader.u16 = u16.plan.read := map_eq (number_eq 2) UInt16.ofNat

theorem u32_eq : Reader.u32 = u32.plan.read := map_eq (number_eq 4) UInt32.ofNat

theorem u64_eq : Reader.u64 = u64.plan.read := map_eq (number_eq 8) UInt64.ofNat

theorem half_eq : Reader.half = half.plan.read := map_eq u16_eq fun bits => Half.toSingle ⟨bits⟩

theorem header_eq : Reader.header = header.plan.read := by
  have hu16 : Reader.u16.Truncates := .of_eq u16_eq
  refine Truncates.restoring_eq ?_ fixed_header
  exact (Truncates.of_eq u64_eq).bind fun _ => hu16.bind fun _ => hu16.bind fun _ => .pure _

theorem location_eq : Reader.location = location.plan.read := by
  have hhalf : Reader.half.Truncates := .of_eq half_eq
  have hrotation : rotation.Truncates :=
    hhalf.bind fun _ => hhalf.bind fun _ => hhalf.bind fun _ => hhalf.bind fun _ => .pure _
  have hpoint : point.Truncates :=
    hhalf.bind fun _ => hhalf.bind fun _ => hhalf.bind fun _ => .pure _
  refine Truncates.restoring_eq ?_ fixed_location
  exact hrotation.bind fun _ => hpoint.bind fun _ => .pure _

theorem hidden_eq (key : Obfuscation) : Reader.hidden key = (hidden key).plan.read :=
  map_eq u32_eq key.reveal

theorem fixedUtf16_eq (size : Nat) : Reader.fixedUtf16 size = (fixedUtf16 size).plan.read :=
  map_eq (bytes_eq _) Utf16.untilNul

theorem ascii_eq (key : Obfuscation) : Reader.ascii key = (ascii key).plan.read := by
  refine bind_eq (fun count => asciiPlan count.toNat) (hidden_eq key) fun count => ?_
  cases count.toNat with
  | zero => rfl
  | succ length =>
    exact bind_eq (fun text => part (4 - length % 4) .endedAt fun _ => done text)
      (map_eq (bytes_eq length) Utf8.untilNul) fun text => map_eq (skip_eq _) fun _ => text

theorem utf16_eq (key : Obfuscation) : Reader.utf16 key = (utf16 key).plan.read := by
  refine bind_eq (fun count => utf16Plan count.toNat) (hidden_eq key) fun count => ?_
  cases count.toNat with
  | zero => rfl
  | succ length =>
    refine bind_eq (fun text =>
      if (length + 1) % 2 = 1 then part 2 .endedAt fun _ => done text else done text)
      (fixedUtf16_eq (length + 1)) fun text => ?_
    by_cases hodd : (length + 1) % 2 = 1
    · rw [if_pos hodd, if_pos hodd]
      exact map_eq (skip_eq 2) fun _ => text
    · rw [if_neg hodd, if_neg hodd]
      rfl

theorem read_eq (kind : FieldKind) : kind.read = kind.plan.read := by
  cases kind with
  | u8 => exact map_eq (number_eq 1) UInt8.ofNat
  | u16 => exact u16_eq
  | u32 => exact u32_eq
  | u64 => exact u64_eq
  | half => exact half_eq
  | header => exact header_eq
  | location => exact location_eq
  | bytes count => exact bytes_eq count
  | zeros count => exact skip_eq count
  | hidden key => exact hidden_eq key
  | fixedAscii size => exact map_eq (bytes_eq size) Utf8.untilNul
  | fixedUtf16 size => exact fixedUtf16_eq size
  | ascii key => exact ascii_eq key
  | utf16 key => exact utf16_eq key

/-- The bytes of the field are counted by a word of 64 bits, as all bytes in memory are. -/
def Counted : FieldKind → Prop
  | fixedUtf16 size => 2 * size < UInt64.size
  | _ => True

theorem widths_plan {kind : FieldKind} (h : kind.Counted) (ahead : Bytes) :
    kind.plan.widths ahead = kind.parts ahead := by
  cases kind with
  | fixedUtf16 size => exact congrArg (fun width => [width]) (Nat.mod_eq_of_lt h)
  | ascii key =>
    rw [plan, widths, parts, Obfuscation.countAhead]
    cases (key.reveal (UInt32.ofNat (Bytes.value (ahead.take 4)))).toNat <;> rfl
  | utf16 key =>
    have hcount := (key.reveal (UInt32.ofNat (Bytes.value (ahead.take 4)))).toNat_lt
    rw [plan, widths, parts, Obfuscation.countAhead]
    cases hlength : (key.reveal (UInt32.ofNat (Bytes.value (ahead.take 4)))).toNat with
    | zero => rfl
    | succ length =>
      rw [hlength] at hcount
      have hword : 2 * (length + 1) % UInt64.size = 2 * (length + 1) := by
        rw [UInt64.size]
        omega
      dsimp only
      rw [utf16Plan, widths, hword]
      by_cases hodd : (length + 1) % 2 = 1
      · rw [if_pos hodd, if_pos hodd]
        rfl
      · rw [if_neg hodd, if_neg hodd]
        rfl
  | _ => rfl

end FieldKind

/-- Anything that can be asked of a reader. -/
inductive ReadCall where
  | field (kind : FieldKind)
  /-- A number of three bytes. -/
  | u24

namespace ReadCall

open Reader ReadPlan

abbrev Value : ReadCall → Type
  | field kind => kind.Value
  | u24 => UInt32

def read : (call : ReadCall) → ReadM call.Value
  | field kind => kind.read
  | u24 => Reader.u24

def width? : ReadCall → Option Nat
  | field kind => kind.width?
  | u24 => some 3

def parts : ReadCall → Bytes → List Nat
  | field kind, ahead => kind.parts ahead
  | u24, _ => [3]

def Counted : ReadCall → Prop
  | field kind => kind.Counted
  | u24 => True

theorem exists_plan (call : ReadCall) : ∃ p : ReadPlan call.Value, call.read = p.read ∧
    (call.Counted → ∀ ahead, p.widths ahead = call.parts ahead) := by
  cases call with
  | field kind => exact ⟨kind.plan, kind.read_eq, fun h ahead => FieldKind.widths_plan h ahead⟩
  | u24 =>
    exact ⟨_, map_eq (FieldKind.bytes_eq 3) fun bytes => UInt32.ofNat (Bytes.value bytes),
      fun _ _ => rfl⟩

theorem parts_of_width? {call : ReadCall} {width : Nat} (h : call.width? = some width)
    (ahead : Bytes) : call.parts ahead = [width] := by
  cases call with
  | field kind => cases kind <;> cases h <;> rfl
  | u24 =>
    cases h
    rfl

end ReadCall

namespace Reader

open ReadPlan

/-- The reader after reads that follow one another, also when some of them fail. -/
def goOn (r : Reader) (calls : List ReadCall) : Reader :=
  calls.foldl (fun r call => (r.attempt call.read).2) r

variable {body : Bytes} {position : Nat}

theorem exists_attempt (r : Reader) (call : ReadCall) :
    ∃ n, n ≤ r.remaining ∧ (r.attempt call.read).2 = r.advance n := by
  obtain ⟨p, hp, -⟩ := call.exists_plan
  rw [hp]
  exact ⟨_, fitted_le _ _, p.attempt_snd r⟩

/-- However many reads there were, the reader is somewhere in the body. -/
theorem exists_goOn (h : position ≤ body.length) (calls : List ReadCall) :
    ∃ later, later ≤ body.length ∧ (within body position).goOn calls = within body later := by
  induction calls generalizing position with
  | nil => exact ⟨position, h, rfl⟩
  | cons call calls ih =>
    obtain ⟨n, hn, hlater⟩ := exists_attempt (within body position) call
    rw [remaining_within] at hn
    have hnext : position + n ≤ body.length := by omega
    obtain ⟨later, hlast, hrun⟩ := ih hnext
    refine ⟨later, hlast, ?_⟩
    rw [← hrun, ← advance_within, ← hlater]
    rfl

/-- **The cursor goes forward, and never past the end.** Take any body and any reads from its start
on, of which some may have failed, and one more. What is left is always what lies behind the
position. A read of fixed width succeeds if it fits into what is left, and otherwise stays where it
was. A read of several parts succeeds if all of them fit, and otherwise stops after those that did.
Nothing matters to a read but the bytes that it has consumed and, if it fails, the length of the
body. -/
theorem cursor_run (body : Bytes) (calls : List ReadCall) (call : ReadCall)
    (hcall : call.Counted) :
    let r := (ofBytes body).goOn calls
    let (outcome, later) := r.attempt call.read
    (r = within body r.position ∧ r.position ≤ body.length ∧
        r.remaining = body.length - r.position) ∧
      (r.position ≤ later.position ∧ later.position ≤ body.length ∧
        later.remaining = body.length - later.position) ∧
      (∀ width, call.width? = some width →
        if width ≤ r.remaining then outcome.isOk = true ∧ later.position = r.position + width
        else outcome.isOk = false ∧ later = r) ∧
      (outcome.isOk = true ↔ (call.parts r.rest).sum ≤ r.remaining) ∧
      later.position = r.position + fitted r.remaining (call.parts r.rest) ∧
      ∀ other : Bytes, r.position ≤ other.length →
        other.extract r.position later.position = body.extract r.position later.position →
        (outcome.isOk = false → other.length = body.length) →
        (within other r.position).attempt call.read = (outcome, within other later.position) := by
  obtain ⟨position, hle, hrun⟩ := exists_goOn (Nat.zero_le body.length) calls
  obtain ⟨p, hp, hparts⟩ := call.exists_plan
  have hstart : ofBytes body = within body 0 := rfl
  rw [hstart, hrun]
  intro r
  have hremaining : r.remaining = body.length - position := remaining_within ..
  have hfits := fitted_le r.remaining (call.parts r.rest)
  have hlater := p.attempt_snd r
  have hisOk := p.isOk_attempt r
  have hcongr := fun other => p.attempt_within other (hremaining ▸ fitted_le _ _) hlater
  rw [hparts hcall, ← hp] at hlater hisOk hcongr
  generalize r.attempt call.read = result at hlater hisOk hcongr ⊢
  obtain ⟨outcome, later⟩ := result
  dsimp only at hlater hisOk hcongr ⊢
  generalize hn : fitted r.remaining (call.parts r.rest) = n at hlater hfits hcongr ⊢
  subst hlater
  have hposition : r.position = position := rfl
  rw [position_advance, remaining_advance, hposition]
  have hend : position + n ≤ body.length := by omega
  have hleft : r.remaining - n = body.length - (position + n) := by omega
  refine ⟨⟨rfl, hle, hremaining⟩, ⟨Nat.le_add_right .., hend, hleft⟩, fun width hwidth => ?_, ?_,
    rfl, hcongr⟩
  · rw [ReadCall.parts_of_width? hwidth] at hisOk hn
    rw [List.sum_singleton] at hisOk
    rw [fitted, fitted] at hn
    by_cases h : width ≤ r.remaining
    · rw [if_pos h] at hn ⊢
      exact ⟨hisOk.trans (decide_eq_true h), by rw [← hn, Nat.add_zero]⟩
    · rw [if_neg h] at hn ⊢
      exact ⟨hisOk.trans (decide_eq_false h), by rw [← hn, advance_zero]⟩
  · rw [hisOk, decide_eq_true_iff]

/-- Bytes that are too few, then a text whose last part does not fit: the reader has stopped behind
the text, and stays there. -/
theorem cursor_run_truncated :
    let body : Bytes := [3, 0, 0, 0, 0x68, 0x69, 0]
    let r := (ofBytes body).goOn [.field .u64, .field (.ascii ⟨0, 0⟩)]
    2 * 1 < UInt64.size ∧ r.position = 6 ∧
      (r.attempt (ReadCall.field (.fixedUtf16 1)).read).1.isOk = false ∧
      (r.attempt (ReadCall.field (.fixedUtf16 1)).read).2 = r := by
  have hcount : 2 * 1 < UInt64.size := by decide
  obtain ⟨-, -, hfixed, -⟩ := cursor_run [3, 0, 0, 0, 0x68, 0x69, 0]
    [.field .u64, .field (.ascii ⟨0, 0⟩)] (.field (.fixedUtf16 1)) hcount
  exact ⟨hcount, by decide +kernel, hfixed 2 rfl⟩

end Reader

end GameShip
