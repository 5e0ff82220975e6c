import GameShip.Proofs.Disk.Writing
import GameShip.Proofs.Frame.Split
import GameShip.Proofs.Session.Outbound
import GameShip.Proofs.Ship.Chunking
import GameShip.Proofs.Ship.Flush
import GameShip.Proofs.Ship.Step

/-!
# Replaying a directory

The files of a directory are sent by the order of their names, each with its size in front, up to
the first that cannot be sent (`Ship.replaying_sendDirectory`).

* `Frame.cut`: bytes that are cut by the size fields in them.
* `Ship.supplied`, `Ship.reading`: the ship while packets are handed to a session, what is read of
  the files meanwhile.
* `Ship.Supplied`: what comes of it for the sessions.
* `Ship.Sheltered`: no session records into the directory of a place.
-/

namespace GameShip

/-! ## Cutting by size fields -/

namespace Frame

/-- Bytes that are cut by the size fields in them, as far as that goes, and what is left over. -/
def cut (bytes : Bytes) : List Bytes × Bytes :=
  let size := Bytes.value (bytes.take 4)
  if _h : headerSize ≤ size ∧ size ≤ bytes.length then
    (bytes.take size :: (cut (bytes.drop size)).1, (cut (bytes.drop size)).2)
  else ([], bytes)
termination_by bytes.length
decreasing_by
  all_goals
    rw [List.length_drop]
    rw [headerSize] at _h
    omega

/-- The packet begins with its size, and is a frame by that. -/
structure Sized (packet : Bytes) : Prop where
  long : headerSize ≤ packet.length
  size : Bytes.value (packet.take 4) = packet.length

variable {packet : Bytes} {packets : List Bytes}

theorem Sized.cut_append (h : Sized packet) (rest : Bytes) :
    cut (packet ++ rest) = (packet :: (cut rest).1, (cut rest).2) := by
  have hlong := h.long
  rw [headerSize] at hlong
  have hsize : Bytes.value ((packet ++ rest).take 4) = packet.length := by
    rw [List.take_append_of_le_length (by omega), h.size]
  rw [cut, hsize, dif_pos ⟨h.long, by simp⟩, List.take_left, List.drop_left]

theorem cut_flatten (h : ∀ packet ∈ packets, Sized packet) :
    cut packets.flatten = (packets, []) := by
  induction packets with
  | nil =>
    rw [List.flatten_nil, cut]
    exact dif_neg (by decide)
  | cons packet packets ih =>
    rw [List.forall_mem_cons] at h
    rw [List.flatten_cons, h.1.cut_append, ih h.2]

theorem sized_withSize {capture : Bytes} (hlong : headerSize ≤ capture.length)
    (hshort : capture.length < 0x100000000) : Sized (Ship.withSize capture) := by
  have hheader := hlong
  rw [headerSize] at hheader
  have hlength : (Ship.withSize capture).length = capture.length := by
    rw [Ship.withSize, List.length_append, Bytes.length_ofNat, List.length_drop]
    omega
  refine ⟨hlength.symm ▸ hlong, ?_⟩
  rw [hlength, Ship.withSize, List.take_left' (Bytes.length_ofNat _ _), Bytes.value_ofNat]
  exact Nat.mod_eq_of_lt hshort

end Frame

/-! ## What is recorded meanwhile -/

theorem Dump.keeps_flush {dump : Dump} {place : DiskPath} (h : dump.directory ≠ place.dropLast)
    (disk : Disk) : Disk.Keeps place disk (dump.flush disk).2 := by
  unfold flush
  dsimp only
  induction dump.recorded with
  | nil => exact .refl place disk
  | cons file recorded ih =>
    obtain ⟨name, frame⟩ := file
    have hplace : dump.directory ++ [name] ≠ place := fun heq =>
      h (by rw [← heq, List.dropLast_concat])
    rw [List.foldr_cons]
    dsimp only
    generalize recorded.foldr _ disk = before at ih ⊢
    cases hwrite : before.write (dump.directory ++ [name]) frame with
    | none => exact ih
    | some after => exact ih.trans (Disk.keeps_write hplace hwrite)

namespace Session

variable {s t : Session}

namespace AsRecorded

theorem refl (s : Session) : s.AsRecorded s := ⟨s.dump, rfl⟩

theorem symm (h : s.AsRecorded t) : t.AsRecorded s := by
  obtain ⟨_, rfl⟩ := h
  exact ⟨s.dump, rfl⟩

theorem closed (h : s.AsRecorded t) : t.closed = s.closed := by
  obtain ⟨_, rfl⟩ := h
  rfl

theorem recordSent (s : Session) (packet : Bytes) : s.AsRecorded (s.recordSent packet) := by
  unfold Session.recordSent
  split
  · exact ⟨_, rfl⟩
  · exact refl s

theorem enqueue (h : s.AsRecorded t) (packet : Bytes) :
    (s.enqueue packet).AsRecorded (t.enqueue packet) := by
  obtain ⟨dump, rfl⟩ := h
  unfold Session.enqueue
  dsimp only
  cases s.outbox.push (Rc4.through s.outCipher packet).1 <;> exact ⟨dump, rfl⟩

theorem send (h : s.AsRecorded t) (packet : Bytes) :
    (s.send packet).AsRecorded (t.send packet) := by
  unfold Session.send
  rw [h.closed]
  split
  · exact h
  · exact (((recordSent s packet).symm.trans h).trans (recordSent t packet)).enqueue packet

end AsRecorded

theorem directory_send (s : Session) (packet : Bytes) :
    (s.send packet).dump.map (·.directory) = s.dump.map (·.directory) := by
  unfold send recordSent record enqueue
  dsimp only
  repeat' split
  all_goals simp [Function.comp_def, Dump.record]

end Session

namespace Ship

/-! ## Files one after the other -/

/-- What there is before the first failure, and that failure. -/
def upToError {ε α : Type} : List (Except ε α) → List α × Option ε
  | [] => ([], none)
  | .error e :: _ => ([], some e)
  | .ok a :: rest => (a :: (upToError rest).1, (upToError rest).2)

/-- The packet that a file is sent as. A file that is shorter than the header of a frame is not. -/
def packed : Except FileError Bytes → Except FileError Bytes
  | .error e => .error e
  | .ok capture =>
    if capture.length < Frame.headerSize then .error .shorterThanHeader else .ok (withSize capture)

/-- The ship after packets have been handed to a session. Before each of them, what the sessions
have recorded is written to the disk. -/
def supplied (ship : Ship) (id : ClientId) : List Bytes → Ship
  | [] => ship
  | packet :: packets => (ship.flushDumps.adjust id (·.send packet)).supplied id packets

/-- What is read of files, of each when its turn comes: those before it have been handed to a
session. -/
def reading (ship : Ship) (id : ClientId) : List String → List (Except FileError Bytes)
  | [] => []
  | path :: paths =>
    let content := ship.flushDumps.disk.read path
    content :: (ship.supplied id (packed content).toOption.toList).reading id paths

variable {ship later : Ship} {id other : ClientId} {s t : Session} {packet : Bytes}
  {packets : List Bytes}

theorem upToError_snd_eq_none_iff {ε α : Type} (results : List (Except ε α)) :
    (upToError results).2 = none ↔ (upToError results).1.length = results.length := by
  induction results with
  | nil => exact iff_of_true rfl rfl
  | cons result results ih =>
    cases result with
    | error e => simp [upToError]
    | ok a => simpa [upToError] using ih

theorem live?_flushDumps (H : ship.sessions.Keyed) (hlive : ship.live? id = some s) :
    ship.flushDumps.live? id = some s.flushed := by
  obtain ⟨hs, hopen⟩ := live?_eq_some.mp hlive
  rw [live?_eq_some, getElem?_flushDumps H, hs]
  exact ⟨rfl, hopen⟩

theorem live?_adjust (H : ship.sessions.Keyed) (hlive : ship.live? id = some s) (packet : Bytes) :
    (ship.adjust id (·.send packet)).live? id = some (s.send packet) := by
  obtain ⟨hs, hopen⟩ := live?_eq_some.mp hlive
  have hid : (s.send packet).id = id := (Session.Unmoved.send s packet).id.trans (H id s hs)
  rw [adjust, hs, live?_eq_some]
  exact ⟨getElem?_put _ hid, (s.closed_send packet).trans hopen⟩

theorem calm_supplied (H : ship.sessions.Keyed) (id : ClientId) (packets : List Bytes) :
    ship.Calm (ship.supplied id packets) := by
  induction packets generalizing ship with
  | nil => exact .refl ship
  | cons packet packets ih =>
    have hflush := (flushed_flushDumps H).calm
    have hsend : ship.flushDumps.Calm (ship.flushDumps.adjust id (·.send packet)) :=
      .adjust (hflush.keyed H) (Session.Unmoved.send · packet)
    exact (hflush.trans hsend).trans (ih (hsend.keyed (hflush.keyed H)))

/-! ## What is sent -/

theorem sendFile_packed (H : ship.sessions.Keyed) (hlive : ship.live? id = some s) (path : String) :
    sendFile id path ship = match packed (ship.flushDumps.disk.read path) with
      | .error e => .error (.file e) ship.flushDumps
      | .ok packet => .ok () (ship.supplied id [packet]) := by
  have hflushed := live?_flushDumps H hlive
  have hs := (live?_eq_some.mp hflushed).1
  have hcaptured : ship.captured path = packed (ship.flushDumps.disk.read path) := by
    unfold captured
    cases ship.flushDumps.disk.read path <;> rfl
  rw [sendFile_eq, hcaptured]
  cases packed (ship.flushDumps.disk.read path) with
  | error e => rfl
  | ok packet =>
    dsimp only
    rw [sendRaw_eq, hflushed, supplied, supplied, adjust, hs]

/-- Files are sent up to the first that cannot be sent. -/
theorem sendFiles_eq (H : ship.sessions.Keyed) (hlive : ship.live? id = some s)
    (paths : List String) :
    sendFiles id paths ship =
      match upToError ((ship.reading id paths).map packed) with
      | (packets, none) => .ok () (ship.supplied id packets)
      | (packets, some e) => .error (.file e) (ship.supplied id packets).flushDumps := by
  induction paths generalizing ship s with
  | nil => rfl
  | cons path paths ih =>
    have hfile := sendFile_packed H hlive path
    rw [sendFiles, reading, List.map_cons]
    cases hpacked : packed (ship.flushDumps.disk.read path) with
    | error e =>
      rw [hpacked] at hfile
      rw [bind_of_error hfile]
      rfl
    | ok packet =>
      rw [hpacked] at hfile
      have hkeyed := (flushed_flushDumps H).calm.keyed H
      have hrest := ih ((calm_supplied H id [packet]).keyed H)
        (live?_adjust hkeyed (live?_flushDumps H hlive) packet)
      rw [bind_of_ok hfile, hrest]
      dsimp only [Except.toOption, Option.toList, upToError]
      obtain ⟨packets, stop⟩ :=
        upToError (((ship.supplied id [packet]).reading id paths).map packed)
      cases stop <;> rfl

/-! ## What comes of it for the sessions -/

/-- What a ship is once packets have been handed to a session. -/
structure Supplied (ship : Ship) (id : ClientId) (s : Session) (packets : List Bytes)
    (later : Ship) : Prop where
  session : ∃ t, later.sessions[id]? = some t ∧ (packets.foldl Session.send s).AsRecorded t
  /-- The other sessions have written what they had recorded, and nothing else has come of it for
  them. -/
  others : ∀ other, other ≠ id → later.sessions[other]? = ship.sessions[other]?.map Session.flushed
  rest : ship.SameRest later

namespace Supplied

theorem flushDumps (h : ship.Supplied id s packets later) (H : later.sessions.Keyed) :
    ship.Supplied id s packets later.flushDumps where
  session := by
    obtain ⟨t, ht, hrecorded⟩ := h.session
    refine ⟨t.flushed, ?_, hrecorded.trans t.asRecorded_flushed⟩
    rw [getElem?_flushDumps H, ht]
    rfl
  others other hother := by
    rw [getElem?_flushDumps H, h.others other hother, Option.map_map]
    cases ship.sessions[other]? with
    | none => rfl
    | some t => exact congrArg some t.flushed_flushed
  rest := h.rest.trans (sameRest_flushDumps later)

theorem adjust (h : ship.Supplied id s packets later) (H : later.sessions.Keyed) (packet : Bytes) :
    ship.Supplied id s (packets ++ [packet]) (later.adjust id (·.send packet)) := by
  obtain ⟨t, ht, hrecorded⟩ := h.session
  have hid : (t.send packet).id = id := (Session.Unmoved.send t packet).id.trans (H id t ht)
  have hadjust : later.adjust id (·.send packet) = later.putSession (t.send packet) := by
    rw [Ship.adjust, ht]
  rw [hadjust]
  constructor
  · refine ⟨t.send packet, getElem?_put _ hid, ?_⟩
    rw [List.foldl_append]
    exact hrecorded.send packet
  · intro other hother
    rw [← h.others other hother]
    refine (SessionTable.getElem?_put later.sessions (t.send packet) other).trans (if_neg ?_)
    exact fun heq => hother (heq.symm.trans hid)
  · exact h.rest.trans ⟨rfl, rfl, rfl, rfl⟩

theorem supplied (h : ship.Supplied id s packets later) (H : later.sessions.Keyed)
    (packets' : List Bytes) :
    ship.Supplied id s (packets ++ packets') (later.supplied id packets') := by
  induction packets' generalizing packets later with
  | nil => rwa [List.append_nil]
  | cons packet packets' ih =>
    have hflushed := (flushed_flushDumps H).calm.keyed H
    have hone := (h.flushDumps H).adjust hflushed packet
    have hsend : later.flushDumps.Calm (later.flushDumps.adjust id (·.send packet)) :=
      .adjust hflushed (Session.Unmoved.send · packet)
    have hrest := ih hone (hsend.keyed hflushed)
    rwa [List.append_assoc] at hrest

/-- What waits for the client is what did before, and the packets. -/
theorem toList_outbox (h : ship.Supplied id s packets later) (hopen : s.closed = false)
    (hroom : s.outbox.length + packets.flatten.length ≤ s.outbox.capacity) :
    ∃ t, later.sessions[id]? = some t ∧ t.outbox.toList =
      s.outbox.toList ++ (Rc4.through s.outCipher packets.flatten).1 := by
  obtain ⟨t, ht, _, rfl⟩ := h.session
  exact ⟨_, ht, s.toList_outbox_foldl_send hopen hroom⟩

end Supplied

theorem supplied_flushDumps (H : ship.sessions.Keyed) (hs : ship.sessions[id]? = some s) :
    ship.Supplied id s [] ship.flushDumps where
  session := ⟨s.flushed, by rw [getElem?_flushDumps H, hs]; rfl, s.asRecorded_flushed⟩
  others other _ := getElem?_flushDumps H other
  rest := sameRest_flushDumps ship

/-! ## Files that nobody records -/

/-- No session records into the directory of a place. -/
def Sheltered (ship : Ship) (place : DiskPath) : Prop :=
  ∀ (other : ClientId) (t : Session), ship.sessions[other]? = some t →
    t.dump.map (·.directory) ≠ some place.dropLast

/-- What is written meanwhile is not written to a place. -/
structure Spares (place : DiskPath) (ship later : Ship) : Prop where
  sheltered : later.Sheltered place
  keeps : Disk.Keeps place ship.disk later.disk

variable {place : DiskPath} {path : String} {paths : List String}

theorem Spares.trans {last : Ship} (h : Spares place ship later) (h' : Spares place later last) :
    Spares place ship last := ⟨h'.sheltered, h.keeps.trans h'.keeps⟩

namespace Sheltered

theorem putSession (h : ship.Sheltered place) (hs : ship.sessions[id]? = some s)
    (hdirectory : t.dump.map (·.directory) = s.dump.map (·.directory)) :
    (ship.putSession t).Sheltered place := by
  intro other r hr
  rw [Ship.putSession, SessionTable.getElem?_put] at hr
  split at hr
  · cases hr
    rw [hdirectory]
    exact h id s hs
  · exact h other r hr

theorem flushDump (h : ship.Sheltered place) (id : ClientId) :
    Spares place ship (ship.flushDump id) := by
  unfold Ship.flushDump
  cases hs : ship.sessions[id]? with
  | none => exact ⟨h, .refl place ship.disk⟩
  | some s =>
    cases hdump : s.dump with
    | none =>
      simp only [hdump]
      exact ⟨h, .refl place ship.disk⟩
    | some dump =>
      have hdirectory : dump.directory ≠ place.dropLast := fun heq =>
        h id s hs (by rw [hdump, Option.map_some, heq])
      have hput : (ship.putSession { s with dump := some (dump.flush ship.disk).1 }).Sheltered
          place := h.putSession hs (by rw [hdump]; rfl)
      simp only [hdump]
      exact ⟨hput, dump.keeps_flush hdirectory ship.disk⟩

theorem flushDumps (h : ship.Sheltered place) : Spares place ship ship.flushDumps := by
  unfold Ship.flushDumps
  generalize SessionTable.ids ship.sessions = ids
  induction ids generalizing ship with
  | nil => exact ⟨h, .refl place ship.disk⟩
  | cons id ids ih => exact (h.flushDump id).trans (ih (h.flushDump id).sheltered)

theorem adjust (h : ship.Sheltered place) (id : ClientId) (packet : Bytes) :
    Spares place ship (ship.adjust id (·.send packet)) := by
  unfold Ship.adjust
  split
  · rename_i s hs
    exact ⟨h.putSession hs (s.directory_send packet), .refl place ship.disk⟩
  · exact ⟨h, .refl place ship.disk⟩

theorem supplied (h : ship.Sheltered place) (id : ClientId) (packets : List Bytes) :
    Spares place ship (ship.supplied id packets) := by
  induction packets generalizing ship with
  | nil => exact ⟨h, .refl place ship.disk⟩
  | cons packet packets ih =>
    have hsent := h.flushDumps.trans (h.flushDumps.sheltered.adjust id packet)
    exact hsent.trans (ih hsent.sheltered)

end Sheltered

/-- Files into whose directories nobody records are read as they were at the beginning. -/
theorem reading_eq {disk : Disk} (h : ∀ path ∈ paths, ∃ place entry,
      disk.find path = .ok (some place, entry) ∧ ship.Sheltered place ∧
        Disk.Keeps place disk ship.disk) :
    ship.reading id paths = paths.map disk.read := by
  induction paths generalizing ship with
  | nil => rfl
  | cons path paths ih =>
    rw [List.forall_mem_cons] at h
    obtain ⟨⟨place, entry, hfind, hsheltered, hkeeps⟩, hrest⟩ := h
    rw [reading, List.map_cons]
    generalize (packed (ship.flushDumps.disk.read path)).toOption.toList = packets
    refine congrArg₂ List.cons ((hkeeps.trans hsheltered.flushDumps.keeps).read hfind) (ih ?_)
    intro path hpath
    obtain ⟨place, entry, hfind, hsheltered, hkeeps⟩ := hrest path hpath
    have hspares := hsheltered.supplied id packets
    exact ⟨place, entry, hfind, hspares.sheltered, hkeeps.trans hspares.keeps⟩

/-! ## The files of a directory -/

theorem length_reading (ship : Ship) (id : ClientId) (paths : List String) :
    (ship.reading id paths).length = paths.length := by
  induction paths generalizing ship with
  | nil => rfl
  | cons path paths ih => exact congrArg (· + 1) (ih _)

theorem filePaths_of_ok {disk : Disk} {listing : List (String × DiskEntry)}
    (hlist : disk.list path = .ok listing) :
    filePaths disk path =
      .ok (((Disk.sorted listing).map fun file => Disk.join path file.1).filter disk.isFile) := by
  rw [filePaths, hlist]
  rfl

theorem filePaths_of_error {disk : Disk} {e : FileError} (hlist : disk.list path = .error e) :
    filePaths disk path = .error e := by
  rw [filePaths, hlist]
  rfl

theorem mem_of_mem_upToError {ε α : Type} {results : List (Except ε α)} {a : α}
    (h : a ∈ (upToError results).1) : .ok a ∈ results := by
  induction results with
  | nil => exact absurd h List.not_mem_nil
  | cons result results ih =>
    cases result with
    | error e => exact absurd h List.not_mem_nil
    | ok first =>
      rcases List.mem_cons.mp h with rfl | h
      · exact List.mem_cons_self
      · exact List.mem_cons_of_mem _ (ih h)

/-- What is sent is the content of a file, and a frame by the size in front of it. -/
theorem sized_of_packed {content : Except FileError Bytes}
    (hshort : ∀ capture, content = .ok capture → capture.length < 0x100000000)
    (h : packed content = .ok packet) : Frame.Sized packet := by
  cases content with
  | error e => cases h
  | ok capture =>
    unfold packed at h
    dsimp only at h
    split at h
    · cases h
    · rename_i hlong
      cases h
      exact Frame.sized_withSize (Nat.le_of_not_lt hlong) (hshort capture rfl)

/-- What has become of a ship on which files with certain contents were replayed to a session. -/
structure Replayed (ship : Ship) (id : ClientId) (s : Session)
    (contents : List (Except FileError Bytes)) (packets : List Bytes) (stop : Option FileError)
    (later : Ship) : Prop where
  /-- The packets are the files before the first that cannot be sent, each with its size in its
  first four bytes. -/
  sent : upToError (contents.map packed) = (packets, stop)
  complete : stop = none ↔ packets.length = contents.length
  /-- The packets have been handed to the session, and no other session has changed. -/
  supplied : ship.Supplied id s packets later
  /-- If there is room for them, they wait for the client in this order. -/
  queued : s.outbox.length + packets.flatten.length ≤ s.outbox.capacity →
    ∃ t, later.sessions[id]? = some t ∧ t.outbox.toList =
      s.outbox.toList ++ (Rc4.through s.outCipher packets.flatten).1
  /-- Where they are cut by their size fields, they fall apart into the same packets again. -/
  frames : (∀ capture, .ok capture ∈ contents → capture.length < 0x100000000) →
    Frame.cut packets.flatten = (packets, [])

theorem replayed_of_supplied {contents : List (Except FileError Bytes)} {stop : Option FileError}
    (hopen : s.closed = false) (hpackets : upToError (contents.map packed) = (packets, stop))
    (hsupplied : ship.Supplied id s packets later) :
    ship.Replayed id s contents packets stop later where
  sent := hpackets
  complete := by
    have hnone := upToError_snd_eq_none_iff (contents.map packed)
    rwa [hpackets, List.length_map] at hnone
  supplied := hsupplied
  queued := hsupplied.toList_outbox hopen
  frames hshort := by
    refine Frame.cut_flatten fun packet hpacket => ?_
    have hmem : .ok packet ∈ contents.map packed :=
      mem_of_mem_upToError (by rw [hpackets]; exact hpacket)
    obtain ⟨content, hcontent, hpacked⟩ := List.mem_map.mp hmem
    exact sized_of_packed (fun capture h => hshort capture (h ▸ hcontent)) hpacked

/-- **Replaying a directory** to an open session. A directory that cannot be listed is an error, and
nothing is sent. Otherwise the regular files of the directory are sent by the order of their names,
however they are listed: each file with its size in its first four bytes, up to the first that
cannot be read or is shorter than the header of a frame. The answer is the number of the files if
all were sent, and else what is wrong with the one that was not. Each file has the content that it
has when its turn comes; that is what it was at the beginning, unless a session records into the
directory in which it stands. Where the paths of the files can be used, they are those files that
the listing has, whether they can be read or not. -/
theorem replaying_sendDirectory (H : ship.sessions.Keyed) (hlive : ship.live? id = some s)
    (path : String) :
    (∀ e, ship.flushDumps.disk.list path = .error e →
      sendDirectory id path ship = .error (.file e) ship.flushDumps) ∧
    ∀ listing, ship.flushDumps.disk.list path = .ok listing →
      ∃ files : List (String × DiskEntry), files.Perm listing ∧ files.Pairwise (·.1 < ·.1) ∧
        (∀ listing', listing'.Perm listing → Disk.sorted listing' = files) ∧
        let disk := ship.flushDumps.disk
        let paths := (files.map fun file => Disk.join path file.1).filter disk.isFile
        let contents := ship.flushDumps.reading id paths
        (∃ packets stop later, ship.Replayed id s contents packets stop later ∧
          sendDirectory id path ship =
            match stop with
            | none => .ok paths.length later
            | some e => .error (.file e) later) ∧
        contents.length = paths.length ∧
        (Disk.Reachable path listing →
          let regular := files.filter (·.2.isFile)
          paths = regular.map (fun file => Disk.join path file.1) ∧
            paths.map disk.read = regular.map (·.2.content)) ∧
        ((∀ path ∈ paths, ∀ place entry, disk.find path = .ok (some place, entry) →
            ship.Sheltered place) →
          contents = paths.map disk.read) := by
  obtain ⟨hs, hopen⟩ := live?_eq_some.mp hlive
  have hkeyed := (flushed_flushDumps H).calm.keyed H
  refine ⟨fun e hlist => ?_, fun listing hlist => ?_⟩
  · rw [sendDirectory_eq, hlive, filePaths_of_error hlist]
  have hnodup := Disk.nodup_of_list hlist
  refine ⟨Disk.sorted listing, Disk.perm_sorted listing, Disk.pairwise_sorted hnodup,
    fun listing' => Disk.sorted_congr hnodup, ?_⟩
  intro disk paths contents
  refine ⟨?_, length_reading .., fun hnames => ?_, fun hsheltered => ?_⟩
  · have hsend := sendFiles_eq hkeyed (live?_flushDumps H hlive) paths
    have hdirectory : sendDirectory id path ship =
        (sendFiles id paths >>= fun _ => pure paths.length) ship.flushDumps := by
      rw [sendDirectory_eq, hlive, filePaths_of_ok hlist]
      dsimp only
      rw [map_eq_pure_bind]
    obtain ⟨packets, stop, hpackets⟩ :
        ∃ packets stop, upToError (contents.map packed) = (packets, stop) := ⟨_, _, rfl⟩
    have hsupplied := (supplied_flushDumps H hs).supplied hkeyed packets
    rw [List.nil_append] at hsupplied
    rw [hpackets] at hsend
    cases stop with
    | none =>
      exact ⟨packets, none, _, replayed_of_supplied hopen hpackets hsupplied,
        hdirectory.trans (bind_of_ok hsend)⟩
    | some e =>
      have hlater := (calm_supplied hkeyed id packets).keyed hkeyed
      exact ⟨packets, some e, _, replayed_of_supplied hopen hpackets (hsupplied.flushDumps hlater),
        hdirectory.trans (bind_of_error hsend)⟩
  · have hlisted (file : String × DiskEntry) (hfile : file ∈ Disk.sorted listing) :
        file ∈ listing := (Disk.perm_sorted listing).subset hfile
    have hpaths : paths = ((Disk.sorted listing).filter (·.2.isFile)).map
        fun file => Disk.join path file.1 := by
      refine List.filter_map.trans (congrArg _ (List.filter_congr fun file hfile => ?_))
      exact Disk.isFile_join hlist hnames (hlisted file hfile)
    refine ⟨hpaths, ?_⟩
    rw [hpaths, List.map_map]
    refine List.map_congr_left fun file hfile => ?_
    exact Disk.read_join hlist hnames (hlisted file (List.mem_filter.mp hfile).1)
  · refine reading_eq fun path hpath => ?_
    obtain ⟨place, entry, hfind⟩ := Disk.exists_find_of_isFile (List.mem_filter.mp hpath).2
    have hspares := (hsheltered path hpath place entry hfind).flushDumps
    exact ⟨place, entry, hfind, hspares.sheltered, .refl place disk⟩

/-- Of three files the second one cannot be read. The first one claimed another size. -/
theorem replaying_sendDirectory_unreadable :
    let capture : Bytes := [0xFF, 0xFF, 0, 0, 0x0B, 0x22, 4, 0, 1, 2, 3]
    let packet : Bytes := [11, 0, 0, 0, 0x0B, 0x22, 4, 0, 1, 2, 3]
    let disk : Disk := ⟨.ofList [(["frames"], DiskEntry.directory),
      (["frames", "0.bin"], .file capture), (["frames", "1.bin"], .unreadable),
      (["frames", "2.bin"], .file capture), (["frames", "more"], .directory)]⟩
    let calls : List Call := [.connect 1 ⟨.v4 127 0 0 1, 50000, 0⟩,
      .connect 2 ⟨.v4 127 0 0 1, 50001, 0⟩]
    let ship := (start .plain "\x00" none disk).run calls
    ∃ s t later, ship.live? 1 = some s ∧
      sendDirectory 1 "frames" ship = .error (.file .other) later ∧
      later.sessions[(1 : ClientId)]? = some t ∧ t.outbox.toList = s.outbox.toList ++ packet ∧
      later.sessions[(2 : ClientId)]? = ship.sessions[(2 : ClientId)]?.map Session.flushed ∧
      Frame.cut packet = ([packet], []) := by
  intro capture packet disk calls ship
  have H : ship.sessions.Keyed :=
    (consistent_run .plain "\x00" none disk (show (connections calls).Nodup by decide)).keyed
  have hsession : (ship.live? 1).map (fun s => (s.outbox.length, s.outbox.capacity,
      s.outCipher.isNone)) = some (16, SendQueue.defaultCapacity, true) := by decide +kernel
  obtain ⟨s, hlive, hs⟩ := Option.map_eq_some_iff.mp hsession
  obtain ⟨hlength, hs⟩ := Prod.mk.inj hs
  obtain ⟨hcapacity, hplain⟩ := Prod.mk.inj hs
  have hunrecorded : ∀ place, ship.Sheltered place := by
    have hall : ship.sessions.toList.all (·.2.dump.isNone) = true := by decide +kernel
    intro place other t ht
    have hnone := List.all_eq_true.mp hall (other, t)
      (Std.ExtTreeMap.mem_toList_iff_getElem?_eq_some.mpr ht)
    rw [Option.isNone_iff_eq_none.mp hnone]
    exact (Option.some_ne_none _).symm
  have hlist : ship.flushDumps.disk.list "frames" = .ok [("0.bin", .file capture),
      ("1.bin", .unreadable), ("2.bin", .file capture), ("more", .directory)] := by
    rw [Disk.list, Disk.find, splitOn_slash]
    decide +kernel
  obtain ⟨-, hreplay⟩ := replaying_sendDirectory H hlive "frames"
  obtain ⟨files, hperm, hascending, -, ⟨packets, stop, later, hreplayed, hanswer⟩, -, hregular,
    hcontents⟩ := hreplay _ hlist
  -- the listing ascends already
  have hfiles := Disk.sorted_eq hascending hperm.symm
  rw [Disk.sorted_eq (by decide +kernel) (List.Perm.refl _)] at hfiles
  subst hfiles
  have hreads : _ = ([.ok capture, .error .other, .ok capture] : List (Except FileError Bytes)) :=
    (hregular (by decide +kernel)).2
  rw [hcontents fun _ _ place _ _ => hunrecorded place, hreads] at hreplayed
  have hpackets : upToError ([.ok capture, .error .other, .ok capture].map packed) =
      ([packet], some .other) := by
    decide +kernel
  obtain ⟨rfl, rfl⟩ := Prod.mk.inj (hpackets.symm.trans hreplayed.sent)
  have hroom : s.outbox.length + [packet].flatten.length ≤ s.outbox.capacity := by
    rw [hlength, hcapacity]
    decide
  obtain ⟨t, ht, hqueue⟩ := hreplayed.queued hroom
  rw [Option.isNone_iff_eq_none.mp hplain] at hqueue
  refine ⟨s, t, later, hlive, hanswer, ht, hqueue, hreplayed.supplied.others 2 (by decide),
    hreplayed.frames fun content hcontent => ?_⟩
  simp only [List.mem_cons, Except.ok.injEq, reduceCtorEq, List.not_mem_nil, or_false,
    false_or] at hcontent
  rcases hcontent with rfl | rfl <;> decide

end Ship

end GameShip
