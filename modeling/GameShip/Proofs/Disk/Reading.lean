import GameShip.Proofs.Disk.Listing
import GameShip.Proofs.Text.Slash

/-!
# The files of a directory by their paths

The names in a directory are listed, and then each is read by a path of its own. That path leads to
what the listing says, unless it is too long.

* `Disk.find_eq_ok_iff`: where a path leads.
* `Disk.find_join`: a name in a directory leads to its entry.
* `Disk.read_join`, `Disk.contents_of_list`: what is read from the names in a directory.
-/

namespace GameShip

namespace Disk

variable {disk : Disk} {place : DiskPath} {path name : String} {entry : DiskEntry}

/-- A path that can be used leads to an entry. -/
theorem find_eq_ok_iff {stop : Option DiskPath} :
    disk.find path = .ok (stop, entry) ↔
      ¬(path.toList.contains '\x00' ∨ path.utf8ByteSize > maxPathSize) ∧ ¬path.isEmpty ∧
        disk.walk (if path.startsWith "/" then none else some []) (path.splitOn "/") = .ok stop ∧
        disk.reached? stop = some entry := by
  unfold Disk.find
  by_cases hpath : path.toList.contains '\x00' ∨ path.utf8ByteSize > maxPathSize
  · rw [if_pos hpath]
    exact iff_of_false (fun h => by cases h) fun h => h.1 hpath
  rw [if_neg hpath, and_iff_right hpath]
  by_cases hempty : path.isEmpty = true
  · rw [if_pos hempty]
    exact iff_of_false (fun h => by cases h) fun h => h.1 hempty
  rw [if_neg hempty, and_iff_right hempty]
  cases disk.walk (if path.startsWith "/" then none else some []) (path.splitOn "/") with
  | error e => exact iff_of_false (fun h => by cases h) fun h => by cases h.1
  | ok stop' =>
    dsimp only
    rw [Except.ok.injEq]
    cases hentry : disk.reached? stop' with
    | none =>
      refine iff_of_false (fun h => by cases h) fun ⟨h, hfound⟩ => ?_
      cases h
      cases hentry.symm.trans hfound
    | some entry' =>
      rw [Except.ok.injEq, Prod.mk.injEq]
      exact and_congr_right fun h => by rw [← h, hentry, Option.some.injEq]

/-! ## One name further -/

/-- What a name has to be like if a path can end in it. -/
structure IsName (name : String) : Prop where
  slash : '/' ∉ name.toList
  zero : '\x00' ∉ name.toList
  size : name.utf8ByteSize ≤ maxNameSize
  /-- It stands for itself, not for the directory or the one around it. -/
  proper : name ≠ "" ∧ name ≠ "." ∧ name ≠ ".."

instance (name : String) : Decidable (IsName name) :=
  decidable_of_iff ('/' ∉ name.toList ∧ '\x00' ∉ name.toList ∧ name.utf8ByteSize ≤ maxNameSize ∧
      name ≠ "" ∧ name ≠ "." ∧ name ≠ "..")
    ⟨fun ⟨slash, zero, size, proper⟩ => ⟨slash, zero, size, proper⟩,
      fun h => ⟨h.slash, h.zero, h.size, h.proper⟩⟩

theorem walk_append (disk : Disk) (start : Option DiskPath) (parts parts' : List String) :
    disk.walk start (parts ++ parts') = (disk.walk start parts).bind (disk.walk · parts') := by
  induction parts generalizing start with
  | nil => rfl
  | cons part parts ih =>
    rw [List.cons_append, walk, walk]
    split
    · rfl
    · rfl
    · rfl
    split
    · exact ih _
    split
    · exact ih _
    split
    · rfl
    split
    · rfl
    split
    · rfl
    · exact ih _

/-- Where a directory has been reached, an empty part stays there. -/
theorem walk_empty {start stop : Option DiskPath} (h : disk.walk start [""] = .ok stop) :
    start = stop := by
  rw [walk] at h
  split at h
  · cases h
  · cases h
  · cases h
  · rw [if_pos (.inl rfl), walk] at h
    exact Except.ok.inj h

theorem walk_name (hplace : disk.at? place = some .directory) (hname : IsName name)
    (hentry : disk.at? (place ++ [name]) = some entry) :
    disk.walk (some place) [name] = .ok (some (place ++ [name])) := by
  obtain ⟨hne, hdot, hdots⟩ := hname.proper
  have hreached : disk.reached? (some place) = some .directory := hplace
  rw [walk, hreached]
  dsimp only
  rw [if_neg (not_or.mpr ⟨hne, hdot⟩), if_neg hdots, if_neg (Nat.not_lt.mpr hname.size),
    Option.map_some]
  dsimp only
  rw [hentry]
  rfl

theorem splitOn_name (hname : IsName name) : name.splitOn "/" = [name] := by
  have hone : List.splitOnP (· == '/') name.toList = [name.toList] :=
    List.splitOnP_eq_singleton fun c hc => by
      rw [beq_eq_false_iff_ne]
      exact fun h => hname.slash (h ▸ hc)
  rw [splitOn_slash, hone, List.map_singleton, String.ofList_toList]

theorem splitOn_append_slash (front rest : String) :
    (front ++ "/" ++ rest).splitOn "/" = front.splitOn "/" ++ rest.splitOn "/" := by
  have hlist : (front ++ "/" ++ rest).toList = front.toList ++ '/' :: rest.toList := by
    simp
  have hcut : List.splitOnP (· == '/') (front.toList ++ '/' :: rest.toList) =
      List.splitOnP (· == '/') front.toList ++ List.splitOnP (· == '/') rest.toList :=
    List.splitOnP_append_cons _ _ rfl
  rw [splitOn_slash, splitOn_slash, splitOn_slash, hlist, hcut, List.map_append]

theorem startsWith_append (hpath : path ≠ "") (rest : String) :
    (path ++ rest).startsWith "/" = path.startsWith "/" := by
  rw [Bool.eq_iff_iff, String.startsWith_string_iff, String.startsWith_string_iff,
    String.toList_append]
  cases h : path.toList with
  | nil => exact absurd (String.toList_eq_nil_iff.mp h) hpath
  | cons c rest => simp

/-- A slash is put in front of a name, unless the path ends in one. -/
theorem join_cases (hpath : path ≠ "") (hname : IsName name) :
    (∃ front, path = front ++ "/" ∧ join path name = path ++ name) ∨
      join path name = path ++ "/" ++ name := by
  have hbelow : ¬name.startsWith "/" = true := fun h => by
    have hfirst := String.startsWith_string_iff.mp h
    exact hname.slash (hfirst.subset List.mem_cons_self)
  rw [join, if_neg hbelow]
  split
  · rename_i h
    exact absurd (String.toList_eq_nil_iff.mp (List.getLast?_eq_none_iff.mp h)) hpath
  · rename_i h
    obtain ⟨front, hfront⟩ := List.getLast?_eq_some_iff.mp h
    refine .inl ⟨String.ofList front, ?_, rfl⟩
    rw [← String.toList_inj, hfront, String.toList_append, String.toList_ofList]
    rfl
  · exact .inr rfl

/-- The way to a directory goes on to a name in it. -/
theorem walk_join {start : Option DiskPath} (hpath : path ≠ "")
    (hwalk : disk.walk start (path.splitOn "/") = .ok (some place))
    (hplace : disk.at? place = some .directory) (hname : IsName name)
    (hentry : disk.at? (place ++ [name]) = some entry) :
    disk.walk start ((join path name).splitOn "/") = .ok (some (place ++ [name])) := by
  have hlast := walk_name hplace hname hentry
  rcases join_cases hpath hname with ⟨front, rfl, hjoin⟩ | hjoin
  · -- the empty part behind the last slash gives way to the name
    have hnothing : "".splitOn "/" = [""] := splitOn_slash ""
    have hempty := splitOn_append_slash front ""
    rw [String.append_empty, hnothing] at hempty
    rw [hempty, walk_append] at hwalk
    rw [hjoin, splitOn_append_slash, splitOn_name hname, walk_append]
    cases hfront : disk.walk start (front.splitOn "/") with
    | error e =>
      rw [hfront] at hwalk
      cases hwalk
    | ok stop =>
      rw [hfront] at hwalk
      rw [walk_empty hwalk]
      exact hlast
  · rw [hjoin, splitOn_append_slash, splitOn_name hname, walk_append, hwalk]
    exact hlast

theorem find_join (hfind : disk.find path = .ok (some place, .directory)) (hname : IsName name)
    (hentry : disk.at? (place ++ [name]) = some entry)
    (hsize : (join path name).utf8ByteSize ≤ maxPathSize) :
    disk.find (join path name) = .ok (some (place ++ [name]), entry) := by
  obtain ⟨husable, hnonempty, hwalk, hplace⟩ := find_eq_ok_iff.mp hfind
  have hpath : path ≠ "" := fun h => hnonempty (h ▸ rfl)
  have hlong : ∃ rest, join path name = path ++ rest ∧ rest ≠ "" ∧ '\x00' ∉ rest.toList := by
    rcases join_cases hpath hname with ⟨-, -, hjoin⟩ | hjoin
    · exact ⟨name, hjoin, hname.proper.1, hname.zero⟩
    · refine ⟨"/" ++ name, hjoin.trans String.append_assoc, ?_, ?_⟩
      · simp
      · simpa using hname.zero
  obtain ⟨rest, hjoin, hrest, hzero⟩ := hlong
  refine find_eq_ok_iff.mpr ⟨not_or.mpr ⟨?_, Nat.not_lt.mpr hsize⟩, ?_, ?_, hentry⟩
  · rw [hjoin, String.toList_append]
    simp only [List.contains_eq_mem, List.mem_append, decide_eq_true_eq]
    exact not_or.mpr ⟨fun h => husable (.inl (List.contains_iff_mem.mpr h)), hzero⟩
  · rw [hjoin]
    simp [hpath]
  · have hstart : (join path name).startsWith "/" = path.startsWith "/" := by
      rw [hjoin, startsWith_append hpath]
    rw [hstart]
    exact walk_join hpath hwalk hplace hname hentry

variable {names names' : List (String × DiskEntry)}

theorem map_fst_contents (disk : Disk) (path : String) (names : List (String × DiskEntry)) :
    (disk.contents path names).map (·.1) = names.map (·.1) := List.map_map

theorem perm_contents (hperm : names'.Perm names) (disk : Disk) (path : String) :
    (disk.contents path names').Perm (disk.contents path names) := hperm.map _

theorem sorted_contents (hnodup : (names.map (·.1)).Nodup) (disk : Disk) (path : String) :
    sorted (disk.contents path names) = disk.contents path (sorted names) :=
  sorted_eq (List.pairwise_map.mpr (pairwise_sorted hnodup))
    (perm_contents (perm_sorted names).symm disk path)

/-- Every name in a listing can be the end of a path below a directory. -/
def Reachable (path : String) (names : List (String × DiskEntry)) : Prop :=
  ∀ file ∈ names, IsName file.1 ∧ (join path file.1).utf8ByteSize ≤ maxPathSize

instance (path : String) (names : List (String × DiskEntry)) : Decidable (Reachable path names) :=
  inferInstanceAs (Decidable (∀ file ∈ names, _))

theorem find_join_of_list (hlist : disk.list path = .ok names) (hnames : Reachable path names)
    {file : String × DiskEntry} (hfile : file ∈ names) :
    ∃ place, disk.find (join path file.1) = .ok (some place, file.2) := by
  obtain ⟨place, hfind, hchildren⟩ := list_eq_ok hlist
  obtain ⟨hname, hsize⟩ := hnames file hfile
  rw [hchildren] at hfile
  cases place with
  | none => cases hfile
  | some place => exact ⟨_, find_join hfind hname (mem_children_iff.mp hfile) hsize⟩

theorem read_join (hlist : disk.list path = .ok names) (hnames : Reachable path names)
    {file : String × DiskEntry} (hfile : file ∈ names) :
    disk.read (join path file.1) = file.2.content := by
  obtain ⟨place, hfind⟩ := find_join_of_list hlist hnames hfile
  rw [Disk.read, hfind]

theorem isFile_join (hlist : disk.list path = .ok names) (hnames : Reachable path names)
    {file : String × DiskEntry} (hfile : file ∈ names) :
    disk.isFile (join path file.1) = file.2.isFile := by
  obtain ⟨place, hfind⟩ := find_join_of_list hlist hnames hfile
  rw [Disk.isFile, hfind]

/-- Reading the names that a directory is listed to hold gives what the listing says. -/
theorem contents_of_list (hlist : disk.list path = .ok names) (hnames : Reachable path names) :
    disk.contents path names = names.map fun file => (file.1, file.2.content) :=
  List.map_congr_left fun _ hfile => Prod.ext rfl (read_join hlist hnames hfile)

end Disk

end GameShip
