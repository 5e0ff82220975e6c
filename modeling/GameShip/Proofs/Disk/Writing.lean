import GameShip.Proofs.Disk.Reading
import Mathlib.Data.List.Nodup
import Mathlib.Data.Option.Basic

/-!
# What writing leaves in place

Files that are written beside a file do not change what its path leads to. Files that are written
into one directory under different names all stand there in the end.

* `Disk.Keeps`: what is left of a disk when files have been written, but not to a certain place.
* `Disk.Keeps.find`: the way to the entry of that place stays as it is.
* `Disk.Gains`: what becomes of a disk when the files of a directory have been written.
-/

namespace GameShip

namespace Disk

/-- Files have been written, but not to one place. -/
structure Keeps (place : DiskPath) (disk disk' : Disk) : Prop where
  same : disk'.at? place = disk.at? place
  directory : ∀ other, disk.at? other = some .directory → disk'.at? other = some .directory
  present : ∀ other, (disk.at? other).isSome → (disk'.at? other).isSome

variable {place other : DiskPath} {disk disk' disk'' : Disk} {path : String} {bytes : Bytes}
  {entry : DiskEntry}

theorem Keeps.refl (place : DiskPath) (disk : Disk) : Keeps place disk disk :=
  ⟨rfl, fun _ h => h, fun _ h => h⟩

theorem Keeps.trans (h : Keeps place disk disk') (h' : Keeps place disk' disk'') :
    Keeps place disk disk'' :=
  ⟨h'.same.trans h.same, fun other ho => h'.directory other (h.directory other ho),
    fun other ho => h'.present other (h.present other ho)⟩

theorem at?_put (disk : Disk) (place other : DiskPath) (entry : DiskEntry) (hplace : place ≠ []) :
    (disk.put place entry).at? other = if place = other then some entry else disk.at? other := by
  unfold at? put
  by_cases h : place = other
  · subst h
    simp [hplace]
  · simp [h, Std.ExtTreeMap.getElem?_insert]

/-- A file is written where there is a file or nothing. -/
theorem write_eq_some (hwrite : disk.write other bytes = some disk') :
    disk.at? other ≠ some .directory ∧ disk' = disk.put other (.file bytes) := by
  unfold write at hwrite
  split at hwrite
  · rename_i hentry
    cases hwrite
    refine ⟨fun h => ?_, rfl⟩
    rw [h] at hentry
    cases hentry
  · rename_i hentry
    cases hwrite
    refine ⟨fun h => ?_, rfl⟩
    rw [h] at hentry
    cases hentry
  · cases hwrite

theorem keeps_write (hother : other ≠ place) (hwrite : disk.write other bytes = some disk') :
    Keeps place disk disk' := by
  obtain ⟨hfree, rfl⟩ := write_eq_some hwrite
  have hroot : other ≠ [] := fun h => hfree (h ▸ if_pos rfl)
  constructor
  · rw [at?_put _ _ _ _ hroot, if_neg hother]
  · intro another hanother
    have hne : other ≠ another := fun h => hfree (h ▸ hanother)
    rw [at?_put _ _ _ _ hroot, if_neg hne, hanother]
  · intro another hanother
    rw [at?_put _ _ _ _ hroot]
    split
    · rfl
    · exact hanother

theorem Keeps.reached (h : Keeps place disk disk') {start : Option DiskPath}
    (hreached : disk.reached? start = some .directory) :
    disk'.reached? start = some .directory := by
  cases start with
  | none => rfl
  | some start => exact h.directory start hreached

theorem Keeps.walk (h : Keeps place disk disk') {start stop : Option DiskPath}
    {parts : List String} (hwalk : disk.walk start parts = .ok stop) :
    disk'.walk start parts = .ok stop := by
  induction parts generalizing start with
  | nil => exact hwalk
  | cons part parts ih =>
    rw [Disk.walk] at hwalk ⊢
    cases hreached : disk.reached? start with
    | none =>
      rw [hreached] at hwalk
      cases hwalk
    | some entry =>
      cases entry with
      | file _ | unreadable =>
        rw [hreached] at hwalk
        cases hwalk
      | directory =>
        rw [hreached] at hwalk
        rw [h.reached hreached]
        dsimp only at hwalk ⊢
        by_cases hstay : part = "" ∨ part = "."
        · rw [if_pos hstay] at hwalk ⊢
          exact ih hwalk
        rw [if_neg hstay] at hwalk ⊢
        by_cases hback : part = ".."
        · rw [if_pos hback] at hwalk ⊢
          exact ih hwalk
        rw [if_neg hback] at hwalk ⊢
        by_cases hlong : part.utf8ByteSize > maxNameSize
        · rw [if_pos hlong] at hwalk
          cases hwalk
        rw [if_neg hlong] at hwalk ⊢
        cases hnext : start.map (· ++ [part]) with
        | none =>
          rw [hnext] at hwalk
          cases hwalk
        | some next =>
          rw [hnext] at hwalk
          dsimp only at hwalk ⊢
          cases hentry : disk.at? next with
          | none =>
            rw [hentry] at hwalk
            cases hwalk
          | some entry =>
            have hthere := h.present next (by rw [hentry]; rfl)
            rw [hentry] at hwalk
            rw [Option.isNone_eq_false_iff.mpr hthere]
            exact ih hwalk

/-- The way to the entry of the place that is kept. -/
theorem Keeps.find (h : Keeps place disk disk')
    (hfind : disk.find path = .ok (some place, entry)) :
    disk'.find path = .ok (some place, entry) := by
  obtain ⟨hpath, hempty, hwalk, hentry⟩ := find_eq_ok_iff.mp hfind
  exact find_eq_ok_iff.mpr ⟨hpath, hempty, h.walk hwalk, h.same.trans hentry⟩

/-- A file stands at some place of this disk. -/
theorem exists_find_of_isFile (h : disk.isFile path = true) :
    ∃ place entry, disk.find path = .ok (some place, entry) := by
  unfold isFile at h
  split at h
  · rename_i place entry hfind
    cases place with
    | some place => exact ⟨place, entry, hfind⟩
    | none =>
      -- what lies outside this disk is no file
      obtain ⟨-, -, -, hentry⟩ := find_eq_ok_iff.mp hfind
      cases hentry
      cases h
  · cases h

theorem Keeps.read (h : Keeps place disk disk')
    (hfind : disk.find path = .ok (some place, entry)) : disk'.read path = disk.read path := by
  rw [Disk.read, Disk.read, h.find hfind, hfind]

/-! ## Files of one directory -/

/-- Writes files into a directory, one after the other, as long as all of them can be written. -/
def writeAll? (disk : Disk) (directory : DiskPath) (files : List (String × Bytes)) : Option Disk :=
  files.foldlM (fun disk (name, bytes) => disk.write (directory ++ [name]) bytes) disk

/-- Files stand in a directory that did not before. -/
structure Gains (directory : DiskPath) (files : List (String × Bytes)) (disk later : Disk) :
    Prop where
  /-- None of them takes the place of another. -/
  nodup : (files.map (·.1)).Nodup
  file : ∀ f ∈ files, later.at? (directory ++ [f.1]) = some (.file f.2)
  other : ∀ place, (∀ f ∈ files, directory ++ [f.1] ≠ place) → later.at? place = disk.at? place
  /-- Beside them the directory holds what it held before under other names. -/
  children : (later.children directory).Perm
    (files.map (fun f => (f.1, .file f.2)) ++
      (disk.children directory).filter (·.1 ∉ files.map (·.1)))

variable {directory : DiskPath} {later : Disk} {f : String × Bytes} {files : List (String × Bytes)}

theorem writeAll?_cons (disk : Disk) (directory : DiskPath) (f : String × Bytes)
    (files : List (String × Bytes)) :
    disk.writeAll? directory (f :: files) =
      (disk.write (directory ++ [f.1]) f.2).bind (·.writeAll? directory files) :=
  List.foldlM_cons

theorem at?_of_write (hwrite : disk.write other bytes = some disk') (place : DiskPath) :
    disk'.at? place = if other = place then some (.file bytes) else disk.at? place := by
  obtain ⟨hfree, rfl⟩ := write_eq_some hwrite
  exact at?_put _ _ _ _ fun h => hfree (h ▸ if_pos rfl)

theorem at?_of_notMem (hwrite : disk.writeAll? directory files = some later)
    (hother : ∀ f ∈ files, directory ++ [f.1] ≠ place) : later.at? place = disk.at? place := by
  induction files generalizing disk with
  | nil =>
    cases hwrite
    rfl
  | cons f files ih =>
    rw [writeAll?_cons] at hwrite
    obtain ⟨disk', hfirst, hrest⟩ := Option.bind_eq_some_iff.mp hwrite
    obtain ⟨hne, hothers⟩ := List.forall_mem_cons.mp hother
    rw [ih hrest hothers, at?_of_write hfirst, if_neg hne]

theorem at?_of_mem (hwrite : disk.writeAll? directory files = some later)
    (hnodup : (files.map (·.1)).Nodup) (hf : f ∈ files) :
    later.at? (directory ++ [f.1]) = some (.file f.2) := by
  induction files generalizing disk with
  | nil => cases hf
  | cons first files ih =>
    rw [writeAll?_cons] at hwrite
    obtain ⟨disk', hfirst, hrest⟩ := Option.bind_eq_some_iff.mp hwrite
    obtain ⟨hnew, hnodup⟩ := List.nodup_cons.mp hnodup
    rcases List.mem_cons.mp hf with rfl | hf
    · -- the files after it have other names
      rw [at?_of_notMem hrest, at?_of_write hfirst, if_pos rfl]
      intro other hother heq
      obtain ⟨-, hname⟩ := List.append_singleton_inj.mp heq
      exact hnew (List.mem_map.mpr ⟨other, hother, hname⟩)
    · exact ih hrest hnodup hf

/-- What a name stands for in the end. -/
theorem mem_children_of_writeAll? (hwrite : disk.writeAll? directory files = some later)
    (hnodup : (files.map (·.1)).Nodup) (child : String × DiskEntry) :
    child ∈ later.children directory ↔ child ∈ files.map (fun f => (f.1, .file f.2)) ∨
      child ∈ disk.children directory ∧ child.1 ∉ files.map (·.1) := by
  rw [mem_children_iff, mem_children_iff]
  have hother (hname : child.1 ∉ files.map (·.1)) :
      later.at? (directory ++ [child.1]) = disk.at? (directory ++ [child.1]) := by
    refine at?_of_notMem hwrite fun f hf heq => hname ?_
    exact List.mem_map.mpr ⟨f, hf, (List.append_singleton_inj.mp heq).2⟩
  constructor
  · intro h
    by_cases hname : child.1 ∈ files.map (·.1)
    · obtain ⟨f, hf, hf'⟩ := List.mem_map.mp hname
      rw [← hf', at?_of_mem hwrite hnodup hf, Option.some.injEq] at h
      exact .inl (List.mem_map.mpr ⟨f, hf, Prod.ext hf' h⟩)
    · exact .inr ⟨hother hname ▸ h, hname⟩
  · rintro (h | ⟨h, hname⟩)
    · obtain ⟨f, hf, rfl⟩ := List.mem_map.mp h
      exact at?_of_mem hwrite hnodup hf
    · rw [hother hname, h]

/-- A directory that was empty holds these files and no others. -/
theorem Gains.perm_of_empty (h : Gains directory files disk later)
    (hempty : disk.children directory = []) :
    (later.children directory).Perm (files.map fun f => (f.1, .file f.2)) := by
  have hchildren := h.children
  rwa [hempty, List.filter_nil, List.append_nil] at hchildren

theorem gains_of_writeAll? (hwrite : disk.writeAll? directory files = some later)
    (hnodup : (files.map (·.1)).Nodup) : Gains directory files disk later where
  nodup := hnodup
  file _ hf := at?_of_mem hwrite hnodup hf
  other _ := at?_of_notMem hwrite
  children := by
    have hfiles : ((files.map fun f => (f.1, DiskEntry.file f.2)).map (·.1)).Nodup := by
      rwa [List.map_map]
    have hchildren (disk : Disk) : (disk.children directory).Nodup :=
      (disk.nodup_children directory).of_map
    refine (List.perm_ext_iff_of_nodup (hchildren later) ?_).mpr fun child => ?_
    · refine List.nodup_append.mpr ⟨hfiles.of_map, (hchildren disk).filter _, ?_⟩
      rintro _ hfile _ hchild rfl
      obtain ⟨f, hf, rfl⟩ := List.mem_map.mp hfile
      have hname := of_decide_eq_true (List.mem_filter.mp hchild).2
      exact hname (List.mem_map.mpr ⟨f, hf, rfl⟩)
    · rw [mem_children_of_writeAll? hwrite hnodup, List.mem_append, List.mem_filter,
        decide_eq_true_iff]

end Disk

end GameShip
