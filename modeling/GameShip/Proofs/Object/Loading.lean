import GameShip.Packet
import GameShip.Proofs.Disk.Reading
import GameShip.Proofs.Object.Lookup

/-!
# What loading a zone comes to

The files of a zone are taken in by the order of their names, and only those that describe an object
count (`ObjectRegistry.loading_ensureLoaded`).

* `ObjectRegistry.newIds`: the numbers that come in, each where it comes first.
* `ObjectRegistry.Loaded`: what a registry is once the files of a zone are in it.
-/

namespace GameShip

namespace ObjectRegistry

/-- The numbers of objects that are new, each where it comes first. -/
def newIds (objects : Std.ExtTreeMap UInt64 WorldObject) (found : List WorldObject) :
    List UInt64 := ((found.map (·.id)).filter (!objects.contains ·)).eraseDups

/-- What a registry is once the files of a zone are in it. -/
structure Loaded (r : ObjectRegistry) (zone : String)
    (files : List (String × Except FileError Bytes)) (r' : ObjectRegistry) : Prop where
  directory : r'.directory = r.directory
  listed : r'.zones[zone]? = some (newIds r.objects (files.filterMap ofFile?))
  elsewhere : ∀ other, other ≠ zone → r'.zones[other]? = r.zones[other]?
  /-- A number that was there before stays as it is, and of the files that have a number the first
  one counts. -/
  objects : ∀ id : UInt64,
    r'.objects[id]? = r.objects[id]?.or ((files.filterMap ofFile?).find? (·.id = id))

variable {r r' r'' : ObjectRegistry} {disk disk' : Disk} {zone : String}
  {files files' : List (String × Except FileError Bytes)}

/-! ## Taking in -/

theorem fst_foldl_takeIn (s : List UInt64 × Std.ExtTreeMap UInt64 WorldObject)
    (found : List WorldObject) : (found.foldl takeIn s).1 = s.1 ++ newIds s.2 found := by
  induction found generalizing s with
  | nil => exact (List.append_nil _).symm
  | cons object found ih =>
    rw [List.foldl_cons, ih, takeIn, newIds, newIds, List.map_cons]
    by_cases htaken : s.2.contains object.id = true
    · rw [if_pos htaken, List.filter_cons_of_neg (by simp [htaken])]
    · rw [if_neg htaken, List.filter_cons_of_pos (by simp [htaken]), List.eraseDups_cons,
        List.filter_filter, List.append_assoc, List.singleton_append]
      have hkept : ∀ id ∈ found.map (·.id), (!(s.2.insert object.id object).contains id) =
          (!(id == object.id) && !s.2.contains id) := fun id _ => by
        rw [Bool.eq_iff_iff]
        simpa using fun _ => ne_comm
      rw [List.filter_congr hkept]

theorem loaded_load (r : ObjectRegistry) (zone : String)
    (files : List (String × Except FileError Bytes)) :
    r.Loaded zone files (r.load zone (files.filterMap ofFile?)) where
  directory := rfl
  listed := by
    rw [load_eq]
    dsimp only
    rw [Std.ExtTreeMap.getElem?_insert_self, fst_foldl_takeIn, List.nil_append]
  elsewhere other hother := by
    rw [load_eq]
    dsimp only
    rw [Std.ExtTreeMap.getElem?_insert, if_neg (by simpa using hother.symm)]
  objects := getElem?_load r zone _

/-- There is one such registry. -/
theorem Loaded.unique (h : r.Loaded zone files r') (h' : r.Loaded zone files r'') : r' = r'' := by
  have hobjects : r'.objects = r''.objects :=
    Std.ExtTreeMap.ext_getElem? fun id => (h.objects id).trans (h'.objects id).symm
  have hzones : r'.zones = r''.zones := Std.ExtTreeMap.ext_getElem? fun other => by
    by_cases hother : other = zone
    · rw [hother, h.listed, h'.listed]
    · rw [h.elsewhere other hother, h'.elsewhere other hother]
  obtain ⟨directory, objects, zones⟩ := r'
  obtain ⟨directory', objects', zones'⟩ := r''
  cases h.directory.trans h'.directory.symm
  cases hobjects
  cases hzones
  rfl

/-! ## Which files count -/

/-- A file describes an object. -/
def isGood (file : String × Except FileError Bytes) : Bool := (ofFile? file).isSome

theorem filterMap_filter_isGood (files : List (String × Except FileError Bytes)) :
    (files.filter isGood).filterMap ofFile? = files.filterMap ofFile? := by
  rw [List.filterMap_filter]
  refine List.filterMap_congr fun file _ => ?_
  rw [isGood]
  cases h : ofFile? file <;> simp

/-- Files that are listed in another order, with others between them that do not count. -/
theorem ofFiles_congr (hnodup : (files.map (·.1)).Nodup) (hnodup' : (files'.map (·.1)).Nodup)
    (hgood : (files'.filter isGood).Perm (files.filter isGood)) :
    ofFiles files' = ofFiles files := by
  have hnodupGood : ((files.filter isGood).map (·.1)).Nodup :=
    hnodup.sublist (List.filter_sublist.map _)
  rw [ofFiles, ← filterMap_filter_isGood, ← Disk.sorted_filter hnodup',
    Disk.sorted_congr hnodupGood hgood, Disk.sorted_filter hnodup, filterMap_filter_isGood, ofFiles]

theorem nodup_filesOf (r : ObjectRegistry) (disk : Disk) (zone : String) :
    ((r.filesOf disk zone).map (·.1)).Nodup := by
  by_cases hstatic : zone = generatedMapName
  · rw [filesOf, if_pos hstatic]
    exact List.nodup_nil
  · rw [filesOf_of_ne hstatic, Disk.map_fst_contents]
    cases h : disk.list (Disk.join r.directory zone) with
    | error e => exact List.nodup_nil
    | ok listing => exact Disk.nodup_of_list h

/-- **What loading a zone comes to**. A zone that is not loaded yet is loaded, and it is no
generated one.

* Whatever its directory holds, and however that is listed, the numbers of the zone are those of
  the files that describe an object, by the order of the file names, but for the numbers that are
  taken or that an earlier file has. Each new number belongs to the object of the first file that
  has it, and nothing else is different. Each file is read by its own path, and where that can be
  used, what is read is what stands in the directory.
* A directory that cannot be listed is like an empty one.
* Of two disks on which the same files describe objects, whatever else stands among them, the
  registry becomes the same. -/
theorem loading_ensureLoaded (hstatic : zone ≠ generatedMapName)
    (hnew : r.zones.contains zone = false) :
    let directory := Disk.join r.directory zone
    (∀ (disk : Disk) (listing : List (String × DiskEntry)),
      disk.list directory = .ok listing →
        (∃ files, files.Perm listing ∧ files.Pairwise (·.1 < ·.1) ∧
          r.Loaded zone (disk.contents directory files) (r.ensureLoaded disk zone) ∧
          (Disk.Reachable directory listing →
            disk.contents directory files = files.map fun file => (file.1, file.2.content))) ∧
        ∀ listing', listing'.Perm listing →
          r.load zone (ofFiles (disk.contents directory listing')) = r.ensureLoaded disk zone) ∧
    (∀ (disk : Disk) (e : FileError), disk.list directory = .error e →
      r.Loaded zone [] (r.ensureLoaded disk zone)) ∧
    ∀ disk disk' : Disk,
      ((r.filesOf disk zone).filter isGood).Perm ((r.filesOf disk' zone).filter isGood) →
        r.ensureLoaded disk zone = r.ensureLoaded disk' zone := by
  intro directory
  have hnone := Std.ExtTreeMap.getElem?_eq_none_of_contains_eq_false hnew
  refine ⟨fun disk listing hlist => ?_, fun disk e hlist => ?_, fun disk disk' hgood => ?_⟩
  · have hload : r.ensureLoaded disk zone =
        r.load zone (ofFiles (disk.contents directory listing)) := by
      rw [ensureLoaded_of_none hnone, filesOf_of_ne hstatic, hlist]
      rfl
    have hnodup := Disk.nodup_of_list hlist
    have hperm := Disk.perm_sorted listing
    refine ⟨⟨Disk.sorted listing, hperm, Disk.pairwise_sorted hnodup, ?_, fun hnames => ?_⟩, ?_⟩
    · rw [hload, ofFiles, Disk.sorted_contents hnodup]
      exact r.loaded_load zone _
    · refine List.map_congr_left fun file hfile => Prod.ext rfl ?_
      exact Disk.read_join hlist hnames (hperm.subset hfile)
    · intro listing' hperm
      have hnodup' : (listing'.map (·.1)).Nodup := (hperm.map _).nodup_iff.mpr hnodup
      rw [hload, ofFiles, ofFiles, Disk.sorted_contents hnodup', Disk.sorted_contents hnodup,
        Disk.sorted_congr hnodup hperm]
  · have hload : r.ensureLoaded disk zone = r.load zone (ofFiles []) := by
      rw [ensureLoaded_of_none hnone, filesOf_of_ne hstatic, hlist]
      rfl
    rw [hload, ofFiles, Disk.sorted, List.mergeSort_nil]
    exact r.loaded_load zone []
  · rw [ensureLoaded_of_none hnone, ensureLoaded_of_none hnone,
      ofFiles_congr (r.nodup_filesOf disk' zone) (r.nodup_filesOf disk zone) hgood]

/-- Beside a file that is broken, one that cannot be read, a text, a directory and a file whose
number is taken, two files have the same number. The first one counts, also without the others. -/
theorem loading_ensureLoaded_lobby :
    let gate : WorldObject := .named 7 "gate"
    let chest : WorldObject := .named 7 "chest"
    let lamp : WorldObject := .named 8 "lamp"
    let oldLamp : WorldObject := .named 8 "old lamp"
    let capture (object : WorldObject) : DiskEntry :=
      .file (Packet.objectSpawn object).frame.toBytes
    let directories : List (DiskPath × DiskEntry) := [(["data"], .directory),
      (["data", "objects"], .directory), (["data", "objects", "lobby"], .directory)]
    let good : List (DiskPath × DiskEntry) := [
      (["data", "objects", "lobby", "b.bin"], capture gate),
      (["data", "objects", "lobby", "c.bin"], capture chest),
      (["data", "objects", "lobby", "f.bin"], capture lamp)]
    let others : List (DiskPath × DiskEntry) := [
      (["data", "objects", "lobby", "a.bin"], .file [1, 2, 3]),
      (["data", "objects", "lobby", "a.txt"], capture lamp),
      (["data", "objects", "lobby", "d.bin"], .directory),
      (["data", "objects", "lobby", "e.bin"], .unreadable)]
    let disk : Disk := ⟨.ofList (directories ++ good)⟩
    let disk' : Disk := ⟨.ofList (others ++ directories ++ good)⟩
    let r : ObjectRegistry :=
      { ofResources "data" with objects := .ofList [(oldLamp.id, oldLamp)] }
    let r' := r.ensureLoaded disk' "lobby"
    "lobby" ≠ generatedMapName ∧ r.zones.contains "lobby" = false ∧
      r'.zones["lobby"]? = some [7] ∧ r'.objects[(7 : UInt64)]? = some gate ∧
      r'.objects[(8 : UInt64)]? = some oldLamp ∧ r.ensureLoaded disk "lobby" = r' := by
  intro gate chest lamp oldLamp capture directories good others disk disk' r r'
  have hstatic : "lobby" ≠ generatedMapName := by decide
  have hnew : r.zones.contains "lobby" = false := by decide +kernel
  have hdirectory : Disk.join r.directory "lobby" = "data/objects/lobby" := by decide +kernel
  have hpath : "data/objects/lobby".splitOn "/" = ["data", "objects", "lobby"] := by
    rw [splitOn_slash]
    decide
  have hlist : disk.list "data/objects/lobby" =
      .ok [("b.bin", capture gate), ("c.bin", capture chest), ("f.bin", capture lamp)] := by
    rw [Disk.list, Disk.find, hpath]
    decide +kernel
  have hlist' : disk'.list "data/objects/lobby" =
      .ok [("a.bin", .file [1, 2, 3]), ("a.txt", capture lamp), ("b.bin", capture gate),
        ("c.bin", capture chest), ("d.bin", .directory), ("e.bin", .unreadable),
        ("f.bin", capture lamp)] := by
    rw [Disk.list, Disk.find, hpath]
    decide +kernel
  obtain ⟨hloads, -, hsame⟩ := loading_ensureLoaded hstatic hnew
  rw [hdirectory] at hloads
  obtain ⟨⟨files, hperm, hascending, hloaded, hread⟩, -⟩ := hloads disk' _ hlist'
  -- the listing ascends already
  have hfiles := Disk.sorted_eq hascending hperm.symm
  rw [Disk.sorted_eq (by decide +kernel) (List.Perm.refl _)] at hfiles
  rw [hread (by decide +kernel), ← hfiles] at hloaded
  have hgood : ((r.filesOf disk "lobby").filter isGood).Perm
      ((r.filesOf disk' "lobby").filter isGood) := by
    rw [filesOf_of_ne hstatic, filesOf_of_ne hstatic, hdirectory, hlist, hlist', Except.toOption,
      Except.toOption, Option.getD_some, Option.getD_some,
      Disk.contents_of_list hlist (by decide +kernel),
      Disk.contents_of_list hlist' (by decide +kernel)]
    decide +kernel
  refine ⟨hstatic, hnew, hloaded.listed.trans ?_, (hloaded.objects 7).trans ?_,
    (hloaded.objects 8).trans ?_, hsame disk disk' hgood⟩
  · decide +kernel
  · decide +kernel
  · decide +kernel

end ObjectRegistry

end GameShip
