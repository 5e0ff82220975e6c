import GameShip.Proofs.Object.History

/-!
# What a number leads to

Of the files of a zone, the first that has a number gives the object of this number, unless there
was one before (`ObjectRegistry.getElem?_load`). So an object that is taken into a zone is found
under its number unless that number is taken, or a file has it which is only read then
(`ObjectRegistry.object_insert`).
-/

namespace GameShip

namespace ObjectRegistry

variable {r : ObjectRegistry} {disk : Disk} {zone : String} {id draw : UInt64}

theorem getElem?_foldl_takeIn (s : List UInt64 × Std.ExtTreeMap UInt64 WorldObject)
    (found : List WorldObject) (id : UInt64) :
    (found.foldl takeIn s).2[id]? = s.2[id]?.or (found.find? (·.id = id)) := by
  induction found generalizing s with
  | nil => simp
  | cons object found ih =>
    rw [List.foldl_cons, ih, List.find?_cons, takeIn, Std.ExtTreeMap.contains_eq_isSome_getElem?]
    by_cases hid : object.id = id
    · subst hid
      cases hs : s.2[object.id]? with
      | none => simp
      | some first => simp [hs]
    · have hother : (s.2.insert object.id object)[id]? = s.2[id]? := by
        simp [Std.ExtTreeMap.getElem?_insert, hid]
      split <;> simp [hother, hid]

theorem getElem?_load (r : ObjectRegistry) (zone : String) (found : List WorldObject)
    (id : UInt64) :
    (r.load zone found).objects[id]? = r.objects[id]?.or (found.find? (·.id = id)) :=
  getElem?_foldl_takeIn ([], r.objects) found id

theorem filesOf_of_ne (h : zone ≠ generatedMapName) (r : ObjectRegistry) (disk : Disk) :
    r.filesOf disk zone = disk.contents (Disk.join r.directory zone)
      ((disk.list (Disk.join r.directory zone)).toOption.getD []) := if_neg h

/-- The objects of the files that are read when a zone is to be loaded: none if that has been done
before. -/
def awaited (r : ObjectRegistry) (disk : Disk) (zone : String) : List WorldObject :=
  if r.zones.contains zone then [] else ofFiles (r.filesOf disk zone)

theorem getElem?_ensureLoaded (r : ObjectRegistry) (disk : Disk) (zone : String) (id : UInt64) :
    (r.ensureLoaded disk zone).objects[id]? =
      r.objects[id]?.or ((r.awaited disk zone).find? (·.id = id)) := by
  unfold ensureLoaded awaited
  split
  · simp
  · exact getElem?_load ..

/-- An object whose number is free is found under it, unless a file of the zone has the number. -/
theorem object_insert {object : WorldObject} (hfree : r.contains object.id = false) (disk : Disk)
    (zone : String) : (r.insert disk zone object).2.object object.id =
      ((r.awaited disk zone).find? (·.id = object.id)).getD object := by
  have hloaded := r.getElem?_ensureLoaded disk zone object.id
  rw [contains_eq_isSome, Option.isSome_eq_false_iff, Option.isNone_iff_eq_none] at hfree
  rw [hfree, Option.none_or] at hloaded
  unfold ObjectRegistry.object
  rw [Std.ExtTreeMap.getD_eq_getD_getElem?, ← hloaded]
  rcases r.insert_cases disk zone object with ⟨htaken, hinsert⟩ | ⟨hnew, ids, -, hinsert⟩
  · rw [contains_eq_isSome] at htaken
    obtain ⟨first, hfirst⟩ := Option.isSome_iff_exists.mp htaken
    rw [hinsert, hfirst]
    rfl
  · rw [contains_eq_isSome, Option.isSome_eq_false_iff, Option.isNone_iff_eq_none] at hnew
    rw [hinsert, hnew, Std.ExtTreeMap.getElem?_insert_self]
    rfl

theorem awaited_generated (r : ObjectRegistry) (disk : Disk) :
    r.awaited disk generatedMapName = [] := by
  rw [awaited, filesOf, if_pos rfl, ofFiles, Disk.sorted, List.mergeSort_nil, List.filterMap_nil,
    ite_self]

theorem awaited_of_contains (h : r.zones.contains zone = true) (disk : Disk) :
    r.awaited disk zone = [] := if_pos h

/-- A number is listed once in its zone, and in no other. -/
theorem Sound.count_listed (H : r.Sound) (h : r.Lists zone id) (other : String) :
    (r.zones.getD other []).count id = if other = zone then 1 else 0 := by
  obtain ⟨ids, -, hids, hmem, -⟩ := h
  rw [Std.ExtTreeMap.getD_eq_getD_getElem?]
  by_cases hother : other = zone
  · rw [hother, hids, Option.getD_some, if_pos rfl]
    exact List.count_eq_one_of_mem (H.once zone ids hids) hmem
  · rw [if_neg hother, List.count_eq_zero]
    cases hothers : r.zones[other]? with
    | none => exact List.not_mem_nil
    | some others =>
      intro hthere
      exact hother (H.unique id other zone others ids hothers hids hthere hmem)

/-- A number that is drawn is given if it is free. -/
theorem unusedId_of_free (hfresh : isFresh draw = true) (hfree : r.contains draw = false) :
    r.unusedId draw = draw := by
  rw [unusedId, if_pos hfresh, freeFrom, if_neg (by rw [hfree]; exact Bool.false_ne_true)]

end ObjectRegistry

end GameShip
