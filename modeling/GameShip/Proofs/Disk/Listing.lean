import GameShip.Disk
import Mathlib.Data.List.Pairwise
import Mathlib.Data.String.Basic

/-!
# The order of a directory

No name stands twice in a directory, so there is one order for the names, whichever way they are
listed.

* `Disk.nodup_of_list`: no name is listed twice.
* `Disk.pairwise_sorted`, `Disk.sorted_eq`: the order of the names, and that there is no other.
-/

namespace GameShip

namespace Disk

variable {disk : Disk} {place : DiskPath} {path : String}

/-! ## Names -/

/-- What an entry is called in the directory at a place, if it stands there. -/
def child? (place : DiskPath) (entry : DiskPath × DiskEntry) : Option (String × DiskEntry) :=
  match entry.1.getLast? with
  | some name => if entry.1.dropLast = place then some (name, entry.2) else none
  | none => none

theorem children_eq (disk : Disk) (place : DiskPath) :
    disk.children place = disk.entries.toList.filterMap (child? place) := rfl

theorem child?_eq_some_iff {entry : DiskPath × DiskEntry} {child : String × DiskEntry} :
    child? place entry = some child ↔ entry = (place ++ [child.1], child.2) := by
  obtain ⟨path, content⟩ := entry
  obtain ⟨name, content'⟩ := child
  rcases List.eq_nil_or_concat path with rfl | ⟨front, last, rfl⟩
  · simp [child?]
  · rw [child?, List.concat_eq_append, List.getLast?_concat, List.dropLast_concat, Prod.mk.injEq,
      List.append_singleton_inj]
    simp only [Option.ite_none_right_eq_some, Option.some.injEq, Prod.mk.injEq, and_assoc]

theorem mem_children_iff {child : String × DiskEntry} :
    child ∈ disk.children place ↔ disk.at? (place ++ [child.1]) = some child.2 := by
  have hplace : place ++ [child.1] ≠ [] := by simp
  rw [children_eq, List.mem_filterMap, at?, if_neg hplace,
    ← Std.ExtTreeMap.mem_toList_iff_getElem?_eq_some]
  constructor
  · rintro ⟨entry, hentry, hchild⟩
    rwa [← child?_eq_some_iff.mp hchild]
  · exact fun h => ⟨_, h, child?_eq_some_iff.mpr rfl⟩

theorem nodup_children (disk : Disk) (place : DiskPath) :
    ((disk.children place).map (·.1)).Nodup := by
  rw [List.Nodup, List.pairwise_map, children_eq, List.pairwise_filterMap]
  refine Std.ExtTreeMap.distinct_keys_toList.imp fun {a b} hdistinct child hchild other hother => ?_
  rw [child?_eq_some_iff.mp hchild, child?_eq_some_iff.mp hother] at hdistinct
  intro hname
  rw [hname] at hdistinct
  exact hdistinct Std.ReflCmp.compare_self

theorem list_eq_ok {names : List (String × DiskEntry)} (h : disk.list path = .ok names) :
    ∃ place, disk.find path = .ok (place, .directory) ∧ names = place.elim [] disk.children := by
  unfold list at h
  split at h
  · cases h
    exact ⟨_, ‹_›, rfl⟩
  · cases h
  · cases h
  · cases h

theorem nodup_of_list {names : List (String × DiskEntry)} (h : disk.list path = .ok names) :
    (names.map (·.1)).Nodup := by
  obtain ⟨place, -, rfl⟩ := list_eq_ok h
  cases place with
  | none => exact List.nodup_nil
  | some place => exact disk.nodup_children place

/-! ## Their order -/

variable {α : Type} {names names' : List (String × α)}

theorem perm_sorted (names : List (String × α)) : (sorted names).Perm names :=
  List.mergeSort_perm ..

/-- The names ascend. -/
theorem pairwise_sorted (hnodup : (names.map (·.1)).Nodup) :
    (sorted names).Pairwise (·.1 < ·.1) := by
  have hsort : (sorted names).Pairwise fun a b => decide (a.1 ≤ b.1) = true := by
    refine List.pairwise_mergeSort (fun _ _ _ h h' => ?_) (fun a b => ?_) names
    · exact decide_eq_true (le_trans (of_decide_eq_true h) (of_decide_eq_true h'))
    · simpa using le_total a.1 b.1
  have hle : (sorted names).Pairwise (·.1 ≤ ·.1) := hsort.imp of_decide_eq_true
  have hne : (sorted names).Pairwise (·.1 ≠ ·.1) :=
    List.pairwise_map.mp (((perm_sorted names).map _).nodup_iff.mpr hnodup)
  exact hle.imp₂ (fun _ _ h h' => lt_of_le_of_ne h h') hne

/-- Names that ascend are in order, and this is the only order of them. -/
theorem sorted_eq (h : names.Pairwise (·.1 < ·.1)) (hperm : names'.Perm names) :
    sorted names' = names := by
  have hnodup : (names'.map (·.1)).Nodup :=
    (hperm.map _).nodup_iff.mpr (List.pairwise_map.mpr (h.imp ne_of_lt))
  exact List.Perm.eq_of_pairwise (fun _ _ _ _ hlt hgt => absurd hgt (lt_asymm hlt))
    (pairwise_sorted hnodup) h ((perm_sorted names').trans hperm)

theorem sorted_congr (hnodup : (names.map (·.1)).Nodup) (hperm : names'.Perm names) :
    sorted names' = sorted names :=
  sorted_eq (pairwise_sorted hnodup) (hperm.trans (perm_sorted names).symm)

theorem sorted_filter (hnodup : (names.map (·.1)).Nodup) (p : String × α → Bool) :
    sorted (names.filter p) = (sorted names).filter p :=
  sorted_eq ((pairwise_sorted hnodup).filter p) ((perm_sorted names).symm.filter p)

end Disk

end GameShip
