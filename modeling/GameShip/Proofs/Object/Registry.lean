import GameShip.Object.Registry
import Mathlib.Data.List.Perm.Subperm
import Mathlib.Data.List.Nodup

/-!
# What an object registry keeps

A registry only grows: an object that is in it stays, and the list of a zone only gets longer.

* `ObjectRegistry.Extends`: a registry that has everything another one has.
* `ObjectRegistry.Lists`: the zone shows an object of a number.
* `ObjectRegistry.lists_insert`: an object with an unused number is listed, or another one with that
  number that was in the files of the zone.
* `ObjectRegistry.contains_unusedId`: the search for an unused number finds one.
-/

namespace GameShip

namespace ObjectRegistry

/-- Everything in a registry is in another one. -/
structure Extends (r r' : ObjectRegistry) : Prop where
  objects (id : UInt64) (object : WorldObject) :
    r.objects[id]? = some object → r'.objects[id]? = some object
  zones (zone : String) (ids : List UInt64) :
    r.zones[zone]? = some ids → ∃ more, r'.zones[zone]? = some (ids ++ more)

/-- A zone lists an object of a number. -/
def Lists (r : ObjectRegistry) (zone : String) (id : UInt64) : Prop :=
  ∃ ids object, r.zones[zone]? = some ids ∧ id ∈ ids ∧ r.objects[id]? = some object ∧ object.id = id

variable {r r' r'' : ObjectRegistry} {disk : Disk} {zone : String} {id : UInt64}

theorem Extends.refl (r : ObjectRegistry) : Extends r r :=
  ⟨fun _ _ h => h, fun _ _ h => ⟨[], by rw [h, List.append_nil]⟩⟩

theorem Extends.trans (h : Extends r r') (h' : Extends r' r'') : Extends r r'' where
  objects id object ho := h'.objects id object (h.objects id object ho)
  zones zone ids hz := by
    obtain ⟨more, hz⟩ := h.zones zone ids hz
    obtain ⟨most, hz⟩ := h'.zones zone _ hz
    exact ⟨more ++ most, by rw [hz, List.append_assoc]⟩

theorem Extends.contains_zones (h : Extends r r') (hzone : r.zones.contains zone = true) :
    r'.zones.contains zone = true := by
  rw [Std.ExtTreeMap.contains_eq_isSome_getElem?] at hzone ⊢
  obtain ⟨ids, hids⟩ := Option.isSome_iff_exists.mp hzone
  obtain ⟨more, hmore⟩ := h.zones zone ids hids
  rw [hmore]
  rfl

theorem Lists.mono (hlists : r.Lists zone id) (h : Extends r r') : r'.Lists zone id := by
  obtain ⟨ids, object, hzone, hmem, hobject, hid⟩ := hlists
  obtain ⟨more, hzone⟩ := h.zones zone ids hzone
  exact ⟨_, object, hzone, List.mem_append_left more hmem, h.objects id object hobject, hid⟩

/-! ## Loading -/

/-- Takes in one object while a zone is loaded, but not if its number is taken. -/
def takeIn (state : List UInt64 × Std.ExtTreeMap UInt64 WorldObject) (object : WorldObject) :
    List UInt64 × Std.ExtTreeMap UInt64 WorldObject :=
  if state.2.contains object.id then state
  else (state.1 ++ [object.id], state.2.insert object.id object)

theorem load_eq (r : ObjectRegistry) (zone : String) (found : List WorldObject) :
    r.load zone found = { r with
      objects := (found.foldl takeIn ([], r.objects)).2
      zones := r.zones.insert zone (found.foldl takeIn ([], r.objects)).1 } := rfl

/-- What is there stays as it is, and what is new is listed. -/
structure Grows (s t : List UInt64 × Std.ExtTreeMap UInt64 WorldObject) : Prop where
  ids : s.1 ⊆ t.1
  objects (id : UInt64) (object : WorldObject) : s.2[id]? = some object → t.2[id]? = some object
  listed (id : UInt64) (object : WorldObject) : t.2[id]? = some object →
    s.2[id]? = some object ∨ object.id = id ∧ id ∈ t.1

theorem grows_takeIn (s : List UInt64 × Std.ExtTreeMap UInt64 WorldObject) (object : WorldObject) :
    Grows s (takeIn s object) := by
  unfold takeIn
  split
  · exact ⟨List.Subset.refl _, fun _ _ h => h, fun _ _ h => .inl h⟩
  · rename_i hnew
    have hnone := Std.ExtTreeMap.getElem?_eq_none_of_contains_eq_false
      (eq_false_of_ne_true hnew)
    refine ⟨List.subset_append_left .., fun id other h => ?_, fun id other h => ?_⟩
    · have hne : object.id ≠ id := by
        rintro rfl
        rw [hnone] at h
        cases h
      simpa [Std.ExtTreeMap.getElem?_insert, hne] using h
    · by_cases hid : object.id = id
      · subst hid
        rw [Std.ExtTreeMap.getElem?_insert_self, Option.some.injEq] at h
        exact .inr ⟨by rw [h], by simp⟩
      · exact .inl (by simpa [Std.ExtTreeMap.getElem?_insert, hid] using h)

theorem grows_foldl_takeIn (s : List UInt64 × Std.ExtTreeMap UInt64 WorldObject)
    (found : List WorldObject) : Grows s (found.foldl takeIn s) := by
  induction found generalizing s with
  | nil => exact ⟨List.Subset.refl _, fun _ _ h => h, fun _ _ h => .inl h⟩
  | cons object found ih =>
    have hone := grows_takeIn s object
    have hmore := ih (takeIn s object)
    refine ⟨List.Subset.trans hone.ids hmore.ids,
      fun id other h => hmore.objects _ _ (hone.objects _ _ h), fun id other h => ?_⟩
    obtain h | h := hmore.listed id other h
    · obtain h | ⟨hid, hmem⟩ := hone.listed id other h
      · exact .inl h
      · exact .inr ⟨hid, hmore.ids hmem⟩
    · exact .inr h

/-- What loading a zone adds is listed in that zone. -/
theorem lists_load (hnew : r.objects[id]? = none) (found : List WorldObject)
    (hnow : (r.load zone found).contains id = true) : (r.load zone found).Lists zone id := by
  have hgrows := grows_foldl_takeIn ([], r.objects) found
  rw [load_eq] at hnow ⊢
  rw [contains, Std.ExtTreeMap.contains_eq_isSome_getElem?, Option.isSome_iff_exists] at hnow
  obtain ⟨object, hobject⟩ := hnow
  obtain hold | ⟨hid, hmem⟩ := hgrows.listed id object hobject
  · rw [hnew] at hold
    cases hold
  · exact ⟨_, object, Std.ExtTreeMap.getElem?_insert_self, hmem, hobject, hid⟩

theorem extends_load (hnew : r.zones.contains zone = false) (found : List WorldObject) :
    Extends r (r.load zone found) := by
  have hnone := Std.ExtTreeMap.getElem?_eq_none_of_contains_eq_false hnew
  rw [load_eq]
  refine ⟨(grows_foldl_takeIn ([], r.objects) found).objects, fun other ids h => ⟨[], ?_⟩⟩
  have hne : zone ≠ other := by
    rintro rfl
    rw [hnone] at h
    cases h
  simpa [Std.ExtTreeMap.getElem?_insert, hne] using h

theorem extends_ensureLoaded (r : ObjectRegistry) (disk : Disk) (zone : String) :
    Extends r (r.ensureLoaded disk zone) := by
  unfold ensureLoaded
  split
  · exact .refl r
  · rename_i hnew
    exact extends_load (eq_false_of_ne_true hnew) _

theorem lists_ensureLoaded (hnew : r.contains id = false)
    (hnow : (r.ensureLoaded disk zone).contains id = true) :
    (r.ensureLoaded disk zone).Lists zone id := by
  unfold ensureLoaded at hnow ⊢
  split
  · rename_i hloaded
    rw [if_pos hloaded, hnew] at hnow
    cases hnow
  · rename_i hunloaded
    rw [if_neg hunloaded] at hnow
    exact lists_load (Std.ExtTreeMap.getElem?_eq_none_of_contains_eq_false hnew) _ hnow

/-! ## Use -/

theorem extends_objectsOf (r : ObjectRegistry) (disk : Disk) (zone : String) :
    Extends r (r.objectsOf disk zone).2 := by
  unfold objectsOf
  split
  · exact .refl r
  · exact r.extends_ensureLoaded disk zone

theorem extends_objectIn (r : ObjectRegistry) (disk : Disk) (zone : String) (id : UInt64) :
    Extends r (r.objectIn disk zone id).2 := r.extends_ensureLoaded disk zone

theorem objectsOf_generated (r : ObjectRegistry) (disk : Disk) :
    (r.objectsOf disk generatedMapName).1 = [] := by
  rw [objectsOf, if_pos rfl]

/-- Whatever a zone lists is shown, unless the zone is a generated one. -/
theorem Lists.exists_mem_objectsOf (hlists : r.Lists zone id) (disk : Disk)
    (hstatic : zone ≠ generatedMapName) : ∃ object ∈ (r.objectsOf disk zone).1, object.id = id := by
  obtain ⟨ids, object, hzone, hmem, hobject, hid⟩ :=
    hlists.mono (r.extends_ensureLoaded disk zone)
  rw [objectsOf, if_neg hstatic]
  refine ⟨object, ?_, hid⟩
  dsimp only
  rw [listed, Std.ExtTreeMap.getD_eq_getD_getElem?, hzone, Option.getD_some, List.mem_filterMap]
  exact ⟨id, hmem, hobject⟩

/-- The objects of a zone that has been loaded are not read from the disk again. -/
theorem Lists.objectsOf_eq (hlists : r.Lists zone id) (disk disk' : Disk) :
    r.objectsOf disk zone = r.objectsOf disk' zone := by
  obtain ⟨ids, -, hzone, -⟩ := hlists
  have hloaded : r.zones.contains zone = true := by
    rw [Std.ExtTreeMap.contains_eq_isSome_getElem?, hzone, Option.isSome_some]
  have hkept (d : Disk) : r.ensureLoaded d zone = r := by rw [ensureLoaded, if_pos hloaded]
  rw [objectsOf, objectsOf, hkept, hkept]

theorem extends_insert (r : ObjectRegistry) (disk : Disk) (zone : String) (object : WorldObject) :
    Extends r (r.insert disk zone object).2 := by
  have hloaded := r.extends_ensureLoaded disk zone
  unfold insert
  dsimp only
  split
  · exact hloaded
  · rename_i hnew
    have hnone := Std.ExtTreeMap.getElem?_eq_none_of_contains_eq_false
      (eq_false_of_ne_true hnew)
    refine hloaded.trans ⟨fun id other h => ?_, fun other ids h => ?_⟩
    · have hne : object.id ≠ id := by
        rintro rfl
        rw [hnone] at h
        cases h
      simpa [Std.ExtTreeMap.getElem?_insert, hne] using h
    · by_cases hzone : zone = other
      · subst hzone
        refine ⟨[object.id], ?_⟩
        rw [Std.ExtTreeMap.getElem?_insert_self, Std.ExtTreeMap.getD_eq_getD_getElem?, h,
          Option.getD_some]
      · exact ⟨[], by simpa [Std.ExtTreeMap.getElem?_insert, hzone] using h⟩

/-- An object whose number was not in use is listed after it has been taken in. If the files of the
zone, which is loaded for that, hold another object of this number, that one is listed. -/
theorem lists_insert {object : WorldObject} (hnew : r.contains object.id = false) (disk : Disk)
    (zone : String) : (r.insert disk zone object).2.Lists zone object.id := by
  unfold insert
  dsimp only
  split
  · rename_i htaken
    exact lists_ensureLoaded hnew htaken
  · exact ⟨_, object, Std.ExtTreeMap.getElem?_insert_self, by simp,
      Std.ExtTreeMap.getElem?_insert_self, rfl⟩

/-! ## Unused numbers -/

/-- How many numbers there are for objects that are made while the ship runs. -/
def freshCount : Nat := lastFreshId.toNat - firstFreshId.toNat

/-- The numbers for objects that are made while the ship runs, over and over again. -/
def freshAt (k : Nat) : UInt64 := UInt64.ofNat (firstFreshId.toNat + k % freshCount)

theorem toNat_freshAt (k : Nat) : (freshAt k).toNat = firstFreshId.toNat + k % freshCount := by
  have hlt : k % freshCount < freshCount := Nat.mod_lt k (by decide)
  refine UInt64.toNat_ofNat_of_lt' ?_
  simp only [freshCount, firstFreshId, lastFreshId, UInt64.toNat_ofNat, UInt64.size] at hlt ⊢
  omega

theorem freshAt_inj {k m : Nat} : freshAt k = freshAt m ↔ k % freshCount = m % freshCount := by
  rw [← UInt64.toNat_inj, toNat_freshAt, toNat_freshAt, Nat.add_left_cancel_iff]

/-- After the last number comes the first. -/
theorem freshAt_succ (k : Nat) :
    (if freshAt k + 1 < lastFreshId then freshAt k + 1 else firstFreshId) = freshAt (k + 1) := by
  have hlt : k % freshCount < freshCount := Nat.mod_lt k (by decide)
  have hk := toNat_freshAt k
  have hsucc := toNat_freshAt (k + 1)
  have hmod : (k + 1) % freshCount = if k % freshCount + 1 = freshCount then 0
      else k % freshCount + 1 := by
    rw [Nat.add_mod_eq_ite, Nat.mod_eq_of_lt (show 1 < freshCount by decide)]
    grind
  rw [← UInt64.toNat_inj, hsucc, hmod]
  generalize k % freshCount = m at *
  simp only [UInt64.lt_iff_toNat_lt, freshCount, firstFreshId, lastFreshId, UInt64.toNat_ofNat,
    UInt64.toNat_add] at *
  split <;> split <;> simp_all <;> omega

theorem exists_eq_freshAt (hfresh : isFresh id = true) : ∃ k < freshCount, id = freshAt k := by
  simp only [isFresh, Bool.and_eq_true, decide_eq_true_eq, UInt64.le_iff_toNat_le,
    UInt64.lt_iff_toNat_lt] at hfresh
  have hlt : id.toNat - firstFreshId.toNat < freshCount := by
    unfold freshCount
    omega
  refine ⟨id.toNat - firstFreshId.toNat, hlt, ?_⟩
  rw [← UInt64.toNat_inj, toNat_freshAt, Nat.mod_eq_of_lt hlt]
  omega

/-- A search that ends at a number in use has met none but such numbers. -/
theorem contains_freshAt_of_freeFrom {fuel k : Nat}
    (htaken : r.contains (r.freeFrom fuel (freshAt k)) = true) {i : Nat} (hi : i ≤ fuel) :
    r.contains (freshAt (k + i)) = true := by
  induction fuel generalizing k i with
  | zero =>
    obtain rfl := Nat.le_zero.mp hi
    exact htaken
  | succ fuel ih =>
    rw [freeFrom] at htaken
    split at htaken
    · rename_i hhere
      rw [freshAt_succ] at htaken
      cases i with
      | zero => exact hhere
      | succ i =>
        rw [Nat.add_comm i, ← Nat.add_assoc]
        exact ih htaken (Nat.le_of_succ_le_succ hi)
    · contradiction

theorem length_le_size {ids : List UInt64} (hnodup : ids.Nodup)
    (htaken : ∀ id ∈ ids, r.contains id = true) : ids.length ≤ r.objects.size := by
  rw [← Std.ExtTreeMap.length_keys]
  exact (hnodup.subperm fun id hid => Std.ExtTreeMap.mem_keys.mpr (htaken id hid)).length_le

/-- The search begins at a number for objects that are made while the ship runs. -/
theorem exists_freshAt_eq_start (draw : UInt64) :
    ∃ k < freshCount, (if isFresh draw then draw
      else firstFreshId + draw % (lastFreshId - firstFreshId)) = freshAt k := by
  split
  · rename_i hdraw
    exact exists_eq_freshAt hdraw
  · refine ⟨draw.toNat % freshCount, Nat.mod_lt _ (by decide), ?_⟩
    have hspan : (lastFreshId - firstFreshId).toNat = freshCount := by decide
    have hlt : draw.toNat % freshCount < freshCount := Nat.mod_lt _ (by decide)
    rw [← UInt64.toNat_inj, toNat_freshAt, Nat.mod_mod, UInt64.toNat_add, UInt64.toNat_mod, hspan]
    simp only [freshCount, firstFreshId, lastFreshId, UInt64.toNat_ofNat] at hlt ⊢
    omega

theorem nodup_freshAt (k : Nat) {n : Nat} (hn : n ≤ freshCount) :
    ((List.range n).map fun i => freshAt (k + i)).Nodup := by
  refine List.Nodup.map_on (fun i hi j hj hij => ?_) List.nodup_range
  rw [List.mem_range] at hi hj
  have hcount : freshCount = 18446744073441116159 := by decide
  rw [freshAt_inj, hcount] at hij
  omega

/-- The search finds a number that is not in use if there is one. -/
theorem contains_unusedId (hfree : ∃ id, isFresh id = true ∧ r.contains id = false)
    (draw : UInt64) : r.contains (r.unusedId draw) = false := by
  obtain ⟨free, hfresh, hunused⟩ := hfree
  obtain ⟨m, hm, rfl⟩ := exists_eq_freshAt hfresh
  obtain ⟨k, hk, hstart⟩ := exists_freshAt_eq_start draw
  by_contra htaken
  rw [Bool.not_eq_false, unusedId, hstart] at htaken
  have htaken {i : Nat} (hi : i ≤ r.objects.size + 1) : r.contains (freshAt (k + i)) = true :=
    contains_freshAt_of_freeFrom htaken hi
  -- either the search has met more numbers than are in use, or all there are
  by_cases hroom : r.objects.size + 2 ≤ freshCount
  · have hle := length_le_size (nodup_freshAt k hroom) fun id hid => by
      obtain ⟨i, hi, rfl⟩ := List.mem_map.mp hid
      exact htaken (Nat.le_of_lt_succ (List.mem_range.mp hi))
    rw [List.length_map, List.length_range] at hle
    omega
  · have hmet : freshAt (k + (m + freshCount - k) % freshCount) = freshAt m := by
      have haround : k + (m + freshCount - k) = m + freshCount := by omega
      rw [freshAt_inj, Nat.add_mod_mod, haround, Nat.add_mod_right]
    have hlt : (m + freshCount - k) % freshCount < freshCount := Nat.mod_lt _ (by decide)
    have htaken := htaken (i := (m + freshCount - k) % freshCount) (by omega)
    rw [hmet, hunused] at htaken
    cases htaken

end ObjectRegistry

end GameShip
