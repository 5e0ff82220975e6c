import GameShip.Proofs.Object.Registry

/-!
# What becomes of a registry over time

Whatever is done with a registry, and however the files change meanwhile, each object in it is
listed once, in one zone, and stays what it is (`ObjectRegistry.history_run`).

* `ObjectRegistry.Call`, `ObjectRegistry.run`: uses of a registry, each with the files of its time.
* `ObjectRegistry.accepted`: what is taken into a zone in the course of them.
* `ObjectRegistry.Sound`: objects and lists fit together.
* `ObjectRegistry.Reaches`: nothing but uses leads from one registry to another.
-/

namespace GameShip

namespace ObjectRegistry

inductive Call where
  | objectsOf (zone : String)
  | object (id : UInt64)
  | objectIn (zone : String) (id : UInt64)
  | insert (zone : String) (object : WorldObject)
  deriving DecidableEq, Repr

/-- The registry after a use. -/
def step (r : ObjectRegistry) (disk : Disk) : Call → ObjectRegistry
  | .objectsOf zone => (r.objectsOf disk zone).2
  | .object _ => r
  | .objectIn zone id => (r.objectIn disk zone id).2
  | .insert zone object => (r.insert disk zone object).2

def run (r : ObjectRegistry) : List (Disk × Call) → ObjectRegistry
  | [] => r
  | (disk, call) :: calls => (r.step disk call).run calls

/-- What a use takes into a zone beside its files. -/
def taken (r : ObjectRegistry) (zone : String) (disk : Disk) : Call → List UInt64
  | .insert target object =>
    if target = zone ∧ (r.insert disk target object).1 = true then [object.id] else []
  | .objectsOf _ | .object _ | .objectIn _ _ => []

def accepted (r : ObjectRegistry) (zone : String) : List (Disk × Call) → List UInt64
  | [] => []
  | (disk, call) :: calls => r.taken zone disk call ++ (r.step disk call).accepted zone calls

/-- Each object is listed once, in one zone. -/
structure Sound (r : ObjectRegistry) : Prop where
  carries : ∀ (id : UInt64) (object : WorldObject), r.objects[id]? = some object → object.id = id
  listed : ∀ id : UInt64,
    r.contains id = true ↔
      ∃ (zone : String) (ids : List UInt64), r.zones[zone]? = some ids ∧ id ∈ ids
  unique : ∀ (id : UInt64) (zone zone' : String) (ids ids' : List UInt64),
    r.zones[zone]? = some ids → r.zones[zone']? = some ids' → id ∈ ids → id ∈ ids' → zone = zone'
  once : ∀ (zone : String) (ids : List UInt64), r.zones[zone]? = some ids → ids.Nodup

variable {r : ObjectRegistry} {disk : Disk} {zone : String} {ids : List UInt64} {id : UInt64}

theorem contains_eq_isSome (r : ObjectRegistry) (id : UInt64) :
    r.contains id = r.objects[id]?.isSome := Std.ExtTreeMap.contains_eq_isSome_getElem?

theorem contains_insert_iff (objects : Std.ExtTreeMap UInt64 WorldObject) (object : WorldObject) :
    (objects.insert object.id object).contains id = true ↔
      objects.contains id = true ∨ id = object.id := by
  have hself : (compare object.id id == .eq) = true ↔ id = object.id := by
    simp only [beq_iff_eq, Std.LawfulEqCmp.compare_eq_iff_eq]
    exact eq_comm
  rw [Std.ExtTreeMap.contains_insert, Bool.or_eq_true, or_comm, hself]

theorem sound_ofResources (resources : String) : (ofResources resources).Sound := by
  have hobjects (id : UInt64) : (ofResources resources).objects[id]? = none :=
    Std.ExtTreeMap.getElem?_empty
  have hzones (zone : String) : (ofResources resources).zones[zone]? = none :=
    Std.ExtTreeMap.getElem?_empty
  constructor
  · intro id object h
    rw [hobjects] at h
    cases h
  · intro id
    rw [contains_eq_isSome, hobjects]
    constructor
    · intro h
      cases h
    · rintro ⟨zone, ids, h, -⟩
      rw [hzones] at h
      cases h
  · intro id zone zone' ids ids' h
    rw [hzones] at h
    cases h
  · intro zone ids h
    rw [hzones] at h
    cases h

/-! ## One more list -/

/-- A list of new numbers, whose objects come in with it, is put in the place of a zone's list that
it continues. -/
theorem Sound.relist {objects : Std.ExtTreeMap UInt64 WorldObject} {old ids : List UInt64}
    (H : r.Sound) (hold : r.zones[zone]? = some old ∨ r.zones[zone]? = none ∧ old = [])
    (hbegins : old ⊆ ids) (hnodup : ids.Nodup)
    (hcarries : ∀ (id : UInt64) (object : WorldObject), objects[id]? = some object →
      object.id = id)
    (hobjects : ∀ id, objects.contains id = true ↔ r.contains id = true ∨ id ∈ ids)
    (hnew : ∀ id ∈ ids, id ∈ old ∨ r.contains id = false) :
    Sound { r with objects, zones := r.zones.insert zone ids } := by
  have hzone (other : String) : (r.zones.insert zone ids)[other]? =
      if zone = other then some ids else r.zones[other]? := by
    simp [Std.ExtTreeMap.getElem?_insert]
  -- a number of the new list is in no list of another zone
  have hapart {other : String} {others : List UInt64} (hne : zone ≠ other)
      (hothers : r.zones[other]? = some others) {id : UInt64} (hid : id ∈ ids) : id ∉ others := by
    intro hmem
    rcases hnew id hid with hin | hfree
    · rcases hold with hold | ⟨-, rfl⟩
      · exact hne (H.unique id zone other old others hold hothers hin hmem)
      · cases hin
    · rw [(H.listed id).mpr ⟨other, others, hothers, hmem⟩] at hfree
      cases hfree
  constructor
  · exact hcarries
  · intro id
    rw [contains, hobjects, H.listed]
    constructor
    · rintro (⟨other, others, hothers, hmem⟩ | hmem)
      · by_cases h : zone = other
        · subst h
          refine ⟨zone, ids, by rw [hzone, if_pos rfl], ?_⟩
          rcases hold with hold | ⟨hnone, -⟩
          · rw [hold] at hothers
            cases hothers
            exact hbegins hmem
          · rw [hnone] at hothers
            cases hothers
        · exact ⟨other, others, by rw [hzone, if_neg h, hothers], hmem⟩
      · exact ⟨zone, ids, by rw [hzone, if_pos rfl], hmem⟩
    · rintro ⟨other, others, hothers, hmem⟩
      rw [hzone] at hothers
      split at hothers
      · cases hothers
        exact .inr hmem
      · exact .inl ⟨other, others, hothers, hmem⟩
  · intro id first second here there hhere hthere hmem hmem'
    rw [hzone] at hhere hthere
    split at hhere <;> split at hthere
    · rename_i h h'
      exact h.symm.trans h'
    · rename_i h h'
      cases hhere
      exact absurd hmem' (hapart h' hthere hmem)
    · rename_i h h'
      cases hthere
      exact absurd hmem (hapart h hhere hmem')
    · exact H.unique id first second here there hhere hthere hmem hmem'
  · intro other others hothers
    rw [hzone] at hothers
    split at hothers
    · cases hothers
      exact hnodup
    · exact H.once other others hothers

/-! ## Loading -/

/-- The numbers that are gathered while a zone is loaded are new, and belong to its objects. -/
structure Gathers (old : Std.ExtTreeMap UInt64 WorldObject)
    (s : List UInt64 × Std.ExtTreeMap UInt64 WorldObject) : Prop where
  nodup : s.1.Nodup
  fresh : ∀ id ∈ s.1, old.contains id = false
  objects : ∀ id : UInt64, s.2.contains id = true ↔ old.contains id = true ∨ id ∈ s.1

theorem Gathers.takeIn {old : Std.ExtTreeMap UInt64 WorldObject}
    {s : List UInt64 × Std.ExtTreeMap UInt64 WorldObject} (H : Gathers old s)
    (object : WorldObject) : Gathers old (takeIn s object) := by
  unfold ObjectRegistry.takeIn
  split
  · exact H
  · rename_i hnew
    obtain ⟨hold, hmem⟩ := not_or.mp (mt (H.objects object.id).mpr hnew)
    constructor
    · exact List.nodup_append.mpr ⟨H.nodup, List.nodup_singleton _, by
        rintro id hid _ hother rfl
        rw [List.mem_singleton.mp hother] at hid
        exact hmem hid⟩
    · intro id hid
      rcases List.mem_append.mp hid with hid | hid
      · exact H.fresh id hid
      · rw [List.mem_singleton.mp hid]
        exact eq_false_of_ne_true hold
    · intro id
      rw [contains_insert_iff, H.objects, or_assoc, List.mem_append, List.mem_singleton]

theorem gathers_foldl_takeIn (old : Std.ExtTreeMap UInt64 WorldObject) (found : List WorldObject) :
    Gathers old (found.foldl takeIn ([], old)) := by
  have hstart : Gathers old ([], old) := by
    refine ⟨List.nodup_nil, ?_, ?_⟩
    · intro id hid
      cases hid
    · intro id
      simp
  generalize (([], old) : List UInt64 × Std.ExtTreeMap UInt64 WorldObject) = s at hstart ⊢
  induction found generalizing s with
  | nil => exact hstart
  | cons object found ih => exact ih _ (hstart.takeIn object)

theorem Sound.load (H : r.Sound) (hnew : r.zones[zone]? = none) (found : List WorldObject) :
    (r.load zone found).Sound := by
  have hgathers := gathers_foldl_takeIn r.objects found
  have hgrows := grows_foldl_takeIn ([], r.objects) found
  rw [load_eq]
  refine H.relist (.inr ⟨hnew, rfl⟩) (List.nil_subset _) hgathers.nodup ?_ hgathers.objects ?_
  · intro id object h
    rcases hgrows.listed id object h with hold | ⟨hid, -⟩
    · exact H.carries id object hold
    · exact hid
  · intro id hid
    exact .inr (hgathers.fresh id hid)

theorem ensureLoaded_of_some (h : r.zones[zone]? = some ids) (disk : Disk) :
    r.ensureLoaded disk zone = r := by
  rw [ensureLoaded, Std.ExtTreeMap.contains_eq_isSome_getElem?, h]
  rfl

theorem ensureLoaded_of_none (h : r.zones[zone]? = none) (disk : Disk) :
    r.ensureLoaded disk zone = r.load zone (ofFiles (r.filesOf disk zone)) := by
  rw [ensureLoaded, Std.ExtTreeMap.contains_eq_isSome_getElem?, h]
  rfl

theorem Sound.ensureLoaded (H : r.Sound) (disk : Disk) (zone : String) :
    (r.ensureLoaded disk zone).Sound := by
  cases h : r.zones[zone]? with
  | some ids => rwa [ensureLoaded_of_some h]
  | none =>
    rw [ensureLoaded_of_none h]
    exact H.load h _

theorem exists_zones_ensureLoaded (r : ObjectRegistry) (disk : Disk) (zone : String) :
    ∃ ids, (r.ensureLoaded disk zone).zones[zone]? = some ids := by
  cases h : r.zones[zone]? with
  | some ids => exact ⟨ids, by rwa [ensureLoaded_of_some h]⟩
  | none =>
    rw [ensureLoaded_of_none h]
    exact ⟨_, Std.ExtTreeMap.getElem?_insert_self⟩

/-- When the objects of a map are asked for, they have been read afterwards. A generated map has
none. -/
theorem contains_objectsOf (r : ObjectRegistry) (disk : Disk) (zone : String) :
    zone = generatedMapName ∨ (r.objectsOf disk zone).2.zones.contains zone = true := by
  by_cases hgenerated : zone = generatedMapName
  · exact .inl hgenerated
  · obtain ⟨ids, hids⟩ := r.exists_zones_ensureLoaded disk zone
    right
    rw [objectsOf, if_neg hgenerated, Std.ExtTreeMap.contains_eq_isSome_getElem?, hids]
    rfl

/-- A list is not read again when its zone or another one is to be loaded. -/
theorem zones_ensureLoaded (h : r.zones[zone]? = some ids) (disk : Disk) (target : String) :
    (r.ensureLoaded disk target).zones[zone]? = some ids := by
  cases htarget : r.zones[target]? with
  | some _ => rwa [ensureLoaded_of_some htarget]
  | none =>
    have hne : target ≠ zone := by
      rintro rfl
      rw [h] at htarget
      cases htarget
    rw [ensureLoaded_of_none htarget, load_eq]
    simpa [Std.ExtTreeMap.getElem?_insert, hne] using h

/-! ## Uses -/

/-- An object is refused exactly if its number is taken once the zone has been loaded, and then
nothing comes in but the objects of the zone. -/
theorem insert_cases (r : ObjectRegistry) (disk : Disk) (zone : String) (object : WorldObject) :
    let loaded := r.ensureLoaded disk zone
    loaded.contains object.id = true ∧ r.insert disk zone object = (false, loaded) ∨
      loaded.contains object.id = false ∧ ∃ ids, loaded.zones[zone]? = some ids ∧
        r.insert disk zone object = (true, { loaded with
          objects := loaded.objects.insert object.id object
          zones := loaded.zones.insert zone (ids ++ [object.id]) }) := by
  intro loaded
  cases h : loaded.contains object.id with
  | true =>
    refine .inl ⟨rfl, ?_⟩
    unfold insert
    exact if_pos h
  | false =>
    obtain ⟨ids, hids⟩ := r.exists_zones_ensureLoaded disk zone
    refine .inr ⟨rfl, ids, hids, ?_⟩
    have hlist : loaded.zones.getD zone [] = ids := by
      rw [Std.ExtTreeMap.getD_eq_getD_getElem?, hids, Option.getD_some]
    unfold insert
    dsimp only
    rw [if_neg (by rw [h]; exact Bool.false_ne_true), hlist]

theorem Sound.insert (H : r.Sound) (disk : Disk) (zone : String) (object : WorldObject) :
    (r.insert disk zone object).2.Sound := by
  have H := H.ensureLoaded disk zone
  rcases r.insert_cases disk zone object with ⟨-, hinsert⟩ | ⟨hfree, ids, hids, hinsert⟩
  · rwa [hinsert]
  · rw [hinsert]
    have hmem : object.id ∉ ids := by
      intro hmem
      rw [(H.listed object.id).mpr ⟨zone, ids, hids, hmem⟩] at hfree
      cases hfree
    refine H.relist (.inl hids) (List.subset_append_left ..) ?_ ?_ ?_ ?_
    · exact List.nodup_append.mpr ⟨H.once zone ids hids, List.nodup_singleton _, by
        rintro id hid _ hother rfl
        rw [List.mem_singleton.mp hother] at hid
        exact hmem hid⟩
    · intro id other h
      by_cases hid : object.id = id
      · subst hid
        rw [Std.ExtTreeMap.getElem?_insert_self] at h
        cases h
        rfl
      · exact H.carries id other (by simpa [Std.ExtTreeMap.getElem?_insert, hid] using h)
    · intro id
      have hlisted : id ∈ ids → (r.ensureLoaded disk zone).contains id = true := by
        intro hmem
        exact (H.listed id).mpr ⟨zone, ids, hids, hmem⟩
      rw [contains_insert_iff, List.mem_append, List.mem_singleton, ← or_assoc,
        or_iff_left_of_imp hlisted, contains]
    · intro id hid
      rcases List.mem_append.mp hid with hid | hid
      · exact .inl hid
      · rw [List.mem_singleton.mp hid]
        exact .inr hfree

theorem Sound.step (H : r.Sound) (disk : Disk) (call : Call) : (r.step disk call).Sound := by
  cases call with
  | objectsOf zone =>
    dsimp only [ObjectRegistry.step, ObjectRegistry.objectsOf]
    split
    · exact H
    · exact H.ensureLoaded disk zone
  | object id => exact H
  | objectIn zone id => exact H.ensureLoaded disk zone
  | insert zone object => exact H.insert disk zone object

theorem extends_step (r : ObjectRegistry) (disk : Disk) (call : Call) :
    r.Extends (r.step disk call) := by
  cases call with
  | objectsOf zone => exact r.extends_objectsOf disk zone
  | object id => exact .refl r
  | objectIn zone id => exact r.extends_objectIn disk zone id
  | insert zone object => exact r.extends_insert disk zone object

/-- The list of a zone that has been loaded goes on with what the use takes in. -/
theorem zones_step (h : r.zones[zone]? = some ids) (disk : Disk) (call : Call) :
    (r.step disk call).zones[zone]? = some (ids ++ r.taken zone disk call) := by
  cases call with
  | objectsOf target =>
    rw [taken, List.append_nil, step, objectsOf]
    split
    · exact h
    · exact zones_ensureLoaded h disk target
  | object id =>
    rw [taken, List.append_nil]
    exact h
  | objectIn target id =>
    rw [taken, List.append_nil]
    exact zones_ensureLoaded h disk target
  | insert target object =>
    have hloaded := zones_ensureLoaded h disk target
    dsimp only [step, taken]
    rcases r.insert_cases disk target object with ⟨-, hinsert⟩ | ⟨-, old, hold, hinsert⟩
    · rw [hinsert, if_neg fun h => Bool.false_ne_true h.2, List.append_nil]
      exact hloaded
    · rw [hinsert]
      by_cases htarget : target = zone
      · subst htarget
        rw [hold] at hloaded
        cases hloaded
        rw [if_pos ⟨rfl, rfl⟩]
        exact Std.ExtTreeMap.getElem?_insert_self
      · rw [if_neg fun h => htarget h.1, List.append_nil]
        simpa [Std.ExtTreeMap.getElem?_insert, htarget] using hloaded

theorem Sound.run (H : r.Sound) (calls : List (Disk × Call)) : (r.run calls).Sound := by
  induction calls generalizing r with
  | nil => exact H
  | cons call calls ih => exact ih (H.step call.1 call.2)

theorem extends_run (r : ObjectRegistry) (calls : List (Disk × Call)) :
    r.Extends (r.run calls) := by
  induction calls generalizing r with
  | nil => exact .refl r
  | cons call calls ih => exact (r.extends_step call.1 call.2).trans (ih _)

theorem zones_run (h : r.zones[zone]? = some ids) (calls : List (Disk × Call)) :
    (r.run calls).zones[zone]? = some (ids ++ r.accepted zone calls) := by
  induction calls generalizing r ids with
  | nil =>
    rw [accepted, List.append_nil]
    exact h
  | cons call calls ih =>
    rw [accepted, ← List.append_assoc]
    exact ih (zones_step h call.1 call.2)

theorem run_append (r : ObjectRegistry) (calls later : List (Disk × Call)) :
    r.run (calls ++ later) = (r.run calls).run later := by
  induction calls generalizing r with
  | nil => rfl
  | cons call calls ih => exact ih _

/-- Uses lead from the one registry to the other. -/
def Reaches (r r' : ObjectRegistry) : Prop := ∃ calls, r' = r.run calls

namespace Reaches

variable {r' r'' : ObjectRegistry}

theorem refl (r : ObjectRegistry) : r.Reaches r := ⟨[], rfl⟩

theorem trans (h : r.Reaches r') (h' : r'.Reaches r'') : r.Reaches r'' := by
  obtain ⟨calls, rfl⟩ := h
  obtain ⟨later, rfl⟩ := h'
  exact ⟨calls ++ later, (r.run_append calls later).symm⟩

theorem step (r : ObjectRegistry) (disk : Disk) (call : Call) : r.Reaches (r.step disk call) :=
  ⟨[(disk, call)], rfl⟩

theorem toExtends (h : r.Reaches r') : r.Extends r' := by
  obtain ⟨calls, rfl⟩ := h
  exact r.extends_run calls

theorem sound (h : r.Reaches r') (H : r.Sound) : r'.Sound := by
  obtain ⟨calls, rfl⟩ := h
  exact H.run calls

end Reaches

/-- **What becomes of a registry over time**. After any uses, with the files on the disk changing in
any way between them, every object is listed once and in one zone. A number that is asked for is
that of the answer, which is the object of this number or, if there is none, stands in for it. Of
whatever is done `later` this says: an object stays what it is; the list of a zone that has been
loaded goes on with the objects taken into the zone, in this order, and its files are not read
again; an object is refused exactly if its number is taken once the zone has been loaded. -/
theorem history_run (resources : String) (calls later : List (Disk × Call)) :
    let r := (ofResources resources).run calls
    r.Sound ∧
      (∀ id : UInt64, (r.object id).id = id ∧
        (if r.contains id then r.objects[id]? = some (r.object id)
          else r.object id = .placeholder id ∧ (r.object id).name = "Unknown") ∧
        (r.object id = .placeholder id ↔
          r.contains id = false ∨ r.objects[id]? = some (.placeholder id))) ∧
      (∀ (id : UInt64) (object : WorldObject), r.objects[id]? = some object →
        (r.run later).objects[id]? = some object) ∧
      (∀ (zone : String) (ids : List UInt64), r.zones[zone]? = some ids →
        (r.run later).zones[zone]? = some (ids ++ r.accepted zone later) ∧
          ∀ disk, r.ensureLoaded disk zone = r) ∧
      ∀ (disk : Disk) (zone : String) (object : WorldObject),
        let loaded := r.ensureLoaded disk zone
        ((r.insert disk zone object).1 = false ↔ loaded.contains object.id = true) ∧
          ((r.insert disk zone object).1 = false → (r.insert disk zone object).2 = loaded) := by
  intro r
  have H : r.Sound := (sound_ofResources resources).run calls
  refine ⟨H, ?_, ?_, ?_, ?_⟩
  · intro id
    have hlook : r.object id = r.objects[id]?.getD (.placeholder id) :=
      Std.ExtTreeMap.getD_eq_getD_getElem?
    rw [hlook, contains_eq_isSome]
    cases h : r.objects[id]? with
    | none => exact ⟨rfl, ⟨rfl, rfl⟩, iff_of_true rfl (.inl rfl)⟩
    | some object =>
      refine ⟨H.carries id object h, rfl, ?_⟩
      simp
  · exact (r.extends_run later).objects
  · intro zone ids h
    exact ⟨zones_run h later, ensureLoaded_of_some h⟩
  · intro disk zone object loaded
    rcases r.insert_cases disk zone object with ⟨htaken, hinsert⟩ | ⟨hfree, ids, -, hinsert⟩
    · rw [hinsert]
      exact ⟨iff_of_true rfl htaken, fun _ => rfl⟩
    · rw [hinsert]
      refine ⟨iff_of_false ?_ ?_, ?_⟩
      · exact nofun
      · rw [hfree]
        exact Bool.false_ne_true
      · intro h
        cases h

end ObjectRegistry

end GameShip
