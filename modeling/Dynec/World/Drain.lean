import Dynec.World.Deletion

/-!
# What a drain does to one entity

Operations on other entities leave the simple components, the generation and
the tracked reference of an entity alone. They may open isotope storages, and a
new storage is filled for every allocated ID.
-/

namespace Dynec.World

open Entity Fallible

variable {V : Type} {w : DbgTypeId → Nat} {T Hint : DbgTypeId → Type} {types : Types V}
  {arch : DbgTypeId} {id : Nat}

/-! ## Isotope storages -/

/-- An operation gives an isotope component to an entity of an archetype. -/
def Operation.Gives (arch comp : DbgTypeId) : Operation V → Prop
  | .createEntity arch' _ _ compMap => arch' = arch ∧ compMap.removeIsotope comp ≠ []
  | .deleteEntity _ _ => False

/-- What operations on other entities do to the storages of one isotope type:
those that were there keep the value of the entity, and new ones are opened if
the operations give the type. -/
structure IsotopeSpared (ty : IsotopeType V) (id : Nat) (entities : Except Panic (List Nat))
    (gives : Prop) (map map' : IsotopeMap V) : Prop where
  kept : ∀ d storage, map.lookup d = some storage →
    ∃ storage', map'.lookup d = some storage' ∧ storage' id = storage id
  new : ∀ d storage', map.lookup d = none → map'.lookup d = some storage' →
    gives ∧ ∃ storage, IsotopeMap.newStorage ty entities = .ok storage ∧
      storage' id = storage id
  opened : gives → ∃ d storage, map'.lookup d = some storage

section Isotopes

variable {ty : IsotopeType V} {entities : Except Panic (List Nat)} {gives gives' : Prop}
  {map map₁ map₂ map₃ : IsotopeMap V}

theorem IsotopeSpared.refl (none : ¬ gives) : IsotopeSpared ty id entities gives map map := by
  refine ⟨fun d storage found => ⟨storage, found, rfl⟩, fun d storage missing found => ?_,
    fun given => absurd given none⟩
  rw [missing] at found
  cases found

theorem IsotopeSpared.trans (first : IsotopeSpared ty id entities gives map map₁)
    (second : IsotopeSpared ty id entities gives' map₁ map₂) :
    IsotopeSpared ty id entities (gives ∨ gives') map map₂ := by
  constructor
  · intro d storage found
    obtain ⟨storage₁, found₁, same₁⟩ := first.kept d storage found
    obtain ⟨storage₂, found₂, same₂⟩ := second.kept d storage₁ found₁
    exact ⟨storage₂, found₂, same₂.trans same₁⟩
  · intro d storage₂ missing found₂
    cases found₁ : map₁.lookup d with
    | none =>
      obtain ⟨given, new⟩ := second.new d storage₂ found₁ found₂
      exact ⟨.inr given, new⟩
    | some storage₁ =>
      obtain ⟨given, storage, new, same₁⟩ := first.new d storage₁ missing found₁
      obtain ⟨storage', found', same₂⟩ := second.kept d storage₁ found₁
      cases found₂.symm.trans found'
      exact ⟨.inl given, storage, new, same₂.trans same₁⟩
  · rintro (given | given)
    · obtain ⟨d, storage₁, found₁⟩ := first.opened given
      obtain ⟨storage₂, found₂, -⟩ := second.kept d storage₁ found₁
      exact ⟨d, storage₂, found₂⟩
    · exact second.opened given

theorem IsotopeSpared.congr (h : IsotopeSpared ty id entities gives map map₁)
    (same : gives ↔ gives') : IsotopeSpared ty id entities gives' map map₁ := by
  rwa [propext same] at h

variable {entity : Nat} {values : List (Discrim × V)}
  {simpleStorages : IndexMap DbgTypeId (Simple V)}

/-- The initialization of another entity. -/
theorem IsotopeFilled.spared
    (filled : IsotopeFilled ty entity values simpleStorages entities map map₁)
    (other : entity ≠ id) : IsotopeSpared ty id entities (values ≠ []) map map₁ := by
  constructor
  · intro d storage found
    cases found' : map₁.lookup d with
    | none =>
      have missing := ((filled.absent d).mp found').1
      rw [found] at missing
      cases missing
    | some storage' =>
      obtain ⟨old, was | ⟨missing, -⟩, frame, -⟩ := filled.present d storage' found'
      · cases found.symm.trans was
        exact ⟨storage', rfl, frame id other.symm⟩
      · rw [found] at missing
        cases missing
  · intro d storage' missing found
    obtain ⟨old, was | ⟨-, new⟩, frame, -⟩ := filled.present d storage' found
    · rw [missing] at was
      cases was
    · refine ⟨?_, old, new, frame id other.symm⟩
      rintro rfl
      rw [(filled.absent d).mpr ⟨missing, by simp⟩] at found
      cases found
  · intro given
    obtain ⟨first, rest, rfl⟩ := List.exists_cons_of_ne_nil given
    cases found : map₁.lookup first.1 with
    | none => exact absurd (List.mem_cons_self ..) ((filled.absent first.1).mp found).2
    | some storage => exact ⟨first.1, storage, found⟩

/-- A value that a new storage has for an entity. -/
theorem newStorage_value {storage : Storage V}
    (new : IsotopeMap.newStorage ty entities = .ok storage) (id : Nat) :
    match ty.initStrategy with
    | .none => storage id = none
    | .auto _ _ => ∃ ids, entities = .ok ids ∧ (storage id = none ↔ id ∉ ids) := by
  have spec := IsotopeMap.newStorage_ok new
  cases strategy : ty.initStrategy with
  | none =>
    rw [strategy] at spec
    rw [show storage = .empty from spec]
    rfl
  | auto deps init =>
    rw [strategy] at spec
    obtain ⟨ids, listed, -, stored⟩ := spec
    refine ⟨ids, listed, ?_⟩
    rw [stored]
    split
    · rename_i member
      simp [member]
    · rename_i absent
      simp [absent]

/-- A storage that an initialized entity finds gives it a value, if it was given
one or has an initializer. -/
theorem IsotopeFilled.value
    (filled : IsotopeFilled ty id values simpleStorages entities map map₁) {d : Discrim}
    {storage : Storage V} (found : map₁.lookup d = some storage)
    (source : d ∈ values.map Prod.fst ∨ ty.initStrategy ≠ .none) : storage id ≠ none := by
  obtain ⟨old, -, -, ⟨value, -, here⟩ | ⟨unlisted, rest⟩⟩ := filled.present d storage found
  · simp [here]
  · have auto := source.resolve_left unlisted
    cases strategy : ty.initStrategy with
    | none => exact absurd strategy auto
    | auto deps init =>
      rw [strategy] at rest
      rcases rest with ⟨v, -, here⟩ | ⟨-, args, -, here⟩
      · simp [here]
      · simp [here]

/-- A storage stays when an entity is initialized. -/
theorem IsotopeFilled.found
    (filled : IsotopeFilled ty id values simpleStorages entities map map₁) {d : Discrim}
    {storage : Storage V} (found : map.lookup d = some storage) :
    ∃ storage₁, map₁.lookup d = some storage₁ := by
  cases found₁ : map₁.lookup d with
  | none =>
    have missing := ((filled.absent d).mp found₁).1
    rw [found] at missing
    cases missing
  | some storage₁ => exact ⟨storage₁, rfl⟩

/-- No storage of the map has a value for the entity. -/
def IsotopeGone (id : Nat) (map : IsotopeMap V) : Prop :=
  ∀ d storage, map.lookup d = some storage → storage id = none

theorem IsotopeSpared.gone (after : IsotopeSpared ty id entities gives map map₁)
    (gone : IsotopeGone id map₁) : IsotopeGone id map := by
  intro d storage found
  obtain ⟨storage₁, found₁, same⟩ := after.kept d storage found
  exact same.symm.trans (gone d storage₁ found₁)

section Missing

variable (filled : IsotopeFilled ty id values simpleStorages entities map₁ map₂)

include filled in
/-- An entity that was given a value has it. -/
theorem IsotopeGone.ungiven (gone : IsotopeGone id map₂) : values = [] := by
  by_contra given
  obtain ⟨first, rest, rfl⟩ := List.exists_cons_of_ne_nil given
  cases found : map₂.lookup first.1 with
  | none => exact ((filled.absent first.1).mp found).2 (List.mem_cons_self ..)
  | some storage => exact filled.value found (.inl (List.mem_cons_self ..)) (gone _ _ found)

include filled in
/-- Without an initializer, an entity that is given no value gets none. -/
theorem IsotopeFilled.plain_kept (ungiven : values = []) (strategy : ty.initStrategy = .none)
    {d : Discrim} {storage₂ : Storage V} (found₂ : map₂.lookup d = some storage₂) :
    ∃ old, (map₁.lookup d = some old ∨
        map₁.lookup d = none ∧ IsotopeMap.newStorage ty entities = .ok old) ∧
      storage₂ id = old id := by
  obtain ⟨old, opened, -, ⟨value, listed, -⟩ | ⟨-, rest⟩⟩ := filled.present d storage₂ found₂
  · simp [ungiven] at listed
  · rw [strategy] at rest
    exact ⟨old, opened, rest⟩

theorem newStorage_plain (strategy : ty.initStrategy = .none) {storage : Storage V}
    (new : IsotopeMap.newStorage ty entities = .ok storage) : storage id = none := by
  have value := newStorage_value new id
  rwa [strategy] at value

include filled in
theorem plain_gone_iff (strategy : ty.initStrategy = .none)
    (before : IsotopeSpared ty id entities gives map map₁)
    (after : IsotopeSpared ty id entities gives' map₂ map₃) :
    IsotopeGone id map₃ ↔ values = [] ∧ IsotopeGone id map := by
  constructor
  · intro gone
    have goneAfter := after.gone gone
    have ungiven := goneAfter.ungiven filled
    refine ⟨ungiven, before.gone fun d storage₁ found₁ => ?_⟩
    obtain ⟨storage₂, found₂⟩ := filled.found found₁
    obtain ⟨old, was | ⟨missing, -⟩, same⟩ := filled.plain_kept ungiven strategy found₂
    · cases found₁.symm.trans was
      exact same.symm.trans (goneAfter d storage₂ found₂)
    · rw [found₁] at missing
      cases missing
  · rintro ⟨ungiven, source⟩ d storage₃ found₃
    cases found₂ : map₂.lookup d with
    | none =>
      obtain ⟨-, storage, new, same⟩ := after.new d storage₃ found₂ found₃
      exact same.trans (newStorage_plain strategy new)
    | some storage₂ =>
      obtain ⟨storage', found', same⟩ := after.kept d storage₂ found₂
      cases found₃.symm.trans found'
      obtain ⟨old, was | ⟨-, new⟩, same₂⟩ := filled.plain_kept ungiven strategy found₂
      · rw [same, same₂]
        cases found : map.lookup d with
        | none =>
          obtain ⟨-, storage, new, same₁⟩ := before.new d old found was
          exact same₁.trans (newStorage_plain strategy new)
        | some storage =>
          obtain ⟨storage₁, found₁, same₁⟩ := before.kept d storage found
          cases was.symm.trans found₁
          exact same₁.trans (source d storage found)
      · rw [same, same₂]
        exact newStorage_plain strategy new

include filled in
theorem auto_gone_iff {deps : List DbgTypeId} {init : List V → V}
    (strategy : ty.initStrategy = .auto deps init)
    (before : IsotopeSpared ty id entities gives map map₁)
    (after : IsotopeSpared ty id entities gives' map₂ map₃) :
    IsotopeGone id map₃ ↔ values = [] ∧ (∀ d, map.lookup d = none) ∧ ¬ gives ∧
      ∀ ids, entities = .ok ids → id ∈ ids → ¬ gives' := by
  have auto : ty.initStrategy ≠ .none := by simp [strategy]
  constructor
  · intro gone
    have goneAfter := after.gone gone
    have ungiven := goneAfter.ungiven filled
    have empty : ∀ d, map₁.lookup d = none := by
      intro d
      cases found : map₁.lookup d with
      | none => rfl
      | some storage =>
        obtain ⟨storage₂, found₂⟩ := filled.found found
        exact absurd (goneAfter d storage₂ found₂) (filled.value found₂ (.inr auto))
    refine ⟨ungiven, fun d => ?_, fun given => ?_, fun ids listed member given => ?_⟩
    · cases found : map.lookup d with
      | none => rfl
      | some storage =>
        obtain ⟨storage₁, found₁, -⟩ := before.kept d storage found
        rw [empty d] at found₁
        cases found₁
    · obtain ⟨d, storage, found⟩ := before.opened given
      rw [empty d] at found
      cases found
    · obtain ⟨d, storage₃, found₃⟩ := after.opened given
      have missing : map₂.lookup d = none := (filled.absent d).mpr ⟨empty d, by simp [ungiven]⟩
      obtain ⟨-, storage, new, same⟩ := after.new d storage₃ missing found₃
      have value := newStorage_value new id
      rw [strategy] at value
      obtain ⟨ids', listed', none⟩ := value
      cases listed.symm.trans listed'
      exact none.mp (same.symm.trans (gone d storage₃ found₃)) member
  · rintro ⟨ungiven, empty, ungiven₁, ungiven₂⟩ d storage₃ found₃
    have empty₁ : ∀ d, map₁.lookup d = none := by
      intro d
      cases found : map₁.lookup d with
      | none => rfl
      | some storage => exact absurd (before.new d storage (empty d) found).1 ungiven₁
    have missing : map₂.lookup d = none :=
      (filled.absent d).mpr ⟨empty₁ d, by simp [ungiven]⟩
    obtain ⟨given, storage, new, same⟩ := after.new d storage₃ missing found₃
    have value := newStorage_value new id
    rw [strategy] at value
    obtain ⟨ids, listed, none⟩ := value
    exact same.trans (none.mpr fun member => ungiven₂ ids listed member given)

end Missing

/-- When an entity has no isotope values after its initialization among other
operations. -/
theorem isotope_none_iff (before : IsotopeSpared ty id entities gives map map₁)
    (filled : IsotopeFilled ty id values simpleStorages entities map₁ map₂)
    (after : IsotopeSpared ty id entities gives' map₂ map₃) :
    (∀ d storage, map₃.lookup d = some storage → storage id = none) ↔
      values = [] ∧ match ty.initStrategy with
        | .none => ∀ d storage, map.lookup d = some storage → storage id = none
        | .auto _ _ => (∀ d, map.lookup d = none) ∧ ¬ gives ∧
            ∀ ids, entities = .ok ids → id ∈ ids → ¬ gives' := by
  cases strategy : ty.initStrategy with
  | none => exact plain_gone_iff filled strategy before after
  | auto deps init => exact auto_gone_iff filled strategy before after

end Isotopes

/-! ## Entries -/

theorem generationOf_next (store : List Nat) (entity i : Nat) :
    generationOf (nextGeneration store entity) i =
      if i = entity then (generationOf store entity + 1) % 2 ^ 32 else generationOf store i := by
  simp only [generationOf, nextGeneration, List.getElem?_modify, getElem?_resized]
  by_cases same : i = entity
  · subst same
    by_cases inside : i < store.length
    · simp [inside]
    · simp [inside]
  · simp only [same, Ne.symm same, if_false, Option.map_eq_map, Option.map_id']
    by_cases inside : i < store.length
    · rw [if_pos inside]
    · rw [if_neg inside, List.getElem?_eq_none (Nat.le_of_not_lt inside)]
      split <;> rfl

/-- The entities of an archetype that operations delete. -/
def deletes (arch : DbgTypeId) (ops : List (Operation V)) : List Nat :=
  ops.filterMap fun
    | .deleteEntity arch' entity => if arch' = arch then some entity else none
    | .createEntity _ _ _ _ => none

theorem deletes_append (arch : DbgTypeId) (ops ops' : List (Operation V)) :
    deletes arch (ops ++ ops') = deletes arch ops ++ deletes arch ops' :=
  List.filterMap_append ..

/-- What operations do to the isotope storages of an archetype, as far as an
entity is concerned, and to its allocator. -/
structure Unaided (types : Types V) (arch : DbgTypeId) (id : Nat) (ops : List (Operation V))
    (freed : List Nat) (a a' : Archetype (w arch) (T arch) V) : Prop where
  order : a'.typed.simpleStorages.order = a.typed.simpleStorages.order
  isotope : ∀ c map, a.typed.isotopeStorageMaps.lookup c = some map →
    ∃ map', a'.typed.isotopeStorageMaps.lookup c = some map' ∧
      IsotopeSpared (types.isotopeOf arch c) id (IsotopeMap.snapshotIds a.ealloc)
        (∃ op ∈ ops, op.Gives arch c) map map'
  unknown : ∀ c, a.typed.isotopeStorageMaps.lookup c = none →
    a'.typed.isotopeStorageMaps.lookup c = none
  ealloc : a'.ealloc = { a.ealloc with deallocQueue := a.ealloc.deallocQueue ++ freed }
  deletes : freed.Sublist (deletes arch ops)

/-- What operations on other entities leave of an entity. -/
structure Spared (types : Types V) (arch : DbgTypeId) (id : Nat) (ops : List (Operation V))
    (freed : List Nat) (a a' : Archetype (w arch) (T arch) V) : Prop
    extends Unaided types arch id ops freed a a' where
  simple : ∀ c, a'.typed.getSimple c id = a.typed.getSimple c id
  generation : generationOf a'.generations id = generationOf a.generations id
  rctrack : rctrackGet a'.rctrack id = rctrackGet a.rctrack id
  unfreed : id ∉ freed

section Entries

variable {ops ops' : List (Operation V)} {op : Operation V} {freed freed' : List Nat}
  {a a₁ a₂ : Archetype (w arch) (T arch) V}

theorem Unaided.snapshotIds (h : Unaided types arch id ops freed a a₁) :
    IsotopeMap.snapshotIds a₁.ealloc = IsotopeMap.snapshotIds a.ealloc := by
  rw [h.ealloc]
  rfl

theorem Unaided.trans (first : Unaided types arch id ops freed a a₁)
    (second : Unaided types arch id ops' freed' a₁ a₂) :
    Unaided types arch id (ops ++ ops') (freed ++ freed') a a₂ := by
  refine ⟨second.order.trans first.order, fun c map found => ?_,
    fun c missing => second.unknown c (first.unknown c missing), ?_, ?_⟩
  · obtain ⟨map₁, found₁, spared₁⟩ := first.isotope c map found
    obtain ⟨map₂, found₂, spared₂⟩ := second.isotope c map₁ found₁
    rw [first.snapshotIds] at spared₂
    refine ⟨map₂, found₂, (spared₁.trans spared₂).congr ?_⟩
    simp only [List.mem_append, or_and_right, exists_or]
  · rw [second.ealloc, first.ealloc]
    simp only [List.append_assoc]
  · rw [deletes_append]
    exact first.deletes.append second.deletes

theorem Spared.trans (first : Spared types arch id ops freed a a₁)
    (second : Spared types arch id ops' freed' a₁ a₂) :
    Spared types arch id (ops ++ ops') (freed ++ freed') a a₂ where
  toUnaided := first.toUnaided.trans second.toUnaided
  simple c := (second.simple c).trans (first.simple c)
  generation := second.generation.trans first.generation
  rctrack := second.rctrack.trans first.rctrack
  unfreed := by simp [first.unfreed, second.unfreed]

theorem unaided_refl (none : ∀ c, ∀ op ∈ ops, ¬ op.Gives arch c) :
    Unaided types arch id ops [] a a := by
  refine ⟨rfl, fun c map found => ⟨map, found, .refl ?_⟩, fun c missing => missing, ?_,
    List.nil_sublist _⟩
  · rintro ⟨op, member, given⟩
    exact none c op member given
  · simp only [List.append_nil]

theorem spared_refl (none : ∀ c, ∀ op ∈ ops, ¬ op.Gives arch c) :
    Spared types arch id ops [] a a :=
  ⟨unaided_refl none, fun _ => rfl, rfl, rfl, nofun⟩

/-- The initialization of another entity. -/
theorem Initialized.spared {entity rc : Nat} {compMap : CompMap V}
    (init : Initialized types entity rc compMap a a₁) (other : entity ≠ id) :
    Spared types arch id [.createEntity arch entity rc compMap] [] a a₁ := by
  have filled := Typed.initEntity_ok init.typed
  refine ⟨⟨filled.order, fun c map found => ?_, filled.unknown, ?_, List.nil_sublist _⟩,
    fun c => filled.frame c id other.symm, ?_, ?_, nofun⟩
  · obtain ⟨map₁, found₁, isotope⟩ := filled.isotope c map found
    refine ⟨map₁, found₁, (isotope.spared other).congr ?_⟩
    simp [Operation.Gives]
  · simp only [init.ealloc, List.append_nil]
  · rw [init.generations, generationOf_next, if_neg other.symm]
  · have tracks := init.rctrack
    unfold trackReference at tracks
    split at tracks
    · rw [rctrackGet_set tracks, if_neg other.symm]
    · rw [Except.ok.inj tracks]

/-- The request of another entity waits for its finalizers. -/
theorem Flagged.spared {entity : Nat} (flagged : Flagged types entity a a₁)
    (other : entity ≠ id) : Spared types arch id [.deleteEntity arch entity] [] a a₁ := by
  obtain ⟨order, isotopes, -, values⟩ := Typed.setSimple_ok flagged.typed
  refine ⟨⟨order, fun c map found => ⟨map, isotopes ▸ found, .refl (by simp [Operation.Gives])⟩,
    fun c missing => isotopes ▸ missing, ?_, List.nil_sublist _⟩, fun c => ?_, ?_, ?_, nofun⟩
  · simp only [flagged.ealloc, List.append_nil]
  · rw [values, if_neg fun both => other both.2.symm]
  · rw [flagged.generations]
  · rw [flagged.rctrack]

/-- A completed deletion. -/
theorem Deleted.unaided {references : List Nat} {entity : Nat}
    (deleted : Deleted types references entity a a₁) :
    Unaided types arch id [.deleteEntity arch entity] [entity] a a₁ := by
  obtain ⟨flagged, eq, set, -⟩ := deleted.typed
  obtain ⟨order, isotopes, -, -⟩ := Typed.setSimple_ok set
  refine ⟨?_, fun c map found => ⟨map, ?_, .refl (by simp [Operation.Gives])⟩,
    fun c missing => ?_, ?_, by simp [World.deletes]⟩
  · rw [eq, Typed.clearEntry_order, order]
  · rw [eq]
    exact isotopes ▸ found
  · rw [eq]
    exact isotopes ▸ missing
  · rw [deleted.ealloc]
    rfl

theorem Deleted.spared {references : List Nat} {entity : Nat}
    (deleted : Deleted types references entity a a₁) (other : entity ≠ id) :
    Spared types arch id [.deleteEntity arch entity] [entity] a a₁ := by
  refine ⟨deleted.unaided, fun c => ?_, ?_, ?_, by simp [other.symm]⟩
  · rw [deleted_getSimple (e := a.ealloc) deleted, if_neg other.symm]
  · rw [deleted.generations]
  · have untracks := deleted.rctrack
    unfold untrackReference at untracks
    split at untracks
    · obtain ⟨⟨rc, store⟩, removed, done⟩ := bind_eq_ok.mp untracks
      simp only at done
      split at done
      · cases done
        rw [rctrackGet_remove removed, if_neg other.symm]
      · cases done
    · rw [Except.ok.inj untracks]

end Entries

/-! ## Drains -/

/-- An operation is about the given entity. -/
def Operation.On (arch : DbgTypeId) (id : Nat) (op : Operation V) : Prop :=
  op.arch = arch ∧ op.entity = id

section Drains

variable {s t : World w T V} {op : Operation V} {ops : List (Operation V)}
  {queue queue' : List (Operation V)} {a : Archetype (w arch) (T arch) V}

/-- What does not change in a drain. -/
structure Drains (s t : World w T V) : Prop where
  references : t.references = s.references
  buffer : t.offlineBuffer = s.offlineBuffer
  shards : ∀ arch a', t.archetypes.lookup arch = some a' → ∃ a,
    s.archetypes.lookup arch = some a ∧ a'.ealloc.recyclerShards = a.ealloc.recyclerShards

theorem Drains.refl (s : World w T V) : Drains s s :=
  ⟨rfl, rfl, fun _ a found => ⟨a, found, rfl⟩⟩

theorem Drains.trans {u : World w T V} (first : Drains s t) (second : Drains t u) :
    Drains s u := by
  refine ⟨second.references.trans first.references, second.buffer.trans first.buffer,
    fun arch a₂ found₂ => ?_⟩
  obtain ⟨a₁, found₁, same₁⟩ := second.shards arch a₂ found₂
  obtain ⟨a, found, same⟩ := first.shards arch a₁ found₁
  exact ⟨a, found, same₁.trans same⟩

theorem Touches.drains
    {R : Archetype (w arch) (T arch) V → Archetype (w arch) (T arch) V → Prop}
    (touches : Touches s t arch R) (references : t.references = s.references)
    (buffer : t.offlineBuffer = s.offlineBuffer)
    (shards : ∀ a a', R a a' → a'.ealloc.recyclerShards = a.ealloc.recyclerShards) :
    Drains s t := by
  refine ⟨references, buffer, fun arch' a' after => ?_⟩
  by_cases here : arch' = arch
  · subst here
    obtain ⟨a, a'', before, after', change⟩ := touches.here
    cases after.symm.trans after'
    exact ⟨a, before, shards a a' change⟩
  · exact ⟨a', touches.others arch' here ▸ after, rfl⟩

theorem initEntity_drains {entity rc : Nat} {compMap : CompMap V}
    (h : s.initEntity types arch entity rc compMap = .ok t) : Drains s t := by
  obtain ⟨touches, buffer, references⟩ := initEntity_ok h
  exact touches.drains references buffer fun a a' init => by rw [init.ealloc]

theorem flagDeleteEntity_drains {entity : Nat} {result : DeleteResult}
    (h : s.flagDeleteEntity types arch entity = .ok (result, t)) : Drains s t := by
  obtain ⟨⟨-, touches⟩ | ⟨-, touches⟩, buffer, references⟩ := flagDeleteEntity_ok h
  · exact touches.drains references buffer fun a a' flagged => by rw [flagged.ealloc]
  · exact touches.drains references buffer fun a a' deleted => by
      rw [deleted.ealloc]
      rfl

/-- The drained operations, with what the model of each one did. -/
theorem drainOperation_ok (h : drainOperation types (s, queue) op = .ok (t, queue')) :
    match op with
    | .createEntity arch entity rc compMap =>
        s.initEntity types arch entity rc compMap = .ok t ∧ queue' = queue
    | .deleteEntity arch entity =>
        s.flagDeleteEntity types arch entity = .ok (.deleted, t) ∧ queue' = queue ∨
        s.flagDeleteEntity types arch entity = .ok (.terminating, t) ∧ queue' = queue ++ [op] := by
  obtain ⟨⟨result, world⟩, run, h⟩ := bind_eq_ok.mp h
  cases op with
  | createEntity arch entity rc compMap =>
    obtain ⟨world', init, run⟩ := bind_eq_ok.mp run
    cases run
    cases h
    exact ⟨init, rfl⟩
  | deleteEntity arch entity =>
    obtain ⟨⟨outcome, world'⟩, flag, run⟩ := bind_eq_ok.mp run
    cases outcome with
    | deleted =>
      cases run
      cases h
      exact .inl ⟨flag, rfl⟩
    | terminating =>
      cases run
      cases h
      exact .inr ⟨flag, rfl⟩

theorem drainOperation_drains (h : drainOperation types (s, queue) op = .ok (t, queue')) :
    Drains s t := by
  have ran := drainOperation_ok h
  cases op with
  | createEntity => exact initEntity_drains ran.1
  | deleteEntity =>
    rcases ran with ⟨ran, -⟩ | ⟨ran, -⟩
    · exact flagDeleteEntity_drains ran
    · exact flagDeleteEntity_drains ran

theorem touches_spared (op : Operation V)
    {R : Archetype (w op.arch) (T op.arch) V → Archetype (w op.arch) (T op.arch) V → Prop}
    (touches : Touches s t op.arch R)
    (here : ∀ a a', op.arch = arch → R a a' → ∃ freed, Spared types op.arch id [op] freed a a')
    (found : s.archetypes.lookup arch = some a) :
    ∃ a' freed, t.archetypes.lookup arch = some a' ∧ Spared types arch id [op] freed a a' := by
  by_cases same : op.arch = arch
  · subst same
    obtain ⟨a₀, a', before, after, change⟩ := touches.here
    cases found.symm.trans before
    obtain ⟨freed, spared⟩ := here a a' rfl change
    exact ⟨a', freed, after, spared⟩
  · refine ⟨a, [], (touches.others arch (Ne.symm same)).trans found, spared_refl ?_⟩
    rintro c op' member given
    cases List.mem_singleton.mp member
    cases op with
    | createEntity => exact same given.1
    | deleteEntity => exact given

/-- An operation on another entity. -/
theorem drainOperation_spared (h : drainOperation types (s, queue) op = .ok (t, queue'))
    (other : ¬ op.On arch id) (found : s.archetypes.lookup arch = some a) :
    ∃ a' freed, t.archetypes.lookup arch = some a' ∧ Spared types arch id [op] freed a a' := by
  have ran := drainOperation_ok h
  cases op with
  | createEntity arch' entity rc compMap =>
    refine touches_spared (.createEntity arch' entity rc compMap) (initEntity_ok ran.1).1
      (fun a a' same init => ⟨[], init.spared ?_⟩) found
    rintro rfl
    exact other ⟨same, rfl⟩
  | deleteEntity arch' entity =>
    have differ : arch' = arch → entity ≠ id := by
      rintro same rfl
      exact other ⟨same, rfl⟩
    rcases ran with ⟨ran, -⟩ | ⟨ran, -⟩
    · obtain ⟨⟨done, -⟩ | ⟨-, touches⟩, -, -⟩ := flagDeleteEntity_ok ran
      · cases done
      · exact touches_spared (.deleteEntity arch' entity) touches
          (fun a a' same deleted => ⟨[entity], deleted.spared (differ same)⟩) found
    · obtain ⟨⟨-, touches⟩ | ⟨done, -⟩, -, -⟩ := flagDeleteEntity_ok ran
      · exact touches_spared (.deleteEntity arch' entity) touches
          (fun a a' same flagged => ⟨[], flagged.spared (differ same)⟩) found
      · cases done

/-- Operations on other entities, one after the other. -/
theorem drain_spared (h : ops.foldlM (drainOperation types) (s, queue) = .ok (t, queue'))
    (others : ∀ op ∈ ops, ¬ op.On arch id) (found : s.archetypes.lookup arch = some a) :
    Drains s t ∧ ∃ a' freed, t.archetypes.lookup arch = some a' ∧
      Spared types arch id ops freed a a' := by
  refine foldlM_ok h (fun past r => Drains s r.1 ∧ ∃ a' freed,
    r.1.archetypes.lookup arch = some a' ∧ Spared types arch id past freed a a')
    ⟨.refl s, a, [], found, spared_refl nofun⟩ ?_
  rintro past op ⟨s₁, queue₁⟩ ⟨s₂, queue₂⟩ member ⟨drains, a₁, freed₁, found₁, spared₁⟩ run
  obtain ⟨a₂, freed₂, found₂, spared₂⟩ := drainOperation_spared run (others op member) found₁
  exact ⟨drains.trans (drainOperation_drains run), a₂, freed₁ ++ freed₂, found₂,
    spared₁.trans spared₂⟩

end Drains

end Dynec.World
