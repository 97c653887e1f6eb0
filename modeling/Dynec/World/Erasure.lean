import Dynec.World.Deletion

/-!
# A world without an entity

Operations on other entities do not see whether an entity was deleted already:
from a world and from the same world without the entity, they both return or
both fail, and the results differ in that entity again.
-/

namespace Dynec.World

open Entity Fallible

variable {V : Type} {w : DbgTypeId → Nat} {T Hint : DbgTypeId → Type} {types : Types V}
  {arch : DbgTypeId} {id : Nat}

/-! ## Storages -/

/-- The simple storages `st'` are `st` without the values of an entity. -/
structure SimplesErased (id : Nat) (st st' : IndexMap DbgTypeId (Simple V)) : Prop where
  order : st'.order = st.order
  get : ∀ c, st'.get c =
    (st.get c).map fun simple => { simple with storage := simple.storage.set id none }

structure TypedErased (id : Nat) (typed typed' : Typed V) : Prop where
  simple : SimplesErased id typed.simpleStorages typed'.simpleStorages
  isotope : typed'.isotopeStorageMaps = typed.isotopeStorageMaps

section Storages

variable {st st' : IndexMap DbgTypeId (Simple V)} {typed typed' : Typed V} {entity : Nat}
  {compMap : CompMap V}

theorem SimplesErased.valueIn (erased : SimplesErased id st st') (c : DbgTypeId) (i : Nat) :
    Typed.valueIn st' c i = if i = id then none else Typed.valueIn st c i := by
  simp only [Typed.valueIn, erased.get, Option.bind_eq_bind]
  cases st.get c with
  | none => simp
  | some simple => simp

theorem SimplesErased.insert (erased : SimplesErased id st st') {comp : DbgTypeId}
    {deps : List DbgTypeId} {storage storage' : Storage V}
    (same : storage' = storage.set id none) :
    SimplesErased id (st.insert comp ⟨deps, storage⟩) (st'.insert comp ⟨deps, storage'⟩) := by
  constructor
  · simp only [IndexMap.insert, erased.order]
  · intro c
    rw [IndexMap.get_insert, IndexMap.get_insert, same]
    split
    · rfl
    · exact erased.get c

theorem SimplesErased.get_dep (erased : SimplesErased id st st') (index : Option Nat)
    (ty : DbgTypeId) : Lockstep (fun storage storage' => storage' = storage.set id none)
      (DepGetter.get ⟨st, index, entity⟩ ty) (DepGetter.get ⟨st', index, entity⟩ ty) := by
  have place : st'.indexOf ty = st.indexOf ty := by
    rw [IndexMap.indexOf, IndexMap.indexOf, erased.order]
  have found : Lockstep (fun dep dep' : Simple V => dep'.storage = dep.storage.set id none)
      (expect .toposort (st.get ty)) (expect .toposort (st'.get ty)) := by
    rw [erased.get]
    cases st.get ty with
    | none => exact .error _ _
    | some dep => exact .ok rfl
  apply found.bind
  intro dep dep' _ same
  cases index with
  | none => exact .ok same
  | some index =>
    change Lockstep _ (if st.indexOf ty < index then _ else _)
      (if st'.indexOf ty < index then _ else _)
    rw [place]
    by_cases earlier : st.indexOf ty < index
    · rw [if_pos earlier, if_pos earlier]
      exact .ok same
    · rw [if_neg earlier, if_neg earlier]
      exact .error _ _

/-- Initializers of other entities get the same arguments. -/
theorem SimplesErased.args (erased : SimplesErased id st st') (other : entity ≠ id)
    (index : Option Nat) (comp : DbgTypeId) (locked deps : List DbgTypeId) :
    Lockstep Eq (DepGetter.args ⟨st, index, entity⟩ arch comp locked deps)
      (DepGetter.args ⟨st', index, entity⟩ arch comp locked deps) := by
  induction deps generalizing locked with
  | nil => exact .ok rfl
  | cons dep deps ih =>
    unfold DepGetter.args
    apply (erased.get_dep index dep).bind
    intro storage storage' _ same
    subst same
    by_cases held : dep ∈ locked
    · rw [if_pos held, if_pos held]
      exact .error _ _
    · rw [if_neg held, if_neg held]
      simp only [Storage.set_apply, if_neg other]
      refine (Lockstep.refl (fun _ => rfl) _).bind fun value value' _ same => ?_
      subst same
      apply (ih (dep :: locked)).bind
      intro values values' _ same
      subst same
      exact .ok rfl

theorem set_comm {storage : Storage V} (other : entity ≠ id) (value : Option V) :
    (storage.set id none).set entity value = (storage.set entity value).set id none :=
  Function.update_comm other.symm ..

/-- Components are initialized alike with and without the entity. -/
structure InitErased (types : Types V) (arch : DbgTypeId) (id entity : Nat) (compMap : CompMap V)
    (order : List DbgTypeId) (maps : HashMap DbgTypeId (IsotopeMap V)) : Prop where
  simple : ∀ {st st' : IndexMap DbgTypeId (Simple V)} (storage : Storage V) (index : Option Nat),
    ∀ comp ∈ order, SimplesErased id st st' →
    Lockstep (fun storage storage' => storage' = storage.set id none)
      (storage.fillInitSimple types arch comp entity compMap ⟨st, index, entity⟩)
      ((storage.set id none).fillInitSimple types arch comp entity compMap ⟨st', index, entity⟩)
  isotope : ∀ {st st' : IndexMap DbgTypeId (Simple V)} {w : Nat} {T : Type}
    {ealloc ealloc' : Recycling w T} (comp : DbgTypeId) (map : IsotopeMap V),
    SimplesErased id st st' → ealloc'.snapshot = ealloc.snapshot →
    maps.lookup comp = some map → Lockstep Eq
      (map.fillInitIsotope types arch comp entity compMap ⟨st, none, entity⟩ ealloc)
      (map.fillInitIsotope types arch comp entity compMap ⟨st', none, entity⟩ ealloc')

theorem fillGiven_congr {w : Nat} {T : Type} {ealloc ealloc' : Recycling w T}
    (same : ealloc'.snapshot = ealloc.snapshot) (ty : IsotopeType V) (entity : Nat) :
    IsotopeMap.fillGiven ty entity ealloc' = IsotopeMap.fillGiven ty entity ealloc := by
  funext map given
  rw [IsotopeMap.fillGiven, IsotopeMap.fillGiven, same]

theorem initErased_other (other : entity ≠ id) (compMap : CompMap V) (order : List DbgTypeId)
    (maps : HashMap DbgTypeId (IsotopeMap V)) :
    InitErased types arch id entity compMap order maps := by
  constructor
  · intro st st' storage index comp _ erased
    unfold Storage.fillInitSimple
    cases compMap.removeSimple comp with
    | some value => exact .ok (set_comm other _)
    | none =>
      cases (types.simple arch comp).initStrategy with
      | auto deps init =>
        apply (erased.args other index comp [] deps).bind
        intro args args' _ same
        subst same
        exact .ok (set_comm other _)
      | none =>
        cases (types.simple arch comp).presence with
        | required => exact .error _ _
        | optional => exact .ok rfl
  · intro st st' w T ealloc ealloc' comp map erased same _
    simp only [IsotopeMap.fillInitIsotope, fillGiven_congr same]
    refine (Lockstep.refl (fun _ => rfl) _).bind fun given given' _ same => ?_
    subst same
    cases (types.isotopeOf arch comp).initStrategy with
    | none => exact .refl (fun _ => rfl) _
    | auto deps init =>
      apply HashMap.updateM_lockstep
      intro d storage _
      by_cases missing : (storage entity).isNone = true
      · simp only [missing, if_true]
        apply (erased.args other none comp [] deps).bind
        intro args args' _ same
        subst same
        exact .ok rfl
      · simp only [missing]
        exact .ok rfl

theorem fillMissing_empty {comp : DbgTypeId} {deps : List DbgTypeId} {init : List V → V}
    {g : DepGetter V} {map : IsotopeMap V} (none : ∀ d, map.lookup d = none) :
    map.fillMissing arch comp deps init entity g = .ok map := by
  have empty : map.entries = [] := by
    apply List.eq_nil_iff_forall_not_mem.mpr
    rintro ⟨d, storage⟩ member
    rw [HashMap.mem_entries_iff, none] at member
    cases member
  rw [IsotopeMap.fillMissing, HashMap.updateM, empty]
  rfl

/-- An entity without components is initialized alike after its deletion. -/
theorem initErased_bare {order : List DbgTypeId} {maps : HashMap DbgTypeId (IsotopeMap V)}
    (simple : ∀ c ∈ order, compMap.removeSimple c = none ∧
      (types.simple arch c).initStrategy = .none)
    (isotope : ∀ c map, maps.lookup c = some map → compMap.removeIsotope c = [] ∧
      ((types.isotopeOf arch c).initStrategy = .none ∨ ∀ d, map.lookup d = none)) :
    InitErased types arch id id compMap order maps := by
  constructor
  · intro st st' storage index comp listed erased
    obtain ⟨ungiven, plain⟩ := simple comp listed
    simp only [Storage.fillInitSimple, ungiven, plain]
    cases (types.simple arch comp).presence with
    | required => exact .error _ _
    | optional => exact .ok rfl
  · intro st st' w T ealloc ealloc' comp map erased same found
    obtain ⟨ungiven, plain | empty⟩ := isotope comp map found
    · simp only [IsotopeMap.fillInitIsotope, ungiven, plain, List.foldlM_nil]
      exact .refl (fun _ => rfl) _
    · simp only [IsotopeMap.fillInitIsotope, ungiven, List.foldlM_nil, pure_eq_ok, ok_bind]
      cases (types.isotopeOf arch comp).initStrategy with
      | none => exact .refl (fun _ => rfl) _
      | auto deps init =>
        simp only [fillMissing_empty empty]
        exact .ok rfl

/-- One round of the loop over the simple storages. -/
theorem initSimple_erased {order : List DbgTypeId} {maps : HashMap DbgTypeId (IsotopeMap V)}
    (h : InitErased types arch id entity compMap order maps) (erased : SimplesErased id st st')
    {comp : DbgTypeId} (listed : comp ∈ order) : Lockstep (SimplesErased id)
      (Typed.initSimple types arch entity compMap st comp)
      (Typed.initSimple types arch entity compMap st' comp) := by
  have place : st'.indexOf comp = st.indexOf comp := by
    rw [IndexMap.indexOf, IndexMap.indexOf, erased.order]
  unfold Typed.initSimple
  rw [erased.get, place]
  cases found : st.get comp with
  | none => exact .error _ _
  | some simple =>
    apply (h.simple simple.storage _ comp listed erased).bind
    intro storage storage' _ same
    exact .ok (erased.insert same)

theorem initEntity_erased {w : Nat} {T : Type} {ealloc ealloc' : Recycling w T}
    (h : InitErased types arch id entity compMap typed.simpleStorages.order
      typed.isotopeStorageMaps)
    (erased : TypedErased id typed typed') (same : ealloc'.snapshot = ealloc.snapshot) :
    Lockstep (TypedErased id) (typed.initEntity types arch entity compMap ealloc)
      (typed'.initEntity types arch entity compMap ealloc') := by
  unfold Typed.initEntity
  rw [erased.simple.order, erased.isotope]
  have simples : Lockstep (SimplesErased id)
      (typed.simpleStorages.order.foldlM (Typed.initSimple types arch entity compMap)
        typed.simpleStorages)
      (typed.simpleStorages.order.foldlM (Typed.initSimple types arch entity compMap)
        typed'.simpleStorages) :=
    Lockstep.foldlM erased.simple fun comp listed st st' erased =>
      initSimple_erased h erased listed
  apply simples.bind
  intro st st' _ simple
  refine (HashMap.updateM_lockstep fun comp map found =>
    h.isotope comp map simple same found).bind fun maps maps' _ same => ?_
  subst same
  exact .ok ⟨simple, rfl⟩

theorem setSimple_erased (erased : TypedErased id typed typed') (other : entity ≠ id)
    (missing : Panic) (comp : DbgTypeId) (value : Option V) : Lockstep (TypedErased id)
      (typed.setSimple missing comp entity value) (typed'.setSimple missing comp entity value) := by
  unfold Typed.setSimple
  rw [erased.simple.get]
  cases typed.simpleStorages.get comp with
  | none => exact .error _ _
  | some simple => exact .ok ⟨erased.simple.insert (set_comm other value), erased.isotope⟩

theorem TypedErased.hasFinalizer (erased : TypedErased id typed typed') (other : entity ≠ id) :
    typed'.hasFinalizer types arch entity = typed.hasFinalizer types arch entity := by
  simp only [Typed.hasFinalizer, Typed.getSimple, erased.simple.order, erased.simple.valueIn,
    if_neg other]

theorem TypedErased.clear (erased : TypedErased id typed typed') (other : entity ≠ id) :
    TypedErased id (typed.clearEntry entity) (typed'.clearEntry entity) := by
  refine ⟨⟨erased.simple.order, fun c => ?_⟩, erased.isotope⟩
  simp only [Typed.clearEntry, IndexMap.get_mapValues, erased.simple.get, Option.map_map]
  congr 1
  funext simple
  simp only [Function.comp, set_comm other]

/-- Deletion clears the entry of the entity. -/
theorem typedErased_delete {missing : Panic} {value : Option V}
    (set : typed.setSimple missing types.flag id value = .ok typed') :
    TypedErased id typed (typed'.clearEntry id) := by
  have order := (Typed.setSimple_ok set).1
  obtain ⟨simple, found, set⟩ := bind_eq_ok.mp set
  rw [expect_eq_ok] at found
  cases set
  refine ⟨⟨order, fun c => ?_⟩, rfl⟩
  simp only [Typed.clearEntry, IndexMap.get_mapValues, IndexMap.get_insert]
  split
  · rename_i same
    rw [same, found]
    simp [Storage.set]
  · rfl

end Storages

/-! ## Entries -/

/-- The entry `a'` of an archetype is `a` after the deletion of an entity. -/
structure EntryErased (types : Types V) (id : Nat) (a a' : Archetype (w arch) (T arch) V) :
    Prop where
  typed : TypedErased id a.typed a'.typed
  generations : a'.generations = a.generations
  rctrack : types.entityRc = true → ∀ i,
    rctrackGet a'.rctrack i = if i = id then none else rctrackGet a.rctrack i
  ealloc : ∃ queue, a'.ealloc = { a.ealloc with deallocQueue := queue } ∧
    queue.Perm (id :: a.ealloc.deallocQueue)

theorem rctrackSet_iff {store : Option (List (Option Nat))} {id : Nat} (rc : Nat) :
    (∃ store', rctrackSet store id rc = .ok store') ↔ rctrackGet store id = none := by
  have slot := getElem?_resized (store.getD []) id none id
  rw [if_pos (Nat.le_refl id)] at slot
  simp only [rctrackSet, rctrackGet, slot]
  by_cases inside : id < (store.getD []).length
  · rw [if_pos inside, List.getElem?_eq_getElem inside]
    cases (store.getD [])[id] with
    | none => simp
    | some rc' => simp
  · rw [if_neg inside, List.getElem?_eq_none (Nat.le_of_not_lt inside)]
    simp

section References

variable {store store' : Option (List (Option Nat))} {entity : Nat}

theorem trackReference_erased (erased : types.entityRc = true → ∀ i,
      rctrackGet store' i = if i = id then none else rctrackGet store i)
    (other : types.entityRc = true → entity ≠ id) (rc : Nat) :
    Lockstep (fun store store' => types.entityRc = true → ∀ i,
        rctrackGet store' i = if i = id then none else rctrackGet store i)
      (trackReference types store entity rc) (trackReference types store' entity rc) := by
  unfold trackReference
  by_cases counted : types.entityRc = true
  · rw [if_pos counted, if_pos counted]
    have same := erased counted entity
    rw [if_neg (other counted)] at same
    cases free : rctrackGet store entity with
    | none =>
      obtain ⟨new, run⟩ := (rctrackSet_iff rc).mpr free
      obtain ⟨new', run'⟩ := (rctrackSet_iff rc).mpr (same.trans free)
      rw [run, run']
      refine .ok fun _ i => ?_
      rw [rctrackGet_set run, rctrackGet_set run', erased counted i]
      by_cases here : i = entity
      · simp [here, other counted]
      · simp [here]
    | some old =>
      cases run : rctrackSet store entity rc with
      | ok new =>
        have none := (rctrackSet_iff rc).mp ⟨new, run⟩
        rw [free] at none
        cases none
      | error e =>
        cases run' : rctrackSet store' entity rc with
        | ok new =>
          have none := (rctrackSet_iff rc).mp ⟨new, run'⟩
          rw [same, free] at none
          cases none
        | error e' => exact .error e e'
  · rw [if_neg counted, if_neg counted]
    exact .ok fun on => absurd on counted

theorem rctrackRemove_erased (same : ∀ i,
      rctrackGet store' i = if i = id then none else rctrackGet store i)
    (other : entity ≠ id) : Lockstep (fun r r' => r'.1 = r.1 ∧ ∀ i,
        rctrackGet r'.2 i = if i = id then none else rctrackGet r.2 i)
      (rctrackRemove store entity) (rctrackRemove store' entity) := by
  have here := same entity
  rw [if_neg other] at here
  cases run : rctrackRemove store entity with
  | ok r =>
    obtain ⟨rc, new⟩ := r
    obtain ⟨new', run'⟩ := rctrackRemove_total (here.trans (rctrackRemove_found run))
    rw [run']
    refine .ok ⟨rfl, fun i => ?_⟩
    rw [rctrackGet_remove run, rctrackGet_remove run', same i]
    by_cases at_entity : i = entity
    · simp [at_entity]
    · simp [at_entity]
  | error e =>
    cases run' : rctrackRemove store' entity with
    | ok r =>
      obtain ⟨rc, new'⟩ := r
      obtain ⟨new, returned⟩ := rctrackRemove_total (here.symm.trans (rctrackRemove_found run'))
      rw [run] at returned
      cases returned
    | error e' => exact .error e e'

theorem untrackReference_erased (erased : types.entityRc = true → ∀ i,
      rctrackGet store' i = if i = id then none else rctrackGet store i)
    (other : entity ≠ id) (references : List Nat) :
    Lockstep (fun store store' => types.entityRc = true → ∀ i,
        rctrackGet store' i = if i = id then none else rctrackGet store i)
      (untrackReference types references store arch entity)
      (untrackReference types references store' arch entity) := by
  unfold untrackReference
  by_cases counted : types.entityRc = true
  · rw [if_pos counted, if_pos counted]
    apply (rctrackRemove_erased (erased counted) other).bind
    rintro r r' _ ⟨same, related⟩
    obtain ⟨rc, new⟩ := r
    obtain ⟨rc', new'⟩ := r'
    cases same
    simp only
    by_cases dropped : references[rc]?.getD 0 = 0
    · rw [if_pos dropped, if_pos dropped]
      exact .ok fun _ => related
    · rw [if_neg dropped, if_neg dropped]
      exact .error _ _
  · rw [if_neg counted, if_neg counted]
    exact .ok fun on => absurd on counted

end References

/-! ## Operations -/

/-- An operation on the entry of its archetype. -/
def Operation.run (types : Types V) (references : List Nat) : (op : Operation V) →
    Archetype (w op.arch) (T op.arch) V →
    Except Panic (OperationResult × Archetype (w op.arch) (T op.arch) V)
  | .createEntity arch entity rc compMap, a => do
    let rctrack ← trackReference types a.rctrack entity rc
    let typed ← a.typed.initEntity types arch entity compMap a.ealloc
    return (.ok, { a with generations := nextGeneration a.generations entity, rctrack, typed })
  | .deleteEntity arch entity, a => do
    let typed ← a.typed.setSimple .missingFlag types.flag entity (some types.flagValue)
    if typed.hasFinalizer types arch entity then
      return (.queueForRerun, { a with typed })
    else
      let rctrack ← untrackReference types references a.rctrack arch entity
      return (.ok, { a with
        typed := typed.clearEntry entity, rctrack, ealloc := a.ealloc.queueDeallocate entity })

/-- Operations change the entry of their archetype. -/
theorem runOperation_eq (s : World w T V) (op : Operation V) :
    s.runOperation types op = do
      let a ← s.archetype op.arch
      let (result, a') ← op.run types s.references a
      return (result, s.setArchetype op.arch a') := by
  cases op with
  | createEntity arch entity rc compMap =>
    simp only [runOperation, initEntity, Operation.run, Operation.arch, bind_assoc, pure_bind]
  | deleteEntity arch entity =>
    simp only [runOperation, flagDeleteEntity, tryRealDeleteEntity, Operation.run, Operation.arch,
      bind_assoc]
    refine bind_congr fun a => bind_congr fun typed => ?_
    have here : World.archetype (s.setArchetype arch { a with typed }) arch =
        .ok { a with typed } := archetype_ok.mpr (AList.lookup_insert _)
    rw [here, ok_bind]
    by_cases final : typed.hasFinalizer types arch entity = true
    · simp only [final, if_true, pure_bind]
    · simp only [final, Bool.false_eq_true, if_false, bind_assoc, pure_bind,
        setArchetype_setArchetype]
      rfl

variable {op : Operation V}

/-- An operation on another entity does not see the one that is missing. -/
theorem run_erased {a a' : Archetype (w op.arch) (T op.arch) V}
    (erased : EntryErased types id a a') (references : List Nat)
    (blind : match op with
      | .createEntity arch entity _ compMap => (types.entityRc = true → entity ≠ id) ∧
          InitErased types arch id entity compMap a.typed.simpleStorages.order
            a.typed.isotopeStorageMaps
      | .deleteEntity _ entity => entity ≠ id) :
    Lockstep (fun r r' => r'.1 = r.1 ∧ EntryErased types id r.2 r'.2)
      (op.run types references a) (op.run types references a') := by
  obtain ⟨queue, ealloc, perm⟩ := erased.ealloc
  have snapshot : a'.ealloc.snapshot = a.ealloc.snapshot := by
    rw [ealloc]
    rfl
  cases op with
  | createEntity arch entity rc compMap =>
    obtain ⟨other, init⟩ := blind
    apply (trackReference_erased erased.rctrack other rc).bind
    intro store store' _ tracked
    apply (initEntity_erased init erased.typed snapshot).bind
    intro typed typed' _ related
    refine .ok ⟨rfl, related, ?_, tracked, queue, ealloc, perm⟩
    simp only [erased.generations]
  | deleteEntity arch entity =>
    apply (setSimple_erased erased.typed blind _ _ _).bind
    intro typed typed' _ related
    have final : typed'.hasFinalizer types arch entity = typed.hasFinalizer types arch entity :=
      related.hasFinalizer blind
    rw [final]
    by_cases present : typed.hasFinalizer types arch entity = true
    · rw [if_pos present, if_pos present]
      exact .ok ⟨rfl, related, erased.generations, erased.rctrack, queue, ealloc, perm⟩
    · rw [if_neg present, if_neg present]
      refine (untrackReference_erased erased.rctrack blind references).bind
        fun store store' _ tracked => ?_
      refine .ok ⟨rfl, related.clear blind, erased.generations, tracked,
        queue ++ [entity], ?_, ?_⟩
      · simp only [ealloc, Recycling.queueDeallocate]
      · exact perm.append_right [entity]

/-- The world `t` is `s` after the deletion of an entity. -/
structure Erased (types : Types V) (arch : DbgTypeId) (id : Nat) (s t : World w T V) : Prop where
  entry : Touches s t arch (EntryErased types id)
  references : t.references = s.references
  buffer : t.offlineBuffer = s.offlineBuffer

variable {s t : World w T V}

theorem Erased.setArchetype (erased : Erased types arch id s t)
    {a a' : Archetype (w arch) (T arch) V} (entry : EntryErased types id a a') :
    Erased types arch id (s.setArchetype arch a) (t.setArchetype arch a') := by
  refine ⟨⟨⟨a, a', AList.lookup_insert _, AList.lookup_insert _, entry⟩, fun arch' other => ?_⟩,
    erased.references, erased.buffer⟩
  simp only [World.setArchetype, AList.lookup_insert_ne other]
  exact erased.entry.others arch' other

theorem Erased.setOther (erased : Erased types arch id s t) {changed : DbgTypeId}
    (other : changed ≠ arch) (a : Archetype (w changed) (T changed) V) :
    Erased types arch id (s.setArchetype changed a) (t.setArchetype changed a) := by
  obtain ⟨⟨⟨b, b', before, after, entry⟩, others⟩, references, buffer⟩ := erased
  refine ⟨⟨⟨b, b', ?_, ?_, entry⟩, fun arch' differ => ?_⟩, references, buffer⟩
  · rw [World.setArchetype, AList.lookup_insert_ne other.symm]
    exact before
  · rw [World.setArchetype, AList.lookup_insert_ne other.symm]
    exact after
  · simp only [World.setArchetype]
    by_cases here : arch' = changed
    · subst here
      rw [AList.lookup_insert, AList.lookup_insert]
    · rw [AList.lookup_insert_ne here, AList.lookup_insert_ne here]
      exact others arch' differ

/-- An operation does not depend on the values of an entity: it is about another
one, or it initializes this one without components. -/
def Operation.Blind (types : Types V) (arch : DbgTypeId) (id : Nat) (s : World w T V) :
    Operation V → Prop
  | .createEntity arch' entity _ compMap => arch' = arch →
      (types.entityRc = true → entity ≠ id) ∧ ∀ a, s.archetypes.lookup arch = some a →
        InitErased types arch id entity compMap a.typed.simpleStorages.order
          a.typed.isotopeStorageMaps
  | .deleteEntity arch' entity => arch' = arch → entity ≠ id

theorem runOperation_erased (erased : Erased types arch id s t) (blind : op.Blind types arch id s) :
    Lockstep (fun r r' => r'.1 = r.1 ∧ Erased types arch id r.2 r'.2)
      (s.runOperation types op) (t.runOperation types op) := by
  rw [runOperation_eq, runOperation_eq, erased.references]
  by_cases here : op.arch = arch
  · subst here
    obtain ⟨a, a', before, after, entry⟩ := erased.entry.here
    rw [archetype_ok.mpr before, archetype_ok.mpr after, ok_bind, ok_bind]
    refine (run_erased entry s.references ?_).bind fun r r' _ ⟨same, related⟩ => ?_
    · cases op with
      | createEntity arch entity rc compMap => exact ⟨(blind rfl).1, (blind rfl).2 a before⟩
      | deleteEntity arch entity => exact blind rfl
    · exact .ok ⟨same, erased.setArchetype related⟩
  · have same : t.archetype op.arch = s.archetype op.arch := by
      rw [archetype, archetype, erased.entry.others op.arch here]
    rw [same]
    refine (Lockstep.refl (fun _ => rfl) _).bind fun a a' _ same => ?_
    subst same
    refine (Lockstep.refl (fun _ => rfl) _).bind fun r r' _ same => ?_
    subst same
    exact .ok ⟨rfl, erased.setOther here r.2⟩

theorem drainOperation_erased (erased : Erased types arch id s t) (queue : List (Operation V))
    (blind : op.Blind types arch id s) :
    Lockstep (fun r r' => r'.2 = r.2 ∧ Erased types arch id r.1 r'.1)
      (drainOperation types (s, queue) op) (drainOperation types (t, queue) op) := by
  apply (runOperation_erased erased blind).bind
  rintro r r' _ ⟨same, related⟩
  obtain ⟨result, world⟩ := r
  obtain ⟨result', world'⟩ := r'
  cases same
  cases result with
  | ok => exact .ok ⟨rfl, related⟩
  | queueForRerun => exact .ok ⟨rfl, related⟩

/-- The deletion of an entity. -/
theorem flagDeleteEntity_erased (h : s.flagDeleteEntity types arch id = .ok (.deleted, t)) :
    Erased types arch id s t := by
  obtain ⟨⟨done, -⟩ | ⟨-, touches⟩, buffer, references⟩ := flagDeleteEntity_ok h
  · cases done
  · refine ⟨touches.mono fun a a' deleted => ?_, references, buffer⟩
    obtain ⟨flagged, eq, set, -⟩ := deleted.typed
    refine ⟨eq ▸ typedErased_delete set, deleted.generations, fun counted i => ?_,
      a.ealloc.deallocQueue ++ [id], deleted.ealloc, List.perm_append_singleton ..⟩
    have untracks := deleted.rctrack
    rw [untrackReference, if_pos counted] at untracks
    obtain ⟨⟨rc, store⟩, removed, done⟩ := bind_eq_ok.mp untracks
    simp only at done
    split at done
    · cases done
      exact rctrackGet_remove removed i
    · cases done

end Dynec.World
