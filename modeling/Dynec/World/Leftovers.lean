import Dynec.World.Snapshots
import Dynec.World.Registered

/-!
# What a deletion leaves behind

A completed deletion clears the simple storages and no isotope storage. As long
as deleted entities have no isotope values, an ID that is not in use has no
values but those that initializers without dependencies would compute again, and
every component of a new entity is its own.
-/

namespace Dynec.World

open Entity Fallible
open Scheduler (Node)

variable {U V : Type} {w : DbgTypeId → Nat} {T Hint : DbgTypeId → Type}
  [∀ arch, Recycler (T arch) (Hint arch)] {types : Types V} {s t : Machine w T V}
  {label : Label Hint V} {arch : DbgTypeId}

/-! ## Storages -/

/-- No entity has used this ID: it has no values, apart from those of isotope
initializers without dependencies. -/
structure Typed.Unused (types : Types V) (arch : DbgTypeId) (typed : Typed V) (id : Nat) :
    Prop where
  simple : ∀ c, typed.getSimple c id = none
  isotope : ∀ c d v, typed.getIsotope c d id = some v →
    ∃ init, (types.isotopeOf arch c).initStrategy = .auto [] init ∧ v = init []

/-- Every component of an entity was given to it or computed for it. -/
structure Typed.Own (types : Types V) (arch : DbgTypeId) (id : Nat) (compMap : CompMap V)
    (typed : Typed V) : Prop where
  simple : ∀ c v, typed.getSimple c id = some v → compMap.removeSimple c = some v ∨
    ∃ deps init args, (types.simple arch c).initStrategy = .auto deps init ∧
      List.Forall₂ (fun dep arg => typed.getSimple dep id = some arg) deps args ∧ v = init args
  isotope : ∀ c d v, typed.getIsotope c d id = some v → (d, v) ∈ compMap.removeIsotope c ∨
    ∃ deps init args, (types.isotopeOf arch c).initStrategy = .auto deps init ∧
      List.Forall₂ (fun dep arg => typed.getSimple dep id = some arg) deps args ∧ v = init args

namespace Typed

variable {typed typed' : Typed V}

theorem getIsotope_eq {c : DbgTypeId} {map : IsotopeMap V}
    (found : typed.isotopeStorageMaps.lookup c = some map) (d : Discrim) (i : Nat) :
    typed.getIsotope c d i = (map.lookup d).bind (· i) := by
  rw [getIsotope, found]
  rfl

theorem getIsotope_some {c : DbgTypeId} {d : Discrim} {i : Nat} {v : V}
    (h : typed.getIsotope c d i = some v) : ∃ map storage,
    typed.isotopeStorageMaps.lookup c = some map ∧ map.lookup d = some storage ∧
      storage i = some v := by
  cases found : typed.isotopeStorageMaps.lookup c with
  | none => simp [getIsotope, found] at h
  | some map =>
    rw [getIsotope_eq found] at h
    obtain ⟨storage, opened, value⟩ := Option.bind_eq_some_iff.mp h
    exact ⟨map, storage, rfl, opened, value⟩

/-- A value in a storage that was opened is an old one, or the storage is new
and its initializer has no dependencies. -/
theorem opened_value {ty : IsotopeType V} {entities : Except Panic (List Nat)}
    {map : IsotopeMap V} {d : Discrim} {old : Storage V} {i : Nat} {v : V}
    (opened : IsotopeMap.Opened ty entities map d old) (value : old i = some v) :
    (map.lookup d).bind (· i) = some v ∨ ∃ init, ty.initStrategy = .auto [] init ∧ v = init [] := by
  rcases opened with found | ⟨-, created⟩
  · rw [found]
    exact .inl value
  · have new := IsotopeMap.newStorage_ok created
    cases strategy : ty.initStrategy with
    | none =>
      rw [strategy] at new
      rw [show old = .empty from new] at value
      cases value
    | auto deps init =>
      rw [strategy] at new
      obtain ⟨ids, -, free, values⟩ := new
      rw [values] at value
      split at value
      · rename_i listed
        rcases free with none | none
        · simp [none] at listed
        · subst none
          cases value
          exact .inr ⟨init, rfl, rfl⟩
      · cases value

/-- A value of an unused ID in an isotope storage after an initialization. Before
it was filled, the storage held nothing for the ID but what an initializer
without dependencies gives every entity. -/
theorem Unused.stored {w : Nat} {T : Type} {ealloc : Recycling w T} {entity id : Nat}
    {compMap : CompMap V} (unused : typed.Unused types arch id)
    (filled : InitFilled types arch entity compMap ealloc typed typed') {c : DbgTypeId}
    {d : Discrim} {v : V} (value : typed'.getIsotope c d id = some v) :
    ∃ old storage : Storage V, storage id = some v ∧ (∀ i, i ≠ entity → storage i = old i) ∧
      IsotopeSource (types.isotopeOf arch c) entity (compMap.removeIsotope c)
        typed'.simpleStorages d (old entity) (storage entity) ∧
      ∀ v, old id = some v →
        ∃ init, (types.isotopeOf arch c).initStrategy = .auto [] init ∧ v = init [] := by
  obtain ⟨map', storage, found', opened', value⟩ := getIsotope_some value
  cases found : typed.isotopeStorageMaps.lookup c with
  | none =>
    rw [filled.unknown c found] at found'
    cases found'
  | some map =>
    obtain ⟨map'', found'', fill⟩ := filled.isotope c map found
    rw [found'] at found''
    cases found''
    obtain ⟨old, opened, frame, source⟩ := fill.present d storage opened'
    refine ⟨old, storage, value, frame, source, fun v before => ?_⟩
    rcases opened_value opened before with before | auto
    · exact unused.isotope c d v ((getIsotope_eq found d id).trans before)
    · exact auto

theorem Unused.init {w : Nat} {T : Type} {ealloc : Recycling w T} {entity id : Nat}
    {compMap : CompMap V} (unused : typed.Unused types arch id)
    (filled : InitFilled types arch entity compMap ealloc typed typed') (other : id ≠ entity) :
    typed'.Unused types arch id := by
  constructor
  · intro c
    exact (filled.frame c id other).trans (unused.simple c)
  · intro c d v value
    obtain ⟨old, storage, here, frame, -, kept⟩ := unused.stored filled value
    exact kept v ((frame id other).symm.trans here)

/-- A new entity on an unused ID has its own components only. -/
theorem Unused.own {w : Nat} {T : Type} {ealloc : Recycling w T} {id : Nat}
    {compMap : CompMap V} (unused : typed.Unused types arch id)
    (filled : InitFilled types arch id compMap ealloc typed typed') :
    typed'.Own types arch id compMap := by
  constructor
  · intro c v value
    have source := filled.simple c (filled.order ▸ getSimple_known value)
    unfold SimpleSource at source
    split at source
    · rename_i given
      change typed'.getSimple c id = _ at source
      rw [value] at source
      cases source
      exact .inl given
    · split at source
      · rename_i deps init strategy
        obtain ⟨args, values, here⟩ := source
        change typed'.getSimple c id = _ at here
        rw [value] at here
        cases here
        exact .inr ⟨deps, init, args, strategy, values, rfl⟩
      · change typed'.getSimple c id = typed.getSimple c id at source
        rw [value, unused.simple c] at source
        cases source
  · intro c d v value
    obtain ⟨old, storage, value, -, source, kept⟩ := unused.stored filled value
    rcases source with ⟨given, listed, here⟩ | ⟨-, source⟩
    · rw [value] at here
      cases here
      exact .inl listed
    · split at source
      · rename_i strategy
        rw [value] at source
        obtain ⟨init, auto, -⟩ := kept v source.symm
        rw [strategy] at auto
        cases auto
      · rename_i deps init strategy
        rcases source with ⟨v', had, has⟩ | ⟨-, args, values, here⟩
        · rw [value] at has
          cases has
          obtain ⟨init', auto, rfl⟩ := kept v had
          exact .inr ⟨[], init', [], auto, .nil, rfl⟩
        · rw [value] at here
          cases here
          exact .inr ⟨deps, init, args, strategy, values, rfl⟩

theorem Unused.setSimple {missing : Panic} {comp : DbgTypeId} {entity id : Nat}
    {value : Option V} (unused : typed.Unused types arch id)
    (set : typed.setSimple missing comp entity value = .ok typed')
    (other : id ≠ entity ∨ value = none) : typed'.Unused types arch id := by
  obtain ⟨-, isotopes, -, values⟩ := setSimple_ok set
  refine ⟨fun c => ?_, fun c d v h => unused.isotope c d v (getIsotope_congr isotopes c d id ▸ h)⟩
  rw [values]
  split
  · rename_i here
    exact other.resolve_left fun differ => differ here.2
  · exact unused.simple c

theorem getIsotope_insert (typed : Typed V) (comp : DbgTypeId) (map : IsotopeMap V)
    (c : DbgTypeId) (d : Discrim) (i : Nat) :
    getIsotope { typed with isotopeStorageMaps := typed.isotopeStorageMaps.insert comp map } c d i =
      if c = comp then (map.lookup d).bind (· i) else typed.getIsotope c d i := by
  simp only [getIsotope, HashMap.lookup_insert_ite, Option.bind_eq_bind]
  split <;> rfl

theorem Unused.openIsotope {comp : DbgTypeId} {discrim : Discrim} {id : Nat}
    {entities : Except Panic (List Nat)} {map map' : IsotopeMap V} {storage : Storage V}
    (unused : typed.Unused types arch id) (found : typed.isotopeStorageMaps.lookup comp = some map)
    (created : map.getOrCreate (types.isotopeOf arch comp) discrim entities = .ok (storage, map')) :
    Unused types arch
      { typed with isotopeStorageMaps := typed.isotopeStorageMaps.insert comp map' } id := by
  obtain ⟨opened, lookups⟩ := IsotopeMap.getOrCreate_ok created
  refine ⟨unused.simple, fun c d v value => ?_⟩
  rw [getIsotope_insert, lookups] at value
  split at value
  · rename_i same
    subst same
    split at value
    · rename_i same
      subst same
      rcases opened_value opened value with before | auto
      · exact unused.isotope c d v ((getIsotope_eq found d id).trans before)
      · exact auto
    · exact unused.isotope c d v ((getIsotope_eq found d id).trans value)
  · exact unused.isotope c d v value

theorem Unused.setIsotope {comp : DbgTypeId} {discrim : Discrim} {entity id : Nat}
    {value : Option V} {map : IsotopeMap V} {storage : Storage V}
    (unused : typed.Unused types arch id) (found : typed.isotopeStorageMaps.lookup comp = some map)
    (opened : map.lookup discrim = some storage) (other : id ≠ entity ∨ value = none) :
    Unused types arch { typed with
      isotopeStorageMaps := typed.isotopeStorageMaps.insert comp
        (map.insert discrim (storage.set entity value)) } id := by
  refine ⟨unused.simple, fun c d v here => ?_⟩
  rw [getIsotope_insert, HashMap.lookup_insert_ite] at here
  split at here
  · rename_i same
    subst same
    have before := getIsotope_eq found d id
    split at here
    · rename_i same
      subst same
      rw [opened] at before
      change (storage.set entity value) id = some v at here
      rw [Storage.set_apply] at here
      split at here
      · rename_i same
        rw [other.resolve_left fun differ => differ same] at here
        cases here
      · exact unused.isotope c d v (before.trans here)
    · exact unused.isotope c d v (before.trans here)
  · exact unused.isotope c d v here

theorem Unused.clear {entity id : Nat} (unused : typed.Unused types arch id) :
    (typed.clearEntry entity).Unused types arch id := by
  refine ⟨fun c => ?_, unused.isotope⟩
  rw [clearEntry_getSimple]
  split
  · rfl
  · exact unused.simple c

end Typed

/-! ## Runs -/

/-- The IDs without an initialized entity are unused. -/
def SpareUnused (types : Types V) (s : Machine w T V) : Prop :=
  ∀ arch a, s.world.archetypes.lookup arch = some a →
    ∀ id, id ∉ (s.roll arch).ready → a.typed.Unused types arch id

/-- A step that frees initialized entities without isotope values only, and
writes components of initialized entities only. -/
structure Tidy (t : Machine.Transition w T Hint V) : Prop where
  ready : ∀ arch id, Frees t.before t.after arch id → id ∈ (t.before.roll arch).ready
  isotope : ∀ arch id, Frees t.before t.after arch id →
    ∀ c d, t.before.world.getIsotope arch c d id = none
  writes : match t.label with
    | .setSimple arch _ id (some _) => id ∈ (t.before.roll arch).ready
    | .setIsotope arch _ _ id (some _) => id ∈ (t.before.roll arch).ready
    | _ => True

/-- A transition that initializes an entity. -/
def Inits (t : Machine.Transition w T Hint V) (arch : DbgTypeId) (id : Nat)
    (compMap : CompMap V) : Prop :=
  (t.after.roll arch).ready = id :: (t.before.roll arch).ready ∧
  ((∃ shardId hint, t.label = .create arch shardId hint compMap) ∨
    t.label = .drain ∧ ∃ rc todo newQueue,
      t.before.phase = .draining (.createEntity arch id rc compMap :: todo) newQueue)

/-- A completed deletion clears everything but the isotope storages. -/
theorem deleted_getSimple {references : List Nat} {id : Nat} {e : Recycling (w arch) (T arch)}
    {a a' : Archetype (w arch) (T arch) V}
    (h : Deleted types references id { a with ealloc := e } a') (c : DbgTypeId) (i : Nat) :
    a'.typed.getSimple c i = if i = id then none else a.typed.getSimple c i := by
  obtain ⟨flagged, eq, set, -⟩ := h.typed
  obtain ⟨-, -, -, values⟩ := Typed.setSimple_ok set
  rw [eq, Typed.clearEntry_getSimple]
  split
  · rfl
  · rename_i other
    rw [values, if_neg fun both => other both.2]

theorem deleted_getIsotope {references : List Nat} {id : Nat} {e : Recycling (w arch) (T arch)}
    {a a' : Archetype (w arch) (T arch) V}
    (h : Deleted types references id { a with ealloc := e } a') (c : DbgTypeId) (d : Discrim)
    (i : Nat) : a'.typed.getIsotope c d i = a.typed.getIsotope c d i := by
  obtain ⟨flagged, eq, set, -⟩ := h.typed
  obtain ⟨-, isotopes, -, -⟩ := Typed.setSimple_ok set
  rw [eq, Typed.clearEntry_getIsotope]
  exact Typed.getIsotope_congr isotopes c d i

theorem getIsotope_lookup {world : World w T V} {a : Archetype (w arch) (T arch) V}
    (found : world.archetypes.lookup arch = some a) (c : DbgTypeId) (d : Discrim) (i : Nat) :
    world.getIsotope arch c d i = a.typed.getIsotope c d i := by
  rw [getIsotope, found]
  rfl

theorem getSimple_lookup {world : World w T V} {a : Archetype (w arch) (T arch) V}
    (found : world.archetypes.lookup arch = some a) (c : DbgTypeId) (i : Nat) :
    world.getSimple arch c i = a.typed.getSimple c i := by
  rw [getSimple, found]
  rfl

omit [∀ arch, Recycler (T arch) (Hint arch)] in
/-- An ID that is freed has no isotope component left. -/
theorem Tidy.getIsotope_freed {a : Archetype (w arch) (T arch) V} {id : Nat}
    (tidy : Tidy ⟨s, label, t⟩) (found : s.world.archetypes.lookup arch = some a)
    (frees : Frees s t arch id) (c : DbgTypeId) (d : Discrim) : a.typed.getIsotope c d id = none := by
  rw [← getIsotope_lookup found]
  exact tidy.isotope arch id frees c d

theorem spare_delete {a a' : Archetype (w arch) (T arch) V} {references : List Nat} {id : Nat}
    {e : Recycling (w arch) (T arch)} (h : Deleted types references id { a with ealloc := e } a')
    (isotope : ∀ c d, a.typed.getIsotope c d id = none) {r : Roll}
    (spare : ∀ i, i ∉ r.ready → a.typed.Unused types arch i) :
    ∀ i, i ∉ (r.free id).ready → a'.typed.Unused types arch i := by
  intro i unready
  by_cases same : i = id
  · subst same
    constructor
    · intro c
      rw [deleted_getSimple h, if_pos rfl]
    · intro c d v value
      rw [deleted_getIsotope h, isotope] at value
      cases value
  · have before := spare i fun ready => unready ((List.mem_erase_of_ne same).mpr ready)
    refine ⟨fun c => ?_, fun c d v value => before.isotope c d v ?_⟩
    · rw [deleted_getSimple h, if_neg same]
      exact before.simple c
    · rw [← deleted_getIsotope h]
      exact value

theorem spare_init {id rc : Nat} {compMap : CompMap V} {a a' : Archetype (w arch) (T arch) V}
    {e : Recycling (w arch) (T arch)}
    (h : Initialized types id rc compMap { a with ealloc := e } a') {r : Roll}
    (spare : ∀ i, i ∉ r.ready → a.typed.Unused types arch i) :
    ∀ i, i ∉ (r.init id).ready → a'.typed.Unused types arch i := by
  intro i unready
  simp only [Roll.init, List.mem_cons, not_or] at unready
  exact (spare i unready.2).init (Typed.initEntity_ok h.typed) unready.1

/-- The deletion flag of an ID without an initialized entity is never left set:
such an ID has no finalizers. -/
theorem spare_flag {a a' : Archetype (w arch) (T arch) V} {id : Nat}
    {e : Recycling (w arch) (T arch)} (h : Flagged types id { a with ealloc := e } a') {r : Roll}
    (spare : ∀ i, i ∉ r.ready → a.typed.Unused types arch i) :
    ∀ i, i ∉ r.ready → a'.typed.Unused types arch i := by
  intro i unready
  by_cases same : i = id
  · subst same
    have final := h.final
    rw [Typed.hasFinalizer_flag h.typed, Typed.hasFinalizer_iff] at final
    obtain ⟨c, -, present⟩ := final
    have none := (spare i unready).simple c
    change (a.typed.getSimple c i).isSome = true at present
    rw [none] at present
    cases present
  · exact (spare i unready).setSimple h.typed (.inl same)

theorem SpareUnused.touches {changed : DbgTypeId} {world : World w T V} {phase : Phase V}
    {roll : DbgTypeId → Roll}
    {R : Archetype (w changed) (T changed) V → Archetype (w changed) (T changed) V → Prop}
    (spare : SpareUnused types s) (touches : Touches s.world world changed R)
    (others : ∀ arch, arch ≠ changed → roll arch = s.roll arch)
    (here : ∀ a a', s.world.archetypes.lookup changed = some a → R a a' →
      (∀ i, i ∉ (s.roll changed).ready → a.typed.Unused types changed i) →
      ∀ i, i ∉ (roll changed).ready → a'.typed.Unused types changed i) :
    SpareUnused types ⟨world, phase, roll⟩ := by
  refine touches.keeps (P := fun arch a => s.world.archetypes.lookup arch = some a ∧
    ∀ id, id ∉ (s.roll arch).ready → a.typed.Unused types arch id)
    (fun arch a found => ⟨found, spare arch a found⟩)
    (fun a a' before change => here a a' before.1 change before.2)
    fun arch a other before id unready => before.2 id fun ready => unready ?_
  change id ∈ (roll arch).ready
  rw [others arch other]
  exact ready

/-- The flushes leave the component storages alone. -/
theorem SpareUnused.flush {world world' : World w T V} {phase : Phase V}
    {f : ∀ arch, Recycling (w arch) (T arch) → Except Panic (Recycling (w arch) (T arch))}
    (spare : SpareUnused types s) (run : world'.forEalloc f = .ok world)
    (same : world'.archetypes = s.world.archetypes) :
    SpareUnused types ⟨world, phase, s.roll⟩ := by
  intro arch a' after id unready
  obtain ⟨known, unknown⟩ := (forEalloc_ok run).1 arch
  cases before : world'.archetypes.lookup arch with
  | none =>
    rw [unknown before] at after
    cases after
  | some a =>
    obtain ⟨a'', after', change⟩ := known a before
    rw [after] at after'
    cases after'
    rw [change.typed]
    exact spare arch a (same ▸ before) id unready

theorem spare_step (step : s.Step types label t) (tidy : Tidy ⟨s, label, t⟩)
    (spare : SpareUnused types s) : SpareUnused types t := by
  cases step with
  | create changed shardId hint compMap host run =>
    refine spare.touches (createWithHint_ok run).1 (fun arch other => enroll_other other _) ?_
    rintro a a' - ⟨e, -, init⟩ before
    rw [enroll_same]
    exact spare_init init before
  | delete changed id host run =>
    obtain ⟨-, touches⟩ := delete_deleted run
    refine spare.touches touches (fun arch other => enroll_other other _) ?_
    intro a a' found deleted before
    rw [enroll_same]
    exact spare_delete deleted (tidy.getIsotope_freed found frees_enroll) before
  | deleteTerminating changed id host run =>
    obtain ⟨-, touches⟩ := delete_terminating run
    exact spare.touches touches (fun _ _ => rfl) fun a a' _ flagged => spare_flag flagged
  | setSimple changed comp id value _ _ run =>
    refine spare.touches (setSimple_ok run).1 (fun _ _ => rfl)
      fun a a' _ set before i unready => (before i unready).setSimple set.typed ?_
    cases value with
    | none => exact .inr rfl
    | some v =>
      left
      rintro rfl
      exact unready tidy.writes
  | openIsotope changed comp discrim _ _ run =>
    refine spare.touches (openIsotope_ok run).1 (fun _ _ => rfl)
      fun a a' _ change before i unready => ?_
    obtain ⟨map, storage, map', found, created, eq⟩ := change.typed
    rw [eq]
    exact (before i unready).openIsotope found created
  | setIsotope changed comp discrim id value _ run =>
    refine spare.touches (setIsotope_ok run).1 (fun _ _ => rfl)
      fun a a' _ change before i unready => ?_
    obtain ⟨map, storage, found, opened, eq⟩ := change.typed
    rw [eq]
    refine (before i unready).setIsotope found opened ?_
    cases value with
    | none => exact .inr rfl
    | some v =>
      left
      rintro rfl
      exact unready tidy.writes
  | getIsotope changed comp discrim id value _ _ run =>
    refine spare.touches (setIsotope_ok run).1 (fun _ _ => rfl)
      fun a a' _ change before i unready => ?_
    obtain ⟨map, storage, found, opened, eq⟩ := change.typed
    rw [eq]
    refine (before i unready).setIsotope found opened (.inl ?_)
    rintro rfl
    exact unready tidy.writes
  | cloneReference | dropReference => exact spare
  | execute assign host flushed shards shuffled => exact spare.flush flushed rfl
  | createOnline worker changed hint compMap online _ run =>
    refine spare.touches (createEntityWithHintAndShard_ok run).1
      (fun arch other => enroll_other other _) fun a a' _ change before i unready => ?_
    rw [enroll_same] at unready
    rw [change.typed]
    exact before i unready
  | deleteOnline worker changed id online run =>
    obtain ⟨items, -, rfl⟩ := pushOperation_ok run
    exact spare
  | join => exact spare
  | drainCreate draining run =>
    refine spare.touches (initEntity_ok run).1 (fun arch other => enroll_other other _) ?_
    intro a a' _ init before
    rw [enroll_same]
    exact spare_init init before
  | @drainDelete changed id todo newQueue world draining run =>
    have touches := flagDeleteEntity_deleted run
    refine spare.touches touches (fun arch other => enroll_other other _) ?_
    intro a a' found deleted before
    rw [enroll_same]
    exact spare_delete deleted (tidy.getIsotope_freed found frees_enroll) before
  | drainRerun draining run =>
    have touches := flagDeleteEntity_terminating run
    exact spare.touches touches (fun _ _ => rfl) fun a a' _ flagged => spare_flag flagged
  | flush drained run => exact spare.flush run rfl

/-- An entity is initialized on an ID without an initialized entity, so it has
its own components only. -/
theorem inits_own (step : s.Step types label t) (books : Books s) (spare : SpareUnused types s)
    {id : Nat} {compMap : CompMap V} (inits : Inits ⟨s, label, t⟩ arch id compMap)
    {a' : Archetype (w arch) (T arch) V} (after : t.world.archetypes.lookup arch = some a') :
    a'.typed.Own types arch id compMap := by
  obtain ⟨grows, ⟨shardId, hint, rfl⟩ | ⟨rfl, rc, todo, newQueue, phase⟩⟩ := inits
  · cases step with
    | @create _ _ _ _ new world host run =>
      have same : new = id := by
        simp only [enroll_same, Roll.init, Roll.create, List.cons.injEq, and_true] at grows
        exact grows
      subst same
      obtain ⟨a, a'', before, after', e, allocated, init⟩ := (createWithHint_ok run).1.here
      cases after.symm.trans after'
      have fresh := (Ledger.inv_allocated (books.ledger arch _ (ealloc_of_lookup before))
        (allocated ▸ allocate_allocated a.ealloc shardId hint)).1
      have unused := spare arch a before new fun ready => fresh (books.live_of_ready ready)
      exact unused.own (Typed.initEntity_ok init.typed)
  · cases step with
    | drainCreate draining run =>
      cases phase.symm.trans draining
      obtain ⟨a, a'', before, after', init⟩ := (initEntity_ok run).1.here
      cases after.symm.trans after'
      have unready : id ∉ (s.roll arch).ready := by
        intro ready
        have counts := books.accounted arch id
        have bound := books.count_live_le arch id
        have pos := List.count_pos_iff.mpr ready
        rw [Machine.pending, phase] at counts
        simp only [List.cons_append] at counts
        rw [count_creates_cons, count_creates_create, if_pos ⟨rfl, rfl⟩] at counts
        omega
      exact (spare arch a before id unready).own (Typed.initEntity_ok init.typed)
    | drainDelete draining => cases phase.symm.trans draining
    | drainRerun draining => cases phase.symm.trans draining

theorem spare_start {b : Builder U V} (registered : b.AllRegistered types) :
    SpareUnused types (.start b : Machine w T V) := by
  intro arch a found id _
  change (b.build : World w T V).archetypes.lookup arch = some a at found
  rw [build_lookup] at found
  obtain ⟨typed, known, rfl⟩ := Option.map_eq_some_iff.mp found
  have blank := (registered arch typed known).blank
  refine ⟨fun c => blank.simple c id, fun c d v value => ?_⟩
  obtain ⟨map, storage, found, opened, -⟩ := Typed.getIsotope_some value
  rw [blank.isotope c map found] at opened
  cases opened

theorem tidy_run (width : ∀ arch, 0 < w arch) {b : Builder U V} (registered : b.AllRegistered types)
    {trace : List (Machine.Transition w T Hint V)} (run : Machine.Run types (.start b) trace s)
    (tidy : ∀ t ∈ trace, Tidy t) : Books s ∧ SpareUnused types s ∧
      ∀ t ∈ trace, ∀ arch id compMap, Inits t arch id compMap →
        ∀ a, t.after.world.archetypes.lookup arch = some a →
          a.typed.Own types arch id compMap := by
  induction run with
  | start => exact ⟨books_start width b, spare_start registered, by simp⟩
  | next past step ih =>
    obtain ⟨here, tidy⟩ := List.forall_mem_cons.mp tidy
    obtain ⟨books, spare, own⟩ := ih tidy
    refine ⟨books_step step (buffered_run past) here.ready books, spare_step step here spare,
      List.forall_mem_cons.mpr ⟨fun arch id compMap inits a after => ?_, own⟩⟩
    exact inits_own step books spare inits after

/-- The values of an entity after its deletion completed. -/
theorem frees_values (step : s.Step types label t) {id : Nat} (frees : Frees s t arch id) :
    ((∀ c, t.world.getSimple arch c id = none) ∧ ∀ c d, t.world.getIsotope arch c d id = none) ↔
      ∀ c d, s.world.getIsotope arch c d id = none := by
  obtain ⟨a, a', e, before, after, deleted⟩ := frees_deleted step frees
  constructor
  · intro gone c d
    rw [getIsotope_lookup before, ← deleted_getIsotope deleted, ← getIsotope_lookup after]
    exact gone.2 c d
  · intro none
    constructor
    · intro c
      rw [getSimple_lookup after, deleted_getSimple deleted, if_pos rfl]
    · intro c d
      rw [getIsotope_lookup after, deleted_getIsotope deleted, ← getIsotope_lookup before]
      exact none c d

/-- **What a deletion leaves behind.** In every run, no storage holds a value for
an entity after its deletion completed, if and only if no isotope storage held
one before. In every run whose completed deletions are all of that kind, and of
initialized entities, and whose writes are to initialized entities, every
component of an entity after its initialization was given to it or computed for
it. -/
theorem deletion_leftovers [DecidableEq U] (width : ∀ arch, 0 < w arch) {b : Builder U V}
    {systems : List (Node × System U)} (scheduled : Scheduled types b systems)
    {trace : List (Machine.Transition w T Hint V)} (run : Machine.Run types (.start b) trace s) :
    (∀ t ∈ trace, ∀ arch id, (t.after.roll arch).freed = id :: (t.before.roll arch).freed →
      (((∀ c, t.after.world.getSimple arch c id = none) ∧
        ∀ c d, t.after.world.getIsotope arch c d id = none) ↔
        ∀ c d, t.before.world.getIsotope arch c d id = none)) ∧
    ((∀ t ∈ trace, Tidy t) → ∀ t ∈ trace, ∀ arch id compMap, Inits t arch id compMap →
      ∀ a, t.after.world.archetypes.lookup arch = some a →
        a.typed.Own types arch id compMap) := by
  refine ⟨?_, fun tidy => (tidy_run width (scheduled_registered scheduled) run tidy).2.2⟩
  induction run with
  | start => simp
  | next _ step ih =>
    exact List.forall_mem_cons.mpr ⟨fun arch id frees => frees_values step frees, ih⟩

/-- An entity with a simple component and no isotope leaves nothing behind, and
the next entity with its ID has no components. -/
theorem deletion_leftovers_simple : ∃ (trace : PlainTrace) (s : PlainMachine),
    Machine.Run plainTypes (.start creation) trace s ∧
    (∃ t ∈ trace, Frees t.before t.after ⟨0⟩ 1 ∧
      t.before.world.getSimple ⟨0⟩ ⟨1⟩ 1 = some 5 ∧
      (∀ c, t.after.world.getSimple ⟨0⟩ c 1 = none) ∧
      ∀ c d, t.after.world.getIsotope ⟨0⟩ c d 1 = none) ∧
    (∃ t ∈ trace, t.after = s ∧ Inits t ⟨0⟩ 1 noComponents) ∧
    ∃ a, s.world.archetypes.lookup ⟨0⟩ = some a ∧ a.typed.Own plainTypes ⟨0⟩ 1 noComponents := by
  have scheduled : Scheduled plainTypes creation
      [(.sendSystem 0, reader), (.sendSystem 1, creator)] :=
    .schedule creator rfl (.schedule reader rfl (.new 2))
  obtain ⟨trace, s, a, run, ⟨t, member, frees, value, none⟩, created, found, tidy⟩ :
      ∃ (trace : PlainTrace) (s : PlainMachine) (a : Archetype 16 (List Nat) Nat),
      Machine.Run plainTypes (.start creation) trace s ∧
      (∃ t ∈ trace, Frees t.before t.after ⟨0⟩ 1 ∧
        t.before.world.getSimple ⟨0⟩ ⟨1⟩ 1 = some 5 ∧
        ∀ c d, t.before.world.getIsotope ⟨0⟩ c d 1 = none) ∧
      (∃ t ∈ trace, t.after = s ∧ Inits t ⟨0⟩ 1 noComponents) ∧
      s.world.archetypes.lookup ⟨0⟩ = some a ∧ ∀ t ∈ trace, Tidy t := by
    refine ⟨_, _, _, .next (.next (.next (.next (.next (.next (.next .start
      (.create ⟨0⟩ 0 () ⟨AList.singleton ⟨1⟩ 5, ∅⟩ rfl rfl)) (.dropReference 0 trivial))
      (.delete ⟨0⟩ 1 rfl rfl)) (.execute inOrder rfl rfl rfl (by decide))) (.join rfl))
      (.flush rfl rfl)) (.create ⟨0⟩ 2 () noComponents rfl rfl), ?_, ?_, rfl, ?_⟩
    · exact ⟨_, .tail _ (.tail _ (.tail _ (.tail _ (.head _)))), rfl, rfl, fun _ _ => rfl⟩
    · exact ⟨_, .head _, rfl, rfl, .inl ⟨2, (), rfl⟩⟩
    · simp only [List.forall_mem_cons]
      refine ⟨?_, ?_, ?_, ?_, ?_, ?_, ?_, nofun⟩
      case refine_5 =>
        constructor
        · intro arch id frees
          obtain ⟨rfl, rfl⟩ := enroll_free rfl frees
          exact .head _
        · intro arch id frees
          obtain ⟨rfl, rfl⟩ := enroll_free rfl frees
          exact fun _ _ => rfl
        · trivial
      case refine_1 | refine_7 =>
        constructor
        · exact fun _ _ frees => absurd frees (not_frees (enroll_freed fun _ => rfl))
        · exact fun _ _ frees => absurd frees (not_frees (enroll_freed fun _ => rfl))
        · trivial
      all_goals
        constructor
        · exact fun _ _ frees => absurd frees (not_frees rfl)
        · exact fun _ _ frees => absurd frees (not_frees rfl)
        · trivial
  obtain ⟨deleted, own⟩ := deletion_leftovers (fun _ => by decide) scheduled run
  obtain ⟨init, listed, rfl, inits⟩ := created
  obtain ⟨simple, isotope⟩ := (deleted t member ⟨0⟩ 1 frees).mpr none
  exact ⟨trace, _, run, ⟨t, member, frees, value, simple, isotope⟩, ⟨init, listed, rfl, inits⟩,
    a, found, own tidy init listed ⟨0⟩ 1 noComponents inits a found⟩

/-- A system that writes an isotope component. -/
def tagger : System Nat :=
  ⟨⟨"tagger", [], [], [], [⟨⟨0⟩, ⟨2⟩, none, true, []⟩], []⟩, [], []⟩

def tagging : Builder Nat Nat :=
  ((Builder.new plainTypes 0).schedule plainTypes tagger).toOption.get rfl

def tagged : CompMap Nat := ⟨∅, AList.singleton ⟨2⟩ [(0, 7)]⟩

/-- An isotope value outlives its entity and shows up on the next one with the
same ID. -/
theorem deletion_leftovers_isotope : ∃ (trace : PlainTrace) (s : PlainMachine),
    Machine.Run plainTypes (.start tagging) trace s ∧
    (∃ t ∈ trace, Frees t.before t.after ⟨0⟩ 1 ∧
      t.after.world.getIsotope ⟨0⟩ ⟨2⟩ 0 1 = some 7) ∧
    (∃ t ∈ trace, t.after = s ∧ Inits t ⟨0⟩ 1 noComponents) ∧
    s.world.getIsotope ⟨0⟩ ⟨2⟩ 0 1 = some 7 ∧
    ∀ a, s.world.archetypes.lookup ⟨0⟩ = some a → ¬ a.typed.Own plainTypes ⟨0⟩ 1 noComponents := by
  refine ⟨_, _, .next (.next (.next (.next (.next (.next (.next .start
    (.create ⟨0⟩ 0 () tagged rfl rfl)) (.dropReference 0 trivial)) (.delete ⟨0⟩ 1 rfl rfl))
    (.execute (fun _ => [0]) rfl rfl rfl (by decide))) (.join rfl)) (.flush rfl rfl))
    (.create ⟨0⟩ 0 () noComponents rfl rfl), ?_, ?_, rfl, ?_⟩
  · exact ⟨_, .tail _ (.tail _ (.tail _ (.tail _ (.head _)))), rfl, rfl⟩
  · exact ⟨_, .head _, rfl, rfl, .inl ⟨0, (), rfl⟩⟩
  · intro a found own
    obtain rfl := Option.some.inj (found.symm.trans rfl)
    rcases own.isotope ⟨2⟩ 0 7 rfl with given | ⟨_, _, _, auto, -⟩
    · cases given
    · cases auto

end Dynec.World
