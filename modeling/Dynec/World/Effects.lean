import Dynec.World.Machine

/-! What the operations of a world change: all but the flushes change the entry
of one archetype. -/

namespace Dynec.World

open Fallible
open Entity (Recycling Recycler Snapshot)

variable {V : Type} {w : DbgTypeId → Nat} {T Hint : DbgTypeId → Type} {types : Types V}
  {s world : World w T V} {arch : DbgTypeId}

theorem archetype_ok {a : Archetype (w arch) (T arch) V} :
    s.archetype arch = .ok a ↔ s.archetypes.lookup arch = some a := expect_eq_ok

/-- The entry of one archetype changes as `R` tells, and those of the others
stay. -/
structure Touches (s world : World w T V) (arch : DbgTypeId)
    (R : Archetype (w arch) (T arch) V → Archetype (w arch) (T arch) V → Prop) : Prop where
  here : ∃ a a', s.archetypes.lookup arch = some a ∧
    world.archetypes.lookup arch = some a' ∧ R a a'
  others : ∀ arch' ≠ arch, world.archetypes.lookup arch' = s.archetypes.lookup arch'

/-- An invariant of all archetypes is kept by the change of one of them. -/
theorem Touches.keeps {R : Archetype (w arch) (T arch) V → Archetype (w arch) (T arch) V → Prop}
    (h : Touches s world arch R) {P Q : ∀ arch, Archetype (w arch) (T arch) V → Prop}
    (before : ∀ arch a, s.archetypes.lookup arch = some a → P arch a)
    (here : ∀ a a', P arch a → R a a' → Q arch a')
    (others : ∀ arch' a, arch' ≠ arch → P arch' a → Q arch' a) :
    ∀ arch' a, world.archetypes.lookup arch' = some a → Q arch' a := by
  intro arch' a found
  by_cases same : arch' = arch
  · subst same
    obtain ⟨old, new, hold, hnew, change⟩ := h.here
    rw [hnew] at found
    cases found
    exact here old a (before _ old hold) change
  · rw [h.others arch' same] at found
    exact others arch' a same (before arch' a found)

theorem touches_setArchetype {a a' : Archetype (w arch) (T arch) V}
    (found : s.archetypes.lookup arch = some a)
    {R : Archetype (w arch) (T arch) V → Archetype (w arch) (T arch) V → Prop} (change : R a a') :
    Touches s (s.setArchetype arch a') arch R :=
  ⟨⟨a, a', found, AList.lookup_insert _, change⟩, fun _ other => AList.lookup_insert_ne other⟩

theorem Touches.mono {R S : Archetype (w arch) (T arch) V → Archetype (w arch) (T arch) V → Prop}
    (h : Touches s world arch R) (sub : ∀ a a', R a a' → S a a') : Touches s world arch S := by
  obtain ⟨⟨a, a', before, after, change⟩, others⟩ := h
  exact ⟨⟨a, a', before, after, sub a a' change⟩, others⟩

/-- The allocator of an archetype. -/
def ealloc (s : World w T V) (arch : DbgTypeId) : Option (Recycling (w arch) (T arch)) :=
  (s.archetypes.lookup arch).map (·.ealloc)

theorem ealloc_of_lookup {a : Archetype (w arch) (T arch) V}
    (found : s.archetypes.lookup arch = some a) : s.ealloc arch = some a.ealloc := by
  rw [ealloc, found]
  rfl

theorem Touches.ealloc_others
    {R : Archetype (w arch) (T arch) V → Archetype (w arch) (T arch) V → Prop}
    (h : Touches s world arch R) {arch' : DbgTypeId} (other : arch' ≠ arch) :
    world.ealloc arch' = s.ealloc arch' := by
  rw [ealloc, ealloc, h.others arch' other]

theorem Touches.ealloc_here
    {R : Archetype (w arch) (T arch) V → Archetype (w arch) (T arch) V → Prop}
    (h : Touches s world arch R)
    {Q : Recycling (w arch) (T arch) → Recycling (w arch) (T arch) → Prop}
    (sub : ∀ a a', R a a' → Q a.ealloc a'.ealloc) :
    ∃ e e', s.ealloc arch = some e ∧ world.ealloc arch = some e' ∧ Q e e' := by
  obtain ⟨a, a', before, after, change⟩ := h.here
  exact ⟨a.ealloc, a'.ealloc, ealloc_of_lookup before, ealloc_of_lookup after, sub a a' change⟩

theorem Touches.ealloc_same
    {R : Archetype (w arch) (T arch) V → Archetype (w arch) (T arch) V → Prop}
    (h : Touches s world arch R) (sub : ∀ a a', R a a' → a'.ealloc = a.ealloc)
    (arch' : DbgTypeId) : world.ealloc arch' = s.ealloc arch' := by
  by_cases same : arch' = arch
  · subst same
    obtain ⟨e, e', before, after, rfl⟩ := h.ealloc_here (Q := fun e e' => e' = e) sub
    rw [before, after]
  · exact h.ealloc_others same

/-! ## Initialization and deletion -/

/-- The entry of an archetype after `init_entity`. -/
structure Initialized (types : Types V) (id rc : Nat) (compMap : CompMap V)
    (a a' : Archetype (w arch) (T arch) V) : Prop where
  ealloc : a'.ealloc = a.ealloc
  typed : a.typed.initEntity types arch id compMap a.ealloc = .ok a'.typed
  generations : a'.generations = nextGeneration a.generations id
  rctrack : trackReference types a.rctrack id rc = .ok a'.rctrack

theorem initEntity_ok {id rc : Nat} {compMap : CompMap V}
    (h : s.initEntity types arch id rc compMap = .ok world) :
    Touches s world arch (Initialized types id rc compMap) ∧
      world.offlineBuffer = s.offlineBuffer ∧ world.references = s.references := by
  obtain ⟨a, found, h⟩ := bind_eq_ok.mp h
  obtain ⟨rctrack, tracked, h⟩ := bind_eq_ok.mp h
  obtain ⟨typed, init, h⟩ := bind_eq_ok.mp h
  cases h
  exact ⟨touches_setArchetype (archetype_ok.mp found) ⟨rfl, init, rfl, tracked⟩, rfl, rfl⟩

/-- The entry of an archetype after a deletion that waits for finalizers. -/
structure Flagged (types : Types V) (id : Nat) (a a' : Archetype (w arch) (T arch) V) : Prop where
  ealloc : a'.ealloc = a.ealloc
  generations : a'.generations = a.generations
  rctrack : a'.rctrack = a.rctrack
  typed : a.typed.setSimple .missingFlag types.flag id (some types.flagValue) = .ok a'.typed
  final : a'.typed.hasFinalizer types arch id = true

/-- The entry of an archetype after a completed deletion. -/
structure Deleted (types : Types V) (references : List Nat) (id : Nat)
    (a a' : Archetype (w arch) (T arch) V) : Prop where
  ealloc : a'.ealloc = a.ealloc.queueDeallocate id
  generations : a'.generations = a.generations
  rctrack : untrackReference types references a.rctrack arch id = .ok a'.rctrack
  typed : ∃ flagged, a'.typed = flagged.clearEntry id ∧
    a.typed.setSimple .missingFlag types.flag id (some types.flagValue) = .ok flagged ∧
    flagged.hasFinalizer types arch id = false

theorem setArchetype_setArchetype (s : World w T V) (a a' : Archetype (w arch) (T arch) V) :
    (s.setArchetype arch a).setArchetype arch a' = s.setArchetype arch a' := by
  simp only [setArchetype, AList.insert_insert]

theorem flagDeleteEntity_ok {id : Nat} {result : DeleteResult}
    (h : s.flagDeleteEntity types arch id = .ok (result, world)) :
    (result = .terminating ∧ Touches s world arch (Flagged types id) ∨
      result = .deleted ∧ Touches s world arch (Deleted types s.references id)) ∧
      world.offlineBuffer = s.offlineBuffer ∧ world.references = s.references := by
  obtain ⟨a, found, h⟩ := bind_eq_ok.mp h
  obtain ⟨flagged, flag, h⟩ := bind_eq_ok.mp h
  rw [archetype_ok] at found
  obtain ⟨a', found', h⟩ := bind_eq_ok.mp h
  rw [archetype_ok, setArchetype, AList.lookup_insert] at found'
  cases found'
  split at h
  · rename_i final
    cases h
    exact ⟨.inl ⟨rfl, touches_setArchetype found
      ⟨rfl, rfl, rfl, flag, final⟩⟩, rfl, rfl⟩
  · rename_i final
    obtain ⟨rctrack, untracked, h⟩ := bind_eq_ok.mp h
    simp only [setArchetype_setArchetype, pure_eq_ok] at h
    cases h
    exact ⟨.inr ⟨rfl, touches_setArchetype found
      ⟨rfl, rfl, untracked, flagged, rfl, flag, by simpa using final⟩⟩, rfl, rfl⟩

theorem flagDeleteEntity_deleted {id : Nat}
    (h : s.flagDeleteEntity types arch id = .ok (.deleted, world)) :
    Touches s world arch (Deleted types s.references id) := by
  obtain ⟨⟨done, -⟩ | ⟨-, touches⟩, -, -⟩ := flagDeleteEntity_ok h
  · cases done
  · exact touches

theorem flagDeleteEntity_terminating {id : Nat}
    (h : s.flagDeleteEntity types arch id = .ok (.terminating, world)) :
    Touches s world arch (Flagged types id) := by
  obtain ⟨⟨-, touches⟩ | ⟨done, -⟩, -, -⟩ := flagDeleteEntity_ok h
  · exact touches
  · cases done

/-! ## Component access -/

/-- Only the component storages change. -/
structure Accessed (R : Typed V → Typed V → Prop) (a a' : Archetype (w arch) (T arch) V) :
    Prop where
  ealloc : a'.ealloc = a.ealloc
  generations : a'.generations = a.generations
  rctrack : a'.rctrack = a.rctrack
  typed : R a.typed a'.typed

theorem setSimple_ok {comp : DbgTypeId} {id : Nat} {value : Option V}
    (h : s.setSimple arch comp id value = .ok world) :
    Touches s world arch (Accessed fun typed typed' =>
      typed.setSimple (.unusedComponent comp) comp id value = .ok typed') ∧
      world.offlineBuffer = s.offlineBuffer ∧ world.references = s.references := by
  obtain ⟨a, found, h⟩ := bind_eq_ok.mp h
  obtain ⟨typed, set, h⟩ := bind_eq_ok.mp h
  cases h
  exact ⟨touches_setArchetype (archetype_ok.mp found) ⟨rfl, rfl, rfl, set⟩, rfl, rfl⟩

theorem openIsotope_ok {snapshot : Snapshot} {comp : DbgTypeId} {discrim : Discrim}
    (h : s.openIsotope types snapshot arch comp discrim = .ok world) :
    Touches s world arch (Accessed fun typed typed' =>
      ∃ map storage map', typed.isotopeStorageMaps.lookup comp = some map ∧
        map.getOrCreate (types.isotopeOf arch comp) discrim (allocatedIds (w arch) snapshot) =
          .ok (storage, map') ∧
        typed' = { typed with
          isotopeStorageMaps := typed.isotopeStorageMaps.insert comp map' }) ∧
      world.offlineBuffer = s.offlineBuffer ∧ world.references = s.references := by
  obtain ⟨a, found, h⟩ := bind_eq_ok.mp h
  obtain ⟨map, known, h⟩ := bind_eq_ok.mp h
  obtain ⟨⟨storage, map'⟩, created, h⟩ := bind_eq_ok.mp h
  cases h
  exact ⟨touches_setArchetype (archetype_ok.mp found)
    ⟨rfl, rfl, rfl, map, storage, map', expect_eq_ok.mp known, created, rfl⟩, rfl, rfl⟩

theorem setIsotope_ok {comp : DbgTypeId} {discrim : Discrim} {id : Nat} {value : Option V}
    (h : s.setIsotope arch comp discrim id value = .ok world) :
    Touches s world arch (Accessed fun typed typed' =>
      ∃ map storage, typed.isotopeStorageMaps.lookup comp = some map ∧
        map.lookup discrim = some storage ∧ typed' = { typed with
          isotopeStorageMaps := typed.isotopeStorageMaps.insert comp
            (map.insert discrim (storage.set id value)) }) ∧
      world.offlineBuffer = s.offlineBuffer ∧ world.references = s.references := by
  obtain ⟨a, found, h⟩ := bind_eq_ok.mp h
  obtain ⟨map, known, h⟩ := bind_eq_ok.mp h
  obtain ⟨storage, opened, h⟩ := bind_eq_ok.mp h
  cases h
  exact ⟨touches_setArchetype (archetype_ok.mp found)
    ⟨rfl, rfl, rfl, map, storage, expect_eq_ok.mp known, expect_eq_ok.mp opened, rfl⟩, rfl, rfl⟩

/-! ## Allocators -/

/-- Only the allocator changes. -/
structure Reallocated (R : Recycling (w arch) (T arch) → Recycling (w arch) (T arch) → Prop)
    (a a' : Archetype (w arch) (T arch) V) : Prop where
  ealloc : R a.ealloc a'.ealloc
  generations : a'.generations = a.generations
  rctrack : a'.rctrack = a.rctrack
  typed : a'.typed = a.typed

variable [∀ arch, Recycler (T arch) (Hint arch)]

theorem forEalloc_ok
    {f : ∀ arch, Recycling (w arch) (T arch) → Except Panic (Recycling (w arch) (T arch))}
    (h : s.forEalloc f = .ok world) :
    (∀ arch, (∀ a, s.archetypes.lookup arch = some a →
        ∃ a', world.archetypes.lookup arch = some a' ∧
          Reallocated (fun e e' => f arch e = .ok e') a a') ∧
      (s.archetypes.lookup arch = none → world.archetypes.lookup arch = none)) ∧
    world.offlineBuffer = s.offlineBuffer ∧ world.references = s.references := by
  obtain ⟨archetypes, swept, h⟩ := bind_eq_ok.mp h
  cases h
  refine ⟨fun arch => ?_, rfl, rfl⟩
  obtain ⟨known, unknown⟩ := HashMap.updateM_ok swept arch
  refine ⟨fun a found => ?_, unknown⟩
  obtain ⟨a', run, found'⟩ := known a found
  obtain ⟨e', new, eq⟩ := bind_eq_ok.mp run
  cases eq
  exact ⟨_, found', new, rfl, rfl, rfl⟩

theorem forEalloc_ealloc
    {f : ∀ arch, Recycling (w arch) (T arch) → Except Panic (Recycling (w arch) (T arch))}
    (h : s.forEalloc f = .ok world) {e' : Recycling (w arch) (T arch)}
    (found : world.ealloc arch = some e') : ∃ e, s.ealloc arch = some e ∧ f arch e = .ok e' := by
  obtain ⟨known, unknown⟩ := (forEalloc_ok h).1 arch
  cases before : s.archetypes.lookup arch with
  | none => simp [ealloc, unknown before] at found
  | some a =>
    obtain ⟨a', after, change⟩ := known a before
    rw [ealloc_of_lookup after] at found
    cases found
    exact ⟨a.ealloc, ealloc_of_lookup before, change.ealloc⟩

theorem forEalloc_none
    {f : ∀ arch, Recycling (w arch) (T arch) → Except Panic (Recycling (w arch) (T arch))}
    (h : s.forEalloc f = .ok world) (none : world.ealloc arch = none) :
    s.ealloc arch = .none := by
  obtain ⟨known, -⟩ := (forEalloc_ok h).1 arch
  cases before : s.archetypes.lookup arch with
  | none => rw [ealloc, before]; rfl
  | some a =>
    obtain ⟨a', after, -⟩ := known a before
    rw [ealloc_of_lookup after] at none
    cases none

/-- A world as it is built: new allocators and no entities. -/
theorem build_lookup {U : Type} (b : Builder U V) (arch : DbgTypeId) :
    (b.build : World w T V).archetypes.lookup arch = (b.archetypes.lookup arch).map fun typed =>
      ⟨.new (w arch) (b.scheduler.concurrency + 1), typed, [], none⟩ := by
  have listed : ∀ entries : List (Sigma fun _ : DbgTypeId => Typed V),
      (entries.foldr (fun e (archetypes : AList fun arch => Archetype (w arch) (T arch) V) =>
        archetypes.insert e.1 ⟨.new (w e.1) (b.scheduler.concurrency + 1), e.2, [], none⟩)
        ∅).lookup arch = (entries.dlookup arch).map fun typed =>
      ⟨.new (w arch) (b.scheduler.concurrency + 1), typed, [], none⟩ := by
    intro entries
    induction entries with
    | nil => rfl
    | cons e rest ih =>
      obtain ⟨key, typed⟩ := e
      rw [List.foldr_cons]
      by_cases same : arch = key
      · subst same
        rw [AList.lookup_insert, List.dlookup_cons_eq]
        rfl
      · rw [AList.lookup_insert_ne same, ih, List.dlookup_cons_ne rest ⟨key, typed⟩ same]
  exact listed b.archetypes.entries

omit [∀ arch, Recycler (T arch) (Hint arch)] in
theorem snapshots_ok {snapshots : HashMap DbgTypeId Snapshot} (h : s.snapshots = .ok snapshots)
    {a : Archetype (w arch) (T arch) V} (found : s.archetypes.lookup arch = some a) :
    ∃ snapshot, a.ealloc.snapshot = .ok snapshot ∧ snapshots.lookup arch = some snapshot := by
  have listed : ⟨arch, a⟩ ∈ s.archetypes.entries := AList.mem_lookup_iff.mp found
  refine foldlM_ok h (fun past snapshots => ⟨arch, a⟩ ∈ past →
    ∃ snapshot, a.ealloc.snapshot = .ok snapshot ∧ snapshots.lookup arch = some snapshot)
    (by simp) ?_ listed
  intro past e m₁ m₂ member ih run here
  obtain ⟨snapshot, taken, run⟩ := bind_eq_ok.mp run
  cases run
  rw [HashMap.lookup_insert_ite]
  rcases List.mem_append.mp here with old | new
  · split
    · rename_i same
      have stored : s.archetypes.lookup e.1 = some e.2 := AList.mem_lookup_iff.mpr member
      subst same
      rw [stored] at found
      cases found
      exact ⟨snapshot, taken, rfl⟩
    · exact ih old
  · cases List.mem_singleton.mp new
    exact ⟨snapshot, taken, by simp⟩

omit [∀ arch, Recycler (T arch) (Hint arch)] in
theorem snapshots_known {snapshots : HashMap DbgTypeId Snapshot}
    (h : s.snapshots = .ok snapshots) {snapshot : Snapshot}
    (found : snapshots.lookup arch = some snapshot) :
    ∃ a, s.archetypes.lookup arch = some a ∧ a.ealloc.snapshot = .ok snapshot := by
  refine foldlM_ok h (fun _ snapshots => ∀ snapshot, snapshots.lookup arch = some snapshot →
    ∃ a, s.archetypes.lookup arch = some a ∧ a.ealloc.snapshot = .ok snapshot)
    (by simp) ?_ snapshot found
  intro past e m₁ m₂ member ih run snapshot listed
  obtain ⟨new, taken, run⟩ := bind_eq_ok.mp run
  cases run
  rw [HashMap.lookup_insert_ite] at listed
  split at listed
  · rename_i same
    subst same
    cases listed
    exact ⟨e.2, AList.mem_lookup_iff.mpr member, taken⟩
  · exact ih snapshot listed

/-! ## Host code and systems -/

theorem createWithHint_ok {shardId : Nat} {hint : Hint arch} {compMap : CompMap V} {id : Nat}
    (h : s.createWithHint types arch shardId hint compMap = .ok (id, world)) :
    Touches s world arch (fun a a' => ∃ e, a.ealloc.allocate shardId hint = (.ok id, e) ∧
      Initialized types id s.references.length compMap { a with ealloc := e } a') ∧
    world.offlineBuffer = s.offlineBuffer ∧ world.references = s.references ++ [1] := by
  obtain ⟨a, found, h⟩ := bind_eq_ok.mp h
  rw [archetype_ok] at found
  obtain ⟨id', allocated, h⟩ := bind_eq_ok.mp h
  obtain ⟨world', init, h⟩ := bind_eq_ok.mp h
  cases h
  obtain ⟨⟨⟨a₁, a₂, before, after, change⟩, others⟩, buffer, references⟩ := initEntity_ok init
  change AList.lookup arch (AList.insert arch _ _) = _ at before
  rw [AList.lookup_insert] at before
  cases before
  refine ⟨⟨⟨a, a₂, found, after, _, Prod.ext allocated rfl, change⟩, fun arch' other => ?_⟩,
    buffer, references⟩
  rw [others arch' other]
  exact AList.lookup_insert_ne other

theorem delete_ok {id : Nat} {result : DeleteResult}
    (h : s.delete types arch id = .ok (result, world)) :
    (result = .deleted ∧ world.offlineBuffer = s.offlineBuffer ∧
      Touches s world arch (fun a a' =>
        Deleted types s.references id { a with ealloc := a.ealloc.markNeedFlush } a') ∨
    result = .terminating ∧ world.offlineBuffer = { s.offlineBuffer with
        rerunQueue := s.offlineBuffer.rerunQueue ++ [.deleteEntity arch id] } ∧
      Touches s world arch (fun a a' =>
        Flagged types id { a with ealloc := a.ealloc.markNeedFlush } a')) ∧
    world.references = s.references := by
  obtain ⟨marked, mark, h⟩ := bind_eq_ok.mp h
  obtain ⟨a, found, mark⟩ := bind_eq_ok.mp mark
  rw [archetype_ok] at found
  cases mark
  obtain ⟨⟨result', world'⟩, flag, h⟩ := bind_eq_ok.mp h
  have touches : ∀ {world : World w T V}
      {R : Archetype (w arch) (T arch) V → Archetype (w arch) (T arch) V → Prop},
      Touches (s.setArchetype arch { a with ealloc := a.ealloc.markNeedFlush }) world arch R →
      Touches s world arch fun a a' => R { a with ealloc := a.ealloc.markNeedFlush } a' := by
    rintro world R ⟨⟨a₁, a₂, before, after, change⟩, others⟩
    rw [setArchetype, AList.lookup_insert] at before
    cases before
    refine ⟨⟨a, a₂, found, after, change⟩, fun arch' other => ?_⟩
    rw [others arch' other, setArchetype, AList.lookup_insert_ne other]
  obtain ⟨change, buffer, references⟩ := flagDeleteEntity_ok flag
  rcases change with ⟨rfl, change⟩ | ⟨rfl, change⟩
  · cases h
    refine ⟨.inr ⟨rfl, ?_, touches ⟨change.here, change.others⟩⟩, references⟩
    rw [buffer]
    rfl
  · cases h
    exact ⟨.inl ⟨rfl, buffer, touches change⟩, references⟩

theorem delete_deleted {id : Nat} (h : s.delete types arch id = .ok (.deleted, world)) :
    world.offlineBuffer = s.offlineBuffer ∧
      Touches s world arch fun a a' =>
        Deleted types s.references id { a with ealloc := a.ealloc.markNeedFlush } a' := by
  obtain ⟨⟨-, outcome⟩ | ⟨done, -⟩, -⟩ := delete_ok h
  · exact outcome
  · cases done

theorem delete_terminating {id : Nat} (h : s.delete types arch id = .ok (.terminating, world)) :
    world.offlineBuffer = { s.offlineBuffer with
        rerunQueue := s.offlineBuffer.rerunQueue ++ [.deleteEntity arch id] } ∧
      Touches s world arch fun a a' =>
        Flagged types id { a with ealloc := a.ealloc.markNeedFlush } a' := by
  obtain ⟨⟨done, -⟩ | ⟨-, outcome⟩, -⟩ := delete_ok h
  · cases done
  · exact outcome

omit [∀ arch, Recycler (T arch) (Hint arch)] in
theorem pushOperation_ok {worker : Nat} {op : Operation V}
    (h : s.pushOperation worker op = .ok world) :
    ∃ items, s.offlineBuffer.shards[worker]? = some items ∧ world = { s with
      offlineBuffer := { s.offlineBuffer with
        shards := s.offlineBuffer.shards.set worker (items ++ [op]) } } := by
  obtain ⟨items, found, h⟩ := bind_eq_ok.mp h
  cases h
  exact ⟨items, expect_eq_ok.mp found, rfl⟩

theorem createEntityWithHintAndShard_ok {worker shardId : Nat} {hint : Hint arch}
    {compMap : CompMap V} {id : Nat}
    (h : s.createEntityWithHintAndShard worker arch shardId hint compMap = .ok (id, world)) :
    Touches s world arch
      (Reallocated fun e e' => e.shardAllocate shardId hint = (.ok id, e')) ∧
    (∃ items, s.offlineBuffer.shards[worker]? = some items ∧ world.offlineBuffer = {
      s.offlineBuffer with
      shards := s.offlineBuffer.shards.set worker
        (items ++ [.createEntity arch id s.references.length compMap]) }) ∧
    world.references = s.references ++ [1] := by
  obtain ⟨a, found, h⟩ := bind_eq_ok.mp h
  rw [archetype_ok] at found
  obtain ⟨id', allocated, h⟩ := bind_eq_ok.mp h
  obtain ⟨world', pushed, h⟩ := bind_eq_ok.mp h
  cases h
  obtain ⟨items, listed, rfl⟩ := pushOperation_ok pushed
  have touches : Touches s (s.setArchetype arch { a with
      ealloc := (a.ealloc.shardAllocate shardId hint).2 }) arch
      (Reallocated fun e e' => e.shardAllocate shardId hint = (.ok id, e')) :=
    touches_setArchetype found ⟨Prod.ext allocated rfl, rfl, rfl, rfl⟩
  exact ⟨⟨touches.here, touches.others⟩, ⟨items, listed, rfl⟩, rfl⟩

end Dynec.World
