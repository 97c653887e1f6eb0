import Dynec.World.Erasure
import Dynec.World.Twins

/-!
# The assignment of systems to workers

Operations are buffered by worker and drained shard by shard. A deletion may move
past operations on other entities. It may not move ahead of the creation of its
own entity.
-/

namespace Dynec.World

open Entity Fallible
open Machine (Transition Run)
open Scheduler (Node)

variable {U V : Type} {w : DbgTypeId → Nat} {T Hint : DbgTypeId → Type} {types : Types V}
  {arch : DbgTypeId} {id rc : Nat} {compMap : CompMap V}

/-! ## Deletions move past other operations -/

section Moving

variable {s t m : World w T V} {queue queue' : List (Operation V)}
  {p q q₁ q₂ r r₁ r₂ ops : List (Operation V)} {op : Operation V}

theorem blind_other (other : ¬ op.On arch id) (s : World w T V) : op.Blind types arch id s := by
  cases op with
  | createEntity arch' entity rc' compMap' =>
    intro same
    have differ : entity ≠ id := by
      rintro rfl
      exact other ⟨same, rfl⟩
    exact ⟨fun _ => differ, fun a _ => initErased_other differ ..⟩
  | deleteEntity arch' entity =>
    rintro same rfl
    exact other ⟨same, rfl⟩

theorem drain_erased (erased : Erased types arch id s t) (others : ∀ op ∈ ops, ¬ op.On arch id)
    (queue : List (Operation V)) :
    Lockstep (fun r r' => r'.2 = r.2 ∧ Erased types arch id r.1 r'.1)
      (ops.foldlM (drainOperation types) (s, queue))
      (ops.foldlM (drainOperation types) (t, queue)) := by
  apply Lockstep.foldlM ⟨rfl, erased⟩
  rintro op member ⟨s, queue⟩ ⟨t, queue'⟩ ⟨same, erased⟩
  cases same
  exact drainOperation_erased erased queue (blind_other (others op member) s)

theorem Erased.drains {s' : World w T V} (erased : Erased types arch id s t)
    (others : ∀ op ∈ ops, ¬ op.On arch id)
    (run : ops.foldlM (drainOperation types) (s, queue) = .ok (s', queue')) :
    ∃ t', ops.foldlM (drainOperation types) (t, queue) = .ok (t', queue') ∧
      Erased types arch id s' t' := by
  obtain ⟨⟨t', same⟩, returned, equal, erased'⟩ := (drain_erased erased others queue).of_ok run
  cases equal
  exact ⟨t', returned, erased'⟩

theorem Erased.drains_back {t' : World w T V} (erased : Erased types arch id s t)
    (others : ∀ op ∈ ops, ¬ op.On arch id)
    (run : ops.foldlM (drainOperation types) (t, queue) = .ok (t', queue')) :
    ∃ s', ops.foldlM (drainOperation types) (s, queue) = .ok (s', queue') ∧
      Erased types arch id s' t' := by
  obtain ⟨⟨s', same⟩, returned, equal, erased'⟩ := (drain_erased erased others queue).to_ok run
  cases equal
  exact ⟨s', returned, erased'⟩

/-- The entity can be deleted: it has no finalizer, and its last reference was
dropped. -/
def Ripe (types : Types V) (arch : DbgTypeId) (id : Nat) (s : World w T V) : Prop :=
  ∃ a, s.archetypes.lookup arch = some a ∧ types.flag ∈ a.typed.simpleStorages.order ∧
    a.typed.hasFinalizer types arch id = false ∧ (types.entityRc = true →
      ∃ rc, rctrackGet a.rctrack id = some rc ∧ s.references[rc]?.getD 0 = 0)

theorem Ripe.deletes (ripe : Ripe types arch id s) (queue : List (Operation V)) :
    ∃ t, drainOperation types (s, queue) (.deleteEntity arch id) = .ok (t, queue) ∧
      Erased types arch id s t := by
  obtain ⟨a, found, flag, final, tracked⟩ := ripe
  obtain ⟨⟨result, t⟩, run⟩ := flagDeleteEntity_total found flag fun _ => tracked
  have deleted : result = .deleted := by
    obtain ⟨⟨-, touches⟩ | ⟨done, -⟩, -⟩ := flagDeleteEntity_ok run
    · obtain ⟨a', a'', before, -, flagged⟩ := touches.here
      cases found.symm.trans before
      have present := flagged.final
      rw [Typed.hasFinalizer_flag flagged.typed, final] at present
      cases present
    · exact done
  subst deleted
  refine ⟨t, ?_, flagDeleteEntity_erased run⟩
  simp only [drainOperation, runOperation, run, ok_bind]
  rfl

/-- Without finalizers a drained deletion is complete. -/
theorem deletes_ripe {a : Archetype (w arch) (T arch) V}
    (found : s.archetypes.lookup arch = some a)
    (final : a.typed.hasFinalizer types arch id = false)
    (run : drainOperation types (s, queue) (.deleteEntity arch id) = .ok (t, queue')) :
    Ripe types arch id s ∧ queue' = queue ∧ Erased types arch id s t ∧
      ∃ a', t.archetypes.lookup arch = some a' ∧ Deleted types s.references id a a' := by
  obtain ⟨ran, same⟩ | ⟨ran, -⟩ := drainOperation_ok run
  · obtain ⟨⟨done, -⟩ | ⟨-, touches⟩, -, -⟩ := flagDeleteEntity_ok ran
    · cases done
    · obtain ⟨a₀, a', before, after, deleted⟩ := touches.here
      cases found.symm.trans before
      refine ⟨⟨a, found, ?_, final, fun counted => ?_⟩, same, flagDeleteEntity_erased ran, a',
        after, deleted⟩
      · obtain ⟨flagged, -, set, -⟩ := deleted.typed
        obtain ⟨simple, known, -⟩ := bind_eq_ok.mp set
        rw [expect_eq_ok] at known
        exact (IndexMap.mem_order_iff _ _).mpr (by rw [known]; rfl)
      · have untracks := deleted.rctrack
        rw [untrackReference, if_pos counted] at untracks
        obtain ⟨⟨rc, store⟩, removed, done⟩ := bind_eq_ok.mp untracks
        simp only at done
        split at done
        · rename_i dropped
          exact ⟨rc, rctrackRemove_found removed, dropped⟩
        · cases done
  · obtain ⟨⟨-, touches⟩ | ⟨done, -⟩, -, -⟩ := flagDeleteEntity_ok ran
    · obtain ⟨a₀, a', before, -, flagged⟩ := touches.here
      cases found.symm.trans before
      have present := flagged.final
      rw [Typed.hasFinalizer_flag flagged.typed, final] at present
      cases present
    · cases done

theorem Spared.hasFinalizer {freed : List Nat} {a a' : Archetype (w arch) (T arch) V}
    (spared : Spared types arch id ops freed a a') :
    a'.typed.hasFinalizer types arch id = a.typed.hasFinalizer types arch id := by
  simp only [Typed.hasFinalizer, spared.order, spared.simple]

/-- Operations on other entities do not keep it from being deleted. -/
theorem Ripe.drain (ripe : Ripe types arch id s)
    (run : ops.foldlM (drainOperation types) (s, queue) = .ok (t, queue'))
    (others : ∀ op ∈ ops, ¬ op.On arch id) : Ripe types arch id t := by
  obtain ⟨a, found, flag, final, tracked⟩ := ripe
  obtain ⟨drains, a', freed, found', spared⟩ := drain_spared run others found
  refine ⟨a', found', spared.order ▸ flag, spared.hasFinalizer.trans final, fun counted => ?_⟩
  obtain ⟨rc, here, dropped⟩ := tracked counted
  exact ⟨rc, spared.rctrack.trans here, drains.references ▸ dropped⟩

theorem foldlM_append_ok {r₀ r' : World w T V × List (Operation V)}
    (run : (p ++ q).foldlM (drainOperation types) r₀ = .ok r') :
    ∃ r₁, p.foldlM (drainOperation types) r₀ = .ok r₁ ∧
      q.foldlM (drainOperation types) r₁ = .ok r' := by
  rw [List.foldlM_append] at run
  exact bind_eq_ok.mp run

theorem foldlM_append_eq {r₀ r₁ : World w T V × List (Operation V)}
    (run : p.foldlM (drainOperation types) r₀ = .ok r₁) (q : List (Operation V)) :
    (p ++ q).foldlM (drainOperation types) r₀ = q.foldlM (drainOperation types) r₁ := by
  rw [List.foldlM_append, run, ok_bind]

/-- The two worlds are one world after the deletion of an entity. -/
def ErasedAlike (types : Types V) (arch : DbgTypeId) (id : Nat) (t t' : World w T V) : Prop :=
  ∃ m, Erased types arch id m t ∧ Erased types arch id m t'

/-- A deletion that is drained early may be drained later. -/
theorem deletion_postponed {t₁ : World w T V} (ripe : Ripe types arch id s)
    (erased : Erased types arch id s t₁)
    (run : (q ++ r).foldlM (drainOperation types) (t₁, queue) = .ok (t, queue'))
    (others : ∀ op ∈ q, ¬ op.On arch id) (rest : ∀ op ∈ r, ¬ op.On arch id) :
    ∃ t', (q ++ .deleteEntity arch id :: r).foldlM (drainOperation types) (s, queue) =
      .ok (t', queue') ∧ ErasedAlike types arch id t' t := by
  obtain ⟨⟨t₂, queue₂⟩, first, second⟩ := foldlM_append_ok run
  obtain ⟨s₂, first', erased₂⟩ := erased.drains_back others first
  obtain ⟨m, second', erased₃⟩ := erased₂.drains_back rest second
  obtain ⟨t₃, deleted, erased'⟩ := (ripe.drain first' others).deletes queue₂
  obtain ⟨t', last, erased₄⟩ := erased'.drains rest second'
  refine ⟨t', ?_, m, erased₄, erased₃⟩
  rw [foldlM_append_eq first', List.foldlM_cons, deleted, ok_bind, last]

/-- A deletion that is drained after the creation of its entity may be drained
before it, if the creation does not see the difference. -/
theorem deletion_advanced (ripe : Ripe types arch id s) {s₁ s₂ s₃ t₃ : World w T V}
    {queue₁ queue₂ queue₃ : List (Operation V)}
    (first : q.foldlM (drainOperation types) (s, queue) = .ok (s₁, queue₁))
    (created : drainOperation types (s₁, queue₁) op = .ok (s₂, queue₂))
    (second : r₁.foldlM (drainOperation types) (s₂, queue₂) = .ok (s₃, queue₃))
    (erased : Erased types arch id s₃ t₃)
    (third : r₂.foldlM (drainOperation types) (t₃, queue₃) = .ok (t, queue'))
    (blind : op.Blind types arch id s₁) (others : ∀ op ∈ q, ¬ op.On arch id)
    (others₁ : ∀ op ∈ r₁, ¬ op.On arch id) (others₂ : ∀ op ∈ r₂, ¬ op.On arch id) :
    ∃ t', (.deleteEntity arch id :: (q ++ op :: (r₁ ++ r₂))).foldlM (drainOperation types)
      (s, queue) = .ok (t', queue') ∧ ErasedAlike types arch id t' t := by
  obtain ⟨t₀, deleted, erased₀⟩ := ripe.deletes queue
  obtain ⟨t₁, first', erased₁⟩ := erased₀.drains others first
  obtain ⟨⟨t₂, same⟩, created', equal, erased₂⟩ :=
    (drainOperation_erased erased₁ queue₁ blind).of_ok created
  cases equal
  obtain ⟨u₃, second', erased₃⟩ := erased₂.drains others₁ second
  obtain ⟨m, plain, erased₄⟩ := erased.drains_back others₂ third
  obtain ⟨t', third', erased₅⟩ := erased₃.drains others₂ plain
  refine ⟨t', ?_, m, erased₅, erased₄⟩
  rw [List.foldlM_cons, deleted, ok_bind, foldlM_append_eq first', List.foldlM_cons, created',
    ok_bind, foldlM_append_eq second', third']

end Moving

/-! ## An entity that a drain creates and deletes -/

/-- No isotope storage has a value for the entity after the drain. `before` and
`after` are the operations drained before and after its creation. -/
def IsotopeClean (types : Types V) (id : Nat) (compMap : CompMap V)
    (before after : List (Operation V)) (a : Archetype (w arch) (T arch) V) : Prop :=
  ∀ c map, a.typed.isotopeStorageMaps.lookup c = some map → compMap.removeIsotope c = [] ∧
    match (types.isotopeOf arch c).initStrategy with
    | .none => ∀ d storage, map.lookup d = some storage → storage id = none
    | .auto _ _ => (∀ d, map.lookup d = none) ∧ (¬ ∃ op ∈ before, op.Gives arch c) ∧
        ∀ ids, IsotopeMap.snapshotIds a.ealloc = .ok ids → id ∈ ids →
          ¬ ∃ op ∈ after, op.Gives arch c

/-- The creation gives the entity no simple component. -/
def NoSimple (types : Types V) (compMap : CompMap V) (a : Archetype (w arch) (T arch) V) : Prop :=
  ∀ c ∈ a.typed.simpleStorages.order, compMap.removeSimple c = none ∧
    (types.simple arch c).initStrategy = .none

/-- The entity has no finalizer and is not given one. -/
def Plain (types : Types V) (id : Nat) (compMap : CompMap V)
    (a : Archetype (w arch) (T arch) V) : Prop :=
  ∀ c ∈ a.typed.simpleStorages.order, (types.simple arch c).isFinalizer = true →
    a.typed.getSimple c id = none ∧ compMap.removeSimple c = none ∧
      (types.simple arch c).initStrategy = .none

/-- What a drain does to an entity that it creates and deletes, in either
order. -/
structure Fate (types : Types V) (id : Nat) (compMap : CompMap V)
    (before after : List (Operation V)) (a a' : Archetype (w arch) (T arch) V) : Prop where
  generation : generationOf a'.generations id = (generationOf a.generations id + 1) % 2 ^ 32
  isotope : (∀ c d, a'.typed.getIsotope c d id = none) ↔
    IsotopeClean types id compMap before after a
  ealloc : ∃ freed, a'.ealloc = { a.ealloc with
      deallocQueue := a.ealloc.deallocQueue ++ freed } ∧
    freed.count id = 1 ∧ freed.Sublist (deletes arch (before ++ after))

section Fates

variable {a a₁ a₂ a₃ a₄ : Archetype (w arch) (T arch) V} {before after : List (Operation V)}
  {freed freed' : List Nat}

theorem isotope_clean (first : Unaided types arch id before freed a a₁)
    (init : Initialized types id rc compMap a₁ a₂)
    (last : Unaided types arch id after freed' a₂ a₃) :
    (∀ c d, a₃.typed.getIsotope c d id = none) ↔ IsotopeClean types id compMap before after a := by
  have filled := Typed.initEntity_ok init.typed
  have snapshots : IsotopeMap.snapshotIds a₁.ealloc = IsotopeMap.snapshotIds a.ealloc :=
    first.snapshotIds
  have each : ∀ c map, a.typed.isotopeStorageMaps.lookup c = some map →
      ((∀ d, a₃.typed.getIsotope c d id = none) ↔ compMap.removeIsotope c = [] ∧
        match (types.isotopeOf arch c).initStrategy with
        | .none => ∀ d storage, map.lookup d = some storage → storage id = none
        | .auto _ _ => (∀ d, map.lookup d = none) ∧ (¬ ∃ op ∈ before, op.Gives arch c) ∧
            ∀ ids, IsotopeMap.snapshotIds a.ealloc = .ok ids → id ∈ ids →
              ¬ ∃ op ∈ after, op.Gives arch c) := by
    intro c map found
    obtain ⟨map₁, found₁, spared⟩ := first.isotope c map found
    obtain ⟨map₂, found₂, isotope⟩ := filled.isotope c map₁ found₁
    obtain ⟨map₃, found₃, spared'⟩ := last.isotope c map₂ found₂
    rw [init.ealloc, snapshots] at spared'
    rw [snapshots] at isotope
    refine Iff.trans ?_ (isotope_none_iff spared isotope spared')
    constructor
    · intro gone d storage opened
      have value := gone d
      rw [Typed.getIsotope_eq found₃, opened] at value
      exact value
    · intro gone d
      rw [Typed.getIsotope_eq found₃]
      cases opened : map₃.lookup d with
      | none => rfl
      | some storage => exact gone d storage opened
  constructor
  · intro gone c map found
    exact (each c map found).mp (gone c)
  · intro clean c d
    cases found : a.typed.isotopeStorageMaps.lookup c with
    | some map => exact (each c map found).mpr (clean c map found) d
    | none =>
      have unknown := last.unknown c (filled.unknown c (first.unknown c found))
      rw [Typed.getIsotope, unknown]
      rfl

theorem simple_outside {typed : Typed V} {c : DbgTypeId} (outside : c ∉ typed.simpleStorages.order)
    (i : Nat) : typed.getSimple c i = none := by
  rw [IndexMap.mem_order_iff, Option.not_isSome_iff_eq_none] at outside
  rw [Typed.getSimple, Typed.valueIn, outside]
  rfl

/-- The entity has no finalizer after its initialization. -/
theorem Plain.init (plain : Plain types id compMap a)
    (first : Spared types arch id before freed a a₁)
    (init : Initialized types id rc compMap a₁ a₂) :
    a₂.typed.hasFinalizer types arch id = false := by
  have filled := Typed.initEntity_ok init.typed
  simp only [Typed.hasFinalizer, List.any_eq_false, Bool.and_eq_true, not_and,
    Bool.not_eq_true, Option.isSome_eq_false_iff, Option.isNone_iff_eq_none]
  intro c listed final
  rw [filled.order, first.order] at listed
  obtain ⟨value, ungiven, strategy⟩ := plain c listed final
  have source := filled.simple c (first.order ▸ listed)
  rw [SimpleSource, ungiven] at source
  simp only [strategy] at source
  exact source.trans ((first.simple c).trans value)

theorem Plain.hasFinalizer (plain : Plain types id compMap a) :
    a.typed.hasFinalizer types arch id = false := by
  simp only [Typed.hasFinalizer, List.any_eq_false, Bool.and_eq_true, not_and,
    Bool.not_eq_true, Option.isSome_eq_false_iff, Option.isNone_iff_eq_none]
  intro c listed final
  exact (plain c listed final).1

/-- An entity without simple components has none after its initialization iff it
is given none. -/
theorem noSimple_iff (order : a₁.typed.simpleStorages.order = a.typed.simpleStorages.order)
    (bare : ∀ c, a₁.typed.getSimple c id = none) (init : Initialized types id rc compMap a₁ a₂) :
    (∀ c, a₂.typed.getSimple c id = none) ↔ NoSimple types compMap a := by
  have filled := Typed.initEntity_ok init.typed
  have each : ∀ c ∈ a.typed.simpleStorages.order, (a₂.typed.getSimple c id = none ↔
      compMap.removeSimple c = none ∧ (types.simple arch c).initStrategy = .none) := by
    intro c listed
    have source := filled.simple c (order ▸ listed)
    rw [SimpleSource] at source
    cases given : compMap.removeSimple c with
    | some value =>
      rw [given] at source
      rw [Typed.getSimple, source]
      simp
    | none =>
      rw [given] at source
      simp only at source
      cases strategy : (types.simple arch c).initStrategy with
      | none =>
        rw [strategy] at source
        simp only [true_and, iff_true]
        exact Eq.trans source (bare c)
      | auto deps initializer =>
        rw [strategy] at source
        obtain ⟨args, -, value⟩ := source
        rw [Typed.getSimple, value]
        simp
  constructor
  · intro none c listed
    exact (each c listed).mp (none c)
  · intro none c
    by_cases listed : c ∈ a.typed.simpleStorages.order
    · exact (each c listed).mpr (none c listed)
    · exact simple_outside (by rw [filled.order, order]; exact listed) id

variable {s t : World w T V} {p q r : List (Operation V)} {queue queue' : List (Operation V)}

/-- The initialization of an entity. -/
theorem creates_ok (run : drainOperation types (s, queue) (.createEntity arch id rc compMap) =
      .ok (t, queue')) (found : s.archetypes.lookup arch = some a) : queue' = queue ∧
    ∃ a', t.archetypes.lookup arch = some a' ∧ Initialized types id rc compMap a a' := by
  obtain ⟨init, same⟩ := drainOperation_ok run
  obtain ⟨a₀, a', before, after, change⟩ := (initEntity_ok init).1.here
  cases found.symm.trans before
  exact ⟨same, a', after, change⟩

theorem unaided_init {rest : List (Operation V)} (last : Unaided types arch id rest freed a₂ a₃)
    (init : Initialized types id rc compMap a₁ a₂) : a₃.ealloc = { a₁.ealloc with
      deallocQueue := a₁.ealloc.deallocQueue ++ freed } := by
  rw [last.ealloc, init.ealloc]

/-- The creation is drained first. -/
theorem fate_created (run : (p ++ .createEntity arch id rc compMap ::
      (q ++ .deleteEntity arch id :: r)).foldlM (drainOperation types) (s, queue) = .ok (t, queue'))
    (found : s.archetypes.lookup arch = some a) (plain : Plain types id compMap a)
    (before : ∀ op ∈ p, ¬ op.On arch id) (between : ∀ op ∈ q, ¬ op.On arch id)
    (after : ∀ op ∈ r, ¬ op.On arch id) :
    Drains s t ∧ ∃ a', t.archetypes.lookup arch = some a' ∧
      Fate types id compMap p (q ++ .deleteEntity arch id :: r) a a' ∧
      ∀ c, a'.typed.getSimple c id = none := by
  obtain ⟨⟨s₁, queue₁⟩, run₁, run⟩ := foldlM_append_ok run
  rw [List.foldlM_cons] at run
  obtain ⟨⟨s₂, queue₂⟩, run₂, run⟩ := bind_eq_ok.mp run
  obtain ⟨⟨s₃, queue₃⟩, run₃, run⟩ := foldlM_append_ok run
  rw [List.foldlM_cons] at run
  obtain ⟨⟨s₄, queue₄⟩, run₄, run₅⟩ := bind_eq_ok.mp run
  obtain ⟨drains₁, a₁, freed₁, found₁, spared₁⟩ := drain_spared run₁ before found
  obtain ⟨-, a₂, found₂, init⟩ := creates_ok run₂ found₁
  obtain ⟨drains₃, a₃, freed₃, found₃, spared₃⟩ := drain_spared run₃ between found₂
  have final : a₃.typed.hasFinalizer types arch id = false :=
    spared₃.hasFinalizer.trans (plain.init spared₁ init)
  obtain ⟨-, -, -, a₄, found₄, deleted⟩ := deletes_ripe found₃ final run₄
  obtain ⟨drains₅, a₅, freed₅, found₅, spared₅⟩ := drain_spared run₅ after found₄
  have drains : Drains s t := drains₁.trans <| (drainOperation_drains run₂).trans <|
    drains₃.trans <| (drainOperation_drains run₄).trans drains₅
  have last : Unaided types arch id (q ++ ([.deleteEntity arch id] ++ r))
      (freed₃ ++ ([id] ++ freed₅)) a₂ a₅ :=
    spared₃.toUnaided.trans (deleted.unaided.trans spared₅.toUnaided)
  refine ⟨drains, a₅, found₅, ⟨?_, isotope_clean spared₁.toUnaided init last,
    freed₁ ++ (freed₃ ++ ([id] ++ freed₅)), ?_, ?_, ?_⟩, fun c => ?_⟩
  · rw [spared₅.generation, deleted.generations, spared₃.generation, init.generations,
      generationOf_next, if_pos rfl, spared₁.generation]
  · rw [unaided_init last init, spared₁.ealloc]
    simp only [List.append_assoc]
  · simp only [List.count_append, List.count_eq_zero_of_not_mem spared₁.unfreed,
      List.count_eq_zero_of_not_mem spared₃.unfreed, List.count_eq_zero_of_not_mem spared₅.unfreed,
      List.count_singleton_self]
  · rw [deletes_append]
    exact spared₁.deletes.append last.deletes
  · rw [spared₅.simple, deleted_getSimple (e := a₃.ealloc) deleted, if_pos rfl]

/-- The deletion is drained first. -/
theorem fate_deleted (run : (p ++ .deleteEntity arch id ::
      (q ++ .createEntity arch id rc compMap :: r)).foldlM (drainOperation types) (s, queue) =
        .ok (t, queue'))
    (found : s.archetypes.lookup arch = some a) (plain : Plain types id compMap a)
    (before : ∀ op ∈ p, ¬ op.On arch id) (between : ∀ op ∈ q, ¬ op.On arch id)
    (after : ∀ op ∈ r, ¬ op.On arch id) :
    (types.entityRc = true → (rctrackGet a.rctrack id).isSome = true) ∧ Drains s t ∧
    ∃ a', t.archetypes.lookup arch = some a' ∧
      Fate types id compMap (p ++ .deleteEntity arch id :: q) r a a' ∧
      ((∀ c, a'.typed.getSimple c id = none) ↔ NoSimple types compMap a) := by
  obtain ⟨⟨s₁, queue₁⟩, run₁, run⟩ := foldlM_append_ok run
  rw [List.foldlM_cons] at run
  obtain ⟨⟨s₂, queue₂⟩, run₂, run⟩ := bind_eq_ok.mp run
  obtain ⟨⟨s₃, queue₃⟩, run₃, run⟩ := foldlM_append_ok run
  rw [List.foldlM_cons] at run
  obtain ⟨⟨s₄, queue₄⟩, run₄, run₅⟩ := bind_eq_ok.mp run
  obtain ⟨drains₁, a₁, freed₁, found₁, spared₁⟩ := drain_spared run₁ before found
  have final : a₁.typed.hasFinalizer types arch id = false :=
    spared₁.hasFinalizer.trans plain.hasFinalizer
  obtain ⟨⟨_, found', -, -, tracked⟩, -, -, a₂, found₂, deleted⟩ := deletes_ripe found₁ final run₂
  cases found₁.symm.trans found'
  obtain ⟨drains₃, a₃, freed₃, found₃, spared₃⟩ := drain_spared run₃ between found₂
  obtain ⟨-, a₄, found₄, init⟩ := creates_ok run₄ found₃
  obtain ⟨drains₅, a₅, freed₅, found₅, spared₅⟩ := drain_spared run₅ after found₄
  have drains : Drains s t := drains₁.trans <| (drainOperation_drains run₂).trans <|
    drains₃.trans <| (drainOperation_drains run₄).trans drains₅
  have first : Unaided types arch id (p ++ ([.deleteEntity arch id] ++ q))
      (freed₁ ++ ([id] ++ freed₃)) a a₃ :=
    spared₁.toUnaided.trans (deleted.unaided.trans spared₃.toUnaided)
  refine ⟨fun counted => ?_, drains, a₅, found₅, ⟨?_, isotope_clean first init spared₅.toUnaided,
    freed₁ ++ ([id] ++ freed₃) ++ freed₅, ?_, ?_, ?_⟩, ?_⟩
  · obtain ⟨rc, here, -⟩ := tracked counted
    rw [← spared₁.rctrack, here]
    rfl
  · rw [spared₅.generation, init.generations, generationOf_next, if_pos rfl, spared₃.generation,
      deleted.generations, spared₁.generation]
  · rw [unaided_init spared₅.toUnaided init, first.ealloc]
    simp only [List.append_assoc]
  · simp only [List.count_append, List.count_eq_zero_of_not_mem spared₁.unfreed,
      List.count_eq_zero_of_not_mem spared₃.unfreed, List.count_eq_zero_of_not_mem spared₅.unfreed,
      List.count_singleton_self]
  · rw [deletes_append]
    exact first.deletes.append spared₅.deletes
  · simp only [spared₅.simple]
    apply noSimple_iff first.order _ init
    intro c
    rw [spared₃.simple, deleted_getSimple (e := a₁.ealloc) deleted, if_pos rfl]

/-- The deletion may be drained later than it is. -/
theorem drain_postponed {q₁ q₂ : List (Operation V)}
    (run : (p ++ .createEntity arch id rc compMap ::
      (q₁ ++ .deleteEntity arch id :: (q₂ ++ r))).foldlM (drainOperation types) (s, queue) =
        .ok (t, queue'))
    (found : s.archetypes.lookup arch = some a) (plain : Plain types id compMap a)
    (before : ∀ op ∈ p, ¬ op.On arch id) (between : ∀ op ∈ q₁ ++ q₂, ¬ op.On arch id)
    (after : ∀ op ∈ r, ¬ op.On arch id) :
    ∃ t', (p ++ .createEntity arch id rc compMap ::
      (q₁ ++ (q₂ ++ .deleteEntity arch id :: r))).foldlM (drainOperation types) (s, queue) =
        .ok (t', queue') ∧ ErasedAlike types arch id t' t := by
  obtain ⟨first, second⟩ := List.forall_mem_append.mp between
  obtain ⟨⟨s₁, queue₁⟩, run₁, run⟩ := foldlM_append_ok run
  rw [List.foldlM_cons] at run
  obtain ⟨⟨s₂, queue₂⟩, run₂, run⟩ := bind_eq_ok.mp run
  obtain ⟨⟨s₃, queue₃⟩, run₃, run⟩ := foldlM_append_ok run
  rw [List.foldlM_cons] at run
  obtain ⟨⟨s₄, queue₄⟩, run₄, run₅⟩ := bind_eq_ok.mp run
  obtain ⟨-, a₁, freed₁, found₁, spared₁⟩ := drain_spared run₁ before found
  obtain ⟨-, a₂, found₂, init⟩ := creates_ok run₂ found₁
  obtain ⟨-, a₃, freed₃, found₃, spared₃⟩ := drain_spared run₃ first found₂
  have final : a₃.typed.hasFinalizer types arch id = false :=
    spared₃.hasFinalizer.trans (plain.init spared₁ init)
  obtain ⟨ripe, rfl, erased, -⟩ := deletes_ripe found₃ final run₄
  obtain ⟨t', last, alike⟩ := deletion_postponed ripe erased run₅ second after
  refine ⟨t', ?_, alike⟩
  rw [foldlM_append_eq run₁, List.foldlM_cons, run₂, ok_bind, foldlM_append_eq run₃, last]

/-- The creation of an entity without components does not see what its deletion
has erased. -/
theorem creates_blind {freed : List Nat} {r : List (Operation V)}
    (found : s.archetypes.lookup arch = some a₁)
    (spared : Spared types arch id (p ++ q) freed a a₁) (uncounted : types.entityRc = false)
    (bare : NoSimple types compMap a)
    (clean : IsotopeClean types id compMap (p ++ .deleteEntity arch id :: q) r a) :
    (Operation.createEntity arch id rc compMap).Blind types arch id s := by
  intro _
  refine ⟨by simp [uncounted], fun a' listed => ?_⟩
  cases found.symm.trans listed
  apply initErased_bare
  · intro c member
    exact bare c (spared.order ▸ member)
  · intro c map₁ known
    cases known₀ : a.typed.isotopeStorageMaps.lookup c with
    | none =>
      rw [spared.unknown c known₀] at known
      cases known
    | some map =>
      obtain ⟨map', known', isotope⟩ := spared.isotope c map known₀
      cases known.symm.trans known'
      obtain ⟨ungiven, source⟩ := clean c map known₀
      refine ⟨ungiven, ?_⟩
      cases strategy : (types.isotopeOf arch c).initStrategy with
      | none => exact .inl rfl
      | auto deps initializer =>
        rw [strategy] at source
        obtain ⟨empty, none, -⟩ := source
        refine .inr fun d => ?_
        cases opened : map₁.lookup d with
        | none => rfl
        | some storage =>
          obtain ⟨⟨op, member, given⟩, -⟩ := isotope.new d storage (empty d) opened
          refine absurd ⟨op, ?_, given⟩ none
          rcases List.mem_append.mp member with early | late
          · exact List.mem_append_left _ early
          · exact List.mem_append_right _ (.tail _ late)

/-- The deletion of an entity without components may be drained before its
creation, if references are not counted. -/
theorem drain_advanced {r₁ r₂ : List (Operation V)}
    (run : (p ++ (q ++ .createEntity arch id rc compMap ::
      (r₁ ++ .deleteEntity arch id :: r₂))).foldlM (drainOperation types) (s, queue) =
        .ok (t, queue'))
    (found : s.archetypes.lookup arch = some a)
    (flag : types.flag ∈ a.typed.simpleStorages.order) (plain : Plain types id compMap a)
    (uncounted : types.entityRc = false) (bare : NoSimple types compMap a)
    (clean : IsotopeClean types id compMap (p ++ .deleteEntity arch id :: q) (r₁ ++ r₂) a)
    (before : ∀ op ∈ p, ¬ op.On arch id) (between : ∀ op ∈ q, ¬ op.On arch id)
    (after : ∀ op ∈ r₁ ++ r₂, ¬ op.On arch id) :
    ∃ t', (p ++ .deleteEntity arch id :: (q ++ .createEntity arch id rc compMap ::
      (r₁ ++ r₂))).foldlM (drainOperation types) (s, queue) = .ok (t', queue') ∧
        ErasedAlike types arch id t' t := by
  obtain ⟨after₁, after₂⟩ := List.forall_mem_append.mp after
  obtain ⟨⟨s₀, queue₀⟩, run₀, run⟩ := foldlM_append_ok run
  obtain ⟨⟨s₁, queue₁⟩, run₁, run⟩ := foldlM_append_ok run
  rw [List.foldlM_cons] at run
  obtain ⟨⟨s₂, queue₂⟩, run₂, run⟩ := bind_eq_ok.mp run
  obtain ⟨⟨s₃, queue₃⟩, run₃, run⟩ := foldlM_append_ok run
  rw [List.foldlM_cons] at run
  obtain ⟨⟨s₄, queue₄⟩, run₄, run₅⟩ := bind_eq_ok.mp run
  obtain ⟨-, a₀, freed₀, found₀, spared₀⟩ := drain_spared run₀ before found
  obtain ⟨-, a₁, freed₁, found₁, spared₁⟩ := drain_spared run₁ between found₀
  obtain ⟨-, a₂, found₂, init⟩ := creates_ok run₂ found₁
  obtain ⟨-, a₃, freed₃, found₃, spared₃⟩ := drain_spared run₃ after₁ found₂
  have spared : Spared types arch id (p ++ q) (freed₀ ++ freed₁) a a₁ := spared₀.trans spared₁
  have ripe : Ripe types arch id s₀ := by
    refine ⟨a₀, found₀, spared₀.order ▸ flag, spared₀.hasFinalizer.trans plain.hasFinalizer, ?_⟩
    simp [uncounted]
  have final : a₃.typed.hasFinalizer types arch id = false :=
    spared₃.hasFinalizer.trans (plain.init spared init)
  obtain ⟨-, rfl, erased, -⟩ := deletes_ripe found₃ final run₄
  have blind : (Operation.createEntity arch id rc compMap).Blind types arch id s₁ :=
    creates_blind found₁ spared uncounted bare clean
  obtain ⟨t', last, alike⟩ :=
    deletion_advanced ripe run₁ run₂ run₃ erased run₅ blind between after₁ after₂
  refine ⟨t', ?_, alike⟩
  rw [foldlM_append_eq run₀, last]

/-- The operations before and after the creation are determined. -/
theorem creation_unique {before after x y : List (Operation V)}
    (absent : Operation.createEntity arch id rc compMap ∉ x)
    (absent' : Operation.createEntity arch id rc compMap ∉ y)
    (split : before ++ .createEntity arch id rc compMap :: after =
      x ++ .createEntity arch id rc compMap :: y) : before = x ∧ after = y := by
  obtain ⟨same, -, same'⟩ := (List.append_cons_inj_of_notMem absent absent').mp split.symm
  exact ⟨same.symm, same'.symm⟩

theorem creation_split {before after rest : List (Operation V)}
    (first : ∀ op ∈ p, ¬ op.On arch id) (second : ∀ op ∈ rest, op ≠ .createEntity arch id rc compMap)
    (split : before ++ .createEntity arch id rc compMap :: after =
      p ++ .createEntity arch id rc compMap :: rest) : before = p ∧ after = rest :=
  creation_unique (fun member => first _ member ⟨rfl, rfl⟩) (fun member => second _ member rfl) split

theorem deleted_split {before after : List (Operation V)}
    (early : ∀ op ∈ p, ¬ op.On arch id) (between : ∀ op ∈ q, ¬ op.On arch id)
    (late : ∀ op ∈ r, ¬ op.On arch id)
    (split : before ++ .createEntity arch id rc compMap :: after =
      p ++ .deleteEntity arch id :: (q ++ .createEntity arch id rc compMap :: r)) :
    before = p ++ .deleteEntity arch id :: q ∧ after = r := by
  have absent : Operation.createEntity arch id rc compMap ∉ p ++ .deleteEntity arch id :: q := by
    intro member
    rcases List.mem_append.mp member with first | last
    · exact early _ first ⟨rfl, rfl⟩
    · rcases List.mem_cons.mp last with differ | last
      · cases differ
      · exact between _ last ⟨rfl, rfl⟩
  refine creation_unique absent (fun member => late _ member ⟨rfl, rfl⟩) ?_
  rw [split, List.append_assoc, List.cons_append]

end Fates

/-! ## The flush -/

/-- Two entries that differ at most in the order of the IDs that wait for the
flush. -/
structure DrainedAlike (types : Types V) (a a' : Archetype (w arch) (T arch) V) : Prop where
  order : a'.typed.simpleStorages.order = a.typed.simpleStorages.order
  simple : ∀ c i, a'.typed.getSimple c i = a.typed.getSimple c i
  isotope : a'.typed.isotopeStorageMaps = a.typed.isotopeStorageMaps
  generations : a'.generations = a.generations
  rctrack : types.entityRc = true → ∀ i, rctrackGet a'.rctrack i = rctrackGet a.rctrack i
  ealloc : ∃ queue, a'.ealloc = { a.ealloc with deallocQueue := queue } ∧
    queue.Perm a.ealloc.deallocQueue

theorem DrainedAlike.refl (a : Archetype (w arch) (T arch) V) : DrainedAlike types a a :=
  ⟨rfl, fun _ _ => rfl, rfl, rfl, fun _ _ => rfl, a.ealloc.deallocQueue, rfl, .refl _⟩

theorem ErasedAlike.touches {t t' : World w T V} (alike : ErasedAlike types arch id t t') :
    Touches t t' arch (DrainedAlike types) ∧ t'.references = t.references ∧
      t'.offlineBuffer = t.offlineBuffer := by
  obtain ⟨m, first, second⟩ := alike
  obtain ⟨a, a₁, found, found₁, erased₁⟩ := first.entry.here
  obtain ⟨_, a₂, found', found₂, erased₂⟩ := second.entry.here
  cases found.symm.trans found'
  obtain ⟨queue₁, ealloc₁, perm₁⟩ := erased₁.ealloc
  obtain ⟨queue₂, ealloc₂, perm₂⟩ := erased₂.ealloc
  refine ⟨⟨⟨a₁, a₂, found₁, found₂, ?_⟩, fun arch' other => ?_⟩, ?_, ?_⟩
  · refine ⟨erased₂.typed.simple.order.trans erased₁.typed.simple.order.symm, fun c i => ?_,
      erased₂.typed.isotope.trans erased₁.typed.isotope.symm,
      erased₂.generations.trans erased₁.generations.symm, fun counted i => ?_, queue₂, ?_, ?_⟩
    · rw [Typed.getSimple, Typed.getSimple, erased₂.typed.simple.valueIn,
        erased₁.typed.simple.valueIn]
    · rw [erased₂.rctrack counted, erased₁.rctrack counted]
    · rw [ealloc₂, ealloc₁]
    · rw [ealloc₁]
      exact perm₂.trans perm₁.symm
  · rw [second.entry.others arch' other, first.entry.others arch' other]
  · rw [second.references, first.references]
  · rw [second.buffer, first.buffer]

variable [∀ arch, Recycler (T arch) (Hint arch)]

/-- Two entries with the same entities and the same free IDs. -/
structure AlikeEntry (types : Types V) (a a' : Archetype (w arch) (T arch) V) : Prop where
  order : a'.typed.simpleStorages.order = a.typed.simpleStorages.order
  simple : ∀ c i, a'.typed.getSimple c i = a.typed.getSimple c i
  isotope : a'.typed.isotopeStorageMaps = a.typed.isotopeStorageMaps
  generations : a'.generations = a.generations
  rctrack : types.entityRc = true → ∀ i, rctrackGet a'.rctrack i = rctrackGet a.rctrack i
  gauge : a'.ealloc.globalGauge = a.ealloc.globalGauge
  recyclable : a'.ealloc.recyclable = a.ealloc.recyclable
  free : ∀ i, held a'.ealloc.recyclerShards i = held a.ealloc.recyclerShards i

/-- Two worlds with the same entities and the same free IDs. -/
structure Alike (types : Types V) (t t' : World w T V) : Prop where
  entries : ∀ arch, (∀ a, t.archetypes.lookup arch = some a →
      ∃ a', t'.archetypes.lookup arch = some a' ∧ AlikeEntry types a a') ∧
    (t.archetypes.lookup arch = none → t'.archetypes.lookup arch = none)
  references : t'.references = t.references
  buffer : t'.offlineBuffer = t.offlineBuffer

/-- An entity is gone: no storage has a component of it, its generation was
bumped once, and its ID is free once. -/
structure Gone (arch : DbgTypeId) (id : Nat) (s t : World w T V) : Prop where
  simple : ∀ c, t.getSimple arch c id = none
  isotope : ∀ c d, t.getIsotope arch c d id = none
  entry : ∃ a a', s.archetypes.lookup arch = some a ∧ t.archetypes.lookup arch = some a' ∧
    generationOf a'.generations id = (generationOf a.generations id + 1) % 2 ^ 32 ∧
    a'.ealloc.deallocQueue = [] ∧ held a'.ealloc.recyclerShards id = 1

section Flushes

variable {s t t' u u' : World w T V} {a a' : Archetype (w arch) (T arch) V}

theorem flush_total (shards : ∀ arch a, t.archetypes.lookup arch = some a →
      a.ealloc.recyclerShards ≠ []) : ∃ u, t.flush = .ok u := by
  obtain ⟨archetypes, swept⟩ := HashMap.updateM_total (m := t.archetypes)
    (f := fun arch (a : Archetype (w arch) (T arch) V) => do
      let ealloc ← a.ealloc.flush
      return { a with ealloc }) fun arch a found => by
    obtain ⟨recyclers, run, -⟩ := flush_ok (shards arch a found)
    exact ⟨_, by rw [run, ok_bind]; rfl⟩
  exact ⟨{ t with archetypes }, by rw [flush, forEalloc, swept]; rfl⟩

theorem flush_lookup (run : t.flush = .ok u) (arch : DbgTypeId) :
    (∀ a, t.archetypes.lookup arch = some a → ∃ a', u.archetypes.lookup arch = some a' ∧
      Reallocated (fun e e' => e.flush = .ok e') a a') ∧
    (t.archetypes.lookup arch = none → u.archetypes.lookup arch = none) :=
  (forEalloc_ok run).1 arch

theorem DrainedAlike.flushed {b b' : Archetype (w arch) (T arch) V}
    (drained : DrainedAlike types a a') (nonempty : a.ealloc.recyclerShards ≠ [])
    (once : ∀ x, held a.ealloc.recyclerShards x + a.ealloc.deallocQueue.count x ≤ 1)
    (change : Reallocated (fun e e' => e.flush = .ok e') a b)
    (change' : Reallocated (fun e e' => e.flush = .ok e') a' b') : AlikeEntry types b b' := by
  obtain ⟨queue, ealloc, perm⟩ := drained.ealloc
  obtain ⟨shards, flushed, -, kept⟩ := flush_ok nonempty
  obtain ⟨shards', flushed', -, kept'⟩ :=
    flush_ok (a := a'.ealloc) (by rw [ealloc]; exact nonempty)
  have eq := Except.ok.inj (change.ealloc.symm.trans flushed)
  have eq' := Except.ok.inj (change'.ealloc.symm.trans flushed')
  rw [ealloc] at eq' kept'
  constructor
  · rw [change'.typed, change.typed, drained.order]
  · intro c i
    rw [change'.typed, change.typed, drained.simple]
  · rw [change'.typed, change.typed, drained.isotope]
  · rw [change'.generations, change.generations, drained.generations]
  · intro counted i
    rw [change'.rctrack, change.rctrack, drained.rctrack counted]
  · rw [eq', eq]
  · rw [eq', eq]
    apply SortedSet.ext
    intro x
    simp [Recycling.flushedRecyclable, perm.mem_iff]
  · intro x
    rw [eq', eq]
    simp only
    rw [kept once x, kept' (fun y => by simpa [perm.count_eq] using once y) x, perm.count_eq]

/-- The flush of one entry has one result. -/
theorem alikeEntry_flushed {b b' : Archetype (w arch) (T arch) V}
    (change : Reallocated (fun e e' => e.flush = .ok e') a b)
    (change' : Reallocated (fun e e' => e.flush = .ok e') a b') : AlikeEntry types b b' := by
  have equal := Except.ok.inj (change.ealloc.symm.trans change'.ealloc)
  constructor
  · rw [change'.typed, change.typed]
  · intro c i
    rw [change'.typed, change.typed]
  · rw [change'.typed, change.typed]
  · rw [change'.generations, change.generations]
  · intro _ i
    rw [change'.rctrack, change.rctrack]
  · rw [equal]
  · rw [equal]
  · intro x
    rw [equal]

theorem flush_alike (alike : Touches t t' arch (DrainedAlike types))
    (references : t'.references = t.references) (buffer : t'.offlineBuffer = t.offlineBuffer)
    (run : t.flush = .ok u) (run' : t'.flush = .ok u')
    (apart : ∀ a, t.archetypes.lookup arch = some a → a.ealloc.recyclerShards ≠ [] ∧
      ∀ x, held a.ealloc.recyclerShards x + a.ealloc.deallocQueue.count x ≤ 1) :
    Alike types u u' := by
  obtain ⟨-, keeps, refs⟩ := forEalloc_ok run
  obtain ⟨-, keeps', refs'⟩ := forEalloc_ok run'
  refine ⟨fun changed => ?_, by rw [refs', refs, references], by rw [keeps', keeps, buffer]⟩
  obtain ⟨known, unknown⟩ := flush_lookup run changed
  obtain ⟨known', unknown'⟩ := flush_lookup run' changed
  by_cases same : changed = arch
  · subst same
    obtain ⟨a, a', found, found', drained⟩ := alike.here
    obtain ⟨b, after, change⟩ := known a found
    obtain ⟨b', after', change'⟩ := known' a' found'
    obtain ⟨nonempty, once⟩ := apart a found
    rw [after]
    refine ⟨fun b₀ listed => ?_, nofun⟩
    cases listed
    exact ⟨b', after', drained.flushed nonempty once change change'⟩
  · have same := alike.others changed same
    cases found : t.archetypes.lookup changed with
    | none =>
      rw [unknown found, unknown' (same.trans found)]
      exact ⟨nofun, id⟩
    | some a =>
      obtain ⟨b, after, change⟩ := known a found
      obtain ⟨b', after', change'⟩ := known' a (same.trans found)
      rw [after]
      refine ⟨fun b₀ listed => ?_, nofun⟩
      cases listed
      exact ⟨b', after', alikeEntry_flushed change change'⟩

/-- What is left of an entity after the flush. -/
theorem flush_gone {before after : List (Operation V)} (run : t.flush = .ok u)
    (found : s.archetypes.lookup arch = some a) (found' : t.archetypes.lookup arch = some a')
    (fate : Fate types id compMap before after a a') (nonempty : a'.ealloc.recyclerShards ≠ [])
    (once : ∀ x, held a'.ealloc.recyclerShards x + a'.ealloc.deallocQueue.count x ≤ 1) :
    Gone arch id s u ↔ (∀ c, a'.typed.getSimple c id = none) ∧
      IsotopeClean types id compMap before after a := by
  obtain ⟨b, listed, change⟩ := (flush_lookup run arch).1 a' found'
  rw [← fate.isotope, ← change.typed]
  constructor
  · intro gone
    constructor
    · intro c
      rw [← getSimple_lookup listed]
      exact gone.simple c
    · intro c d
      rw [← getIsotope_lookup listed]
      exact gone.isotope c d
  · rintro ⟨simple, isotope⟩
    refine ⟨fun c => ?_, fun c d => ?_, a, b, found, listed, ?_, ?_, ?_⟩
    · rw [getSimple_lookup listed]
      exact simple c
    · rw [getIsotope_lookup listed]
      exact isotope c d
    · rw [change.generations, fate.generation]
    · obtain ⟨shards, flushed, -⟩ := flush_ok nonempty
      rw [Except.ok.inj (change.ealloc.symm.trans flushed)]
    · obtain ⟨shards, flushed, -, kept⟩ := flush_ok nonempty
      rw [Except.ok.inj (change.ealloc.symm.trans flushed)]
      obtain ⟨freed, ealloc, one, -⟩ := fate.ealloc
      have total := once id
      simp only [kept once id]
      rw [ealloc] at total ⊢
      simp only [List.count_append, one] at total ⊢
      omega

end Flushes

/-! ## The end of the cycle -/

/-- The world that a drain begins with. -/
def emptied (s : World w T V) : World w T V :=
  s.rebuffer ⟨[], s.offlineBuffer.shards.map fun _ => []⟩

omit [∀ arch, Recycler (T arch) (Hint arch)] in
/-- Which operations the shards had does not matter once they are emptied. -/
theorem emptied_rebuffer (world : World w T V) {buffer : Buffer V}
    (length : buffer.shards.length = world.offlineBuffer.shards.length) :
    (world.rebuffer buffer).emptied = world.emptied := by
  simp only [emptied, rebuffer, List.map_const', length]

omit [∀ arch, Recycler (T arch) (Hint arch)] in
theorem drainCycle_ok {s t : World w T V} : s.drainCycle types = .ok t ↔ ∃ world queue,
    s.offlineBuffer.operations.foldlM (drainOperation types) (s.emptied, []) = .ok (world, queue) ∧
    t = world.rebuffer { world.offlineBuffer with rerunQueue := queue } := by
  constructor
  · intro run
    obtain ⟨⟨world, queue⟩, drained, done⟩ := bind_eq_ok.mp run
    cases done
    exact ⟨world, queue, drained, rfl⟩
  · rintro ⟨world, queue, run, rfl⟩
    exact bind_eq_ok.mpr ⟨(world, queue), run, rfl⟩

omit [∀ arch, Recycler (T arch) (Hint arch)] in
theorem Moves.length {i j : Nat} {op : Operation V} {y u z v : List (Operation V)}
    {buffer buffer' : Buffer V} (moves : Moves i j op y u z v buffer buffer') :
    buffer'.shards.length = buffer.shards.length := by
  have present : ∀ k : Nat, buffer'.shards[k]? = none ↔ buffer.shards[k]? = none := by
    intro k
    rw [moves.shards]
    by_cases first : k = i
    · simp [first, moves.here]
    · by_cases second : k = j
      · rw [if_neg first, if_pos second, second, moves.there]
        simp
      · rw [if_neg first, if_neg second]
  simp only [List.getElem?_eq_none_iff] at present
  exact Nat.le_antisymm ((present _).mpr (Nat.le_refl _)) ((present _).mp (Nat.le_refl _))

section Cycle

variable {s : Machine w T V} {a : Archetype (w arch) (T arch) V} {world : World w T V}

/-- No ID is free twice when the drain has ended. -/
theorem drained_apart (deletable : Deletable types s)
    (found : s.world.archetypes.lookup arch = some a)
    (requests : ∀ x, .deleteEntity arch x ∈ s.world.offlineBuffer.operations →
      x ∈ (s.roll arch).live)
    {ops : List (Operation V)} (listed : ops.Sublist s.world.offlineBuffer.operations)
    (once : (deletes arch s.world.offlineBuffer.operations).Nodup) {freed : List Nat}
    (sublist : freed.Sublist (deletes arch ops)) (x : Nat) :
    held a.ealloc.recyclerShards x + (a.ealloc.deallocQueue ++ freed).count x ≤ 1 := by
  have inside : freed.Sublist (deletes arch s.world.offlineBuffer.operations) :=
    sublist.trans (listed.filterMap _)
  have places := (deletable.ledger arch _ (ealloc_of_lookup found)).places_le x
  simp only [Ledger.places, Machine.ledger] at places
  rw [List.count_append]
  by_cases member : x ∈ freed
  · have live := requests x (mem_deletes.mp (inside.subset member))
    have := List.count_pos_iff.mpr live
    have := List.nodup_iff_count_le_one.mp (once.sublist inside) x
    omega
  · rw [List.count_eq_zero_of_not_mem member]
    omega

/-- The cycle ends with a flush, here and in another cycle that frees the same
IDs. -/
theorem cycle_outcome (deletable : Deletable types s) (online : s.pending =
      s.world.offlineBuffer.operations) (found : s.world.archetypes.lookup arch = some a)
    (once : (deletes arch s.world.offlineBuffer.operations).Nodup)
    {before after : List (Operation V)} {op : Operation V}
    (split : s.world.offlineBuffer.operations = before ++ op :: after)
    (drains : Drains s.world.emptied world) {a' : Archetype (w arch) (T arch) V}
    (found' : world.archetypes.lookup arch = some a')
    (fate : Fate types id compMap before after a a') {world' : World w T V}
    (alike : Touches world world' arch (DrainedAlike types))
    (references : world'.references = world.references)
    (buffer : world'.offlineBuffer = world.offlineBuffer) (queue : List (Operation V)) :
    ∃ u u', (world.rebuffer { world.offlineBuffer with rerunQueue := queue }).flush = .ok u ∧
      (world'.rebuffer { world'.offlineBuffer with rerunQueue := queue }).flush = .ok u' ∧
      Alike types u u' ∧ (Gone arch id s.world u ↔
        (∀ c, a'.typed.getSimple c id = none) ∧ IsotopeClean types id compMap before after a) := by
  have shards : ∀ arch a, world.archetypes.lookup arch = some a → a.ealloc.recyclerShards ≠ [] := by
    intro arch a₁ listed
    obtain ⟨a₀, known, same⟩ := drains.shards arch a₁ listed
    rw [same]
    exact (deletable.ledger arch _ (ealloc_of_lookup known)).shards
  have shards' : ∀ arch a, world'.archetypes.lookup arch = some a →
      a.ealloc.recyclerShards ≠ [] := by
    refine alike.keeps shards (Q := fun _ a => a.ealloc.recyclerShards ≠ []) ?_ ?_
    · rintro a₁ a₂ nonempty drained
      obtain ⟨queue, ealloc, -⟩ := drained.ealloc
      rw [ealloc]
      exact nonempty
    · exact fun _ _ _ nonempty => nonempty
  have apart : ∀ x, held a'.ealloc.recyclerShards x + a'.ealloc.deallocQueue.count x ≤ 1 := by
    obtain ⟨freed, ealloc, -, sublist⟩ := fate.ealloc
    intro x
    rw [ealloc]
    refine drained_apart deletable found (fun x asked => ?_) ?_ once sublist x
    · exact deletable.requested arch x (online ▸ asked)
    · rw [split]
      exact (List.Sublist.refl before).append (List.sublist_cons_self op after)
  obtain ⟨u, flushed⟩ := flush_total (t := world.rebuffer
    { world.offlineBuffer with rerunQueue := queue }) shards
  obtain ⟨u', flushed'⟩ := flush_total (t := world'.rebuffer
    { world'.offlineBuffer with rerunQueue := queue }) shards'
  refine ⟨u, u', flushed, flushed', ?_, flush_gone flushed found found' fate
    (shards arch a' found') apart⟩
  have touches : Touches (world.rebuffer { world.offlineBuffer with rerunQueue := queue })
      (world'.rebuffer { world'.offlineBuffer with rerunQueue := queue }) arch
      (DrainedAlike types) := ⟨alike.here, alike.others⟩
  refine flush_alike touches references ?_ flushed flushed' fun a₁ listed => ?_
  · simp only [rebuffer, buffer]
  · cases found'.symm.trans listed
    exact ⟨shards arch a' found', apart⟩

/-- The outcome of a cycle that returns. -/
theorem outcome_iff {s t t' u u' : World w T V} {P : Prop} (drained : s.drainCycle types = .ok t)
    (flushed : t.flush = .ok u) (flushed' : t'.flush = .ok u') (alike : Alike types u u')
    (gone : Gone arch id s u ↔ P) :
    (∃ t u u', s.drainCycle types = .ok t ∧ t.flush = .ok u ∧ t'.flush = .ok u' ∧
      Gone arch id s u ∧ Alike types u u') ↔ P := by
  rw [← gone]
  constructor
  · rintro ⟨t₁, u₁, u₁', run, flush, -, here, -⟩
    cases drained.symm.trans run
    cases flushed.symm.trans flush
    exact here
  · intro here
    exact ⟨t, u, u', drained, flushed, flushed', here, alike⟩

theorem Alike.refl (t : World w T V) : Alike types t t :=
  ⟨fun _ => ⟨fun a found => ⟨a, found, rfl, fun _ _ => rfl, rfl, rfl, fun _ _ => rfl, rfl, rfl,
    fun _ => rfl⟩, fun none => none⟩, rfl, rfl⟩

omit [∀ arch, Recycler (T arch) (Hint arch)] in
theorem touches_refl {t : World w T V} (found : t.archetypes.lookup arch = some a) :
    Touches t t arch (DrainedAlike types) :=
  ⟨⟨a, a, found, found, .refl a⟩, fun _ _ => rfl⟩

/-- A reference is tracked when its entity is initialized. -/
theorem untracked_run (counted : types.entityRc = true) (width : ∀ arch, 0 < w arch)
    {b : Builder U V} {trace : List (Transition w T Hint V)} (run : Run types (.start b) trace s)
    (found : s.world.archetypes.lookup arch = some a) (waits : id ∈ creates arch s.pending) :
    (rctrackGet a.rctrack id).isSome = false := by
  obtain ⟨books, tracked⟩ := counted_run counted width run
  by_contra present
  have ready := tracked arch a found id (Bool.of_not_eq_false present)
  have := books.accounted arch id
  have := books.count_live_le arch id
  have := List.count_pos_iff.mpr ready
  have := List.count_pos_iff.mpr waits
  omega

section Orders

variable {before after p q r : List (Operation V)} {world' : World w T V}
  {queue : List (Operation V)} (deletable : Deletable types s)
  (pending : s.pending = s.world.offlineBuffer.operations)
  (lone : Lone arch s.world.offlineBuffer.operations)
  (split : s.world.offlineBuffer.operations = before ++ .createEntity arch id rc compMap :: after)
  (found : s.world.archetypes.lookup arch = some a) (plain : Plain types id compMap a)
  (drained : s.world.offlineBuffer.operations.foldlM (drainOperation types)
    (s.world.emptied, []) = .ok (world, queue))
  (alike : Touches world world' arch (DrainedAlike types))
  (references : world'.references = world.references)
  (buffers : world'.offlineBuffer = world.offlineBuffer)

include deletable pending lone split found plain drained alike references buffers

/-- The creation is drained first. -/
theorem created_outcome (whole : s.world.offlineBuffer.operations =
      p ++ .createEntity arch id rc compMap :: (q ++ .deleteEntity arch id :: r)) :
    (∃ t u u', s.world.drainCycle types = .ok t ∧ t.flush = .ok u ∧
      (world'.rebuffer { world'.offlineBuffer with rerunQueue := queue }).flush = .ok u' ∧
      Gone arch id s.world u ∧ Alike types u u') ↔
    IsotopeClean types id compMap before after a := by
  obtain ⟨early, between, late⟩ := Lone.others (whole ▸ lone) (.inl ⟨rfl, rfl⟩)
  have other : ∀ op ∈ q ++ .deleteEntity arch id :: r, op ≠ .createEntity arch id rc compMap := by
    rintro op member rfl
    rcases List.mem_append.mp member with first | last
    · exact between _ first ⟨rfl, rfl⟩
    · rcases List.mem_cons.mp last with differ | last
      · cases differ
      · exact late _ last ⟨rfl, rfl⟩
  obtain ⟨rfl, rfl⟩ := creation_split early other (split.symm.trans whole)
  have returned := drainCycle_ok.mpr ⟨world, queue, drained, rfl⟩
  rw [whole] at drained
  obtain ⟨drains, a', found', fate, none⟩ := fate_created drained found plain early between late
  obtain ⟨u, u', flushed, flushed', outcome, gone⟩ := cycle_outcome deletable pending found
    lone.2 whole drains found' fate alike references buffers queue
  exact outcome_iff returned flushed flushed' outcome (gone.trans (and_iff_right none))

/-- The deletion is drained first. -/
theorem deleted_outcome (whole : s.world.offlineBuffer.operations =
      p ++ .deleteEntity arch id :: (q ++ .createEntity arch id rc compMap :: r)) :
    (∃ t u u', s.world.drainCycle types = .ok t ∧ t.flush = .ok u ∧
      (world'.rebuffer { world'.offlineBuffer with rerunQueue := queue }).flush = .ok u' ∧
      Gone arch id s.world u ∧ Alike types u u') ↔
    NoSimple types compMap a ∧ IsotopeClean types id compMap before after a := by
  obtain ⟨early, between, late⟩ := Lone.others (whole ▸ lone) (.inr ⟨rfl, rfl⟩)
  obtain ⟨rfl, rfl⟩ := deleted_split early between late (split.symm.trans whole)
  have returned := drainCycle_ok.mpr ⟨world, queue, drained, rfl⟩
  rw [whole] at drained
  obtain ⟨-, drains, a', found', fate, simple⟩ :=
    fate_deleted drained found plain early between late
  obtain ⟨u, u', flushed, flushed', outcome, gone⟩ := cycle_outcome deletable pending found
    lone.2 split drains found' fate alike references buffers queue
  exact outcome_iff returned flushed flushed' outcome (gone.trans (and_congr_left' simple))

end Orders

variable {i j : Nat} {b : Builder U V} {systems : List (Node × System U)}
  {trace trace' : List (Transition w T Hint V)} {s' : Machine w T V}

/-- **Worker assignment.** In one cycle worker `i` creates an entity without
finalizers, and after that worker `j` queues it for deletion; in another one worker
`i` does both, and nothing else is different. The first cycle ends without the
entity, and like the second one, if and only if the operations of worker `i` are
drained first, or references are not counted and the entity has no simple component,
and the entity has no isotope component. -/
theorem worker_assignment [DecidableEq U] (width : ∀ arch, 0 < w arch)
    (scheduled : Scheduled types b systems) (run : Run types (.start b) trace s)
    (run' : Run types (.start b) trace' s')
    (timely : ∀ t ∈ trace, Timely types t.before t.label)
    (twins : Twins i j arch id rc compMap trace trace')
    (once : (deletes arch s.world.offlineBuffer.operations).Nodup)
    {before after : List (Operation V)} (split : s.world.offlineBuffer.operations =
      before ++ .createEntity arch id rc compMap :: after)
    (found : s.world.archetypes.lookup arch = some a) (plain : Plain types id compMap a)
    {t' : World w T V} (returned : s'.world.drainCycle types = .ok t') :
    (∃ t u u', s.world.drainCycle types = .ok t ∧ t.flush = .ok u ∧ t'.flush = .ok u' ∧
      Gone arch id s.world u ∧ Alike types u u') ↔
    IsotopeClean types id compMap before after a ∧
      (i ≤ j ∨ types.entityRc = false ∧ NoSimple types compMap a) := by
  have deletable := (deletable_run width (scheduled_registered scheduled) run timely).1
  have waiting := waiting_run width (scheduled_registered scheduled) run timely
  have handover := twins.handover
  obtain ⟨⟨assign, snapshots, online⟩, -⟩ := handover.shards run
  have pending : s.pending = s.world.offlineBuffer.operations := by
    rw [Machine.pending, online]
  have lone : Lone arch s.world.offlineBuffer.operations := by
    simp only [Waiting, online] at waiting
    exact ⟨pending ▸ (waiting arch).1, once⟩
  obtain ⟨buffer, rfl, together, moves⟩ := twins.moves run run'
  obtain ⟨world', queue, drained', rfl⟩ := drainCycle_ok.mp returned
  rcases Nat.lt_trichotomy i j with ahead | rfl | behind
  · obtain ⟨x, y, z, u, v, moves⟩ := moves (Nat.ne_of_lt ahead)
    have same := emptied_rebuffer s.world moves.length
    obtain ⟨p, q₁, q₂, r, whole, whole'⟩ := moves.ahead ahead
    have whole₂ : s.world.offlineBuffer.operations =
        p ++ .createEntity arch id rc compMap :: ((q₁ ++ q₂) ++ .deleteEntity arch id :: r) := by
      rw [whole, List.append_assoc]
    obtain ⟨early, between, late⟩ := Lone.others (whole₂ ▸ lone) (.inl ⟨rfl, rfl⟩)
    change buffer.operations.foldlM _ _ = _ at drained'
    rw [whole', same] at drained'
    obtain ⟨world, drained, alike⟩ := drain_postponed drained' found plain early between late
    obtain ⟨touches, references, buffers⟩ := alike.touches
    rw [← whole] at drained
    rw [created_outcome deletable pending lone split found plain drained touches references
      buffers whole₂]
    exact iff_self_and.mpr fun _ => .inl (Nat.le_of_lt ahead)
  · have same := together rfl
    subst same
    obtain ⟨p, q, r, whole⟩ := (handover.operations run).1 (Nat.le_refl _)
    obtain ⟨early, between, late⟩ := Lone.others (whole ▸ lone) (.inl ⟨rfl, rfl⟩)
    obtain ⟨-, a', found', -⟩ :=
      fate_created (s := s.world.emptied) (whole ▸ drained') found plain early between late
    rw [created_outcome deletable pending lone split found plain drained' (touches_refl found')
      rfl rfl whole]
    exact iff_self_and.mpr fun _ => .inl (Nat.le_refl _)
  · obtain ⟨x, y, z, u, v, moves⟩ := moves (Nat.ne_of_gt behind)
    have same := emptied_rebuffer s.world moves.length
    obtain ⟨p, q, r₁, r₂, whole, whole'⟩ := moves.behind behind
    obtain ⟨early, between, late⟩ := Lone.others (whole ▸ lone) (.inr ⟨rfl, rfl⟩)
    constructor
    · rintro ⟨t, u, u', cycle, flushed, flushed', gone, alike⟩
      obtain ⟨world, queue, drained, rfl⟩ := drainCycle_ok.mp cycle
      obtain ⟨tracked, -, a', found', -⟩ :=
        fate_deleted (s := s.world.emptied) (whole ▸ drained) found plain early between late
      have bare := (deleted_outcome deletable pending lone split found plain drained
        (touches_refl found') rfl rfl whole).mp
          ⟨_, u, u, cycle, flushed, flushed, gone, .refl u⟩
      refine ⟨bare.2, .inr ⟨?_, bare.1⟩⟩
      have waits : id ∈ creates arch s.pending := by
        rw [pending, split]
        exact mem_creates.mpr ⟨rc, compMap, List.mem_append_right _ (.head _)⟩
      by_contra counted
      have counted := Bool.of_not_eq_false counted
      rw [untracked_run counted width run found waits] at tracked
      cases tracked counted
    · rintro ⟨clean, order | ⟨uncounted, bare⟩⟩
      · exact absurd behind (Nat.not_lt.mpr order)
      · obtain ⟨first, last⟩ := deleted_split early between late (split.symm.trans whole)
        change buffer.operations.foldlM _ _ = _ at drained'
        rw [whole', same] at drained'
        obtain ⟨world, drained, alike⟩ := drain_advanced drained' found
          (deletable.flag arch a found) plain uncounted bare (first ▸ last ▸ clean) early between late
        obtain ⟨touches, references, buffers⟩ := alike.touches
        rw [← whole] at drained
        exact (deleted_outcome deletable pending lone split found plain drained touches references
          buffers whole).mpr ⟨bare, clean⟩

end Cycle

theorem plain_noComponents {a : Archetype 16 (List Nat) Nat} (id : Nat) :
    @Plain Nat (fun _ => 16) (fun _ => List Nat) arch plainTypes id noComponents a := by
  intro c _ final
  rw [Types.simple] at final
  by_cases same : c = plainTypes.flag
  · rw [if_pos same] at final
    cases final
  · rw [if_neg same] at final
    cases final

theorem worker_assignment_ahead :
    ∃ (trace trace' : PlainTrace) (s s' : PlainMachine) (t t' u u' : World _ _ Nat),
      Run plainTypes (.start creation) trace s ∧ Run plainTypes (.start creation) trace' s' ∧
      Twins 0 1 ⟨0⟩ 1 0 noComponents trace trace' ∧ s.world.drainCycle plainTypes = .ok t ∧
      s'.world.drainCycle plainTypes = .ok t' ∧ t.flush = .ok u ∧ t'.flush = .ok u' ∧
      Gone ⟨0⟩ 1 s.world u ∧ Alike plainTypes u u' := by
  have scheduled : Scheduled plainTypes creation
      [(.sendSystem 0, reader), (.sendSystem 1, creator)] :=
    .schedule creator rfl (.schedule reader rfl (.new 2))
  obtain ⟨trace, trace', s, s', t', a, run, run', twins, returned, timely, once, split, found,
      bare⟩ : ∃ (trace trace' : PlainTrace) (s s' : PlainMachine) (t' : World _ _ Nat)
        (a : Archetype 16 (List Nat) Nat),
      Run plainTypes (.start creation) trace s ∧ Run plainTypes (.start creation) trace' s' ∧
      Twins 0 1 ⟨0⟩ 1 0 noComponents trace trace' ∧ s'.world.drainCycle plainTypes = .ok t' ∧
      (∀ t ∈ trace, Timely plainTypes t.before t.label) ∧
      (deletes ⟨0⟩ s.world.offlineBuffer.operations).Nodup ∧
      s.world.offlineBuffer.operations =
        [] ++ .createEntity ⟨0⟩ 1 0 noComponents :: [.deleteEntity ⟨0⟩ 1] ∧
      s.world.archetypes.lookup ⟨0⟩ = some a ∧
      ∀ c, a.typed.isotopeStorageMaps.lookup c = none := by
    have run : Run plainTypes (.start creation) (_ : PlainTrace) (_ : PlainMachine) := .next (.next .start
      (.execute inOrder rfl rfl rfl (by decide)))
      (.createOnline 0 ⟨0⟩ () noComponents rfl rfl rfl)
    refine ⟨_, _, _, _, _, _, .next (.next run (.dropReference 0 trivial))
        (.deleteOnline 1 ⟨0⟩ 1 rfl rfl), .next (.next run (.dropReference 0 trivial))
        (.deleteOnline 0 ⟨0⟩ 1 rfl rfl), ?_, rfl, ?_, by decide, rfl, rfl, fun c => rfl⟩
    · exact @Twins.mk _ _ _ _ _ _ _ _ _ _ _ [_] [] [] _ _ _ _ _ _ rfl rfl (by simp) rfl
    · simp only [List.forall_mem_cons]
      exact ⟨.head _, trivial, trivial, trivial, nofun⟩
  have clean : @IsotopeClean Nat (fun _ => 16) (fun _ => List Nat) ⟨0⟩
      plainTypes 1 noComponents [] [.deleteEntity ⟨0⟩ 1] a := by
    intro c map known
    rw [bare] at known
    cases known
  obtain ⟨t, u, u', drained, flushed, flushed', gone, alike⟩ :=
    (worker_assignment (fun _ => by decide) scheduled run run' timely twins once split found
      (plain_noComponents 1) returned).mpr ⟨clean, .inl (by decide)⟩
  exact ⟨trace, trace', s, s', t, t', u, u', run, run', twins, drained, returned, flushed,
    flushed', gone, alike⟩

/-- A value for one simple component. -/
def labelled : CompMap Nat := ⟨AList.singleton ⟨1⟩ 7, ∅⟩

/-- The deletion is buffered by worker 0 and the creation by worker 1. With reference
counting the drain panics, while it returns if worker 1 does both. Without
reference counting the entity keeps its component after the deletion. -/
theorem worker_assignment_behind :
    (∃ (trace trace' : PlainTrace) (s s' : PlainMachine) (t' : World _ _ Nat),
      Run plainTypes (.start creation) trace s ∧ Run plainTypes (.start creation) trace' s' ∧
      Twins 1 0 ⟨0⟩ 1 0 noComponents trace trace' ∧ s'.world.drainCycle plainTypes = .ok t' ∧
      s.world.drainCycle plainTypes = .error .unexpectedArchetype) ∧
    ∃ (trace trace' : PlainTrace) (s s' : PlainMachine) (t t' u u' : World _ _ Nat),
      Run uncountedTypes (.start creation) trace s ∧
      Run uncountedTypes (.start creation) trace' s' ∧
      Twins 1 0 ⟨0⟩ 1 0 labelled trace trace' ∧ s.world.drainCycle uncountedTypes = .ok t ∧
      s'.world.drainCycle uncountedTypes = .ok t' ∧ t.flush = .ok u ∧ t'.flush = .ok u' ∧
      u.getSimple ⟨0⟩ ⟨1⟩ 1 = some 7 ∧ u'.getSimple ⟨0⟩ ⟨1⟩ 1 = none := by
  constructor
  · have run : Run plainTypes (.start creation) (_ : PlainTrace) (_ : PlainMachine) := .next (.next .start
      (.execute inOrder rfl rfl rfl (by decide)))
      (.createOnline 1 ⟨0⟩ () noComponents rfl rfl rfl)
    refine ⟨_, _, _, _, _, .next (.next run (.dropReference 0 trivial))
        (.deleteOnline 0 ⟨0⟩ 1 rfl rfl), .next (.next run (.dropReference 0 trivial))
        (.deleteOnline 1 ⟨0⟩ 1 rfl rfl), ?_, rfl, rfl⟩
    exact @Twins.mk _ _ _ _ _ _ _ _ _ _ _ [_] [] [] _ _ _ _ _ _ rfl rfl (by simp) rfl
  · have run : Run uncountedTypes (.start creation) (_ : PlainTrace) (_ : PlainMachine) := .next (.next .start
      (.execute inOrder rfl rfl rfl (by decide)))
      (.createOnline 1 ⟨0⟩ () labelled rfl rfl rfl)
    refine ⟨_, _, _, _, _, _, _, _, .next (.next run (.dropReference 0 trivial))
        (.deleteOnline 0 ⟨0⟩ 1 rfl rfl), .next (.next run (.dropReference 0 trivial))
        (.deleteOnline 1 ⟨0⟩ 1 rfl rfl), ?_, rfl, rfl, rfl, rfl, rfl, rfl⟩
    exact @Twins.mk _ _ _ _ _ _ _ _ _ _ _ [_] [] [] _ _ _ _ _ _ rfl rfl (by simp) rfl

end Dynec.World
