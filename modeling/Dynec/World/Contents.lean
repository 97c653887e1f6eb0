import Dynec.World.Declared
import Dynec.World.Frames

/-!
# What a world holds

A world stands for the entities that exist and the simple components of each.
Whatever host code, workers and drains do to allocators, shards, buffers and
storages, every step inserts an entity with its initial components, removes one,
marks one, writes one component, or leaves the contents alone.
-/

namespace Dynec.World

/-- The entities that exist in each archetype, and the components of every ID. -/
@[ext]
structure Contents (V : Type) where
  entities : DbgTypeId → Set Nat
  value : DbgTypeId → Nat → DbgTypeId → Option V

inductive Change (V : Type) where
  | insert (arch : DbgTypeId) (id : Nat) (compMap : CompMap V)
  | remove (arch : DbgTypeId) (id : Nat)
  | mark (arch : DbgTypeId) (id : Nat)
  | write (arch comp : DbgTypeId) (id : Nat) (value : Option V)
  | none

open Entity (Recycling Recycler)

variable {V : Type}

namespace Contents

def empty : Contents V := ⟨fun _ => ∅, fun _ _ _ => none⟩

/-- Replace the components of an entity. -/
def record (self : Contents V) (arch : DbgTypeId) (id : Nat) (values : DbgTypeId → Option V) :
    Contents V :=
  { self with
    value := Function.update self.value arch (Function.update (self.value arch) id values) }

def insert (self : Contents V) (arch : DbgTypeId) (id : Nat) (values : DbgTypeId → Option V) :
    Contents V :=
  { self.record arch id values with
    entities := Function.update self.entities arch (Insert.insert id (self.entities arch)) }

def remove (self : Contents V) (arch : DbgTypeId) (id : Nat) : Contents V :=
  { self.record arch id fun _ => none with
    entities := Function.update self.entities arch (self.entities arch \ {id}) }

def write (self : Contents V) (arch comp : DbgTypeId) (id : Nat) (value : Option V) : Contents V :=
  self.record arch id (Function.update (self.value arch id) comp value)

/-- Whether an entity has a finalizer. -/
def Finalized (types : Types V) (self : Contents V) (arch : DbgTypeId) (id : Nat) : Prop :=
  ∃ comp, (types.simple arch comp).isFinalizer = true ∧ (self.value arch id comp).isSome = true

end Contents

/-- The values that the components of an entity have after its initialization:
the ones given, those computed from the values of other components, and those
that were there before. -/
inductive Initial (types : Types V) (arch : DbgTypeId) (compMap : CompMap V)
    (before : DbgTypeId → Option V) : DbgTypeId → V → Prop
  | given {comp value} (passed : compMap.removeSimple comp = some value) :
      Initial types arch compMap before comp value
  | auto {comp deps init args} (absent : compMap.removeSimple comp = none)
      (strategy : (types.simple arch comp).initStrategy = .auto deps init)
      (length : deps.length = args.length)
      (values : ∀ {dep arg}, (dep, arg) ∈ deps.zip args →
        Initial types arch compMap before dep arg) :
      Initial types arch compMap before comp (init args)
  | kept {comp value} (absent : compMap.removeSimple comp = none)
      (strategy : (types.simple arch comp).initStrategy = .none)
      (old : before comp = some value) : Initial types arch compMap before comp value

/-- The components of an entity right after its initialization. -/
structure Initially (types : Types V) (schema : Set DbgTypeId) (arch : DbgTypeId)
    (compMap : CompMap V) (before values : DbgTypeId → Option V) : Prop where
  known : ∀ comp ∈ schema, ∀ value,
    values comp = some value ↔ Initial types arch compMap before comp value
  unknown : ∀ comp ∉ schema, values comp = none
  assured : ∀ comp ∈ schema, Assured types arch comp → (values comp).isSome = true

/-- The changes that the contents of a world can undergo. The deletion flag of
an entity is one of its components, which no program writes. -/
inductive Contents.Step (types : Types V) (schema : DbgTypeId → Set DbgTypeId) (c : Contents V) :
    Change V → Contents V → Prop
  | insert {arch id compMap values} (absent : id ∉ c.entities arch)
      (initial : Initially types (schema arch) arch compMap (c.value arch id) values) :
      Step types schema c (.insert arch id compMap) (c.insert arch id values)
  | remove {arch id} (present : id ∈ c.entities arch) (free : ¬ c.Finalized types arch id) :
      Step types schema c (.remove arch id) (c.remove arch id)
  | mark {arch id} (held : c.Finalized types arch id) :
      Step types schema c (.mark arch id) (c.write arch types.flag id (some types.flagValue))
  | write {arch comp id value} (known : comp ∈ schema arch) (hidden : comp ≠ types.flag) :
      Step types schema c (.write arch comp id value) (c.write arch comp id value)
  | none : Step types schema c .none c

inductive Contents.Run (types : Types V) (schema : DbgTypeId → Set DbgTypeId) (first : Contents V) :
    List (Change V) → Contents V → Prop
  | start : Run types schema first [] first
  | next {changes c change d} : Run types schema first changes c → c.Step types schema change d →
      Run types schema first (change :: changes) d

/-! ## Initial components -/

section Initial

variable {types : Types V} {arch comp : DbgTypeId} {compMap : CompMap V}
  {before : DbgTypeId → Option V} {value : V}

theorem initial_given {given : V} (passed : compMap.removeSimple comp = some given) :
    Initial types arch compMap before comp value ↔ given = value := by
  constructor
  · intro initial
    cases initial with
    | given passed' => exact Option.some.inj (passed.symm.trans passed')
    | auto absent => simp [passed] at absent
    | kept absent => simp [passed] at absent
  · rintro rfl
    exact .given passed

theorem initial_kept (absent : compMap.removeSimple comp = none)
    (strategy : (types.simple arch comp).initStrategy = .none) :
    Initial types arch compMap before comp value ↔ before comp = some value := by
  constructor
  · intro initial
    cases initial with
    | given passed => simp [passed] at absent
    | auto _ auto => simp [strategy] at auto
    | kept _ _ old => exact old
  · exact .kept absent strategy

theorem initial_auto {deps : List DbgTypeId} {init : List V → V}
    (absent : compMap.removeSimple comp = none)
    (strategy : (types.simple arch comp).initStrategy = .auto deps init) :
    Initial types arch compMap before comp value ↔
      ∃ args, List.Forall₂ (Initial types arch compMap before) deps args ∧ init args = value := by
  constructor
  · intro initial
    cases initial with
    | given passed => simp [passed] at absent
    | auto _ auto length values =>
      rw [strategy] at auto
      cases auto
      exact ⟨_, List.forall₂_iff_zip.mpr ⟨length, values⟩, rfl⟩
    | kept _ bare => simp [strategy] at bare
  · rintro ⟨args, values, rfl⟩
    obtain ⟨length, values⟩ := List.forall₂_iff_zip.mp values
    exact .auto absent strategy length values

theorem Typed.Registered.depsFirst {typed : Typed V} (h : Typed.Registered types arch typed) :
    DepsFirst types arch typed.simpleStorages.order := by
  induction h with
  | builder => exact depsFirst_builder
  | simple depth component run _ ih => exact (addSimpleStorageIfMissing_extends run ih).first
  | isotope component _ ih =>
    unfold Typed.addIsotopeMapIfMissing
    split
    · exact ih
    · exact ih

/-- The values of the components stand by induction on the order of the
storages: the initializer of one reads those before it. -/
theorem initEntity_initial {typed typed' : Typed V} {id w : Nat} {T : Type} {e : Recycling w T}
    (first : DepsFirst types arch typed.simpleStorages.order)
    (run : typed.initEntity types arch id compMap e = .ok typed')
    (registered : comp ∈ typed.simpleStorages.order) :
    typed'.getSimple comp id = some value ↔
      Initial types arch compMap (fun comp => typed.getSimple comp id) comp value := by
  induction h : typed.simpleStorages.order.idxOf comp using Nat.strong_induction_on
    generalizing comp value with
  | _ place ih =>
    subst h
    have source := (Typed.initEntity_ok run).simple comp registered
    unfold SimpleSource at source
    change Typed.valueIn typed'.simpleStorages comp id = some value ↔ _
    cases passed : compMap.removeSimple comp with
    | some given =>
      simp only [passed] at source
      rw [initial_given passed, source, Option.some.injEq]
    | none =>
      cases strategy : (types.simple arch comp).initStrategy with
      | none =>
        simp only [passed, strategy] at source
        rw [initial_kept passed strategy, source]
        rfl
      | auto deps init =>
        simp only [passed, strategy] at source
        obtain ⟨args, values, computed⟩ := source
        have same : ∀ args', List.Forall₂ (Initial types arch compMap
            fun comp => typed.getSimple comp id) deps args' ↔
            List.Forall₂ (fun dep arg => Typed.valueIn typed'.simpleStorages dep id = some arg)
              deps args' := by
          intro args'
          simp only [List.forall₂_iff_zip]
          apply and_congr_right
          intro _
          apply forall₂_congr
          intro dep arg
          apply imp_congr_right
          intro pair
          have reads : Reads types arch comp dep := by
            rw [Reads, strategy]
            exact (List.of_mem_zip pair).1
          obtain ⟨listed, earlier⟩ := first.idxOf_lt typed.simpleStorages.nodup registered reads
          exact (ih _ earlier listed rfl).symm
        rw [initial_auto passed strategy, computed, Option.some.injEq]
        simp only [same]
        constructor
        · rintro rfl
          exact ⟨args, values, rfl⟩
        · rintro ⟨args', values', rfl⟩
          rw [forall₂_value_unique values values']

end Initial

/-! ## The contents of a world -/

section Steps

open Fallible

variable {U : Type} {w : DbgTypeId → Nat} {T Hint : DbgTypeId → Type} {types : Types V}
  {s t : Machine w T V} {label : Label Hint V} {arch : DbgTypeId} {world : World w T V}
  {trace : List (Machine.Transition w T Hint V)}

def Machine.contents (s : Machine w T V) : Contents V where
  entities arch := {id | id ∈ (s.roll arch).ready}
  value arch id comp := s.world.getSimple arch comp id

/-- The registered components of each archetype. -/
def schema (world : World w T V) (arch : DbgTypeId) : Set DbgTypeId :=
  {comp | ∃ a, world.archetypes.lookup arch = some a ∧ comp ∈ a.typed.simpleStorages.order}

/-- Labels of steps that leave the contents alone. -/
def Label.Quiet : Label Hint V → Prop
  | .create .. | .delete .. | .setSimple .. | .drain => False
  | _ => True

/-- What the calls of host code and of systems, and the operations that are
drained, ask for, and what they return. -/
inductive Performs [∀ arch, Recycler (T arch) (Hint arch)] (types : Types V) :
    Machine.Transition w T Hint V → Change V → Prop
  | create {s t : Machine w T V} {arch : DbgTypeId} {shardId : Nat} {hint : Hint arch}
      {compMap : CompMap V} {id : Nat}
      (returned : s.world.createWithHint types arch shardId hint compMap = .ok (id, t.world)) :
      Performs types ⟨s, .create arch shardId hint compMap, t⟩ (.insert arch id compMap)
  | delete {s t : Machine w T V} {arch : DbgTypeId} {id : Nat}
      (returned : s.world.delete types arch id = .ok (.deleted, t.world)) :
      Performs types ⟨s, .delete arch id, t⟩ (.remove arch id)
  | deleteTerminating {s t : Machine w T V} {arch : DbgTypeId} {id : Nat}
      (returned : s.world.delete types arch id = .ok (.terminating, t.world)) :
      Performs types ⟨s, .delete arch id, t⟩ (.mark arch id)
  | setSimple {s t : Machine w T V} {arch comp : DbgTypeId} {id : Nat} {value : Option V} :
      Performs types ⟨s, .setSimple arch comp id value, t⟩ (.write arch comp id value)
  | drainCreate {s t : Machine w T V} {arch : DbgTypeId} {id rc : Nat} {compMap : CompMap V}
      {todo newQueue : List (Operation V)}
      (next : s.phase = .draining (.createEntity arch id rc compMap :: todo) newQueue) :
      Performs types ⟨s, .drain, t⟩ (.insert arch id compMap)
  | drainDelete {s t : Machine w T V} {arch : DbgTypeId} {id : Nat}
      {todo newQueue : List (Operation V)}
      (next : s.phase = .draining (.deleteEntity arch id :: todo) newQueue)
      (returned : s.world.flagDeleteEntity types arch id = .ok (.deleted, t.world)) :
      Performs types ⟨s, .drain, t⟩ (.remove arch id)
  | drainRerun {s t : Machine w T V} {arch : DbgTypeId} {id : Nat}
      {todo newQueue : List (Operation V)}
      (next : s.phase = .draining (.deleteEntity arch id :: todo) newQueue)
      (returned : s.world.flagDeleteEntity types arch id = .ok (.terminating, t.world)) :
      Performs types ⟨s, .drain, t⟩ (.mark arch id)
  | quiet {s t : Machine w T V} {label : Label Hint V} (quiet : label.Quiet) :
      Performs types ⟨s, label, t⟩ .none

/-! ### Components -/

/-- Only one entity changes. -/
theorem Touches.value {R : Archetype (w arch) (T arch) V → Archetype (w arch) (T arch) V → Prop}
    (touches : Touches s.world world arch R) {id : Nat} {values : DbgTypeId → Option V}
    (here : ∀ a a', s.world.archetypes.lookup arch = some a →
      world.archetypes.lookup arch = some a' → R a a' → ∀ c i,
      a'.typed.getSimple c i = if i = id then values c else a.typed.getSimple c i)
    {phase : Phase V} {roll : DbgTypeId → Roll} :
    (⟨world, phase, roll⟩ : Machine w T V).contents.value =
      (s.contents.record arch id values).value := by
  obtain ⟨a, a', before, after, change⟩ := touches.here
  funext arch' i c
  change world.getSimple arch' c i =
    Function.update s.contents.value arch (Function.update (s.contents.value arch) id values) arch' i c
  by_cases same : arch' = arch
  · subst same
    rw [Function.update_self, getSimple_lookup after, here a a' before after change]
    split
    · rename_i own
      rw [own, Function.update_self]
    · rename_i other
      rw [Function.update_of_ne other]
      exact (getSimple_lookup before c i).symm
  · rw [Function.update_of_ne same, World.getSimple, touches.others arch' same]
    rfl

/-- No entity changes. -/
theorem Touches.value_same
    {R : Archetype (w arch) (T arch) V → Archetype (w arch) (T arch) V → Prop}
    (touches : Touches s.world world arch R)
    (same : ∀ a a', R a a' → a'.typed.simpleStorages = a.typed.simpleStorages)
    {phase : Phase V} {roll : DbgTypeId → Roll} :
    (⟨world, phase, roll⟩ : Machine w T V).contents.value = s.contents.value := by
  obtain ⟨a, a', before, after, change⟩ := touches.here
  funext arch' i c
  change world.getSimple arch' c i = s.world.getSimple arch' c i
  by_cases here : arch' = arch
  · subst here
    rw [getSimple_lookup after, getSimple_lookup before, Typed.getSimple, same a a' change]
    rfl
  · rw [World.getSimple, World.getSimple, touches.others arch' here]

/-! ### Entities -/

theorem enroll_entities {f : Roll → Roll} {phase : Phase V} :
    (⟨world, phase, s.enroll arch f⟩ : Machine w T V).contents.entities =
      Function.update s.contents.entities arch {id | id ∈ (f (s.roll arch)).ready} := by
  funext arch'
  change {id | id ∈ (s.enroll arch f arch').ready} = _
  by_cases same : arch' = arch
  · subst same
    rw [enroll_same, Function.update_self]
  · rw [enroll_other same, Function.update_of_ne same]
    rfl

theorem init_contents {id : Nat} {values : DbgTypeId → Option V} {phase : Phase V}
    {f : Roll → Roll} (grown : (f (s.roll arch)).ready = id :: (s.roll arch).ready)
    (value : (⟨world, phase, s.enroll arch f⟩ : Machine w T V).contents.value =
      (s.contents.record arch id values).value) :
    (⟨world, phase, s.enroll arch f⟩ : Machine w T V).contents =
      s.contents.insert arch id values := by
  apply Contents.ext
  · have entities : {x | x ∈ id :: (s.roll arch).ready} =
        Insert.insert id (s.contents.entities arch) := by
      ext x
      exact List.mem_cons
    rw [enroll_entities, grown, entities]
    rfl
  · exact value

variable [∀ arch, Recycler (T arch) (Hint arch)]

theorem Books.ready_nodup (books : Books s) (arch : DbgTypeId) : (s.roll arch).ready.Nodup := by
  apply List.nodup_iff_count_le_one.mpr
  intro id
  have once := books.count_live_le arch id
  have accounted := books.accounted arch id
  omega

theorem free_contents (books : Books s) {id : Nat} {phase : Phase V}
    (value : (⟨world, phase, s.enroll arch (·.free id)⟩ : Machine w T V).contents.value =
      (s.contents.record arch id fun _ => none).value) :
    (⟨world, phase, s.enroll arch (·.free id)⟩ : Machine w T V).contents =
      s.contents.remove arch id := by
  apply Contents.ext
  · have entities : {x | x ∈ (s.roll arch).ready.erase id} = s.contents.entities arch \ {id} := by
      ext x
      exact (books.ready_nodup arch).mem_erase_iff.trans and_comm
    rw [enroll_entities, Roll.free, entities]
    rfl
  · exact value

/-! ### Steps -/

omit [∀ arch, Recycler (T arch) (Hint arch)] in
/-- A component of an entity is written. -/
theorem written_value {R : Archetype (w arch) (T arch) V → Archetype (w arch) (T arch) V → Prop}
    (touches : Touches s.world world arch R) {comp : DbgTypeId} {id : Nat} {value : Option V}
    (written : ∀ a a', R a a' → ∃ missing, a.typed.setSimple missing comp id value = .ok a'.typed)
    {phase : Phase V} {roll : DbgTypeId → Roll} :
    (⟨world, phase, roll⟩ : Machine w T V).contents.value =
      (s.contents.write arch comp id value).value := by
  apply touches.value
  intro a a' before _ change c i
  obtain ⟨missing, run⟩ := written a a' change
  obtain ⟨-, -, -, values⟩ := Typed.setSimple_ok run
  rw [values]
  by_cases own : i = id
  · subst own
    by_cases same : c = comp
    · subst same
      simp
    · rw [if_neg fun both => same both.1, if_pos rfl, Function.update_of_ne same]
      exact (getSimple_lookup before c i).symm
  · rw [if_neg fun both => own both.2, if_neg own]

omit [∀ arch, Recycler (T arch) (Hint arch)] in
/-- The components of an entity are cleared. -/
theorem cleared_value {R : Archetype (w arch) (T arch) V → Archetype (w arch) (T arch) V → Prop}
    (touches : Touches s.world world arch R) {id : Nat}
    (cleared : ∀ a a', R a a' → ∃ flagged : Typed V, a'.typed = flagged.clearEntry id ∧
      a.typed.setSimple .missingFlag types.flag id (some types.flagValue) = .ok flagged)
    {phase : Phase V} {roll : DbgTypeId → Roll} :
    (⟨world, phase, roll⟩ : Machine w T V).contents.value =
      (s.contents.record arch id fun _ => none).value := by
  apply touches.value
  intro a a' before _ change c i
  obtain ⟨flagged, clear, flag⟩ := cleared a a' change
  obtain ⟨-, -, -, values⟩ := Typed.setSimple_ok flag
  rw [clear, Typed.clearEntry_getSimple, values]
  by_cases own : i = id
  · rw [if_pos own, if_pos own]
  · rw [if_neg own, if_neg own, if_neg fun both => own both.2]

omit [∀ arch, Recycler (T arch) (Hint arch)] in
theorem finalized_iff {a : Archetype (w arch) (T arch) V}
    (before : s.world.archetypes.lookup arch = some a) (id : Nat) :
    s.contents.Finalized types arch id ↔ a.typed.hasFinalizer types arch id = true := by
  simp only [Typed.hasFinalizer_iff, Contents.Finalized, Machine.contents, getSimple_lookup before]

omit [∀ arch, Recycler (T arch) (Hint arch)] in
/-- An entity is initialized. -/
theorem init_initially {a a' : Archetype (w arch) (T arch) V} {id : Nat} {compMap : CompMap V}
    {e : Recycling (w arch) (T arch)} (before : s.world.archetypes.lookup arch = some a)
    (after : world.archetypes.lookup arch = some a')
    (first : DepsFirst types arch a.typed.simpleStorages.order)
    (run : a.typed.initEntity types arch id compMap e = .ok a'.typed) :
    Initially types (s.world.schema arch) arch compMap (s.contents.value arch id)
      fun comp => world.getSimple arch comp id := by
  have old : s.contents.value arch id = fun comp => a.typed.getSimple comp id :=
    funext fun comp => getSimple_lookup before comp id
  rw [old]
  constructor
  · rintro comp ⟨b, found, registered⟩ value
    cases before.symm.trans found
    rw [getSimple_lookup after]
    exact initEntity_initial first run registered
  · intro comp unregistered
    rw [getSimple_lookup after]
    apply initEntity_unknown run
    intro registered
    exact unregistered ⟨a, before, registered⟩
  · rintro comp ⟨b, found, registered⟩ assured
    cases before.symm.trans found
    rw [getSimple_lookup after]
    exact assured.init registered run

omit [∀ arch, Recycler (T arch) (Hint arch)] in
theorem insert_step {id : Nat} {compMap : CompMap V} {f : Roll → Roll} {phase : Phase V}
    (touches : Touches s.world world arch fun a a' =>
      ∃ e rc, Initialized types id rc compMap { a with ealloc := e } a')
    (first : ∀ a, s.world.archetypes.lookup arch = some a →
      DepsFirst types arch a.typed.simpleStorages.order)
    (grown : (f (s.roll arch)).ready = id :: (s.roll arch).ready)
    (fresh : id ∉ (s.roll arch).ready) :
    s.contents.Step types s.world.schema (.insert arch id compMap)
      (⟨world, phase, s.enroll arch f⟩ : Machine w T V).contents := by
  obtain ⟨a, a', before, after, e, rc, init⟩ := touches.here
  have value : (⟨world, phase, s.enroll arch f⟩ : Machine w T V).contents.value =
      (s.contents.record arch id fun comp => world.getSimple arch comp id).value := by
    apply touches.value
    intro b b' _ there change c i
    split
    · rename_i own
      rw [own, getSimple_lookup there]
    · rename_i other
      obtain ⟨e, rc, init⟩ := change
      exact (Typed.initEntity_ok init.typed).frame c i other
  rw [init_contents grown value]
  exact .insert fresh (init_initially before after (first a before) init.typed)

theorem remove_step (books : Books s) {id : Nat} {phase : Phase V}
    (touches : Touches s.world world arch fun a a' =>
      ∃ e references, Deleted types references id { a with ealloc := e } a')
    (present : id ∈ (s.roll arch).ready) :
    s.contents.Step types s.world.schema (.remove arch id)
      (⟨world, phase, s.enroll arch (·.free id)⟩ : Machine w T V).contents := by
  have value : (⟨world, phase, s.enroll arch (·.free id)⟩ : Machine w T V).contents.value =
      (s.contents.record arch id fun _ => none).value := by
    apply cleared_value touches
    rintro a a' ⟨e, references, deleted⟩
    obtain ⟨flagged, cleared, flag, -⟩ := deleted.typed
    exact ⟨flagged, cleared, flag⟩
  rw [free_contents books value]
  obtain ⟨a, a', before, -, e, references, deleted⟩ := touches.here
  obtain ⟨flagged, -, flag, none⟩ := deleted.typed
  apply Contents.Step.remove present
  rw [finalized_iff before, ← Typed.hasFinalizer_flag flag, none]
  exact Bool.false_ne_true

omit [∀ arch, Recycler (T arch) (Hint arch)] in
theorem mark_step {id : Nat} {phase : Phase V}
    (touches : Touches s.world world arch fun a a' =>
      ∃ e, Flagged types id { a with ealloc := e } a') :
    s.contents.Step types s.world.schema (.mark arch id)
      (⟨world, phase, s.roll⟩ : Machine w T V).contents := by
  have value : (⟨world, phase, s.roll⟩ : Machine w T V).contents.value =
      (s.contents.write arch types.flag id (some types.flagValue)).value := by
    apply written_value touches
    rintro a a' ⟨e, flagged⟩
    exact ⟨_, flagged.typed⟩
  have contents : (⟨world, phase, s.roll⟩ : Machine w T V).contents =
      s.contents.write arch types.flag id (some types.flagValue) := Contents.ext rfl value
  rw [contents]
  obtain ⟨a, a', before, -, e, flagged⟩ := touches.here
  apply Contents.Step.mark
  rw [finalized_iff before, ← Typed.hasFinalizer_flag flagged.typed]
  exact flagged.final

omit [∀ arch, Recycler (T arch) (Hint arch)] in
theorem swept_value
    {f : ∀ arch, Recycling (w arch) (T arch) → Except Panic (Recycling (w arch) (T arch))}
    {world' : World w T V} (run : world.forEalloc f = .ok world') {phase : Phase V}
    {roll : DbgTypeId → Roll} : (⟨world', phase, roll⟩ : Machine w T V).contents.value =
      fun arch id comp => world.getSimple arch comp id := by
  funext arch i c
  change world'.getSimple arch c i = world.getSimple arch c i
  obtain ⟨known, unknown⟩ := (forEalloc_ok run).1 arch
  cases before : world.archetypes.lookup arch with
  | none => rw [World.getSimple, World.getSimple, before, unknown before]
  | some a =>
    obtain ⟨a', after, change⟩ := known a before
    rw [getSimple_lookup after, getSimple_lookup before, change.typed]

omit [∀ arch, Recycler (T arch) (Hint arch)] in
theorem write_step {comp : DbgTypeId} {id : Nat} {value : Option V} {phase : Phase V}
    (touches : Touches s.world world arch (Accessed fun typed typed' =>
      typed.setSimple (.unusedComponent comp) comp id value = .ok typed'))
    (hidden : comp ≠ types.flag) :
    s.contents.Step types s.world.schema (.write arch comp id value)
      (⟨world, phase, s.roll⟩ : Machine w T V).contents := by
  have values : (⟨world, phase, s.roll⟩ : Machine w T V).contents.value =
      (s.contents.write arch comp id value).value := by
    apply written_value touches
    intro a a' accessed
    exact ⟨_, accessed.typed⟩
  have contents : (⟨world, phase, s.roll⟩ : Machine w T V).contents =
      s.contents.write arch comp id value := Contents.ext rfl values
  rw [contents]
  obtain ⟨a, a', before, -, accessed⟩ := touches.here
  obtain ⟨-, -, known, -⟩ := Typed.setSimple_ok accessed.typed
  exact .write ⟨a, before, known⟩ hidden

omit [∀ arch, Recycler (T arch) (Hint arch)] in
theorem setIsotope_value {comp : DbgTypeId} {discrim : Discrim} {id : Nat} {value : Option V}
    (run : s.world.setIsotope arch comp discrim id value = .ok world) {phase : Phase V}
    {roll : DbgTypeId → Roll} :
    (⟨world, phase, roll⟩ : Machine w T V).contents.value = s.contents.value := by
  apply (setIsotope_ok run).1.value_same
  intro a a' accessed
  obtain ⟨map, storage, -, -, written⟩ := accessed.typed
  rw [written]

theorem quiet_step (quiet : label.Quiet) (value : t.contents.value = s.contents.value)
    (ready : ∀ arch, (t.roll arch).ready = (s.roll arch).ready) :
    ∃ change, Performs types ⟨s, label, t⟩ change ∧
      s.contents.Step types s.world.schema change t.contents := by
  have same : t.contents = s.contents := by
    apply Contents.ext
    · funext arch
      change {id | id ∈ (t.roll arch).ready} = _
      rw [ready]
      rfl
    · exact value
  rw [same]
  exact ⟨.none, .quiet quiet, .none⟩

/-- Every step is a change of the contents. -/
theorem step_contents (step : s.Step types label t) (books : Books s) (kept : Books t)
    (orderly : ∀ arch id, Frees s t arch id → id ∈ (s.roll arch).ready)
    (first : ∀ arch a, s.world.archetypes.lookup arch = some a →
      DepsFirst types arch a.typed.simpleStorages.order) :
    ∃ change, Performs types ⟨s, label, t⟩ change ∧
      s.contents.Step types s.world.schema change t.contents := by
  have fresh : ∀ {arch id}, Readies arch id ⟨s, label, t⟩ → id ∉ (s.roll arch).ready :=
    fun readies => readies.fresh kept
  cases step with
  | create arch shardId hint compMap host run =>
    refine ⟨.insert arch _ compMap, .create run, insert_step ?_ (first arch) rfl ?_⟩
    · apply (createWithHint_ok run).1.mono
      rintro a a' ⟨e, -, init⟩
      exact ⟨e, _, init⟩
    · exact fresh (readies_enroll fun _ => rfl)
  | delete arch id host run =>
    refine ⟨.remove arch id, .delete run, remove_step books ?_ (orderly arch id frees_enroll)⟩
    apply (delete_deleted run).2.mono
    intro a a' deleted
    exact ⟨_, _, deleted⟩
  | deleteTerminating arch id host run =>
    refine ⟨.mark arch id, .deleteTerminating run, mark_step ?_⟩
    apply (delete_terminating run).2.mono
    intro a a' flagged
    exact ⟨_, flagged⟩
  | setSimple arch comp id value _ hidden run =>
    exact ⟨.write arch comp id value, .setSimple, write_step (setSimple_ok run).1 hidden⟩
  | openIsotope arch comp discrim _ _ run =>
    apply quiet_step
    · trivial
    · apply (openIsotope_ok run).1.value_same
      intro a a' accessed
      obtain ⟨map, storage, map', -, -, opened⟩ := accessed.typed
      rw [opened]
    · exact fun _ => rfl
  | setIsotope arch comp discrim id value _ run =>
    apply quiet_step
    · trivial
    · exact setIsotope_value run
    · exact fun _ => rfl
  | getIsotope arch comp discrim id value _ _ run =>
    apply quiet_step
    · trivial
    · exact setIsotope_value run
    · exact fun _ => rfl
  | cloneReference | dropReference | join =>
    apply quiet_step
    · trivial
    · rfl
    · exact fun _ => rfl
  | execute assign host flushed =>
    apply quiet_step
    · trivial
    · exact swept_value flushed
    · exact fun _ => rfl
  | flush drained run =>
    apply quiet_step
    · trivial
    · exact swept_value run
    · exact fun _ => rfl
  | createOnline worker arch hint compMap online _ run =>
    apply quiet_step
    · trivial
    · apply (createEntityWithHintAndShard_ok run).1.value_same
      intro a a' allocated
      rw [allocated.typed]
    · exact enroll_create_ready _
  | deleteOnline worker arch id online run =>
    obtain ⟨items, -, rfl⟩ := pushOperation_ok run
    apply quiet_step
    · trivial
    · rfl
    · exact fun _ => rfl
  | drainCreate draining run =>
    refine ⟨.insert _ _ _, .drainCreate draining, insert_step ?_ (first _) rfl ?_⟩
    · apply (initEntity_ok run).1.mono
      intro a a' init
      exact ⟨_, _, init⟩
    · exact fresh (readies_enroll fun _ => rfl)
  | drainDelete draining run =>
    refine ⟨.remove _ _, .drainDelete draining run, remove_step books ?_ (orderly _ _ frees_enroll)⟩
    apply (flagDeleteEntity_deleted run).mono
    intro a a' deleted
    exact ⟨_, _, deleted⟩
  | drainRerun draining run =>
    refine ⟨.mark _ _, .drainRerun draining run, mark_step ?_⟩
    apply (flagDeleteEntity_terminating run).mono
    intro a a' flagged
    exact ⟨_, flagged⟩

/-! ### Runs -/

theorem step_order (step : s.Step types label t) {a : Archetype (w arch) (T arch) V}
    (found : t.world.archetypes.lookup arch = some a) :
    ∃ a₀, s.world.archetypes.lookup arch = some a₀ ∧
      a.typed.simpleStorages.order = a₀.typed.simpleStorages.order := by
  obtain ⟨known, unknown⟩ := step_retypes step arch
  cases before : s.world.archetypes.lookup arch with
  | none =>
    rw [unknown before] at found
    cases found
  | some a₀ =>
    obtain ⟨a', after, change⟩ := known a₀ before
    rw [after] at found
    cases found
    exact ⟨a₀, rfl, change.order⟩

theorem step_schema (step : s.Step types label t) : t.world.schema = s.world.schema := by
  funext arch
  obtain ⟨known, -⟩ := step_retypes step arch
  ext comp
  constructor
  · rintro ⟨a, found, registered⟩
    obtain ⟨a₀, before, order⟩ := step_order step found
    exact ⟨a₀, before, order ▸ registered⟩
  · rintro ⟨a₀, before, registered⟩
    obtain ⟨a, after, change⟩ := known a₀ before
    exact ⟨a, after, change.order ▸ registered⟩

/-- The components that were registered with the builder. -/
def Builder.schema (b : Builder U V) (arch : DbgTypeId) : Set DbgTypeId :=
  {comp | ∃ typed, b.archetypes.lookup arch = some typed ∧ comp ∈ typed.simpleStorages.order}

theorem build_schema (b : Builder U V) : (b.build : World w T V).schema = b.schema := by
  funext arch
  ext comp
  constructor
  · rintro ⟨a, found, registered⟩
    rw [build_lookup] at found
    obtain ⟨typed, known, rfl⟩ := Option.map_eq_some_iff.mp found
    exact ⟨typed, known, registered⟩
  · rintro ⟨typed, known, registered⟩
    exact ⟨_, by rw [build_lookup, known]; rfl, registered⟩

theorem start_contents {b : Builder U V} (registered : b.AllRegistered types) :
    (.start b : Machine w T V).contents = .empty := by
  apply Contents.ext
  · funext arch
    ext id
    exact iff_of_false List.not_mem_nil (Set.notMem_empty id)
  · funext arch id comp
    change (b.build : World w T V).getSimple arch comp id = none
    rw [World.getSimple, build_lookup]
    cases known : b.archetypes.lookup arch with
    | none => rfl
    | some typed => exact (registered arch typed known).blank.simple comp id

/-- A transition makes the change that it performs. -/
def Makes (types : Types V) (schema : DbgTypeId → Set DbgTypeId)
    (tr : Machine.Transition w T Hint V) (change : Change V) : Prop :=
  Performs types tr change ∧ tr.before.contents.Step types schema change tr.after.contents

/-- **A world is a map from entities to components.** In every run that frees only
initialized entities, each step is one change of the contents, the one it asks
for: only entities that exist are removed and only others are inserted, a
deletion removes exactly the entities without a finalizer, and a new entity
has the components that were given or declared. -/
theorem refines_contents [DecidableEq U] (width : ∀ arch, 0 < w arch) {b : Builder U V}
    {systems : List (Scheduler.Node × System U)} (scheduled : Scheduled types b systems)
    (run : Machine.Run types (.start b) trace s) (orderly : Orderly trace) :
    ∃ changes, List.Forall₂ (Makes types b.schema) trace changes ∧
      Contents.Run types b.schema .empty changes s.contents := by
  have registered := scheduled_registered scheduled
  suffices kept : s.world.schema = b.schema ∧
      (∀ arch a, s.world.archetypes.lookup arch = some a →
        DepsFirst types arch a.typed.simpleStorages.order) ∧
      ∃ changes, List.Forall₂ (Makes types b.schema) trace changes ∧
        Contents.Run types b.schema .empty changes s.contents from kept.2.2
  induction run with
  | start =>
    refine ⟨build_schema b, ?_, [], .nil, ?_⟩
    · intro arch a found
      rw [Machine.start, build_lookup] at found
      obtain ⟨typed, known, rfl⟩ := Option.map_eq_some_iff.mp found
      exact (registered arch typed known).depsFirst
    · rw [start_contents registered]
      exact .start
  | @next trace s label t past step ih =>
    obtain ⟨here, orderly'⟩ := List.forall_mem_cons.mp orderly
    obtain ⟨schema, first, changes, made, above⟩ := ih orderly'
    have books := orderly_books width past orderly'
    have kept := orderly_books width (past.next step) orderly
    obtain ⟨change, performs, next⟩ := step_contents step books kept here first
    rw [schema] at next
    refine ⟨(step_schema step).trans schema, ?_, change :: changes, ?_, above.next next⟩
    · intro arch a found
      obtain ⟨a₀, before, order⟩ := step_order step found
      rw [order]
      exact first arch a₀ before
    · exact .cons ⟨performs, next⟩ made

/-- An entity is created and deleted, and another one stays. -/
theorem refines_contents_deleted : ∃ (trace : PlainTrace) (s : PlainMachine)
    (changes : List (Change Nat)), (s.roll ⟨0⟩).ready = [2] ∧ trace.length = 4 ∧
    List.Forall₂ (Makes plainTypes creation.schema) trace changes ∧
    Contents.Run plainTypes creation.schema .empty changes s.contents := by
  have scheduled : Scheduled plainTypes creation
      [(.sendSystem 0, reader), (.sendSystem 1, creator)] :=
    .schedule creator rfl (.schedule reader rfl (.new 2))
  obtain ⟨trace, s, run, ready, length⟩ : ∃ (trace : PlainTrace) (s : PlainMachine),
      Machine.Run plainTypes (.start creation) trace s ∧ (s.roll ⟨0⟩).ready = [2] ∧
      trace.length = 4 := by
    have run : Machine.Run plainTypes (.start creation) (_ : PlainTrace) (_ : PlainMachine) :=
      .next (.next .start (.create ⟨0⟩ 0 () ⟨AList.singleton ⟨1⟩ 5, ∅⟩ rfl rfl))
        (.create ⟨0⟩ 0 () noComponents rfl rfl)
    exact ⟨_, _, .next (.next run (.dropReference 0 trivial)) (.delete ⟨0⟩ 1 rfl rfl), rfl, rfl⟩
  obtain ⟨changes, made, above⟩ := refines_contents (fun _ => by decide) scheduled run
    (counted_orderly rfl (fun _ => by decide) run)
  exact ⟨trace, s, changes, ready, length, made, above⟩

end Steps

end Dynec.World
