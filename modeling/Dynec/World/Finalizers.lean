import Dynec.World.Handover

/-!
# Finalizers

An entity whose deletion was requested keeps its deletion flag and one request in
the queue until a request runs while no finalizer is present. This holds in every
run in which each entity is requested at most once, after its initialization.
-/

namespace Dynec.World

open Entity Fallible
open Scheduler (Node)

variable {U V : Type} {w : DbgTypeId → Nat} {T Hint : DbgTypeId → Type}
  [∀ arch, Recycler (T arch) (Hint arch)] {types : Types V} {s t : Machine w T V}
  {label : Label Hint V} {arch : DbgTypeId} {id : Nat}

/-! ## Requests and their executions -/

/-- The deletion of an entity is requested. -/
def Asks (label : Label Hint V) (arch : DbgTypeId) (id : Nat) : Prop :=
  label = .delete arch id ∨ ∃ worker, label = .deleteOnline worker arch id

/-- The deletion of an entity was requested since it was created. -/
def Requested (arch : DbgTypeId) (id : Nat) : List (Machine.Transition w T Hint V) → Prop
  | [] => False
  | t :: trace => Asks t.label arch id ∨
      (t.after.roll arch).created ≠ id :: (t.before.roll arch).created ∧ Requested arch id trace

/-- Every entity is requested for deletion at most once, after its
initialization. -/
def Once : List (Machine.Transition w T Hint V) → Prop
  | [] => True
  | t :: trace => (∀ arch id, Asks t.label arch id →
      id ∈ (t.before.roll arch).ready ∧ ¬ Requested arch id trace) ∧ Once trace

/-- Entities are not created with a deletion flag: its type is private. -/
def Unflagged (types : Types V) : Label Hint V → Prop
  | .create _ _ _ compMap | .createOnline _ _ _ compMap => compMap.removeSimple types.flag = none
  | _ => True

/-- The request to delete an entity is executed: in a call of host code or by
draining its operation. -/
def Executes (s : Machine w T V) (label : Label Hint V) (arch : DbgTypeId) (id : Nat) : Prop :=
  label = .delete arch id ∨ label = .drain ∧ ∃ todo newQueue,
    s.phase = .draining (.deleteEntity arch id :: todo) newQueue

/-- A finalizer component of an entity is present. -/
def Finalizing (types : Types V) (world : World w T V) (arch : DbgTypeId) (id : Nat) : Prop :=
  ∃ comp, (types.simple arch comp).isFinalizer = true ∧
    (world.getSimple arch comp id).isSome = true

/-- The operations that ran and will run again. -/
def Machine.reruns (s : Machine w T V) : List (Operation V) :=
  match s.phase with
  | .draining _ newQueue => newQueue
  | _ => s.world.offlineBuffer.rerunQueue

theorem finalizing_iff (world : World w T V) :
    Finalizing types world arch id ↔ world.hasFinalizer types arch id = true := by
  cases found : world.archetypes.lookup arch with
  | none => simp [Finalizing, getSimple, hasFinalizer, found]
  | some a =>
    simp only [Finalizing, getSimple_lookup found, hasFinalizer_lookup found]
    exact Typed.hasFinalizer_iff.symm

/-- What the execution of a request does. -/
inductive Execution (types : Types V) (s t : Machine w T V) (arch : DbgTypeId) (id : Nat) : Prop
  | deleted (final : s.world.hasFinalizer types arch id = false)
      (roll : t.roll = s.enroll arch (·.free id)) (reruns : t.reruns = s.reruns)
      (touches : Touches s.world t.world arch fun a a' => ∃ e,
        Deleted types s.world.references id { a with ealloc := e } a')
  | terminating (final : s.world.hasFinalizer types arch id = true) (roll : t.roll = s.roll)
      (reruns : t.reruns = s.reruns ++ [.deleteEntity arch id])
      (pending : .deleteEntity arch id ∈ t.pending)
      (touches : Touches s.world t.world arch fun a a' => ∃ e,
        Flagged types id { a with ealloc := e } a')

theorem Flagged.hasFinalizer {e : Recycling (w arch) (T arch)} {world : World w T V}
    {a a' : Archetype (w arch) (T arch) V} (h : Flagged types id { a with ealloc := e } a')
    (found : world.archetypes.lookup arch = some a) : world.hasFinalizer types arch id = true := by
  rw [hasFinalizer_lookup found, ← Typed.hasFinalizer_flag h.typed]
  exact h.final

theorem executes_execution (step : s.Step types label t) (executes : Executes s label arch id) :
    Execution types s t arch id := by
  cases step with
  | delete changed entity host run =>
    obtain ⟨rfl, rfl⟩ : changed = arch ∧ entity = id := by
      rcases executes with eq | ⟨eq, -⟩
      · cases eq
        exact ⟨rfl, rfl⟩
      · cases eq
    obtain ⟨buffer, touches⟩ := delete_deleted run
    obtain ⟨a, a', before, -, deleted⟩ := touches.here
    refine .deleted (deleted.hasFinalizer before) rfl ?_ (touches.mono fun _ _ h => ⟨_, h⟩)
    simp only [Machine.reruns, host, buffer]
  | deleteTerminating changed entity host run =>
    obtain ⟨rfl, rfl⟩ : changed = arch ∧ entity = id := by
      rcases executes with eq | ⟨eq, -⟩
      · cases eq
        exact ⟨rfl, rfl⟩
      · cases eq
    obtain ⟨buffer, touches⟩ := delete_terminating run
    obtain ⟨a, a', before, -, flagged⟩ := touches.here
    refine .terminating (flagged.hasFinalizer before) rfl ?_ ?_
      (touches.mono fun _ _ h => ⟨_, h⟩)
    · simp only [Machine.reruns, host, buffer]
    · simp only [Machine.pending, host, buffer, Buffer.operations]
      exact List.mem_append_left _ (List.mem_append_right _ (.head _))
  | drainDelete draining run =>
    have eq := executes.resolve_left (by rintro ⟨⟩)
    obtain ⟨-, todo', newQueue', eq⟩ := eq
    cases draining.symm.trans eq
    have touches := flagDeleteEntity_deleted run
    obtain ⟨a, a', before, -, deleted⟩ := touches.here
    refine .deleted (deleted.hasFinalizer (e := a.ealloc) before) rfl ?_
      (touches.mono fun a _ h => ⟨a.ealloc, h⟩)
    simp only [Machine.reruns, draining]
  | drainRerun draining run =>
    have eq := executes.resolve_left (by rintro ⟨⟩)
    obtain ⟨-, todo', newQueue', eq⟩ := eq
    cases draining.symm.trans eq
    have touches := flagDeleteEntity_terminating run
    obtain ⟨a, a', before, -, flagged⟩ := touches.here
    refine .terminating (flagged.hasFinalizer (e := a.ealloc) before) rfl ?_ ?_
      (touches.mono fun a _ h => ⟨a.ealloc, h⟩)
    · simp only [Machine.reruns, draining]
    · simp only [Machine.pending]
      exact List.mem_append_right _ (List.mem_append_right _ (.head _))
  | drainCreate draining run =>
    have eq := executes.resolve_left (by rintro ⟨⟩)
    obtain ⟨-, todo', newQueue', eq⟩ := eq
    cases draining.symm.trans eq
  | create | setSimple | openIsotope | setIsotope | getIsotope | cloneReference | dropReference
  | execute | createOnline | deleteOnline | join | flush =>
    rcases executes with eq | ⟨eq, -⟩
    · cases eq
    · cases eq

/-! ## Flags -/

omit [∀ arch, Recycler (T arch) (Hint arch)] in
theorem Touches.getSimple_same {changed comp : DbgTypeId} {world world' : World w T V}
    {R : Archetype (w changed) (T changed) V → Archetype (w changed) (T changed) V → Prop}
    (touches : Touches world world' changed R)
    (here : changed = arch → ∀ a a', R a a' → a'.typed.getSimple comp id = a.typed.getSimple comp id) :
    world'.getSimple arch comp id = world.getSimple arch comp id := by
  by_cases same : changed = arch
  · subst same
    obtain ⟨a, a', before, after, change⟩ := touches.here
    rw [getSimple_lookup after, getSimple_lookup before]
    exact here rfl a a' change
  · rw [getSimple, getSimple, touches.others arch (Ne.symm same)]

theorem forEalloc_getSimple {world world' : World w T V}
    {f : ∀ arch, Recycling (w arch) (T arch) → Except Panic (Recycling (w arch) (T arch))}
    (run : world.forEalloc f = .ok world') (comp : DbgTypeId) :
    world'.getSimple arch comp id = world.getSimple arch comp id := by
  obtain ⟨known, unknown⟩ := (forEalloc_ok run).1 arch
  cases before : world.archetypes.lookup arch with
  | none => rw [getSimple, getSimple, before, unknown before]
  | some a =>
    obtain ⟨a', after, change⟩ := known a before
    rw [getSimple_lookup after, getSimple_lookup before, change.typed]

omit [∀ arch, Recycler (T arch) (Hint arch)] in
/-- Initialization leaves the deletion flags alone. -/
theorem initialized_flag {entity rc : Nat} {compMap : CompMap V}
    {a a' : Archetype (w arch) (T arch) V} {e : Recycling (w arch) (T arch)}
    (init : Initialized types entity rc compMap { a with ealloc := e } a')
    (hidden : compMap.removeSimple types.flag = none) (id : Nat) :
    a'.typed.getSimple types.flag id = a.typed.getSimple types.flag id := by
  have filled := Typed.initEntity_ok init.typed
  by_cases same : id = entity
  · subst same
    by_cases known : types.flag ∈ a.typed.simpleStorages.order
    · have source := filled.simple types.flag known
      rw [SimpleSource, hidden] at source
      simp only [Types.simple, if_true] at source
      exact source
    · have none : ∀ {typed : Typed V}, types.flag ∉ typed.simpleStorages.order →
          typed.getSimple types.flag id = none := by
        intro typed unknown
        cases value : typed.getSimple types.flag id with
        | none => rfl
        | some v => exact absurd (Typed.getSimple_known value) unknown
      rw [none known, none (filled.order.symm ▸ known)]
  · exact filled.frame types.flag id same

/-- Flags change only when a request is executed. -/
theorem step_flag (step : s.Step types label t) (other : ¬ Executes s label arch id)
    (hidden : Unflagged types label) (queued : ∀ changed entity rc compMap,
      .createEntity changed entity rc compMap ∈ s.pending →
        compMap.removeSimple types.flag = none) :
    t.world.getSimple arch types.flag id = s.world.getSimple arch types.flag id := by
  have deleted : ∀ {changed : DbgTypeId} {entity : Nat} {e : Recycling (w changed) (T changed)}
      {a a' : Archetype (w changed) (T changed) V} {references : List Nat},
      Executes s label changed entity → changed = arch →
      Deleted types references entity { a with ealloc := e } a' →
      a'.typed.getSimple types.flag id = a.typed.getSimple types.flag id := by
    rintro changed entity e a a' references executes rfl deleted
    rw [deleted_getSimple deleted, if_neg]
    rintro rfl
    exact other executes
  have flagged : ∀ {changed : DbgTypeId} {entity : Nat} {e : Recycling (w changed) (T changed)}
      {a a' : Archetype (w changed) (T changed) V},
      Executes s label changed entity → changed = arch →
      Flagged types entity { a with ealloc := e } a' →
      a'.typed.getSimple types.flag id = a.typed.getSimple types.flag id := by
    rintro changed entity e a a' executes rfl flagged
    rw [(Typed.setSimple_ok flagged.typed).2.2.2, if_neg]
    rintro ⟨-, rfl⟩
    exact other executes
  cases step with
  | create changed shardId hint compMap host run =>
    refine (createWithHint_ok run).1.getSimple_same ?_
    rintro rfl a a' ⟨e, -, init⟩
    exact initialized_flag init hidden id
  | delete changed entity host run =>
    obtain ⟨-, touches⟩ := delete_deleted run
    exact touches.getSimple_same fun same a a' h => deleted (.inl rfl) same h
  | deleteTerminating changed entity host run =>
    obtain ⟨-, touches⟩ := delete_terminating run
    exact touches.getSimple_same fun same a a' h => flagged (.inl rfl) same h
  | setSimple changed comp entity value _ visible run =>
    apply (setSimple_ok run).1.getSimple_same
    intro _ a a' h
    rw [(Typed.setSimple_ok h.typed).2.2.2, if_neg fun both => visible both.1.symm]
  | openIsotope changed comp discrim _ _ run =>
    apply (openIsotope_ok run).1.getSimple_same
    intro _ a a' h
    obtain ⟨map, storage, map', -, -, eq⟩ := h.typed
    rw [eq]
    rfl
  | setIsotope changed comp discrim entity value _ run
  | getIsotope changed comp discrim entity value _ _ run =>
    apply (setIsotope_ok run).1.getSimple_same
    intro _ a a' h
    obtain ⟨map, storage, -, -, eq⟩ := h.typed
    rw [eq]
    rfl
  | cloneReference | dropReference | join => rfl
  | execute assign host run => exact forEalloc_getSimple run _
  | createOnline worker changed hint compMap online _ run =>
    apply (createEntityWithHintAndShard_ok run).1.getSimple_same
    intro _ a a' h
    rw [h.typed]
  | deleteOnline worker changed entity online run =>
    obtain ⟨items, -, rfl⟩ := pushOperation_ok run
    rfl
  | @drainCreate changed entity rc compMap todo newQueue world draining run =>
    refine (initEntity_ok run).1.getSimple_same ?_
    rintro rfl a a' init
    refine initialized_flag (e := a.ealloc) init (queued changed entity rc compMap ?_) id
    rw [pending_draining draining]
    exact .head _
  | drainDelete draining run =>
    have touches := flagDeleteEntity_deleted run
    exact touches.getSimple_same fun same a a' h =>
      deleted (e := a.ealloc) (.inr ⟨rfl, _, _, draining⟩) same h
  | drainRerun draining run =>
    have touches := flagDeleteEntity_terminating run
    exact touches.getSimple_same fun same a a' h =>
      flagged (e := a.ealloc) (.inr ⟨rfl, _, _, draining⟩) same h
  | flush drained run => exact forEalloc_getSimple run _

/-- The flag after the execution of a request. -/
theorem Execution.flag (execution : Execution types s t arch id) :
    (t.world.getSimple arch types.flag id).isSome = s.world.hasFinalizer types arch id := by
  cases execution with
  | deleted final _ _ touches =>
    obtain ⟨a, a', -, after, e, deleted⟩ := touches.here
    rw [final, getSimple_lookup after, deleted_getSimple deleted, if_pos rfl]
    rfl
  | terminating final _ _ _ touches =>
    obtain ⟨a, a', -, after, e, flagged⟩ := touches.here
    rw [final, getSimple_lookup after, (Typed.setSimple_ok flagged.typed).2.2.2,
      if_pos ⟨rfl, rfl⟩]
    rfl

/-! ## Queues -/

omit [∀ arch, Recycler (T arch) (Hint arch)] in
theorem Machine.reruns_access {world : World w T V} {roll : DbgTypeId → Roll}
    (buffer : world.offlineBuffer.rerunQueue = s.world.offlineBuffer.rerunQueue) :
    (⟨world, s.phase, roll⟩ : Machine w T V).reruns = s.reruns := by
  simp only [Machine.reruns, buffer]

omit [∀ arch, Recycler (T arch) (Hint arch)] in
theorem Machine.mem_pending_of_reruns {op : Operation V} (member : op ∈ s.reruns) :
    op ∈ s.pending := by
  unfold Machine.reruns at member
  unfold Machine.pending
  cases phase : s.phase with
  | host | online =>
    rw [phase] at member
    exact List.mem_append_left _ member
  | draining todo newQueue =>
    rw [phase] at member
    exact List.mem_append_right _ member

/-- Operations are queued for the next cycle by executions of requests. -/
theorem reruns_step (step : s.Step types label t) (other : ¬ Executes s label arch id)
    (member : .deleteEntity arch id ∈ t.reruns) : .deleteEntity arch id ∈ s.reruns := by
  have same : t.reruns = s.reruns → .deleteEntity arch id ∈ s.reruns := fun eq => eq ▸ member
  cases step with
  | create _ _ _ _ _ run =>
    exact same (Machine.reruns_access (by rw [(createWithHint_ok run).2.1]))
  | delete changed entity host run =>
    obtain ⟨buffer, -⟩ := delete_deleted run
    exact same (Machine.reruns_access (by rw [buffer]))
  | deleteTerminating changed entity host run =>
    obtain ⟨buffer, -⟩ := delete_terminating run
    simp only [Machine.reruns, host, buffer] at member
    rcases List.mem_append.mp member with old | new
    · simpa only [Machine.reruns, host] using old
    · cases List.mem_singleton.mp new
      exact absurd (.inl rfl) other
  | setSimple _ _ _ _ _ _ run =>
    exact same (Machine.reruns_access (by rw [(setSimple_ok run).2.1]))
  | openIsotope _ _ _ _ _ run =>
    exact same (Machine.reruns_access (by rw [(openIsotope_ok run).2.1]))
  | setIsotope _ _ _ _ _ _ run =>
    exact same (Machine.reruns_access (by rw [(setIsotope_ok run).2.1]))
  | getIsotope _ _ _ _ _ _ _ run =>
    exact same (Machine.reruns_access (by rw [(setIsotope_ok run).2.1]))
  | cloneReference | dropReference => exact member
  | execute assign host run =>
    simpa only [Machine.reruns, host, (forEalloc_ok run).2.1] using member
  | createOnline worker changed hint compMap online _ run =>
    obtain ⟨-, ⟨items, -, buffer⟩, -⟩ := createEntityWithHintAndShard_ok run
    exact same (Machine.reruns_access (by rw [buffer]))
  | deleteOnline worker changed entity online run =>
    obtain ⟨items, -, rfl⟩ := pushOperation_ok run
    exact member
  | join => cases member
  | drainCreate draining run | drainDelete draining run =>
    simpa only [Machine.reruns, draining] using member
  | drainRerun draining run =>
    simp only [Machine.reruns] at member
    rcases List.mem_append.mp member with old | new
    · simpa only [Machine.reruns, draining] using old
    · cases List.mem_singleton.mp new
      exact absurd (.inr ⟨rfl, _, _, draining⟩) other
  | flush drained run =>
    simpa only [Machine.reruns, drained, (forEalloc_ok run).2.1] using member

/-- Creations are buffered by systems. -/
theorem creations_step (step : s.Step types label t) (buffered : s.Buffered) {rc : Nat}
    {compMap : CompMap V} (member : .createEntity arch id rc compMap ∈ t.pending) :
    .createEntity arch id rc compMap ∈ s.pending ∨
      ∃ worker hint, label = .createOnline worker arch hint compMap := by
  have same : t.pending = s.pending → .createEntity arch id rc compMap ∈ s.pending ∨
      ∃ worker hint, label = .createOnline worker arch hint compMap := fun eq => .inl (eq ▸ member)
  cases step with
  | create _ _ _ _ _ run => exact same (Machine.pending_access (createWithHint_ok run).2.1)
  | delete changed entity host run =>
    obtain ⟨buffer, -⟩ := delete_deleted run
    exact same (Machine.pending_access buffer)
  | deleteTerminating changed entity host run =>
    obtain ⟨buffer, -⟩ := delete_terminating run
    simp only [Machine.pending, host, buffer, Buffer.operations, List.mem_append,
      List.mem_singleton, reduceCtorEq, or_false] at member
    left
    simpa only [Machine.pending, host, Buffer.operations, List.mem_append] using member
  | setSimple _ _ _ _ _ _ run => exact same (Machine.pending_access (setSimple_ok run).2.1)
  | openIsotope _ _ _ _ _ run => exact same (Machine.pending_access (openIsotope_ok run).2.1)
  | setIsotope _ _ _ _ _ _ run => exact same (Machine.pending_access (setIsotope_ok run).2.1)
  | getIsotope _ _ _ _ _ _ _ run => exact same (Machine.pending_access (setIsotope_ok run).2.1)
  | cloneReference | dropReference => exact .inl member
  | execute assign host run =>
    left
    simpa only [Machine.pending, host, (forEalloc_ok run).2.1] using member
  | createOnline worker changed hint compMap' online _ run =>
    obtain ⟨-, ⟨items, found, buffer⟩, -⟩ := createEntityWithHintAndShard_ok run
    simp only [Machine.pending, online, buffer] at member
    rcases List.mem_cons.mp ((operations_push found _).mem_iff.mp member) with new | old
    · cases new
      exact .inr ⟨worker, hint, rfl⟩
    · left
      simpa only [Machine.pending, online] using old
  | deleteOnline worker changed entity online run =>
    obtain ⟨items, found, rfl⟩ := pushOperation_ok run
    simp only [Machine.pending, online] at member
    rcases List.mem_cons.mp ((operations_push found _).mem_iff.mp member) with new | old
    · cases new
    · left
      simpa only [Machine.pending, online] using old
  | join online =>
    left
    simpa only [Machine.pending, online, List.append_nil] using member
  | drainCreate draining run | drainDelete draining run =>
    left
    rw [pending_draining draining]
    exact .tail _ member
  | drainRerun draining run =>
    left
    rw [pending_draining draining]
    simp only [Machine.pending, List.mem_append, List.mem_singleton, reduceCtorEq,
      or_false] at member
    exact .tail _ (List.mem_append.mpr member)
  | flush drained run =>
    left
    rw [pending_draining drained]
    simp only [Machine.Buffered, drained] at buffered
    simpa only [Machine.pending, (forEalloc_ok run).2.1, Buffer.operations,
      (List.append_eq_nil_iff.mp buffered.1).2, List.append_nil, List.nil_append] using member

omit [∀ arch, Recycler (T arch) (Hint arch)] in
theorem pending_kept (traffic : Traffic types s label t) (other : ¬ Executes s label arch id)
    (member : .deleteEntity arch id ∈ s.pending) : .deleteEntity arch id ∈ t.pending := by
  cases traffic with
  | keep roll pending => exact pending.mem_iff.mpr member
  | create changed entity roll pending => exact pending ▸ member
  | createOnline changed entity rc compMap roll pending =>
    exact pending.mem_iff.mpr (.tail _ member)
  | init changed entity rc compMap roll pending =>
    rw [pending] at member
    rcases List.mem_cons.mp member with eq | member
    · cases eq
    · exact member
  | request changed entity roll pending => exact pending.mem_iff.mpr (.tail _ member)
  | free changed entity roll final completes =>
    rcases completes.pending.2 member with eq | member
    · cases eq
      refine absurd ?_ other
      rcases completes with ⟨label, -⟩ | ⟨label, todo, newQueue, draining, -⟩
      · exact .inl label
      · exact .inr ⟨label, todo, newQueue, draining⟩
    · exact member

/-! ## The invariant -/

/-- Every request is for an initialized entity and the only one for it. An
entity with a deletion flag has a request, and one with a request that ran has
the flag. -/
structure Flags (types : Types V) (trace : List (Machine.Transition w T Hint V))
    (s : Machine w T V) : Prop where
  books : Books s
  deletable : Deletable types s
  lone : ∀ arch, (deletes arch s.pending).Nodup
  ready : ∀ arch id, .deleteEntity arch id ∈ s.pending → id ∈ (s.roll arch).ready
  requested : ∀ arch id, .deleteEntity arch id ∈ s.pending → Requested arch id trace
  hidden : ∀ arch id rc compMap, .createEntity arch id rc compMap ∈ s.pending →
    compMap.removeSimple types.flag = none
  flagged : ∀ arch id, (s.world.getSimple arch types.flag id).isSome = true →
    .deleteEntity arch id ∈ s.pending
  waiting : ∀ arch id, .deleteEntity arch id ∈ s.reruns →
    (s.world.getSimple arch types.flag id).isSome = true

section Steps

variable {trace : List (Machine.Transition w T Hint V)}

/-- The request at hand is not pending twice. -/
theorem Flags.alone (flags : Flags types trace s) {todo newQueue : List (Operation V)}
    (draining : s.phase = .draining (.deleteEntity arch id :: todo) newQueue) :
    .deleteEntity arch id ∉ todo ++ newQueue := by
  have lone := flags.lone arch
  rw [pending_draining draining, List.cons_append] at lone
  simp only [deletes, List.filterMap_cons, if_true] at lone
  exact fun member => (List.nodup_cons.mp lone).1 (mem_deletes.mpr member)

theorem Books.initialized (books : Books s) (ready : id ∈ (s.roll arch).ready) :
    id ∉ creates arch s.pending := by
  intro waits
  have balance := books.accounted arch id
  have live := books.count_live_le arch id
  have := List.count_pos_iff.mpr ready
  have := List.count_pos_iff.mpr waits
  omega

theorem Flags.timely (flags : Flags types trace s)
    (once : ∀ arch id, Asks label arch id →
      id ∈ (s.roll arch).ready ∧ ¬ Requested arch id trace) : Timely types s label := by
  unfold Timely
  split
  · rename_i arch id
    obtain ⟨ready, fresh⟩ := once arch id (.inl rfl)
    exact ⟨flags.books.live_of_ready ready, fun _ member => fresh (flags.requested arch id member)⟩
  · rename_i worker arch id
    exact flags.books.live_of_ready (once arch id (.inr ⟨worker, rfl⟩)).1
  · intro arch id todo newQueue draining final
    refine ⟨flags.alone draining, fun _ waits => ?_⟩
    have listed : .deleteEntity arch id ∈ s.pending := by
      rw [pending_draining draining]
      exact .head _
    apply flags.books.initialized (flags.ready arch id listed)
    obtain ⟨rc, compMap, member⟩ := mem_creates.mp waits
    rw [pending_draining draining]
    exact mem_creates.mpr ⟨rc, compMap, .tail _ (List.mem_append_left _ member)⟩
  · trivial

/-- The entity of an executed request is initialized. -/
theorem Flags.executes_ready (flags : Flags types trace s)
    (once : ∀ arch id, Asks label arch id →
      id ∈ (s.roll arch).ready ∧ ¬ Requested arch id trace)
    (executes : Executes s label arch id) : id ∈ (s.roll arch).ready := by
  rcases executes with rfl | ⟨-, todo, newQueue, draining⟩
  · exact (once arch id (.inl rfl)).1
  · apply flags.ready arch id
    rw [pending_draining draining]
    exact .head _

theorem frees_executes (step : s.Step types label t) (buffered : s.Buffered)
    (frees : Frees s t arch id) :
    Executes s label arch id ∧ s.world.hasFinalizer types arch id = false := by
  cases step_traffic step buffered with
  | keep roll | request _ _ roll => exact absurd frees (not_frees (by rw [roll]))
  | create changed entity roll | createOnline changed entity rc compMap roll
  | init changed entity rc compMap roll =>
    exact absurd frees (not_frees (by rw [roll]; exact enroll_freed fun _ => rfl))
  | free changed entity roll final completes =>
    obtain ⟨rfl, rfl⟩ := enroll_free roll frees
    refine ⟨?_, final⟩
    rcases completes with ⟨label, -⟩ | ⟨label, todo, newQueue, draining, -⟩
    · exact .inl label
    · exact .inr ⟨label, todo, newQueue, draining⟩

omit [∀ arch, Recycler (T arch) (Hint arch)] in
theorem deletes_perm (arch : DbgTypeId) {ops ops' : List (Operation V)} (perm : ops.Perm ops') :
    (deletes arch ops).Perm (deletes arch ops') := perm.filterMap _

theorem Flags.lone_step (flags : Flags types trace s) (traffic : Traffic types s label t)
    (once : ∀ arch id, Asks label arch id →
      id ∈ (s.roll arch).ready ∧ ¬ Requested arch id trace) (arch : DbgTypeId) :
    (deletes arch t.pending).Nodup := by
  have lone := flags.lone arch
  cases traffic with
  | keep roll pending => exact (deletes_perm arch pending).nodup_iff.mpr lone
  | create changed entity roll pending => exact pending ▸ lone
  | createOnline changed entity rc compMap roll pending =>
    exact (deletes_perm arch pending).nodup_iff.mpr lone
  | init changed entity rc compMap roll pending =>
    rw [pending] at lone
    exact lone
  | request changed entity roll pending asked =>
    refine (deletes_perm arch pending).nodup_iff.mpr ?_
    simp only [deletes, List.filterMap_cons]
    split
    · exact lone
    · rename_i entity' here
      split at here
      · rename_i same
        cases here
        subst same
        refine List.nodup_cons.mpr ⟨fun member => ?_, lone⟩
        exact (once changed entity asked).2
          (flags.requested changed entity (mem_deletes.mp member))
      · cases here
  | free changed entity roll final completes =>
    rcases completes with ⟨-, same⟩ | ⟨-, todo, newQueue, draining, same⟩
    · exact same ▸ lone
    · rw [pending_draining draining, List.cons_append] at lone
      rw [same]
      exact lone.sublist ((List.sublist_cons_self ..).filterMap _)

theorem Flags.ready_step (flags : Flags types trace s) (traffic : Traffic types s label t)
    (timely : Timely types s label) (once : ∀ arch id, Asks label arch id →
      id ∈ (s.roll arch).ready ∧ ¬ Requested arch id trace)
    (member : .deleteEntity arch id ∈ t.pending) : id ∈ (t.roll arch).ready := by
  have before := flags.ready arch id
  have grown : ∀ {changed : DbgTypeId} {f : Roll → Roll}, (∀ r, r.ready ⊆ (f r).ready) →
      id ∈ (s.roll arch).ready → id ∈ ((s.enroll changed f) arch).ready := by
    intro changed f grows ready
    by_cases same : arch = changed
    · subst same
      rw [enroll_same]
      exact grows _ ready
    · rw [enroll_other same]
      exact ready
  cases traffic with
  | keep roll pending => exact roll ▸ before (pending.mem_iff.mp member)
  | create changed entity roll pending =>
    exact roll ▸ grown (fun r => List.subset_cons_self ..) (before (pending ▸ member))
  | createOnline changed entity rc compMap roll pending =>
    rcases List.mem_cons.mp (pending.mem_iff.mp member) with new | old
    · cases new
    · exact roll ▸ grown (fun r => List.Subset.refl _) (before old)
  | init changed entity rc compMap roll pending =>
    exact roll ▸ grown (fun r => List.subset_cons_self ..) (before (pending ▸ .tail _ member))
  | request changed entity roll pending asked =>
    rw [roll]
    rcases List.mem_cons.mp (pending.mem_iff.mp member) with new | old
    · cases new
      exact (once arch id asked).1
    · exact before old
  | free changed entity roll final completes =>
    have ready := before (completes.pending.1 member)
    have last := timely.last final completes
    rw [roll]
    by_cases same : arch = changed
    · subst same
      rw [enroll_same]
      refine (List.mem_erase_of_ne ?_).mpr ready
      rintro rfl
      exact last member
    · rw [enroll_other same]
      exact ready

/-- A live entity is not created again. -/
theorem Books.not_created (books : Books t) (traffic : Traffic types s label t)
    (live : id ∈ (s.roll arch).live) :
    (t.roll arch).created ≠ id :: (s.roll arch).created := by
  have nodup := books.live_nodup arch
  have others : ∀ {changed : DbgTypeId} {f : Roll → Roll}, t.roll = s.enroll changed f →
      (arch = changed → (f (s.roll arch)).created ≠ id :: (s.roll arch).created) →
      (t.roll arch).created ≠ id :: (s.roll arch).created := by
    intro changed f roll here
    rw [roll]
    by_cases same : arch = changed
    · subst same
      rw [enroll_same]
      exact here rfl
    · rw [enroll_other same]
      exact (List.cons_ne_self id _).symm
  have fresh : ∀ {changed : DbgTypeId} {f : Roll → Roll} {entity : Nat},
      t.roll = s.enroll changed f → (∀ r, (f r).live = entity :: r.live) →
      (∀ r, (f r).created = entity :: r.created) →
      (t.roll arch).created ≠ id :: (s.roll arch).created := by
    intro changed f entity roll lives creates
    apply others roll
    rintro rfl grows
    rw [creates, List.cons.injEq] at grows
    rw [roll, enroll_same, lives, grows.1] at nodup
    exact (List.nodup_cons.mp nodup).1 live
  cases traffic with
  | keep roll | request _ _ roll =>
    rw [roll]
    exact (List.cons_ne_self id _).symm
  | create changed entity roll => exact fresh roll (fun _ => rfl) fun _ => rfl
  | createOnline changed entity rc compMap roll => exact fresh roll (fun _ => rfl) fun _ => rfl
  | init changed entity rc compMap roll =>
    exact others roll fun _ => (List.cons_ne_self id _).symm
  | free changed entity roll => exact others roll fun _ => (List.cons_ne_self id _).symm

theorem Flags.requested_step (flags : Flags types trace s) (traffic : Traffic types s label t)
    (books : Books t) (member : .deleteEntity arch id ∈ t.pending) :
    Requested arch id (⟨s, label, t⟩ :: trace) := by
  have old : .deleteEntity arch id ∈ s.pending → Requested arch id (⟨s, label, t⟩ :: trace) := by
    intro member
    have live := flags.books.live_of_ready (flags.ready arch id member)
    exact .inr ⟨books.not_created traffic live, flags.requested arch id member⟩
  cases traffic with
  | keep roll pending => exact old (pending.mem_iff.mp member)
  | create changed entity roll pending => exact old (pending ▸ member)
  | createOnline changed entity rc compMap roll pending =>
    rcases List.mem_cons.mp (pending.mem_iff.mp member) with new | before
    · cases new
    · exact old before
  | init changed entity rc compMap roll pending => exact old (pending ▸ .tail _ member)
  | request changed entity roll pending asked =>
    rcases List.mem_cons.mp (pending.mem_iff.mp member) with new | before
    · cases new
      exact .inl asked
    · exact old before
  | free changed entity roll final completes => exact old (completes.pending.1 member)

theorem Flags.waiting_step (flags : Flags types trace s) (step : s.Step types label t)
    (once : ∀ arch id, Asks label arch id →
      id ∈ (s.roll arch).ready ∧ ¬ Requested arch id trace) (hidden : Unflagged types label)
    (member : .deleteEntity arch id ∈ t.reruns) :
    (t.world.getSimple arch types.flag id).isSome = true := by
  by_cases executes : Executes s label arch id
  · have execution := executes_execution step executes
    rw [execution.flag]
    cases execution with
    | terminating final => exact final
    | deleted final roll reruns =>
      rw [reruns] at member
      rcases executes with rfl | ⟨-, todo, newQueue, draining⟩
      · refine absurd ?_ (once arch id (.inl rfl)).2
        exact flags.requested arch id (Machine.mem_pending_of_reruns member)
      · simp only [Machine.reruns, draining] at member
        exact absurd (List.mem_append_right _ member) (flags.alone draining)
  · rw [step_flag step executes hidden flags.hidden]
    exact flags.waiting arch id (reruns_step step executes member)

theorem flags_step (flags : Flags types trace s) (step : s.Step types label t)
    (buffered : s.Buffered) (once : ∀ arch id, Asks label arch id →
      id ∈ (s.roll arch).ready ∧ ¬ Requested arch id trace) (hidden : Unflagged types label) :
    Flags types (⟨s, label, t⟩ :: trace) t := by
  have traffic := step_traffic step buffered
  have timely := flags.timely once
  have books : Books t := books_step step buffered
    (fun arch id frees => flags.executes_ready once (frees_executes step buffered frees).1)
    flags.books
  refine ⟨books, deletable_step step buffered timely flags.deletable,
    flags.lone_step traffic once, fun arch id => flags.ready_step traffic timely once,
    fun arch id => flags.requested_step traffic books, fun arch id rc compMap member => ?_,
    fun arch id flagged => ?_, fun arch id => flags.waiting_step step once hidden⟩
  · rcases creations_step step buffered member with old | ⟨worker, hint, rfl⟩
    · exact flags.hidden arch id rc compMap old
    · exact hidden
  · by_cases executes : Executes s label arch id
    · have execution := executes_execution step executes
      rw [execution.flag] at flagged
      cases execution with
      | deleted final => cases flagged.symm.trans final
      | terminating _ _ _ pending => exact pending
    · rw [step_flag step executes hidden flags.hidden] at flagged
      exact pending_kept traffic executes (flags.flagged arch id flagged)

end Steps

theorem flags_start (width : ∀ arch, 0 < w arch) {b : Builder U V}
    (registered : b.AllRegistered types) :
    Flags types ([] : List (Machine.Transition w T Hint V)) (.start b) := by
  have idle : (.start b : Machine w T V).pending = [] := build_operations b
  refine ⟨books_start width b, deletable_start width registered, fun arch => ?_,
    fun arch id member => ?_, fun arch id member => ?_, fun arch id rc compMap member => ?_,
    fun arch id flagged => ?_, nofun⟩
  · rw [idle]
    exact .nil
  · rw [idle] at member
    cases member
  · rw [idle] at member
    cases member
  · rw [idle] at member
    cases member
  · change ((b.build : World w T V).getSimple arch types.flag id).isSome = true at flagged
    cases found : (b.build : World w T V).archetypes.lookup arch with
    | none =>
      rw [getSimple, found] at flagged
      cases flagged
    | some a =>
      rw [getSimple_lookup found] at flagged
      rw [build_lookup] at found
      obtain ⟨typed, known, rfl⟩ := Option.map_eq_some_iff.mp found
      rw [(registered arch typed known).blank.simple] at flagged
      cases flagged

theorem flags_run (width : ∀ arch, 0 < w arch) {b : Builder U V}
    (registered : b.AllRegistered types) {trace : List (Machine.Transition w T Hint V)}
    (run : Machine.Run types (.start b) trace s) (once : Once trace)
    (hidden : ∀ t ∈ trace, Unflagged types t.label) : Flags types trace s := by
  induction run with
  | start => exact flags_start width registered
  | next past step ih =>
    obtain ⟨now, hidden⟩ := List.forall_mem_cons.mp hidden
    exact flags_step (ih once.2 hidden) step (buffered_run past) once.1 now

/-! ## Drained operations -/

/-- Operations that ran one after the other, with their results. -/
inductive Ran (types : Types V) (first : World w T V) :
    List (Operation V × OperationResult) → World w T V → Prop
  | start : Ran types first [] first
  | next {ran world op result world'} : Ran types first ran world →
      world.runOperation types op = .ok (result, world') →
      Ran types first (ran ++ [(op, result)]) world'

/-- The operations that asked to be rerun. -/
def askedRerun (ran : List (Operation V × OperationResult)) : List (Operation V) :=
  (ran.filter fun r => r.2 = .queueForRerun).map Prod.fst

omit [∀ arch, Recycler (T arch) (Hint arch)] in
/-- All operations run once, in order, and those that ask for it are queued
again, in order. -/
theorem drainCycle_ran {world world' : World w T V} (h : world.drainCycle types = .ok world') :
    ∃ ran drained, Ran types { world with
        offlineBuffer := ⟨[], world.offlineBuffer.shards.map fun _ => []⟩ } ran drained ∧
      ran.map Prod.fst = world.offlineBuffer.operations ∧
      world' = { drained with
        offlineBuffer := { drained.offlineBuffer with rerunQueue := askedRerun ran } } := by
  obtain ⟨⟨drained, newQueue⟩, run, h⟩ := bind_eq_ok.mp h
  cases h
  have swept := foldlM_ok run (fun past r => ∃ ran, Ran types { world with
    offlineBuffer := ⟨[], world.offlineBuffer.shards.map fun _ => []⟩ } ran r.1 ∧
    ran.map Prod.fst = past ∧ r.2 = askedRerun ran) ⟨[], .start, rfl, rfl⟩ ?_
  · obtain ⟨ran, runs, operations, queue⟩ := swept
    exact ⟨ran, drained, runs, operations, by rw [← queue]⟩
  · rintro past op ⟨before, queue⟩ ⟨after, queue'⟩ - ⟨ran, runs, rfl, rfl⟩ drain
    obtain ⟨⟨result, world₁⟩, run, drain⟩ := bind_eq_ok.mp drain
    cases result with
    | ok =>
      cases drain
      refine ⟨_, .next runs run, by simp, ?_⟩
      simp [askedRerun]
    | queueForRerun =>
      cases drain
      refine ⟨_, .next runs run, by simp, ?_⟩
      simp [askedRerun]

/-- The steps of a run that drain the buffer are those of `drain_cycle`. -/
theorem drainCycle_run {assign : DbgTypeId → List Nat} {snapshots : HashMap DbgTypeId Snapshot}
    (online : s.phase = .online assign snapshots) {world : World w T V}
    (h : s.world.drainCycle types = .ok world) :
    ∃ (trace : List (Machine.Transition w T Hint V)) (t : Machine w T V),
      Machine.Run types s trace t ∧
      t.phase = .draining [] world.offlineBuffer.rerunQueue ∧
      world = { t.world with
        offlineBuffer := { t.world.offlineBuffer with
          rerunQueue := world.offlineBuffer.rerunQueue } } := by
  obtain ⟨⟨drained, newQueue⟩, run, h⟩ := bind_eq_ok.mp h
  cases h
  have swept := foldlM_ok_split run (fun past r =>
    ∃ (trace : List (Machine.Transition w T Hint V)) (t : Machine w T V),
      Machine.Run types s trace t ∧
      t.phase = .draining (s.world.offlineBuffer.operations.drop past.length) r.2 ∧
      t.world = r.1) ⟨_, _, .next .start (.join online), rfl, rfl⟩ ?_
  · obtain ⟨trace, t, runs, phase, rfl⟩ := swept
    rw [List.drop_length] at phase
    exact ⟨trace, t, runs, phase, rfl⟩
  · rintro past op rest ⟨before, queue⟩ ⟨after, queue'⟩ split ⟨trace, t, runs, phase, rfl⟩ drain
    rw [split, List.drop_left] at phase
    have left : (past ++ op :: rest).drop (past ++ [op]).length = rest := by
      rw [List.append_cons past op rest, List.drop_left]
    rw [split, left]
    have ran := drainOperation_ok drain
    cases op with
    | createEntity changed entity rc compMap =>
      obtain ⟨init, rfl⟩ := ran
      exact ⟨_, _, .next runs (.drainCreate phase init), rfl, rfl⟩
    | deleteEntity changed entity =>
      rcases ran with ⟨flag, rfl⟩ | ⟨flag, rfl⟩
      · exact ⟨_, _, .next runs (.drainDelete phase flag), rfl, rfl⟩
      · exact ⟨_, _, .next runs (.drainRerun phase flag), rfl, rfl⟩

/-! ## Finalizers -/

/-- The execution of a request does not change the components of other
entities. -/
theorem Execution.frame (execution : Execution types s t arch id) {arch' : DbgTypeId} {id' : Nat}
    (other : ¬ (arch' = arch ∧ id' = id)) (comp : DbgTypeId) :
    t.world.getSimple arch' comp id' = s.world.getSimple arch' comp id' ∧
      ∀ discrim, t.world.getIsotope arch' comp discrim id' =
        s.world.getIsotope arch' comp discrim id' := by
  have frame : ∀ {R : Archetype (w arch) (T arch) V → Archetype (w arch) (T arch) V → Prop},
      Touches s.world t.world arch R → (∀ a a', R a a' → ∀ i, i ≠ id →
        a'.typed.getSimple comp i = a.typed.getSimple comp i ∧
        ∀ d, a'.typed.getIsotope comp d i = a.typed.getIsotope comp d i) →
      t.world.getSimple arch' comp id' = s.world.getSimple arch' comp id' ∧
        ∀ discrim, t.world.getIsotope arch' comp discrim id' =
          s.world.getIsotope arch' comp discrim id' := by
    intro R touches same
    by_cases here : arch' = arch
    · subst here
      obtain ⟨a, a', before, after, change⟩ := touches.here
      rw [getSimple_lookup before, getSimple_lookup after]
      simp only [getIsotope_lookup before, getIsotope_lookup after]
      exact same a a' change id' fun eq => other ⟨rfl, eq⟩
    · simp only [getSimple, getIsotope, touches.others arch' here]
      exact ⟨trivial, fun _ => trivial⟩
  cases execution with
  | deleted _ _ _ touches =>
    apply frame touches
    rintro a a' ⟨e, deleted⟩ i differ
    rw [deleted_getSimple deleted, if_neg differ]
    exact ⟨rfl, fun d => deleted_getIsotope deleted comp d i⟩
  | terminating _ _ _ _ touches =>
    apply frame touches
    rintro a a' ⟨e, flagged⟩ i differ
    obtain ⟨-, isotopes, -, values⟩ := Typed.setSimple_ok flagged.typed
    rw [values, if_neg fun both => differ both.2]
    exact ⟨rfl, fun d => Typed.getIsotope_congr isotopes comp d i⟩

theorem Execution.frees_iff (execution : Execution types s t arch id) :
    Frees s t arch id ↔ ¬ Finalizing types s.world arch id := by
  rw [finalizing_iff]
  cases execution with
  | deleted final roll =>
    refine iff_of_true ?_ (by rw [final]; exact Bool.false_ne_true)
    rw [Frees, roll, enroll_same]
    rfl
  | terminating final roll => exact iff_of_false (not_frees (by rw [roll])) (by simp [final])

/-- The result of a deletion tells whether a finalizer is present. -/
theorem flagDeleteEntity_result {world world' : World w T V} {result : DeleteResult}
    (h : world.flagDeleteEntity types arch id = .ok (result, world')) :
    result = .terminating ↔ Finalizing types world arch id := by
  rw [finalizing_iff]
  obtain ⟨⟨rfl, touches⟩ | ⟨rfl, touches⟩, -⟩ := flagDeleteEntity_ok h
  · obtain ⟨a, a', before, -, flagged⟩ := touches.here
    exact iff_of_true rfl (flagged.hasFinalizer (e := a.ealloc) before)
  · obtain ⟨a, a', before, -, deleted⟩ := touches.here
    rw [deleted.hasFinalizer (e := a.ealloc) before]
    exact iff_of_false nofun nofun

theorem delete_result {world world' : World w T V} {result : DeleteResult}
    (h : world.delete types arch id = .ok (result, world')) :
    result = .terminating ↔ Finalizing types world arch id := by
  rw [finalizing_iff]
  obtain ⟨⟨rfl, -, touches⟩ | ⟨rfl, -, touches⟩, -⟩ := delete_ok h
  · obtain ⟨a, a', before, -, deleted⟩ := touches.here
    rw [deleted.hasFinalizer before]
    exact iff_of_false nofun nofun
  · obtain ⟨a, a', before, -, flagged⟩ := touches.here
    exact iff_of_true rfl (flagged.hasFinalizer before)

theorem Flags.host_iff {trace : List (Machine.Transition w T Hint V)}
    (flags : Flags types trace s) (buffered : s.Buffered) (host : s.phase = .host) :
    (s.world.getSimple arch types.flag id).isSome = true ↔
      (deletes arch s.world.offlineBuffer.rerunQueue).count id = 1 := by
  have pending : s.pending = s.world.offlineBuffer.rerunQueue := by
    simp only [Machine.Buffered, host] at buffered
    simp only [Machine.pending, host, Buffer.operations, buffered.1, List.append_nil]
  have reruns : s.reruns = s.world.offlineBuffer.rerunQueue := by
    simp only [Machine.reruns, host]
  have lone := flags.lone arch
  rw [pending] at lone
  constructor
  · intro flagged
    have member := flags.flagged arch id flagged
    rw [pending] at member
    exact List.count_eq_one_of_mem lone (mem_deletes.mpr member)
  · intro one
    have member : id ∈ deletes arch s.world.offlineBuffer.rerunQueue :=
      List.count_pos_iff.mp (by omega)
    exact flags.waiting arch id (reruns ▸ mem_deletes.mp member)

theorem finalizer_steps (width : ∀ arch, 0 < w arch) {b : Builder U V}
    (registered : b.AllRegistered types) {trace : List (Machine.Transition w T Hint V)}
    (run : Machine.Run types (.start b) trace s) (once : Once trace)
    (hidden : ∀ t ∈ trace, Unflagged types t.label) :
    ∀ t ∈ trace, ∀ arch id,
      (Frees t.before t.after arch id ↔ Executes t.before t.label arch id ∧
        ¬ Finalizing types t.before.world arch id) ∧
      (Frees t.before t.after arch id →
        id ∈ (t.before.roll arch).live ∧ id ∉ (t.after.roll arch).live) ∧
      (Executes t.before t.label arch id → ∀ arch' id' comp, ¬ (arch' = arch ∧ id' = id) →
        t.after.world.getSimple arch' comp id' = t.before.world.getSimple arch' comp id' ∧
        ∀ discrim, t.after.world.getIsotope arch' comp discrim id' =
          t.before.world.getIsotope arch' comp discrim id') := by
  induction run with
  | start => exact nofun
  | @next trace s label t past step ih =>
    obtain ⟨now, hidden⟩ := List.forall_mem_cons.mp hidden
    have buffered := buffered_run past
    have flags := flags_run width registered past once.2 hidden
    refine List.forall_mem_cons.mpr ⟨fun arch id => ⟨⟨fun frees => ?_, ?_⟩, fun frees => ?_, ?_⟩,
      ih once.2 hidden⟩
    · obtain ⟨executes, -⟩ := frees_executes step buffered frees
      exact ⟨executes, (executes_execution step executes).frees_iff.mp frees⟩
    · rintro ⟨executes, final⟩
      exact (executes_execution step executes).frees_iff.mpr final
    · obtain ⟨executes, -⟩ := frees_executes step buffered frees
      refine ⟨flags.books.live_of_ready (flags.executes_ready once.1 executes), ?_⟩
      cases executes_execution step executes with
      | terminating final roll => exact absurd frees (not_frees (by rw [roll]))
      | deleted final roll =>
        rw [roll, enroll_same]
        exact (flags.books.live_nodup arch).not_mem_erase
    · intro executes arch' id' comp other
      exact (executes_execution step executes).frame other comp

/-- **Finalizers.** In every run in which each entity is requested for deletion
at most once, after its initialization: when host code is in control, a live
entity has the deletion flag if and only if exactly one deletion of it is queued
for the next cycle. An entity is freed exactly when its request is executed
without a finalizer present, and the execution returns if no strong references
are left then. Draining the buffer queues exactly the operations that asked for
it, in order. Executing a request changes no component of another entity. -/
theorem finalizer_states [DecidableEq U] (width : ∀ arch, 0 < w arch) {b : Builder U V}
    {systems : List (Node × System U)} (scheduled : Scheduled types b systems)
    {trace : List (Machine.Transition w T Hint V)} (run : Machine.Run types (.start b) trace s)
    (once : Once trace) (hidden : ∀ t ∈ trace, Unflagged types t.label) :
    (s.phase = .host → ∀ arch, ∀ id ∈ (s.roll arch).live,
      ((s.world.getSimple arch types.flag id).isSome = true ↔
        (deletes arch s.world.offlineBuffer.rerunQueue).count id = 1)) ∧
    (∀ t ∈ trace, ∀ arch id,
      (Frees t.before t.after arch id ↔ Executes t.before t.label arch id ∧
        ¬ Finalizing types t.before.world arch id) ∧
      (Frees t.before t.after arch id →
        id ∈ (t.before.roll arch).live ∧ id ∉ (t.after.roll arch).live) ∧
      (Executes t.before t.label arch id → ∀ arch' id' comp, ¬ (arch' = arch ∧ id' = id) →
        t.after.world.getSimple arch' comp id' = t.before.world.getSimple arch' comp id' ∧
        ∀ discrim, t.after.world.getIsotope arch' comp discrim id' =
          t.before.world.getIsotope arch' comp discrim id')) ∧
    (∀ arch id, s.phase = .host → id ∈ (s.roll arch).ready → Dropped types s arch id →
      ∃ result world, s.world.delete types arch id = .ok (result, world) ∧
        (result = .terminating ↔ Finalizing types s.world arch id)) ∧
    (∀ arch id todo newQueue, s.phase = .draining (.deleteEntity arch id :: todo) newQueue →
      Dropped types s arch id →
      ∃ result world, s.world.flagDeleteEntity types arch id = .ok (result, world) ∧
        (result = .terminating ↔ Finalizing types s.world arch id)) ∧
    ∀ world, s.world.drainCycle types = .ok world → ∃ ran drained,
      Ran types { s.world with
        offlineBuffer := ⟨[], s.world.offlineBuffer.shards.map fun _ => []⟩ } ran drained ∧
      ran.map Prod.fst = s.world.offlineBuffer.operations ∧
      world = { drained with
        offlineBuffer := { drained.offlineBuffer with rerunQueue := askedRerun ran } } := by
  have registered := scheduled_registered scheduled
  have flags := flags_run width registered run once hidden
  have buffered := buffered_run run
  refine ⟨fun host arch id _ => flags.host_iff buffered host,
    finalizer_steps width registered run once hidden, ?_, ?_, fun world => drainCycle_ran⟩
  · intro arch id host ready dropped
    obtain ⟨⟨result, world⟩, done⟩ := flags.deletable.delete_total buffered host
      (flags.books.live_of_ready ready) dropped
    exact ⟨result, world, done, delete_result done⟩
  · intro arch id todo newQueue draining dropped
    have timely : Timely types s (.drain : Label Hint V) := by
      apply flags.timely
      intro arch id asks
      rcases asks with asks | ⟨worker, asks⟩
      · cases asks
      · cases asks
    obtain ⟨⟨result, world⟩, done⟩ := flags.deletable.drain_total buffered draining timely dropped
    exact ⟨result, world, done, flagDeleteEntity_result done⟩

/-- The simple components of the example are finalizers. -/
def finalTypes : Types Nat := { plainTypes with simpleOf := fun _ _ => ⟨.optional, .none, true⟩ }

def finalization : Builder Nat Nat :=
  ((Builder.new finalTypes 0).schedule finalTypes reader).toOption.get rfl

/-- After a cycle in which its finalizer was present, the entity has its flag and
its request. -/
theorem finalizer_states_waiting : ∃ (trace : PlainTrace) (s : PlainMachine),
    Machine.Run finalTypes (.start finalization) trace s ∧
    (s.world.getSimple ⟨0⟩ finalTypes.flag 1).isSome = true ∧ (s.roll ⟨0⟩).freed = [] := by
  have scheduled : Scheduled finalTypes finalization [(.sendSystem 0, reader)] :=
    .schedule reader rfl (.new 0)
  have run : ∃ (trace : PlainTrace) (s : PlainMachine),
      Machine.Run finalTypes (.start finalization) trace s ∧ Once trace ∧
      (∀ t ∈ trace, Unflagged finalTypes t.label) ∧ s.phase = .host ∧
      (s.roll ⟨0⟩).live = [1] ∧ (s.roll ⟨0⟩).freed = [] ∧
      (deletes ⟨0⟩ s.world.offlineBuffer.rerunQueue).count 1 = 1 := by
    refine ⟨_, _, .next (.next (.next (.next (.next (.next (.next .start
      (.create ⟨0⟩ 0 () ⟨AList.singleton ⟨1⟩ 5, ∅⟩ rfl rfl)) (.dropReference 0 trivial))
      (.deleteTerminating ⟨0⟩ 1 rfl rfl)) (.execute (fun _ => [0]) rfl rfl rfl (by decide)))
      (.join rfl)) (.drainRerun rfl rfl)) (.flush rfl rfl), ?_, ?_, rfl, rfl, rfl, rfl⟩
    · refine ⟨?_, ?_, ?_, ?_, ?_, ?_, ?_, trivial⟩
      all_goals intro arch id asks
      all_goals rcases asks with asks | ⟨worker, asks⟩
      all_goals cases asks
      refine ⟨.head _, ?_⟩
      rintro (asks | ⟨-, asks | ⟨fresh, -⟩⟩)
      · rcases asks with asks | ⟨worker, asks⟩
        · cases asks
        · cases asks
      · rcases asks with asks | ⟨worker, asks⟩
        · cases asks
        · cases asks
      · exact fresh rfl
    · rintro t (_ | ⟨_, _ | ⟨_, _ | ⟨_, _ | ⟨_, _ | ⟨_, _ | ⟨_, _ | ⟨_, ⟨⟩⟩⟩⟩⟩⟩⟩⟩)
      all_goals trivial
  obtain ⟨trace, s, run, once, hidden, host, live, freed, queued⟩ := run
  have states := finalizer_states (fun _ => by decide) scheduled run once hidden
  refine ⟨trace, s, run, (states.1 host ⟨0⟩ 1 (by rw [live]; exact .head _)).mpr queued, freed⟩

end Dynec.World
