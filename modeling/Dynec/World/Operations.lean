import Dynec.World.Finalizers
import Dynec.World.Handover

/-!
# Buffered operations

Every operation that is buffered runs to its end once. A cycle first reruns the
deletions that wait from before, then runs what each worker has pushed, worker
by worker and in the order of the pushes.
-/

namespace Dynec.World

open Entity (Recycler Snapshot)
open Machine (Transition Run)

variable {U V : Type} {w : DbgTypeId → Nat} {T Hint : DbgTypeId → Type}

/-- The worker on which a system acts. -/
def Label.worker : Label Hint V → Option Nat
  | .createOnline worker _ _ _ | .deleteOnline worker _ _ => some worker
  | _ => none

/-- The operation that a transition adds to the buffer. -/
def pushed (t : Transition w T Hint V) : Option (Operation V) :=
  match t.label with
  | .createOnline _ arch _ compMap => (t.after.roll arch).created.head?.map fun id =>
      .createEntity arch id t.before.world.references.length compMap
  | .deleteOnline _ arch id => some (.deleteEntity arch id)
  | .delete arch id =>
    if (t.after.roll arch).freed = (t.before.roll arch).freed then some (.deleteEntity arch id)
    else none
  | _ => none

def pushedBy (worker : Nat) (t : Transition w T Hint V) : Option (Operation V) :=
  if t.label.worker = some worker then pushed t else none

/-- The operation that a transition runs. -/
def processed (t : Transition w T Hint V) : Option (Operation V) :=
  match t.label, t.before.phase with
  | .drain, .draining (op :: _) _ => some op
  | _, _ => none

/-- Whether the operation of a transition is queued for the next cycle. -/
def queued (t : Transition w T Hint V) : Bool :=
  match t.before.phase, t.after.phase with
  | .draining _ newQueue, .draining _ newQueue' => decide (newQueue.length < newQueue'.length)
  | _, _ => false

def completed (t : Transition w T Hint V) : Option (Operation V) :=
  (processed t).filter fun _ => !queued t

def rerun (t : Transition w T Hint V) : Option (Operation V) :=
  (processed t).filter fun _ => queued t

variable [∀ arch, Recycler (T arch) (Hint arch)] {types : Types V} {s t : Machine w T V}
  {label : Label Hint V}

omit [∀ arch, Recycler (T arch) (Hint arch)] in
theorem pushed_createOnline {worker : Nat} {arch : DbgTypeId} {hint : Hint arch}
    {compMap : CompMap V} {id : Nat} {world : World w T V} {phase : Phase V} :
    pushed ⟨s, .createOnline worker arch hint compMap,
      ⟨world, phase, s.enroll arch (·.create id)⟩⟩ =
      some (.createEntity arch id s.world.references.length compMap) := by
  have created : (s.enroll arch (·.create id) arch).created = id :: (s.roll arch).created := by
    rw [enroll_same]
    rfl
  simp only [pushed, created, List.head?_cons, Option.map_some]

omit [∀ arch, Recycler (T arch) (Hint arch)] in
theorem completed_drain {op : Operation V} {todo newQueue todo' newQueue' : List (Operation V)}
    (before : s.phase = .draining (op :: todo) newQueue)
    (after : t.phase = .draining todo' newQueue') :
    completed (⟨s, .drain, t⟩ : Transition w T Hint V) =
      if newQueue.length < newQueue'.length then none else some op := by
  simp only [completed, processed, queued, before, after]
  by_cases grown : newQueue.length < newQueue'.length
  · simp [grown]
  · simp [grown]

/-- A step adds an operation to those pending or completes one of them. -/
theorem conserved_step (step : s.Step types label t) (buffered : s.Buffered) :
    ((pushed ⟨s, label, t⟩).toList ++ s.pending).Perm
      ((completed ⟨s, label, t⟩).toList ++ t.pending) := by
  cases step with
  | create changed shardId hint compMap host run =>
    exact .of_eq (Machine.pending_access (createWithHint_ok run).2.1).symm
  | delete changed id host run =>
    have freed : (s.enroll changed (·.free id) changed).freed ≠ (s.roll changed).freed := by
      rw [enroll_same]
      exact List.cons_ne_self id _
    simp only [pushed, if_neg freed]
    exact .of_eq (Machine.pending_access (delete_deleted run).1).symm
  | deleteTerminating changed id host run =>
    simp only [Machine.Buffered, host] at buffered
    simp only [pushed, if_true]
    simp only [Machine.pending, host, (delete_terminating run).1, Buffer.operations, buffered.1,
      List.append_nil]
    exact (List.perm_append_singleton ..).symm
  | setSimple _ _ _ _ _ _ run =>
    exact .of_eq (Machine.pending_access (setSimple_ok run).2.1).symm
  | openIsotope _ _ _ _ _ run =>
    exact .of_eq (Machine.pending_access (openIsotope_ok run).2.1).symm
  | setIsotope _ _ _ _ _ _ run | getIsotope _ _ _ _ _ _ _ run =>
    exact .of_eq (Machine.pending_access (setIsotope_ok run).2.1).symm
  | cloneReference | dropReference => exact .of_eq (Machine.pending_access rfl).symm
  | @execute assign world snapshots host flushed =>
    apply List.Perm.of_eq
    change s.pending = Machine.pending ⟨world, .online assign snapshots, s.roll⟩
    simp only [Machine.pending, host, (forEalloc_ok flushed).2.1]
  | @createOnline worker changed hint compMap assign snapshots shardId id world online _ run =>
    obtain ⟨-, ⟨items, found, buffer⟩, -⟩ := createEntityWithHintAndShard_ok run
    rw [pushed_createOnline]
    simp only [Machine.pending, online, buffer]
    exact (operations_push found _).symm
  | deleteOnline worker changed id online run =>
    obtain ⟨items, found, rfl⟩ := pushOperation_ok run
    simp only [pushed, Machine.pending, online]
    exact (operations_push found _).symm
  | @join assign snapshots online =>
    apply List.Perm.of_eq
    change s.pending = s.world.offlineBuffer.operations ++ []
    simp only [Machine.pending, online, List.append_nil]
  | drainCreate draining run | drainDelete draining run =>
    rw [completed_drain draining rfl, if_neg (Nat.lt_irrefl _), pending_draining draining]
    exact .refl _
  | drainRerun draining run =>
    rw [completed_drain draining rfl, if_pos (by simp), pending_draining draining]
    simp only [Machine.pending, ← List.append_assoc]
    exact (List.perm_append_singleton ..).symm
  | @flush newQueue world drained run =>
    simp only [Machine.Buffered, drained] at buffered
    have none : processed (⟨s, .flush, ⟨world, .host, s.roll⟩⟩ : Transition w T Hint V) = none := rfl
    rw [completed, none]
    simp only [Machine.pending, drained, (forEalloc_ok run).2.1, Buffer.operations,
      (List.append_eq_nil_iff.mp buffered.1).2, List.nil_append, List.append_nil]
    exact .refl _

theorem filterMap_one {α β : Type} (f : α → Option β) (a : α) : [a].filterMap f = (f a).toList := by
  cases found : f a <;> simp [found]

/-- Between cycles only deletions are pending. -/
theorem Machine.Buffered.host (buffered : s.Buffered) (host : s.phase = .host)
    {op : Operation V} (member : op ∈ s.pending) : ∃ arch id, op = .deleteEntity arch id := by
  simp only [Machine.Buffered, host] at buffered
  simp only [Machine.pending, host, Buffer.operations, buffered.1, List.append_nil] at member
  cases op with
  | deleteEntity arch id => exact ⟨arch, id, rfl⟩
  | createEntity arch id rc compMap =>
    have waits := mem_creates.mpr ⟨rc, compMap, member⟩
    rw [buffered.2 arch] at waits
    cases waits

/-- **No operation is lost or run twice.** In every run, the operations that
systems and host code have buffered are those that have completed and those that
are pending, each as often; between cycles all the pending ones are deletions. -/
theorem operations_conserved {b : Builder U V} {trace : List (Transition w T Hint V)}
    (run : Run types (.start b) trace s) :
    (trace.filterMap pushed).Perm (trace.filterMap completed ++ s.pending) ∧
    (s.phase = .host → ∀ op ∈ s.pending, ∃ arch id, op = .deleteEntity arch id) := by
  refine ⟨?_, fun host op => (buffered_run run).host host⟩
  induction run with
  | start =>
    change List.Perm [] (b.build : World w T V).offlineBuffer.operations
    rw [build_operations]
  | @next trace s label t past step ih =>
    have here := conserved_step step (buffered_run past)
    rw [← List.singleton_append, List.filterMap_append, List.filterMap_append]
    rw [filterMap_one, filterMap_one]
    have moved := (ih.append_left (pushed ⟨s, label, t⟩).toList).trans
      (List.perm_append_comm_assoc ..)
    have changed := moved.trans (here.append_left _)
    rw [List.append_assoc]
    exact changed.trans (List.perm_append_comm_assoc ..)

theorem operations_conserved_rerun : ∃ (trace : PlainTrace) (s : PlainMachine),
    Run finalTypes (.start finalization) trace s ∧ s.phase = .host ∧
    trace.filterMap completed = [.createEntity ⟨0⟩ 2 1 noComponents] ∧
    (trace.filterMap pushed).Perm
      [.createEntity ⟨0⟩ 2 1 noComponents, .deleteEntity ⟨0⟩ 1] := by
  obtain ⟨trace, s, run, host, done, waits⟩ : ∃ (trace : PlainTrace) (s : PlainMachine),
      Run finalTypes (.start finalization) trace s ∧ s.phase = .host ∧
      trace.filterMap completed = [.createEntity ⟨0⟩ 2 1 noComponents] ∧
      s.pending = [.deleteEntity ⟨0⟩ 1] := by
    exact ⟨_, _, .next (.next (.next (.next (.next (.next (.next (.next (.next .start
      (.create ⟨0⟩ 0 () ⟨AList.singleton ⟨1⟩ 5, ∅⟩ rfl rfl)) (.dropReference 0 trivial))
      (.deleteTerminating ⟨0⟩ 1 rfl rfl)) (.execute (fun _ => [0]) rfl rfl rfl (by decide)))
      (.createOnline 0 ⟨0⟩ () noComponents rfl rfl rfl)) (.join rfl)) (.drainRerun rfl rfl))
      (.drainCreate rfl rfl)) (.flush rfl rfl), rfl, rfl, rfl⟩
  have conserved := (operations_conserved run).1
  rw [done, waits] at conserved
  exact ⟨trace, s, run, host, done, conserved⟩

/-! ## Cycles -/

omit [∀ arch, Recycler (T arch) (Hint arch)] in
theorem shards_same (buffer : t.world.offlineBuffer = s.world.offlineBuffer) {worker : Nat}
    (none : pushedBy worker (⟨s, label, t⟩ : Transition w T Hint V) = none) :
    t.world.offlineBuffer.shards[worker]? = s.world.offlineBuffer.shards[worker]?.map
      (· ++ (pushedBy worker ⟨s, label, t⟩).toList) := by
  rw [none, buffer]
  simp

omit [∀ arch, Recycler (T arch) (Hint arch)] in
theorem shards_push {pusher : Nat} {items : List (Operation V)} {op : Operation V}
    (found : s.world.offlineBuffer.shards[pusher]? = some items)
    (buffer : t.world.offlineBuffer = { s.world.offlineBuffer with
      shards := s.world.offlineBuffer.shards.set pusher (items ++ [op]) })
    (acts : label.worker = some pusher)
    (pushes : pushed (⟨s, label, t⟩ : Transition w T Hint V) = some op) (worker : Nat) :
    t.world.offlineBuffer.shards[worker]? = s.world.offlineBuffer.shards[worker]?.map
      (· ++ (pushedBy worker ⟨s, label, t⟩).toList) := by
  obtain ⟨inside, -⟩ := List.getElem?_eq_some_iff.mp found
  rw [pushedBy, acts, pushes, buffer]
  dsimp only
  by_cases same : pusher = worker
  · subst same
    rw [List.getElem?_set_self inside, found]
    simp
  · rw [List.getElem?_set_ne same]
    simp [same]

theorem online_pushes {assign : DbgTypeId → List Nat} {snapshots : HashMap DbgTypeId Snapshot}
    (step : s.Step types label t) (online : s.phase = .online assign snapshots)
    (unjoined : label ≠ .join) (worker : Nat) :
    t.world.offlineBuffer.shards[worker]? = s.world.offlineBuffer.shards[worker]?.map
      (· ++ (pushedBy worker ⟨s, label, t⟩).toList) := by
  cases step with
  | create _ _ _ _ host | delete _ _ host | deleteTerminating _ _ host
  | getIsotope _ _ _ _ _ host | execute _ host => cases host.symm.trans online
  | drainCreate draining | drainDelete draining | drainRerun draining | flush draining =>
    cases draining.symm.trans online
  | setSimple _ _ _ _ _ _ run => exact shards_same (setSimple_ok run).2.1 rfl
  | openIsotope _ _ _ _ _ run => exact shards_same (openIsotope_ok run).2.1 rfl
  | setIsotope _ _ _ _ _ _ run => exact shards_same (setIsotope_ok run).2.1 rfl
  | cloneReference | dropReference => exact shards_same rfl rfl
  | @createOnline pusher changed hint compMap _ _ shardId id world _ _ run =>
    obtain ⟨-, ⟨items, found, buffer⟩, -⟩ := createEntityWithHintAndShard_ok run
    exact shards_push found buffer rfl pushed_createOnline worker
  | deleteOnline pusher changed id _ run =>
    obtain ⟨items, found, rfl⟩ := pushOperation_ok run
    exact shards_push found rfl rfl rfl worker
  | join => exact absurd rfl unjoined

/-- What the workers have pushed since a state of the online part of a cycle. -/
theorem online_shards {assign : DbgTypeId → List Nat} {snapshots : HashMap DbgTypeId Snapshot}
    {trace : List (Transition w T Hint V)} (run : Run types s trace t)
    (online : s.phase = .online assign snapshots) (unjoined : ∀ t ∈ trace, t.label ≠ .join)
    (worker : Nat) :
    t.world.offlineBuffer.shards[worker]? = s.world.offlineBuffer.shards[worker]?.map
      (· ++ trace.reverse.filterMap (pushedBy worker)) := by
  induction run with
  | start => simp
  | @next trace u label t past step ih =>
    obtain ⟨here, unjoined⟩ := List.forall_mem_cons.mp unjoined
    have still := (online_run past online unjoined).phase.trans online
    rw [online_pushes step still here worker, ih unjoined, List.reverse_cons,
      List.filterMap_append]
    rw [filterMap_one]
    cases s.world.offlineBuffer.shards[worker]? with
    | none => rfl
    | some items => simp

omit [∀ arch, Recycler (T arch) (Hint arch)] in
/-- The shards of a buffer that was empty. -/
theorem shards_range {shards shards' : List (List (Operation V))} (empty : shards.flatten = [])
    {f : Nat → List (Operation V)}
    (pushes : ∀ worker : Nat, shards'[worker]? = shards[worker]?.map (· ++ f worker)) :
    shards'.flatten = (List.range shards.length).flatMap f := by
  have same : shards' = (List.range shards.length).map f := by
    apply List.ext_getElem?
    intro worker
    rw [pushes, List.getElem?_map]
    by_cases inside : worker < shards.length
    · have none : shards[worker] = [] := List.flatten_eq_nil_iff.mp empty _ (List.getElem_mem inside)
      rw [List.getElem?_range inside, List.getElem?_eq_getElem inside, none]
      rfl
    · rw [List.getElem?_eq_none (Nat.le_of_not_lt inside), List.getElem?_eq_none]
      · rfl
      · rw [List.length_range]
        exact Nat.le_of_not_lt inside
  rw [same, List.flatMap]

theorem drained_step {todo newQueue : List (Operation V)} (step : s.Step types label t)
    (draining : s.phase = .draining todo newQueue) (unflushed : label ≠ .flush) :
    ∃ rest, todo = (processed ⟨s, label, t⟩).toList ++ rest ∧
      t.phase = .draining rest (newQueue ++ (rerun ⟨s, label, t⟩).toList) ∧
      t.world.offlineBuffer = s.world.offlineBuffer := by
  cases step with
  | create _ _ _ _ host | delete _ _ host | deleteTerminating _ _ host
  | getIsotope _ _ _ _ _ host | execute _ host => cases host.symm.trans draining
  | openIsotope _ _ _ online | setIsotope _ _ _ _ _ online | createOnline _ _ _ _ online
  | deleteOnline _ _ _ online | join online => cases online.symm.trans draining
  | setSimple _ _ _ _ accessible | cloneReference _ accessible | dropReference _ accessible =>
    simp [Machine.Accessible, draining] at accessible
  | @drainCreate changed id rc compMap later newQueue world here run =>
    cases here.symm.trans draining
    refine ⟨later, ?_, ?_, (initEntity_ok run).2.1⟩
    · simp [processed, here]
    · simp [rerun, processed, queued, here]
  | @drainDelete changed id later newQueue world here run =>
    cases here.symm.trans draining
    refine ⟨later, ?_, ?_, (flagDeleteEntity_ok run).2.1⟩
    · simp [processed, here]
    · simp [rerun, processed, queued, here]
  | @drainRerun changed id later newQueue world here run =>
    cases here.symm.trans draining
    refine ⟨later, ?_, ?_, (flagDeleteEntity_ok run).2.1⟩
    · simp [processed, here]
    · simp only [rerun, processed, queued, here]
      simp [Option.filter]
  | flush => exact absurd rfl unflushed

/-- Operations are drained in order. -/
theorem drained_run {todo : List (Operation V)} {trace : List (Transition w T Hint V)}
    (run : Run types s trace t) (draining : s.phase = .draining todo [])
    (unflushed : ∀ t ∈ trace, t.label ≠ .flush) : ∃ rest,
    t.phase = .draining rest (trace.reverse.filterMap rerun) ∧
    todo = trace.reverse.filterMap processed ++ rest ∧
    t.world.offlineBuffer = s.world.offlineBuffer := by
  induction run with
  | start => exact ⟨todo, draining, rfl, rfl⟩
  | @next trace u label t past step ih =>
    obtain ⟨here, unflushed⟩ := List.forall_mem_cons.mp unflushed
    obtain ⟨rest, phase, split, buffer⟩ := ih unflushed
    obtain ⟨rest', split', phase', buffer'⟩ := drained_step step phase here
    refine ⟨rest', ?_, ?_, buffer'.trans buffer⟩
    · rw [phase', List.reverse_cons, List.filterMap_append, filterMap_one]
    · rw [split, split', List.reverse_cons, List.filterMap_append, filterMap_one,
        List.append_assoc]

/-- **A cycle runs its operations in order.** First those that were pending when
it began, in their order, then those of each worker, in the order in which it
pushed them; those that must run again are pending afterwards, in the same
order. -/
theorem cycle_operations {b : Builder U V} {before systems drained : List (Transition w T Hint V)}
    {assign : DbgTypeId → List Nat} {s₁ s₂ s₃ s₄ : Machine w T V}
    (past : Run types (.start b) before s) (execute : s.Step types (.execute assign) s₁)
    (online : Run types s₁ systems s₂) (unjoined : ∀ t ∈ systems, t.label ≠ .join)
    (join : s₂.Step types .join s₃) (drain : Run types s₃ drained s₄)
    (unflushed : ∀ t ∈ drained, t.label ≠ .flush) (flush : s₄.Step types .flush t) :
    drained.reverse.filterMap processed = s.pending ++
      (List.range s.world.offlineBuffer.shards.length).flatMap
        (fun worker => systems.reverse.filterMap (pushedBy worker)) ∧
    t.pending = drained.reverse.filterMap rerun := by
  have buffered := buffered_run past
  cases execute with
  | execute assign host flushed =>
    simp only [Machine.Buffered, host] at buffered
    have same := (forEalloc_ok flushed).2.1
    have appends := online_run online rfl unjoined
    have shards := shards_range (same ▸ buffered.1) (online_shards online rfl unjoined)
    cases join with
    | join =>
      obtain ⟨rest, phase, split, buffer⟩ := drained_run drain rfl unflushed
      cases flush with
      | flush done run =>
        obtain ⟨rfl, queue⟩ := Phase.draining.inj (phase.symm.trans done)
        constructor
        · rw [List.append_nil] at split
          rw [← split, Buffer.operations, shards, appends.rerunQueue, Machine.pending, host,
            Buffer.operations, buffered.1, List.append_nil]
          simp only [same]
        · simp only [Machine.pending, (forEalloc_ok run).2.1, buffer, Buffer.operations]
          simp [queue]

/-- A deletion that waits for a finalizer is rerun before the creation that a
system has queued. -/
theorem cycle_operations_rerun : ∃ (t : PlainMachine) (systems drained : PlainTrace),
    systems.reverse.filterMap (pushedBy 0) = [.createEntity ⟨0⟩ 2 1 noComponents] ∧
    drained.reverse.filterMap processed =
      [.deleteEntity ⟨0⟩ 1, .createEntity ⟨0⟩ 2 1 noComponents] ∧
    t.pending = [.deleteEntity ⟨0⟩ 1] := by
  obtain ⟨before, systems, drained, s, s₁, s₂, s₃, s₄, t, past, execute, online, unjoined, join,
      drain, unflushed, flush, waits, shards, pushes, reruns⟩ :
      ∃ (before systems drained : PlainTrace) (s s₁ s₂ s₃ s₄ t : PlainMachine),
      Run finalTypes (.start finalization) before s ∧
      s.Step finalTypes (.execute fun _ => [0] : Label (fun _ => Unit) Nat) s₁ ∧
      Run finalTypes s₁ systems s₂ ∧ (∀ t ∈ systems, t.label ≠ .join) ∧
      s₂.Step finalTypes (.join : Label (fun _ => Unit) Nat) s₃ ∧
      Run finalTypes s₃ drained s₄ ∧ (∀ t ∈ drained, t.label ≠ .flush) ∧
      s₄.Step finalTypes (.flush : Label (fun _ => Unit) Nat) t ∧
      s.pending = [.deleteEntity ⟨0⟩ 1] ∧ s.world.offlineBuffer.shards.length = 1 ∧
      systems.reverse.filterMap (pushedBy 0) = [.createEntity ⟨0⟩ 2 1 noComponents] ∧
      drained.reverse.filterMap rerun = [.deleteEntity ⟨0⟩ 1] := by
    refine ⟨_, _, _, _, _, _, _, _, _, .next (.next (.next .start
      (.create ⟨0⟩ 0 () ⟨AList.singleton ⟨1⟩ 5, ∅⟩ rfl rfl)) (.dropReference 0 trivial))
      (.deleteTerminating ⟨0⟩ 1 rfl rfl), .execute _ rfl rfl rfl (by decide),
      .next .start (.createOnline 0 ⟨0⟩ () noComponents rfl rfl rfl), ?_, .join rfl,
      .next (.next .start (.drainRerun rfl rfl)) (.drainCreate rfl rfl), ?_, .flush rfl rfl,
      rfl, rfl, rfl, rfl⟩
    · simp
    · simp
  obtain ⟨order, left⟩ := cycle_operations past execute online unjoined join drain unflushed flush
  rw [waits, shards] at order
  refine ⟨t, systems, drained, pushes, ?_, left.trans reruns⟩
  rw [order, List.range_one, List.flatMap_singleton, pushes]
  rfl

end Dynec.World
