import Dynec.World.Frames

/-!
# What the snapshots of a run enumerate

A snapshot lists the free IDs, and its readers take all others below its gauge
for entities. Online allocation and reuse leave allocated IDs in the list, so a
snapshot may miss entities. It has none too many, as long as no ID was both
reused and freed between two flushes.
-/

namespace Dynec.Entity

open Count

variable {w : Nat} {T Hint : Type} [Recycler T Hint]

/-- The free set has what the recyclers hold, and IDs below the gauge only. -/
structure Spanned (a : Recycling w T) : Prop where
  free : ∀ id, 0 < held a.recyclerShards id → id ∈ a.recyclable
  reused : ∀ id ∈ a.reuseQueueShards.flatten, held a.recyclerShards id = 0
  inside : ∀ id ∈ a.recyclable, 1 ≤ id ∧ id < a.top

variable {l : Ledger w T} {a : Recycling w T}

theorem Ledger.Inv.held_le (inv : l.Inv) (id : Nat) :
    held l.alloc.recyclerShards id + l.alloc.deallocQueue.count id ≤ 1 := by
  have := inv.places_le id
  unfold Ledger.places at this
  omega

theorem Spanned.allocated (h : Spanned l.alloc) (inv : l.Inv) {index : Nat} {reuse : Bool}
    {id : Nat} (allocated : Allocated l.alloc index reuse (.ok id, a)) : Spanned a := by
  generalize outcome : (Except.ok id, a) = result at allocated
  cases allocated with
  | @recycled recycler recycler' queue _ found queued polled =>
    cases outcome
    have moved := held_set_polled found polled
    constructor
    · intro x some
      apply h.free
      have := moved x
      change 0 < held (l.alloc.recyclerShards.set index recycler') x at some
      omega
    · intro x reused
      change held (l.alloc.recyclerShards.set index recycler') x = 0
      have := moved x
      have old : x ∈ l.alloc.reuseQueueShards.flatten →
          held (l.alloc.recyclerShards.set index recycler') x = 0 := by
        intro reused
        have := h.reused x reused
        omega
      change x ∈ (l.alloc.reuseQueueShards.set index
        (if reuse then queue ++ [id] else queue)).flatten at reused
      cases reuse with
      | false =>
        rw [if_neg Bool.false_ne_true, set_same queued] at reused
        exact old reused
      | true =>
        rw [if_pos rfl, mem_flatten_set queued] at reused
        obtain reused | rfl := reused
        · exact old reused
        · have := inv.held_le x
          rw [List.count_singleton_self] at *
          omega
    · exact h.inside
  | fresh found empty =>
    by_cases wrapped : l.alloc.globalGauge = 0
    · simp [fetchAdd, wrapped] at outcome
    · simp only [fetchAdd, wrapped, if_false, Prod.mk.injEq] at outcome
      obtain ⟨-, rfl⟩ := outcome
      refine ⟨h.free, h.reused, ?_⟩
      intro x free
      rw [top_next inv.gauge wrapped]
      have := h.inside x free
      omega
  | outside => cases outcome

theorem Spanned.queued (h : Spanned a) (mark : Bool) (queue : List Nat) :
    Spanned ({ a with flushMark := mark, deallocQueue := queue } : Recycling w T) :=
  ⟨h.free, h.reused, h.inside⟩

theorem Spanned.flush (h : Spanned l.alloc) (inv : l.Inv)
    (apart : ∀ id ∈ l.alloc.deallocQueue, id ∉ l.alloc.reuseQueueShards.flatten)
    (run : l.alloc.flush = .ok a) : Spanned a ∧ a.deallocQueue = [] := by
  obtain ⟨shards, run', -, kept⟩ := flush_ok inv.shards
  rw [run] at run'
  cases run'
  refine ⟨⟨?_, ?_, ?_⟩, rfl⟩
  · intro id some
    change 0 < held shards id at some
    rw [kept inv.held_le] at some
    change id ∈ l.alloc.flushedRecyclable
    rw [Recycling.flushedRecyclable, SortedSet.mem_eraseAll, SortedSet.mem_extend]
    by_cases queued : id ∈ l.alloc.deallocQueue
    · exact ⟨.inr queued, apart id queued⟩
    · rw [List.count_eq_zero.mpr queued, Nat.add_zero] at some
      refine ⟨.inl (h.free id some), ?_⟩
      intro reused
      have := h.reused id reused
      omega
  · intro id reused
    change id ∈ (l.alloc.reuseQueueShards.map fun _ => []).flatten at reused
    rw [flatten_map_nil] at reused
    cases reused
  · intro id free
    change id ∈ l.alloc.flushedRecyclable at free
    change 1 ≤ id ∧ id < l.alloc.top
    rw [Recycling.flushedRecyclable, SortedSet.mem_eraseAll, SortedSet.mem_extend] at free
    obtain ⟨old | queued, -⟩ := free
    · exact h.inside id old
    · have place := inv.once id
      have := List.count_pos_iff.mpr queued
      unfold Ledger.places at place
      by_contra outside
      rw [if_neg outside] at place
      omega

/-- With nothing queued, a snapshot enumerates IDs in use only. -/
theorem Spanned.enumerates (h : Spanned l.alloc) (inv : l.Inv) (idle : l.alloc.deallocQueue = [])
    {snapshot : Snapshot} (taken : l.alloc.snapshot = .ok snapshot) :
    ∃ chunks, snapshot.iterAllocatedChunks w = .ok chunks ∧ ∀ id ∈ rangeIds chunks, id ∈ l.live := by
  have gauge : l.alloc.globalGauge ≠ 0 := by
    intro wrapped
    simp [Recycling.snapshot, wrapped] at taken
  have top : l.alloc.top = l.alloc.globalGauge := if_neg gauge
  have taken' : l.alloc.snapshot = .ok ⟨l.alloc.globalGauge, l.alloc.recyclable⟩ := if_neg gauge
  rw [taken] at taken'
  cases taken'
  obtain ⟨chunks, run, ids⟩ := iterAllocatedChunks_ok
    ⟨l.alloc.globalGauge, l.alloc.recyclable⟩ inv.gauge fun id free => top ▸ h.inside id free
  refine ⟨chunks, run, ?_⟩
  intro id listed
  rw [ids, List.mem_filter, List.mem_range'_1, decide_eq_true_eq] at listed
  obtain ⟨⟨low, high⟩, used⟩ := listed
  have none : held l.alloc.recyclerShards id = 0 := by
    by_contra some
    exact used (h.free id (Nat.pos_of_ne_zero some))
  have place := inv.once id
  rw [Ledger.places, idle, none, top, if_pos ⟨low, by dsimp only at high; omega⟩] at place
  exact List.count_pos_iff.mp (by simp only [List.count_nil] at place; omega)

end Dynec.Entity

namespace Dynec.World

open Entity

variable {U V : Type} {w : DbgTypeId → Nat} {T Hint : DbgTypeId → Type}
  [∀ arch, Recycler (T arch) (Hint arch)] {types : Types V} {s t : Machine w T V}
  {label : Label Hint V} {arch : DbgTypeId}

/-- No ID of the archetype was both reused and freed since the last flush. -/
def Apart (arch : DbgTypeId) (s : Machine w T V) : Prop :=
  ∀ e, s.world.ealloc arch = some e → ∀ id ∈ e.deallocQueue, id ∉ e.reuseQueueShards.flatten

def Phase.isOnline : Phase V → Prop
  | .online _ _ => True
  | _ => False

/-- Nothing waits for a flush: host code has not marked the allocator, or
systems run. -/
def Idle (phase : Phase V) {n : Nat} {R : Type} (e : Recycling n R) : Prop :=
  match phase with
  | .host => e.flushMark = false
  | .online _ _ => True
  | .draining _ _ => False

structure Enumerable (arch : DbgTypeId) (s : Machine w T V) : Prop where
  covered : ∀ e, s.world.ealloc arch = some e → Spanned e
  idle : ∀ e, s.world.ealloc arch = some e → Idle s.phase e → e.deallocQueue = []
  snapshot : ∀ assign snapshots, s.phase = .online assign snapshots →
    ∀ snapshot, snapshots.lookup arch = some snapshot →
      ∃ chunks, snapshot.iterAllocatedChunks (w arch) = .ok chunks ∧
        ∀ id ∈ rangeIds chunks, id ∈ (s.roll arch).ready

/-- Steps that leave the allocator alone. -/
theorem Enumerable.same (h : Enumerable arch s) {world : World w T V} {roll : DbgTypeId → Roll}
    (ealloc : world.ealloc arch = s.world.ealloc arch)
    (ready : s.phase.isOnline → (roll arch).ready = (s.roll arch).ready) :
    Enumerable arch ⟨world, s.phase, roll⟩ := by
  constructor
  · intro e found
    exact h.covered e (ealloc ▸ found)
  · intro e found
    exact h.idle e (ealloc ▸ found)
  · intro assign snapshots online
    change s.phase = _ at online
    simp only [ready (by rw [online]; trivial)]
    exact h.snapshot assign snapshots online

/-- Steps of host code or of systems that change one allocator. -/
theorem Enumerable.change (h : Enumerable arch s) {changed : DbgTypeId} {world : World w T V}
    {roll : DbgTypeId → Roll}
    {R : Archetype (w changed) (T changed) V → Archetype (w changed) (T changed) V → Prop}
    (touches : Touches s.world world changed R)
    (covered : ∀ a a', s.world.archetypes.lookup changed = some a → Spanned a.ealloc →
      R a a' → Spanned a'.ealloc)
    (idle : ∀ a a', R a a' → Idle s.phase a'.ealloc →
      Idle s.phase a.ealloc ∧ a'.ealloc.deallocQueue = a.ealloc.deallocQueue)
    (ready : s.phase.isOnline → (roll arch).ready = (s.roll arch).ready) :
    Enumerable arch ⟨world, s.phase, roll⟩ := by
  by_cases other : arch ≠ changed
  · exact h.same (touches.ealloc_others other) ready
  · obtain rfl := not_ne_iff.mp other
    obtain ⟨a, a', before, after, change⟩ := touches.here
    have old := ealloc_of_lookup before
    constructor
    · intro e found
      cases (ealloc_of_lookup after).symm.trans found
      exact covered a a' before (h.covered a.ealloc old) change
    · intro e found quiet
      cases (ealloc_of_lookup after).symm.trans found
      obtain ⟨earlier, queue⟩ := idle a a' change quiet
      rw [queue]
      exact h.idle a.ealloc old earlier
    · intro assign snapshots online
      change s.phase = _ at online
      simp only [ready (by rw [online]; trivial)]
      exact h.snapshot assign snapshots online

/-- While operations are drained, only the free set matters. -/
theorem Enumerable.drain {todo newQueue : List (Operation V)}
    (draining : t.phase = .draining todo newQueue)
    (covered : ∀ e, t.world.ealloc arch = some e → Spanned e) : Enumerable arch t := by
  refine ⟨covered, ?_, ?_⟩
  · intro e found quiet
    rw [draining] at quiet
    exact quiet.elim
  · intro assign snapshots online
    rw [draining] at online
    cases online

theorem Allocated.idle {n index id : Nat} {R H : Type} [Recycler R H] {reuse : Bool}
    {e e' : Recycling n R} (phase : Phase V)
    (allocated : Allocated e index reuse (.ok id, e')) (quiet : Idle phase e') :
    Idle phase e ∧ e'.deallocQueue = e.deallocQueue := by
  have same : e'.flushMark = e.flushMark ∧ e'.deallocQueue = e.deallocQueue := by
    generalize outcome : (Except.ok id, e') = result at allocated
    cases allocated with
    | recycled =>
      cases outcome
      exact ⟨rfl, rfl⟩
    | fresh =>
      simp only [Prod.mk.injEq] at outcome
      obtain ⟨-, rfl⟩ := outcome
      exact ⟨rfl, rfl⟩
    | outside => cases outcome
  unfold Idle at quiet ⊢
  rw [same.1] at quiet
  exact ⟨quiet, same.2⟩

/-- The start of a cycle. -/
theorem Enumerable.execute (h : Enumerable arch s) (books : Books s) (buffered : s.Buffered)
    (apart : Apart arch s) (assign : DbgTypeId → List Nat) {world : World w T V}
    {snapshots : HashMap DbgTypeId Snapshot} (host : s.phase = .host)
    (flushed : s.world.flushIfMarked = .ok world) (shards : world.snapshots = .ok snapshots) :
    Enumerable arch { s with world, phase := .online assign snapshots } := by
  have flush : ∀ e', world.ealloc arch = some e' →
      Spanned e' ∧ e'.deallocQueue = [] ∧ Ledger.Inv (s.ledger arch e') := by
    intro e' found
    obtain ⟨e, before, run⟩ := forEalloc_ealloc flushed found
    have covered := h.covered e before
    have inv := books.ledger arch e before
    unfold Recycling.flushIfMarked at run
    split at run
    next =>
      obtain ⟨covered, idle⟩ := Spanned.flush (l := s.ledger arch e) covered inv
        (apart e before) run
      exact ⟨covered, idle, flush_inv inv run⟩
    next unmarked =>
      cases run
      refine ⟨covered, h.idle _ before ?_, inv⟩
      rw [host]
      exact Bool.eq_false_iff.mpr unmarked
  constructor
  · intro e found
    exact (flush e found).1
  · intro e found _
    exact (flush e found).2.1
  · intro assign' snapshots' online snapshot listed
    cases online
    obtain ⟨a, after, taken⟩ := snapshots_known shards listed
    obtain ⟨covered, idle, inv⟩ := flush a.ealloc (ealloc_of_lookup after)
    obtain ⟨chunks, run, inUse⟩ := Spanned.enumerates (l := s.ledger arch a.ealloc) covered inv
      idle taken
    refine ⟨chunks, run, ?_⟩
    intro id enumerated
    have live : 0 < (s.roll arch).live.count id := List.count_pos_iff.mpr (inUse id enumerated)
    have accounted := books.accounted arch id
    have pending : creates arch s.pending = [] := by
      simp only [Machine.Buffered, host] at buffered
      simp only [Machine.pending, host, Buffer.operations, buffered.1, List.append_nil]
      exact buffered.2 arch
    rw [pending, List.count_nil] at accounted
    have ready : 0 < (s.roll arch).ready.count id := by omega
    exact List.count_pos_iff.mp ready

theorem enumerable_step (step : s.Step types label t) (books : Books s) (buffered : s.Buffered)
    (apart : Apart arch s) (h : Enumerable arch s) : Enumerable arch t := by
  have offline : ∀ {P : Prop}, s.phase = .host → s.phase.isOnline → P := by
    intro P host online
    rw [host] at online
    exact online.elim
  have inv : ∀ {changed : DbgTypeId} {a : Archetype (w changed) (T changed) V},
      s.world.archetypes.lookup changed = some a → (s.ledger changed a.ealloc).Inv := by
    intro changed a found
    exact books.ledger changed _ (ealloc_of_lookup found)
  cases step with
  | create changed shardId hint compMap host run =>
    apply h.change (createWithHint_ok run).1
    · rintro a a' before covered ⟨e, allocated, init⟩
      rw [init.ealloc]
      exact Spanned.allocated (l := s.ledger changed a.ealloc) covered (inv before)
        (allocated ▸ allocate_allocated a.ealloc shardId hint)
    · rintro a a' ⟨e, allocated, init⟩
      rw [init.ealloc]
      exact Allocated.idle s.phase (allocated ▸ allocate_allocated a.ealloc shardId hint)
    · exact offline host
  | delete changed id host run =>
    apply h.change (delete_deleted run).2
    · intro a a' before covered deleted
      rw [deleted.ealloc]
      exact covered.queued true _
    · intro a a' deleted quiet
      rw [deleted.ealloc, host] at quiet
      cases quiet
    · exact offline host
  | deleteTerminating changed id host run =>
    apply h.change (delete_terminating run).2
    · intro a a' before covered flagged
      rw [flagged.ealloc]
      exact covered.queued true _
    · intro a a' flagged quiet
      rw [flagged.ealloc, host] at quiet
      cases quiet
    · exact offline host
  | setSimple changed comp id value _ _ run =>
    exact h.same ((setSimple_ok run).1.ealloc_same (fun _ _ h => h.ealloc) arch) fun _ => rfl
  | openIsotope changed comp discrim _ _ run =>
    exact h.same ((openIsotope_ok run).1.ealloc_same (fun _ _ h => h.ealloc) arch) fun _ => rfl
  | setIsotope changed comp discrim id value _ run
  | getIsotope changed comp discrim id value _ _ run =>
    exact h.same ((setIsotope_ok run).1.ealloc_same (fun _ _ h => h.ealloc) arch) fun _ => rfl
  | cloneReference | dropReference => exact h.same rfl fun _ => rfl
  | execute assign host flushed shards _ =>
    exact h.execute books buffered apart assign host flushed shards
  | createOnline worker changed hint compMap online _ run =>
    apply h.change (createEntityWithHintAndShard_ok run).1
    · intro a a' before covered allocated
      exact Spanned.allocated (l := s.ledger changed a.ealloc) covered (inv before)
        (allocated.ealloc ▸ shardAllocate_allocated a.ealloc _ hint)
    · intro a a' allocated
      exact Allocated.idle s.phase (allocated.ealloc ▸ shardAllocate_allocated a.ealloc _ hint)
    · intro _
      exact enroll_create_ready _ arch
  | deleteOnline worker changed id online run =>
    obtain ⟨items, -, rfl⟩ := pushOperation_ok run
    exact h.same rfl fun _ => rfl
  | join online => exact .drain rfl h.covered
  | drainCreate draining run =>
    apply Enumerable.drain rfl
    intro e found
    apply h.covered
    rw [← (initEntity_ok run).1.ealloc_same fun _ _ init => init.ealloc]
    exact found
  | @drainDelete changed id todo newQueue world draining run =>
    apply Enumerable.drain rfl
    intro e found
    have touches := flagDeleteEntity_deleted run
    by_cases other : arch ≠ changed
    · exact h.covered e ((touches.ealloc_others other).symm.trans found)
    · obtain rfl := not_ne_iff.mp other
      obtain ⟨a, a', before, after, deleted⟩ := touches.here
      cases (ealloc_of_lookup after).symm.trans found
      rw [deleted.ealloc]
      exact (h.covered _ (ealloc_of_lookup before)).queued a.ealloc.flushMark _
  | drainRerun draining run =>
    apply Enumerable.drain rfl
    intro e found
    apply h.covered
    rw [← (flagDeleteEntity_terminating run).ealloc_same fun _ _ flagged => flagged.ealloc]
    exact found
  | @flush newQueue world drained run =>
    have flush : ∀ e', world.ealloc arch = some e' → Spanned e' ∧ e'.deallocQueue = [] := by
      intro e' found
      obtain ⟨e, before, run⟩ := forEalloc_ealloc run found
      exact Spanned.flush (l := s.ledger arch e) (h.covered e before)
        (books.ledger arch e before) (apart e before) run
    constructor
    · intro e found
      exact (flush e found).1
    · intro e found _
      exact (flush e found).2
    · intro assign snapshots online
      cases online

theorem enumerable_start (b : Builder U V) : Enumerable arch (.start b : Machine w T V) := by
  have fresh : ∀ e, (b.build : World w T V).ealloc arch = some e →
      e = .new (w arch) (b.scheduler.concurrency + 1) := by
    intro e found
    rw [ealloc, build_lookup, Option.map_map] at found
    obtain ⟨typed, -, rfl⟩ := Option.map_eq_some_iff.mp found
    rfl
  constructor
  · intro e found
    rw [fresh e found]
    constructor
    · intro id some
      rw [Recycling.new, Ledger.held_replicate] at some
      cases some
    · simp [Recycling.new]
    · intro id free
      exact absurd free (SortedSet.not_mem_empty id)
  · intro e found _
    rw [fresh e found]
    rfl
  · intro assign snapshots online
    cases online

/-- **A snapshot has no entity too many.** In every run that frees only
initialized entities, and in which no ID of an archetype is reused and freed
between two flushes, every ID that the snapshot of a cycle enumerates is an
initialized entity until the systems of the cycle have ended. -/
theorem snapshot_initialized (width : ∀ arch, 0 < w arch) {b : Builder U V}
    {trace : List (Machine.Transition w T Hint V)} (run : Machine.Run types (.start b) trace s)
    (orderly : Orderly trace) (apart : ∀ tr ∈ trace, Apart arch tr.before)
    {assign : DbgTypeId → List Nat} {snapshots : HashMap DbgTypeId Snapshot}
    (online : s.phase = .online assign snapshots) {snapshot : Snapshot}
    (listed : snapshots.lookup arch = some snapshot) :
    ∃ chunks, snapshot.iterAllocatedChunks (w arch) = .ok chunks ∧
      ∀ id ∈ rangeIds chunks, id ∈ (s.roll arch).ready := by
  have reached : Enumerable arch s := by
    clear online listed
    induction run with
    | start => exact enumerable_start b
    | next past step ih =>
      obtain ⟨here, apart⟩ := List.forall_mem_cons.mp apart
      obtain ⟨-, orderly⟩ := List.forall_mem_cons.mp orderly
      exact enumerable_step step (orderly_books width past orderly) (buffered_run past) here
        (ih orderly apart)
  exact reached.snapshot assign snapshots online snapshot listed

/-- One of two entities is deleted before the cycle. -/
theorem snapshot_initialized_deleted : ∃ (trace : PlainTrace) (s : PlainMachine),
    Machine.Run plainTypes (.start creation) trace s ∧ (s.roll ⟨0⟩).created = [2, 1] ∧
    ∃ chunks, (⟨3, SortedSet.empty.insert 1⟩ : Snapshot).iterAllocatedChunks 16 = .ok chunks ∧
      ∀ id ∈ rangeIds chunks, id ∈ (s.roll ⟨0⟩).ready := by
  obtain ⟨trace, s, run, created, apart, assign, snapshots, online, listed⟩ :
      ∃ (trace : PlainTrace) (s : PlainMachine),
        Machine.Run plainTypes (.start creation) trace s ∧ (s.roll ⟨0⟩).created = [2, 1] ∧
        (∀ tr ∈ trace, Apart ⟨0⟩ tr.before) ∧ ∃ assign snapshots,
          s.phase = .online assign snapshots ∧
          snapshots.lookup ⟨0⟩ = some ⟨3, SortedSet.empty.insert 1⟩ := by
    refine ⟨_, _, .next (.next (.next (.next (.next .start
      (.create ⟨0⟩ 0 () noComponents rfl rfl)) (.create ⟨0⟩ 0 () noComponents rfl rfl))
      (.dropReference 0 trivial)) (.delete ⟨0⟩ 1 rfl rfl))
      (.execute inOrder rfl rfl rfl (by decide)), rfl, ?_, _, _, rfl, rfl⟩
    rintro tr (_ | ⟨_, _ | ⟨_, _ | ⟨_, _ | ⟨_, _ | ⟨_, ⟨⟩⟩⟩⟩⟩⟩) e found
    · obtain rfl := Option.some.inj (found.symm.trans rfl)
      decide
    · obtain rfl := Option.some.inj (found.symm.trans rfl)
      decide
    · obtain rfl := Option.some.inj (found.symm.trans rfl)
      decide
    · obtain rfl := Option.some.inj (found.symm.trans rfl)
      decide
    · obtain rfl := Option.some.inj (found.symm.trans rfl)
      decide
  exact ⟨trace, s, run, created, snapshot_initialized (fun _ => by decide) run
    (counted_orderly rfl (fun _ => by decide) run) apart online listed⟩

end Dynec.World
