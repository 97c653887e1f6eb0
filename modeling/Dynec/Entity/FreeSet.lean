import Dynec.Entity.Ledger
import Dynec.Entity.Gaps

/-!
# The free set of offline histories

An allocator keeps its free IDs twice: in `recyclable`, which snapshots read,
and in the recyclers. Between flushes the two differ by the reuse queues. A
flush reconciles them, unless an ID was reused and freed again since the last
one.
-/

namespace Dynec.Entity

open Fallible Count

variable {w : Nat} {T Hint : Type} [Recycler T Hint]

/-- Histories without online allocation, with the states before and after each
flush. -/
inductive Offline (numShards : Nat) : List (Ledger w T × Ledger w T) → Ledger w T → Prop
  | start : Offline numShards [] (.start w T numShards)
  | allocate {flushes s} (shardId : Nat) (hint : Hint) {id : Nat} {a : Recycling w T}
      (run : s.alloc.allocate shardId hint = (.ok id, a)) : Offline numShards flushes s →
      Offline numShards flushes { s with alloc := a, live := id :: s.live }
  | queueDeallocate {flushes s} (id : Nat) (inUse : id ∈ s.live) : Offline numShards flushes s →
      Offline numShards flushes
        { s with alloc := s.alloc.queueDeallocate id, live := s.live.erase id }
  | flush {flushes s} {a : Recycling w T} (run : s.alloc.flush = .ok a) :
      Offline numShards flushes s →
      Offline numShards ((s, { s with alloc := a }) :: flushes) { s with alloc := a }

/-- The free set is that of the recyclers and the complement of the IDs in use,
and a snapshot enumerates the IDs in use. -/
structure FreeSetExact (s : Ledger w T) : Prop where
  recyclers : ∀ id, id ∈ s.alloc.recyclable ↔
    ∃ shard ∈ s.alloc.recyclerShards, id ∈ Recycler.contents shard
  complement : ∀ id, id ∈ s.alloc.recyclable ↔
    1 ≤ id ∧ id < s.alloc.globalGauge ∧ id ∉ s.live
  snapshot : ∃ snapshot chunks, s.alloc.snapshot = .ok snapshot ∧
    snapshot.iterAllocatedChunks w = .ok chunks ∧ (rangeIds chunks).Perm s.live

/-- No ID was both reused and freed since the last flush, and the gauge has not
wrapped around. -/
def Settled (s : Ledger w T) : Prop :=
  s.alloc.globalGauge ≠ 0 ∧ ∀ id ∈ s.alloc.deallocQueue, id ∉ s.alloc.reuseQueueShards.flatten

theorem held_pos {shards : List T} {id : Nat} :
    0 < held shards id ↔ ∃ shard ∈ shards, id ∈ Recycler.contents shard := by
  rw [held, List.count_pos_iff, List.mem_flatMap]

theorem mem_flatten_set {l : List (List Nat)} {i : Nat} {queue : List Nat}
    (at_i : l[i]? = some queue) (new x : Nat) :
    x ∈ (l.set i (queue ++ [new])).flatten ↔ x ∈ l.flatten ∨ x = new := by
  have change := count_flatMap_set (id : List Nat → List Nat) at_i (queue ++ [new]) x
  simp only [id_eq, List.count_append, ← List.flatten_eq_flatMap] at change
  rw [← List.count_pos_iff, ← List.count_pos_iff (l := l.flatten), ← List.mem_singleton,
    ← List.count_pos_iff]
  omega

/-- Reused IDs are out of the recyclers until the next flush. -/
structure Tracked (s : Ledger w T) : Prop where
  ledger : s.Inv
  reused : ∀ id ∈ s.alloc.reuseQueueShards.flatten, held s.alloc.recyclerShards id = 0

/-- The free set is what the recyclers hold and what was reused from them. -/
def Mirrored (s : Ledger w T) : Prop :=
  ∀ id, id ∈ s.alloc.recyclable ↔
    0 < held s.alloc.recyclerShards id ∨ id ∈ s.alloc.reuseQueueShards.flatten

theorem allocate_tracked {s : Ledger w T} (h : Tracked s) {index id : Nat} {a : Recycling w T}
    (allocated : Allocated s.alloc index true (.ok id, a)) :
    Tracked { s with alloc := a, live := id :: s.live } ∧
      (Mirrored s → Mirrored { s with alloc := a, live := id :: s.live }) := by
  have ledger := (Ledger.inv_allocated h.ledger allocated).2
  generalize outcome : (Except.ok id, a) = result at allocated
  cases allocated with
  | @recycled recycler recycler' queue _ found queued polled =>
    cases outcome
    have moved := held_set_polled found polled
    have bound : ∀ x, held s.alloc.recyclerShards x ≤ 1 := fun x => by
      have := h.ledger.places_le x
      unfold Ledger.places at this
      omega
    refine ⟨⟨ledger, fun x hx => ?_⟩, fun mirrored x => ?_⟩
    · have := moved x
      rcases (mem_flatten_set queued id x).mp hx with hx | rfl
      · have := h.reused x hx
        change held (s.alloc.recyclerShards.set index recycler') x = 0
        omega
      · have := bound x
        rw [List.count_singleton_self] at *
        change held (s.alloc.recyclerShards.set index recycler') x = 0
        omega
    · change x ∈ s.alloc.recyclable ↔ 0 < held (s.alloc.recyclerShards.set index recycler') x ∨
        x ∈ (s.alloc.reuseQueueShards.set index (queue ++ [id])).flatten
      rw [mem_flatten_set queued, mirrored x]
      have := moved x
      by_cases same : x = id
      · subst same
        rw [List.count_singleton_self] at this
        simp only [or_true, iff_true]
        omega
      · rw [List.count_singleton, if_neg (by simpa using Ne.symm same)] at this
        simp only [same, or_false]
        rw [show held (s.alloc.recyclerShards.set index recycler') x =
          held s.alloc.recyclerShards x by omega]
  | fresh found empty =>
    simp only [Prod.mk.injEq] at outcome
    obtain ⟨-, rfl⟩ := outcome
    exact ⟨⟨ledger, h.reused⟩, fun mirrored => mirrored⟩
  | outside => cases outcome

/-- A flush keeps the ledger. -/
theorem flush_inv {s : Ledger w T} (h : s.Inv) {a : Recycling w T} (run : s.alloc.flush = .ok a) :
    Ledger.Inv { s with alloc := a } := by
  have offline : Ledger.Inv { s with online := false } := ⟨h.shards, h.gauge, h.once⟩
  have step : Ledger.Step { s with online := false } { s with alloc := a, online := false } :=
    .flush rfl run
  have flushed := Ledger.step_inv step offline
  exact ⟨flushed.shards, flushed.gauge, flushed.once⟩

theorem flatten_map_nil {α β : Type} (l : List α) :
    (l.map fun _ => ([] : List β)).flatten = [] := by
  simp

/-- A free set that agrees with the recyclers is exact, and so are its
snapshots. -/
theorem exact_of_recyclers {s : Ledger w T} (ledger : s.Inv) (queue : s.alloc.deallocQueue = [])
    (gauge : s.alloc.globalGauge ≠ 0)
    (recyclers : ∀ id, id ∈ s.alloc.recyclable ↔ 0 < held s.alloc.recyclerShards id) :
    FreeSetExact s := by
  have top : s.alloc.top = s.alloc.globalGauge := if_neg gauge
  have places : ∀ id, s.live.count id + held s.alloc.recyclerShards id =
      if 1 ≤ id ∧ id < s.alloc.globalGauge then 1 else 0 := by
    intro id
    have := ledger.once id
    rw [top] at this
    rw [← this]
    simp [Ledger.places, queue]
  have complement : ∀ id, id ∈ s.alloc.recyclable ↔
      1 ≤ id ∧ id < s.alloc.globalGauge ∧ id ∉ s.live := by
    intro id
    have := places id
    rw [recyclers id, ← List.count_eq_zero]
    split at this <;> omega
  refine ⟨fun id => (recyclers id).trans held_pos, complement, ?_⟩
  obtain ⟨chunks, run, ids⟩ := iterAllocatedChunks_ok
    ⟨s.alloc.globalGauge, s.alloc.recyclable⟩ ledger.gauge
    fun id hid => ⟨((complement id).mp hid).1, ((complement id).mp hid).2.1⟩
  refine ⟨_, chunks, if_neg gauge, run, ?_⟩
  have nodup : s.live.Nodup := by
    rw [List.nodup_iff_count_le_one]
    intro id
    have := places id
    split at this <;> omega
  rw [ids, List.perm_ext_iff_of_nodup (List.Nodup.filter _ (List.nodup_range' ..)) nodup]
  intro id
  have := places id
  simp only [List.mem_filter, List.mem_range'_1, decide_eq_true_eq, complement id]
  rw [← List.count_pos_iff]
  constructor
  · rintro ⟨range, unlisted⟩
    rw [if_pos (by omega)] at this
    by_contra free
    exact unlisted ⟨by omega, by omega, free⟩
  · intro inUse
    split at this
    · exact ⟨by omega, fun unused => unused.2.2 inUse⟩
    · omega

/-- A snapshot enumerates the IDs in use exactly when the free set it was taken
of agrees with the recyclers. -/
theorem snapshot_exact_iff {s : Ledger w T} (ledger : s.Inv) (queue : s.alloc.deallocQueue = [])
    {snapshot : Snapshot} (taken : s.alloc.snapshot = .ok snapshot)
    (bounded : ∀ id ∈ s.alloc.recyclable, 1 ≤ id ∧ id < s.alloc.globalGauge) :
    (∃ chunks, snapshot.iterAllocatedChunks w = .ok chunks ∧ (rangeIds chunks).Perm s.live) ↔
      ∀ id, id ∈ s.alloc.recyclable ↔ 0 < held s.alloc.recyclerShards id := by
  have gauge : s.alloc.globalGauge ≠ 0 := by
    intro wrapped
    simp [Recycling.snapshot, wrapped] at taken
  have taken' : s.alloc.snapshot = .ok ⟨s.alloc.globalGauge, s.alloc.recyclable⟩ := if_neg gauge
  rw [taken] at taken'
  cases taken'
  constructor
  · rintro ⟨chunks, run, same⟩ id
    obtain ⟨chunks', run', ids⟩ := iterAllocatedChunks_ok
      ⟨s.alloc.globalGauge, s.alloc.recyclable⟩ ledger.gauge bounded
    rw [run] at run'
    cases run'
    have listed := same.mem_iff (a := id)
    rw [ids] at listed
    simp only [List.mem_filter, List.mem_range'_1, decide_eq_true_eq] at listed
    have place := ledger.once id
    have top : s.alloc.top = s.alloc.globalGauge := if_neg gauge
    rw [top, Ledger.places, queue, List.count_nil] at place
    rw [← List.count_pos_iff (l := s.live)] at listed
    constructor
    · intro free
      obtain ⟨low, high⟩ := bounded id free
      rw [if_pos ⟨low, high⟩] at place
      have unused : ¬ 0 < s.live.count id := fun inUse => (listed.mpr inUse).2 free
      omega
    · intro some
      by_contra taken
      split at place
      · have := listed.mp ⟨by omega, taken⟩
        omega
      · omega
  · intro recyclers
    obtain ⟨snapshot, chunks, taken', run, same⟩ :=
      (exact_of_recyclers ledger queue gauge recyclers).snapshot
    rw [taken] at taken'
    cases taken'
    exact ⟨chunks, run, same⟩

/-- After a flush the free set is what the recyclers hold, less what was reused
since the last one. -/
theorem flush_recyclable {s : Ledger w T} (h : Tracked s) (mirrored : Mirrored s)
    {a : Recycling w T} (run : s.alloc.flush = .ok a) :
    a.deallocQueue = [] ∧ a.reuseQueueShards.flatten = [] ∧
    (∀ id, held a.recyclerShards id =
      held s.alloc.recyclerShards id + s.alloc.deallocQueue.count id) ∧
    ∀ id, id ∈ a.recyclable ↔
      0 < held a.recyclerShards id ∧ id ∉ s.alloc.reuseQueueShards.flatten := by
  obtain ⟨shards, run', -, kept⟩ := flush_ok h.ledger.shards
  rw [run] at run'
  have apart : ∀ id, held s.alloc.recyclerShards id + s.alloc.deallocQueue.count id ≤ 1 := by
    intro id
    have := h.ledger.places_le id
    unfold Ledger.places at this
    omega
  cases run'
  refine ⟨rfl, flatten_map_nil _, kept apart, fun id => ?_⟩
  change id ∈ s.alloc.flushedRecyclable ↔ 0 < held shards id ∧ _
  rw [kept apart id, Recycling.flushedRecyclable, SortedSet.mem_eraseAll, SortedSet.mem_extend,
    mirrored id, ← List.count_pos_iff (l := s.alloc.deallocQueue)]
  constructor
  · rintro ⟨(held | reused) | queued, unused⟩
    · exact ⟨by omega, unused⟩
    · exact absurd reused unused
    · exact ⟨by omega, unused⟩
  · rintro ⟨some, unused⟩
    refine ⟨?_, unused⟩
    by_cases queued : 0 < s.alloc.deallocQueue.count id
    · exact .inr queued
    · exact .inl (.inl (by omega))

theorem flush_tracked {s : Ledger w T} (h : Tracked s) {a : Recycling w T}
    (run : s.alloc.flush = .ok a) : Tracked { s with alloc := a } := by
  obtain ⟨_, run', -⟩ := flush_ok h.ledger.shards
  have ledger := flush_inv h.ledger run
  rw [run] at run'
  cases run'
  refine ⟨ledger, fun id reused => ?_⟩
  change id ∈ (s.alloc.reuseQueueShards.map fun _ => []).flatten at reused
  rw [flatten_map_nil] at reused
  cases reused

/-- A flush reconciles the two free sets exactly when no ID was both reused and
freed since the last one. -/
theorem flush_reconciles {s : Ledger w T} (h : Tracked s) (mirrored : Mirrored s)
    {a : Recycling w T} (run : s.alloc.flush = .ok a) :
    (∀ id, id ∈ a.recyclable ↔ 0 < held a.recyclerShards id) ↔
      ∀ id ∈ s.alloc.deallocQueue, id ∉ s.alloc.reuseQueueShards.flatten := by
  obtain ⟨-, -, kept, recyclable⟩ := flush_recyclable h mirrored run
  constructor
  · intro exact id queued reused
    have some : 0 < held a.recyclerShards id := by
      have := kept id
      have := List.count_pos_iff.mpr queued
      omega
    exact ((recyclable id).mp ((exact id).mpr some)).2 reused
  · intro apart id
    rw [recyclable id]
    constructor
    · exact fun both => both.1
    · intro some
      refine ⟨some, fun reused => ?_⟩
      have zero := h.reused id reused
      have := kept id
      exact apart id (List.count_pos_iff.mp (by omega)) reused

theorem flush_mirrored {s : Ledger w T} (h : Tracked s) (mirrored : Mirrored s)
    {a : Recycling w T} (run : s.alloc.flush = .ok a)
    (apart : ∀ id ∈ s.alloc.deallocQueue, id ∉ s.alloc.reuseQueueShards.flatten) :
    Mirrored { s with alloc := a } := by
  intro id
  have empty := (flush_recyclable h mirrored run).2.1
  change id ∈ a.recyclable ↔ 0 < held a.recyclerShards id ∨ id ∈ a.reuseQueueShards.flatten
  rw [empty, (flush_reconciles h mirrored run).mpr apart id]
  simp

theorem flush_exact {s : Ledger w T} (h : Tracked s) (mirrored : Mirrored s) {a : Recycling w T}
    (run : s.alloc.flush = .ok a) : FreeSetExact { s with alloc := a } ↔ Settled s := by
  have reconciles := flush_reconciles h mirrored run
  have gauge : a.globalGauge = s.alloc.globalGauge := by
    obtain ⟨_, run', -⟩ := flush_ok h.ledger.shards
    rw [run] at run'
    cases run'
    rfl
  constructor
  · intro exact
    refine ⟨?_, reconciles.mp fun id => (exact.recyclers id).trans held_pos.symm⟩
    obtain ⟨_, _, taken, -⟩ := exact.snapshot
    intro wrapped
    simp [Recycling.snapshot, gauge, wrapped] at taken
  · intro settled
    exact exact_of_recyclers (flush_inv h.ledger run) (flush_recyclable h mirrored run).1
      (gauge ▸ settled.1) (reconciles.mpr settled.2)

/-- The whole history: the free set was exact after every flush if and only if
every flush found a settled state. -/
theorem offline_exact {numShards : Nat} (width : 0 < w) (some : 0 < numShards)
    {flushes : List (Ledger w T × Ledger w T)} {s : Ledger w T}
    (run : Offline numShards flushes s) : Tracked s ∧
    ((∀ p ∈ flushes, FreeSetExact p.2) ↔ ∀ p ∈ flushes, Settled p.1) ∧
    ((∀ p ∈ flushes, Settled p.1) → Mirrored s) := by
  induction run with
  | start =>
    refine ⟨⟨Ledger.reachable_inv some width .start, ?_⟩, by simp, fun _ id => ?_⟩
    · simp [Ledger.start, Recycling.new]
    · simp [Ledger.start, Recycling.new, Ledger.held_replicate]
  | @allocate flushes s shardId hint id a run _ ih =>
    obtain ⟨tracked, same, mirrored⟩ := ih
    have next := allocate_tracked tracked (run ▸ allocate_allocated s.alloc shardId hint)
    exact ⟨next.1, same, fun settled => next.2 (mirrored settled)⟩
  | @queueDeallocate flushes s id inUse _ ih =>
    obtain ⟨tracked, same, mirrored⟩ := ih
    have ledger := Ledger.step_inv (.queueDeallocate id inUse) tracked.ledger
    exact ⟨⟨ledger, tracked.reused⟩, same, mirrored⟩
  | @flush flushes s a run _ ih =>
    obtain ⟨tracked, same, mirrored⟩ := ih
    refine ⟨flush_tracked tracked run, ?_, fun settled => ?_⟩
    · rw [List.forall_mem_cons, List.forall_mem_cons, same, and_comm, and_comm (b := ∀ _, _)]
      apply and_congr_right
      intro settled
      exact flush_exact tracked (mirrored settled) run
    · obtain ⟨here, settled⟩ := List.forall_mem_cons.mp settled
      exact flush_mirrored tracked (mirrored settled) run here.2

/-- **Offline free set.** After every flush of an offline history the free set
is exact, if and only if no flush came after an ID had been reused and freed
since the flush before (nor after the gauge wrapped around). -/
theorem offline_free_set {numShards : Nat} (width : 0 < w) (some : 0 < numShards)
    {flushes : List (Ledger w T × Ledger w T)} {s : Ledger w T}
    (run : Offline numShards flushes s) :
    (∀ p ∈ flushes, FreeSetExact p.2) ↔ ∀ p ∈ flushes, p.1.alloc.globalGauge ≠ 0 ∧
      ∀ id ∈ p.1.alloc.deallocQueue, id ∉ p.1.alloc.reuseQueueShards.flatten :=
  (offline_exact width some run).2.1

theorem offline_free_set_two : ∃ flushes, ∃ s : Ledger 16 (List Nat), Offline 1 flushes s ∧
    s.live = [1] ∧ flushes.length = 1 ∧ ∀ p ∈ flushes, FreeSetExact p.2 :=
  have run : Offline 1 _ _ :=
    .allocate 0 () rfl (.flush rfl (.queueDeallocate 1 (by decide) (.allocate 0 () rfl .start)))
  ⟨_, _, run, rfl, rfl, (offline_free_set (by decide) (by decide) run).mpr (by decide)⟩

/-- An ID that is allocated, freed, flushed, and then allocated and freed again
before the next flush drops out of the free set while a recycler holds it. -/
theorem offline_free_set_reuse : ∃ flushes, ∃ s : Ledger 16 (List Nat), Offline 1 flushes s ∧
    s.alloc.recyclable.toList = [] ∧ s.alloc.recyclerShards = [[1]] ∧ s.live = [] ∧
    ¬ ∀ p ∈ flushes, FreeSetExact p.2 := by
  have run : Offline (T := List Nat) (w := 16) 1 _ _ :=
    .flush rfl (.queueDeallocate 1 (by decide) (.allocate 0 () rfl (.flush rfl
      (.queueDeallocate 1 (by decide) (.allocate 0 () rfl .start)))))
  refine ⟨_, _, run, rfl, rfl, rfl, fun exact => ?_⟩
  have listed := (exact _ (.head _)).recyclers 1
  have free : (1 : Nat) ∈ SortedSet.empty := listed.mpr ⟨[1], .head _, .head _⟩
  exact SortedSet.not_mem_empty 1 free

end Dynec.Entity
