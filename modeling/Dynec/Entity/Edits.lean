import Dynec.Entity.FreeSet

/-!
# Host-side edits of an allocator

Between cycles, a deletion marks the allocator for a flush and an allocation
does not. The snapshot at the start of a cycle is taken after the marked flush.
-/

namespace Dynec.Entity

open Count

variable {w : Nat} {T Hint : Type} [Recycler T Hint]

/-- A ledger between host-side edits. Without the mark, or outside of host code,
nothing is queued for deallocation. -/
structure Edited (l : Ledger w T) (host : Bool) : Prop where
  tracked : Tracked l
  reused : ∀ id ∈ l.alloc.reuseQueueShards.flatten, l.places id = 1
  queue : l.alloc.flushMark = false ∨ host = false → l.alloc.deallocQueue = []

theorem edited_allocate {l : Ledger w T} (h : Edited l true) {shardId id : Nat} {hint : Hint}
    {a : Recycling w T} (run : l.alloc.allocate shardId hint = (.ok id, a)) :
    Edited { l with alloc := a, live := id :: l.live } true ∧
      (Mirrored l → Mirrored { l with alloc := a, live := id :: l.live }) := by
  have allocated := run ▸ allocate_allocated l.alloc shardId hint
  have next := allocate_tracked h.tracked allocated
  refine ⟨⟨next.1, fun x reused => ?_, ?_⟩, next.2⟩
  · have bound := next.1.ledger.places_le x
    generalize outcome : (Except.ok id, a) = result at allocated
    cases allocated with
    | @recycled recycler recycler' queue _ found queued polled =>
      cases outcome
      have moved := held_set_polled found polled x
      have old : x ∈ l.alloc.reuseQueueShards.flatten → l.places x = 1 := h.reused x
      simp only [Ledger.places, List.count_cons, List.count_nil] at bound moved old ⊢
      rcases (mem_flatten_set queued id x).mp reused with reused | rfl
      · have := old reused
        omega
      · simp only [beq_self_eq_true, if_true] at moved bound ⊢
        omega
    | fresh found empty =>
      simp only [Prod.mk.injEq] at outcome
      obtain ⟨-, rfl⟩ := outcome
      have old := h.reused x reused
      simp only [Ledger.places, List.count_cons] at bound old ⊢
      omega
    | outside => cases outcome
  · generalize outcome : (Except.ok id, a) = result at allocated
    cases allocated with
    | recycled => cases outcome; exact h.queue
    | fresh =>
      simp only [Prod.mk.injEq] at outcome
      obtain ⟨-, rfl⟩ := outcome
      exact h.queue
    | outside => cases outcome

theorem edited_delete {l : Ledger w T} (h : Edited l true) {id : Nat} (inUse : id ∈ l.live) :
    Edited { l with
      alloc := l.alloc.markNeedFlush.queueDeallocate id, live := l.live.erase id } true := by
  have ledger := Ledger.step_inv (.queueDeallocate id inUse) h.tracked.ledger
  refine ⟨⟨⟨ledger.shards, ledger.gauge, ledger.once⟩, h.tracked.reused⟩, fun x reused => ?_, ?_⟩
  · have before := h.tracked.ledger.once x
    rw [h.reused x reused] at before
    exact (ledger.once x).trans before.symm
  · rintro (unmarked | absent)
    · cases unmarked
    · cases absent

theorem edited_flush {l : Ledger w T} (h : Edited l host) {a : Recycling w T}
    (run : l.alloc.flush = .ok a) (host' : Bool) : Edited { l with alloc := a } host' := by
  have tracked := flush_tracked h.tracked run
  obtain ⟨_, run', -⟩ := flush_ok h.tracked.ledger.shards
  rw [run] at run'
  cases run'
  refine ⟨tracked, fun x reused => ?_, fun _ => rfl⟩
  change x ∈ (l.alloc.reuseQueueShards.map fun _ => []).flatten at reused
  rw [flatten_map_nil] at reused
  cases reused

/-- IDs that the free set of a mirrored ledger may list are below the gauge. -/
theorem edited_bounded {l : Ledger w T} (h : Edited l host) (mirrored : Mirrored l)
    (gauge : l.alloc.globalGauge ≠ 0) (id : Nat) (free : id ∈ l.alloc.recyclable) :
    1 ≤ id ∧ id < l.alloc.globalGauge := by
  have place : l.places id = 1 := by
    rcases (mirrored id).mp free with held | reused
    · have := h.tracked.ledger.places_le id
      simp only [Ledger.places] at this ⊢
      omega
    · exact h.reused id reused
  have top : l.alloc.top = l.alloc.globalGauge := if_neg gauge
  rw [h.tracked.ledger.once id, top] at place
  by_contra outside
  rw [if_neg outside] at place
  cases place

theorem edited_flushIfMarked {l : Ledger w T} (h : Edited l true) {a : Recycling w T}
    (run : l.alloc.flushIfMarked = .ok a) : Edited { l with alloc := a } false := by
  cases mark : l.alloc.flushMark with
  | true =>
    rw [Recycling.flushIfMarked, if_pos mark] at run
    exact edited_flush h run false
  | false =>
    rw [Recycling.flushIfMarked, if_neg (by simp [mark])] at run
    cases run
    exact ⟨h.tracked, h.reused, fun _ => h.queue (.inl mark)⟩

theorem mirrored_flushIfMarked {l : Ledger w T} (h : Edited l true) (mirrored : Mirrored l)
    {a : Recycling w T} (run : l.alloc.flushIfMarked = .ok a)
    (apart : ∀ id ∈ l.alloc.deallocQueue, id ∉ l.alloc.reuseQueueShards.flatten) :
    Mirrored { l with alloc := a } := by
  unfold Recycling.flushIfMarked at run
  split at run
  · exact flush_mirrored h.tracked mirrored run apart
  · cases run
    exact mirrored

/-- The snapshot after `flush_if_marked` is exact if and only if the marked
flush reconciles, or there is nothing to reconcile. -/
theorem edited_snapshot {l : Ledger w T} (h : Edited l true) (mirrored : Mirrored l)
    {a : Recycling w T} (run : l.alloc.flushIfMarked = .ok a) {snapshot : Snapshot}
    (taken : a.snapshot = .ok snapshot) :
    (∃ chunks, snapshot.iterAllocatedChunks w = .ok chunks ∧ (rangeIds chunks).Perm l.live) ↔
      (∀ id ∈ l.alloc.deallocQueue, id ∉ l.alloc.reuseQueueShards.flatten) ∧
      (l.alloc.flushMark = true ∨ l.alloc.reuseQueueShards.flatten = []) := by
  have gauge : a.globalGauge ≠ 0 := by
    intro wrapped
    simp [Recycling.snapshot, wrapped] at taken
  have edited := edited_flushIfMarked h run
  cases mark : l.alloc.flushMark with
  | true =>
    rw [Recycling.flushIfMarked, if_pos mark] at run
    obtain ⟨queue, -, -, recyclable⟩ := flush_recyclable h.tracked mirrored run
    have bounded : ∀ id ∈ a.recyclable, 1 ≤ id ∧ id < a.globalGauge := by
      intro id free
      have some := ((recyclable id).mp free).1
      have place := edited.tracked.ledger.once id
      have top : a.top = a.globalGauge := if_neg gauge
      rw [top] at place
      simp only [Ledger.places] at place
      by_contra outside
      rw [if_neg outside] at place
      omega
    rw [snapshot_exact_iff (s := { l with alloc := a }) edited.tracked.ledger queue taken bounded,
      flush_reconciles h.tracked mirrored run]
    simp
  | false =>
    rw [Recycling.flushIfMarked, if_neg (by simp [mark])] at run
    cases run
    have queue := h.queue (.inl mark)
    rw [snapshot_exact_iff h.tracked.ledger queue taken (edited_bounded h mirrored gauge)]
    simp only [queue, List.not_mem_nil, false_implies, implies_true, true_and, Bool.false_eq_true,
      false_or]
    constructor
    · intro exact
      apply List.eq_nil_iff_forall_not_mem.mpr
      intro id reused
      have := (exact id).mp ((mirrored id).mpr (.inr reused))
      have := h.tracked.reused id reused
      omega
    · intro none id
      rw [mirrored id, none]
      simp

end Dynec.Entity
