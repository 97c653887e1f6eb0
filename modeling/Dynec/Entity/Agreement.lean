import Dynec.Entity.Ledger

/-!
# Online and offline allocation

A shard has two `allocate` bodies. The one that workers reach through the
`Shard` trait does not record the IDs it takes from its recycler, so the next
flush leaves them in the free set.
-/

namespace Dynec.Entity

open Fallible Count

variable {w : Nat} {T Hint : Type} [Recycler T Hint]

/-- Allocate once for every hint. -/
def allocateAll (allocate : Recycling w T → Hint → Except Panic Nat × Recycling w T) :
    Recycling w T → List Hint → List (Except Panic Nat) × Recycling w T
  | a, [] => ([], a)
  | a, hint :: hints =>
    let (id, a) := allocate a hint
    let (ids, a) := allocateAll allocate a hints
    (id :: ids, a)

/-- Allocate through the shard of a worker, drop the shards and flush. -/
def allocateOnline (a : Recycling w T) (index : Nat) (hints : List Hint) :
    List (Except Panic Nat) × Except Panic (Recycling w T) :=
  let (ids, a) := allocateAll (fun a hint => a.shardAllocate index hint) a hints
  (ids, a.flush)

/-- Allocate offline, with the assigner choosing one shard, and flush. -/
def allocateOffline (a : Recycling w T) (index : Nat) (hints : List Hint) :
    List (Except Panic Nat) × Except Panic (Recycling w T) :=
  let (ids, a) := allocateAll (fun a hint => a.allocate index hint) a hints
  (ids, a.flush)

/-- The IDs that polling a recycler with the hints yields. -/
def polledIds : T → List Hint → List Nat
  | _, [] => []
  | recycler, hint :: hints =>
    match Recycler.poll recycler hint with
    | .ok (some id, recycler) => id :: polledIds recycler hints
    | .ok (none, recycler) => polledIds recycler hints
    | .error _ => polledIds recycler hints

/-- Two allocators that differ at most in their reuse queues. -/
structure SameButReuse (a b : Recycling w T) : Prop where
  flushMark : a.flushMark = b.flushMark
  globalGauge : a.globalGauge = b.globalGauge
  recyclable : a.recyclable = b.recyclable
  recyclerShards : a.recyclerShards = b.recyclerShards
  deallocQueue : a.deallocQueue = b.deallocQueue

/-- A recycler without IDs: both bodies take a new ID from the gauge. -/
theorem allocate_new_same {a b : Recycling w T} {index : Nat} {recycler : T} {hint : Hint}
    {queue queue' : List Nat} (same : SameButReuse a b)
    (found : a.recyclerShards[index]? = some recycler)
    (queued : a.reuseQueueShards[index]? = some queue)
    (queued' : b.reuseQueueShards[index]? = some queue')
    (poll : Recycler.poll recycler hint = .ok (none, recycler)) :
    a.allocate index hint = ((fetchAdd w a.globalGauge).1,
      { a with globalGauge := (fetchAdd w a.globalGauge).2 }) ∧
    b.shardAllocate index hint = ((fetchAdd w a.globalGauge).1,
      { b with globalGauge := (fetchAdd w a.globalGauge).2 }) := by
  have found' : b.recyclerShards[index]? = some recycler := same.recyclerShards ▸ found
  constructor
  · rw [Recycling.allocate, onShard_found found queued]
    simp only [RecyclingShard.allocate, poll, RecyclingShard.allocateNew, set_same found,
      set_same queued]
  · rw [Recycling.shardAllocate, onShard_found found' queued', ← same.globalGauge]
    simp only [RecyclingShard.shardAllocate, poll, RecyclingShard.allocateNew,
      set_same found', set_same queued']

/-- A recycler with an ID: both bodies reuse it, and one of them records that. -/
theorem allocate_reused_same {a b : Recycling w T} {index id : Nat} {recycler next : T}
    {hint : Hint} {queue queue' : List Nat} (same : SameButReuse a b)
    (found : a.recyclerShards[index]? = some recycler)
    (queued : a.reuseQueueShards[index]? = some queue)
    (queued' : b.reuseQueueShards[index]? = some queue')
    (poll : Recycler.poll recycler hint = .ok (some id, next)) :
    a.allocate index hint = (.ok id, { a with
      recyclerShards := a.recyclerShards.set index next
      reuseQueueShards := a.reuseQueueShards.set index (queue ++ [id]) }) ∧
    b.shardAllocate index hint = (.ok id, { b with
      recyclerShards := a.recyclerShards.set index next }) := by
  have found' : b.recyclerShards[index]? = some recycler := same.recyclerShards ▸ found
  constructor
  · rw [Recycling.allocate, onShard_found found queued]
    simp only [RecyclingShard.allocate, poll]
  · rw [Recycling.shardAllocate, onShard_found found' queued', ← same.recyclerShards]
    simp only [RecyclingShard.shardAllocate, poll, set_same queued']

/-- Both bodies poll alike and return the same IDs. -/
theorem allocateAll_same {a b : Recycling w T} {index : Nat} {recycler : T}
    {queue queue' : List Nat} (hints : List Hint) (same : SameButReuse a b)
    (found : a.recyclerShards[index]? = some recycler)
    (queued : a.reuseQueueShards[index]? = some queue)
    (queued' : b.reuseQueueShards[index]? = some queue') :
    ∃ ids a' b', allocateAll (fun a hint => a.allocate index hint) a hints = (ids, a') ∧
      allocateAll (fun a hint => a.shardAllocate index hint) b hints = (ids, b') ∧
      SameButReuse a' b' ∧ a'.recyclable = a.recyclable ∧ a'.deallocQueue = a.deallocQueue ∧
      a'.recyclerShards.length = a.recyclerShards.length ∧
      a'.reuseQueueShards = a.reuseQueueShards.set index (queue ++ polledIds recycler hints) ∧
      b'.reuseQueueShards = b.reuseQueueShards := by
  induction hints generalizing a b recycler queue with
  | nil =>
    refine ⟨[], a, b, rfl, rfl, same, rfl, rfl, rfl, ?_, rfl⟩
    rw [polledIds, List.append_nil, set_same queued]
  | cons hint hints ih =>
    rcases Recycler.poll_eq recycler hint with ⟨_, poll, rfl, empty⟩ | ⟨id, next, poll, perm⟩
    · obtain ⟨off, on⟩ := allocate_new_same same found queued queued' poll
      obtain ⟨ids, a', b', runs, runs', same', keeps⟩ := ih
        (a := { a with globalGauge := (fetchAdd w a.globalGauge).2 })
        (b := { b with globalGauge := (fetchAdd w a.globalGauge).2 })
        ⟨same.flushMark, rfl, same.recyclable, same.recyclerShards, same.deallocQueue⟩
        found queued queued'
      refine ⟨(fetchAdd w a.globalGauge).1 :: ids, a', b', ?_, ?_, same', ?_⟩
      · simp only [allocateAll, off, runs]
      · simp only [allocateAll, on, runs']
      · simpa only [polledIds, poll] using keeps
    · have inside : index < a.recyclerShards.length := (List.getElem?_eq_some_iff.mp found).1
      have insideQueue : index < a.reuseQueueShards.length :=
        (List.getElem?_eq_some_iff.mp queued).1
      obtain ⟨off, on⟩ := allocate_reused_same same found queued queued' poll
      obtain ⟨ids, a', b', runs, runs', same', rec', queue', length', reuse, reuse'⟩ := ih
        (a := { a with
          recyclerShards := a.recyclerShards.set index next
          reuseQueueShards := a.reuseQueueShards.set index (queue ++ [id]) })
        (b := { b with recyclerShards := a.recyclerShards.set index next })
        ⟨same.flushMark, same.globalGauge, same.recyclable, rfl, same.deallocQueue⟩
        (List.getElem?_set_self inside) (List.getElem?_set_self insideQueue) queued'
      refine ⟨.ok id :: ids, a', b', ?_, ?_, same', rec', queue', ?_, ?_, reuse'⟩
      · simp only [allocateAll, off, runs]
      · simp only [allocateAll, on, runs']
      · rw [length', List.length_set]
      · rw [reuse, List.set_set]
        simp [polledIds, poll]

/-- What a flush computes, in terms of the distribution. -/
theorem flush_of_distribute {a : Recycling w T} {shards : List T}
    (run : Recycling.distribute a.recyclerShards a.deallocQueue = .ok shards) :
    a.flush = .ok ⟨false, a.globalGauge, a.flushedRecyclable, shards, [],
      a.reuseQueueShards.map fun _ => []⟩ := by
  simp [Recycling.flush, run]

/-- The two ways give the same exactly when no polled ID was recorded free. -/
theorem online_offline_agree_iff {a : Recycling w T} {index : Nat} {recycler : T}
    {queue : List Nat} (found : a.recyclerShards[index]? = some recycler)
    (queued : a.reuseQueueShards[index]? = some queue) (hints : List Hint) :
    allocateOnline a index hints = allocateOffline a index hints ↔
      ∀ id ∈ polledIds recycler hints, id ∈ a.recyclable ∨ id ∈ a.deallocQueue →
        id ∈ a.reuseQueueShards.flatten := by
  have self : SameButReuse a a := ⟨rfl, rfl, rfl, rfl, rfl⟩
  obtain ⟨ids, a', b', off, on, same, rec', queue', length, reuse, reuse'⟩ :=
    allocateAll_same hints self found queued queued
  have nonempty : a'.recyclerShards ≠ [] := by
    intro empty
    rw [empty] at length
    have := (List.getElem?_eq_some_iff.mp found).1
    simp only [List.length_nil] at length
    omega
  obtain ⟨shards, run, -⟩ := distribute_ok nonempty a'.deallocQueue
  have run' : Recycling.distribute b'.recyclerShards b'.deallocQueue = .ok shards := by
    rw [← same.recyclerShards, ← same.deallocQueue]
    exact run
  have emptied : (a'.reuseQueueShards.map fun _ => ([] : List Nat)) =
      b'.reuseQueueShards.map fun _ => [] := by
    rw [reuse, reuse', List.map_set]
    apply set_same
    rw [List.getElem?_map, queued]
    rfl
  have member : ∀ x, x ∈ a'.reuseQueueShards.flatten ↔
      x ∈ a.reuseQueueShards.flatten ∨ x ∈ polledIds recycler hints := by
    intro x
    have change := count_flatMap_set (id : List Nat → List Nat) queued
      (queue ++ polledIds recycler hints) x
    simp only [id_eq, List.count_append, ← List.flatten_eq_flatMap, ← reuse] at change
    rw [← List.count_pos_iff, ← List.count_pos_iff (l := a.reuseQueueShards.flatten),
      ← List.count_pos_iff (l := polledIds recycler hints)]
    omega
  have recyclable : allocateOnline a index hints = allocateOffline a index hints ↔
      b'.flushedRecyclable = a'.flushedRecyclable := by
    simp only [allocateOnline, allocateOffline, on, off, flush_of_distribute run,
      flush_of_distribute run', Prod.mk.injEq, true_and, Except.ok.injEq, Recycling.mk.injEq,
      same.globalGauge, emptied, and_true]
  rw [recyclable]
  simp only [Recycling.flushedRecyclable, ← same.recyclable, ← same.deallocQueue, rec', queue',
    reuse']
  constructor
  · intro equal x polled listed
    by_contra unused
    have left : x ∈ (a.recyclable.extend a.deallocQueue).eraseAll a.reuseQueueShards.flatten := by
      rw [SortedSet.mem_eraseAll, SortedSet.mem_extend]
      exact ⟨listed, unused⟩
    rw [equal, SortedSet.mem_eraseAll, member] at left
    exact left.2 (.inr polled)
  · intro covered
    apply SortedSet.ext
    intro x
    simp only [SortedSet.mem_eraseAll, SortedSet.mem_extend, member, not_or]
    constructor
    · rintro ⟨listed, unused⟩
      exact ⟨listed, unused, fun polled => unused (covered x polled listed)⟩
    · rintro ⟨listed, unused, -⟩
      exact ⟨listed, unused⟩

theorem polledIds_mem (recycler : T) (hints : List Hint) :
    ∀ id ∈ polledIds recycler hints, id ∈ Recycler.contents recycler := by
  induction hints generalizing recycler with
  | nil => simp [polledIds]
  | cons hint hints ih =>
    intro x hx
    rcases Recycler.poll_eq recycler hint with ⟨_, poll, rfl, empty⟩ | ⟨id, next, poll, perm⟩
    · simp only [polledIds, poll] at hx
      exact ih _ x hx
    · simp only [polledIds, poll] at hx
      rw [perm.mem_iff, List.mem_cons]
      rcases List.mem_cons.mp hx with rfl | hx
      · exact .inl rfl
      · exact .inr (ih next x hx)

theorem polledIds_eq_nil (recycler : T) (hints : List Hint) :
    polledIds recycler hints = [] ↔ hints = [] ∨ Recycler.contents recycler = [] := by
  constructor
  · intro none
    cases hints with
    | nil => exact .inl rfl
    | cons hint hints =>
      rcases Recycler.poll_eq recycler hint with ⟨_, _, rfl, empty⟩ | ⟨id, next, poll, perm⟩
      · exact .inr empty
      · simp [polledIds, poll] at none
  · rintro (rfl | empty)
    · rfl
    · apply List.eq_nil_iff_forall_not_mem.mpr
      intro x hx
      have := polledIds_mem recycler hints x hx
      rw [empty] at this
      cases this

/-- **Online against offline.** The two ways of allocating agree after the
flush if and only if no ID polled from the shard's recycler is recorded free
without being in a reuse queue. Where every ID of the recycler is recorded
free, that is when nothing is polled. -/
theorem online_offline_agree {a : Recycling w T} {index : Nat} {recycler : T} {queue : List Nat}
    (found : a.recyclerShards[index]? = some recycler)
    (queued : a.reuseQueueShards[index]? = some queue) (hints : List Hint) :
    (allocateOnline a index hints = allocateOffline a index hints ↔
      ∀ id ∈ polledIds recycler hints, id ∈ a.recyclable ∨ id ∈ a.deallocQueue →
        id ∈ a.reuseQueueShards.flatten) ∧
    ((∀ id ∈ Recycler.contents recycler,
        id ∈ a.recyclable ∧ id ∉ a.reuseQueueShards.flatten) →
      (allocateOnline a index hints = allocateOffline a index hints ↔
        hints = [] ∨ Recycler.contents recycler = [])) := by
  have general := online_offline_agree_iff found queued hints
  refine ⟨general, fun recorded => ?_⟩
  rw [general, ← polledIds_eq_nil]
  constructor
  · intro covered
    apply List.eq_nil_iff_forall_not_mem.mpr
    intro x polled
    obtain ⟨listed, unused⟩ := recorded x (polledIds_mem recycler hints x polled)
    exact unused (covered x polled (.inl listed))
  · intro none x polled
    rw [none] at polled
    cases polled

theorem online_offline_agree_new :
    allocateOnline (.new 16 1 : Recycling 16 (List Nat)) 0 [(), ()] =
      allocateOffline (.new 16 1 : Recycling 16 (List Nat)) 0 [(), ()] :=
  (online_offline_agree rfl rfl [(), ()]).1.mpr (by decide)

/-- After ID 1 was freed and flushed, a worker that takes it leaves it in the
free set, and offline allocation does not. -/
theorem online_offline_disagree : ∃ a : Recycling 16 (List Nat),
    (((Recycling.new 16 1 : Recycling 16 (List Nat)).allocate 0 ()).2.queueDeallocate 1).flush =
      .ok a ∧
    ((allocateOnline a 0 [()]).2.map (·.recyclable.toList)) = .ok [1] ∧
    ((allocateOffline a 0 [()]).2.map (·.recyclable.toList)) = .ok [] ∧
    allocateOnline a 0 [()] ≠ allocateOffline a 0 [()] := by
  refine ⟨_, rfl, rfl, rfl, fun agree => ?_⟩
  have free := congrArg (fun r => r.2.map (·.recyclable.toList)) agree
  cases free

end Dynec.Entity
