import Dynec.Entity.Distribute

/-!
# The ledger of an allocator

Every ID below the gauge is in one place: in use, queued for deallocation, or
in one recycler. Allocation and deallocation move single IDs between the
places, and a flush moves the whole queue into the recyclers.
-/

namespace Dynec.Entity

open Fallible Count

variable {w : Nat} {T Hint : Type} [Recycler T Hint]

/-! ## What an allocation does -/

/-- The outcomes of an allocation on one shard. `reuse` tells whether the
shard records the IDs it takes from its recycler. -/
inductive Allocated (a : Recycling w T) (index : Nat) (reuse : Bool) :
    Except Panic Nat × Recycling w T → Prop
  | recycled {recycler recycler' : T} {queue : List Nat} {id : Nat}
      (found : a.recyclerShards[index]? = some recycler)
      (queued : a.reuseQueueShards[index]? = some queue)
      (polled : (Recycler.contents recycler).Perm (id :: Recycler.contents recycler')) :
      Allocated a index reuse (.ok id, { a with
        recyclerShards := a.recyclerShards.set index recycler'
        reuseQueueShards := a.reuseQueueShards.set index
          (if reuse then queue ++ [id] else queue) })
  | fresh {recycler : T} (found : a.recyclerShards[index]? = some recycler)
      (empty : Recycler.contents recycler = []) :
      Allocated a index reuse ((fetchAdd w a.globalGauge).1,
        { a with globalGauge := (fetchAdd w a.globalGauge).2 })
  | outside : Allocated a index reuse (.error .indexOutOfBounds, a)

theorem set_same {α : Type} {l : List α} {i : Nat} {x : α} (h : l[i]? = some x) :
    l.set i x = l := by
  obtain ⟨lt, eq⟩ := List.getElem?_eq_some_iff.mp h
  rw [← eq]
  exact List.set_getElem_self lt

theorem onShard_found {a : Recycling w T} {index : Nat} {recycler : T} {queue : List Nat}
    (found : a.recyclerShards[index]? = some recycler)
    (queued : a.reuseQueueShards[index]? = some queue)
    (run : RecyclingShard T → Except Panic Nat × RecyclingShard T) :
    a.onShard index run = ((run ⟨a.globalGauge, recycler, queue⟩).1, { a with
      globalGauge := (run ⟨a.globalGauge, recycler, queue⟩).2.globalGauge
      recyclerShards := a.recyclerShards.set index (run ⟨a.globalGauge, recycler, queue⟩).2.recycler
      reuseQueueShards :=
        a.reuseQueueShards.set index (run ⟨a.globalGauge, recycler, queue⟩).2.reuseQueue }) := by
  simp only [Recycling.onShard, found, queued]

/-- A shard that finds nothing in its recycler changes only the gauge. -/
theorem allocated_fresh {a : Recycling w T} {index : Nat} {recycler : T} {queue : List Nat}
    (reuse : Bool) (found : a.recyclerShards[index]? = some recycler)
    (queued : a.reuseQueueShards[index]? = some queue)
    (empty : Recycler.contents recycler = []) :
    Allocated a index reuse ((fetchAdd w a.globalGauge).1, { a with
      globalGauge := (fetchAdd w a.globalGauge).2
      recyclerShards := a.recyclerShards.set index recycler
      reuseQueueShards := a.reuseQueueShards.set index queue }) := by
  rw [set_same found, set_same queued]
  exact .fresh found empty

theorem allocate_allocated (a : Recycling w T) (index : Nat) (hint : Hint) :
    Allocated a index true (a.allocate index hint) := by
  unfold Recycling.allocate
  cases found : a.recyclerShards[index]? with
  | none => simp only [Recycling.onShard, found]; exact .outside
  | some recycler =>
    cases queued : a.reuseQueueShards[index]? with
    | none => simp only [Recycling.onShard, found, queued]; exact .outside
    | some queue =>
      rw [onShard_found found queued]
      rcases Recycler.poll_eq recycler hint with ⟨_, poll, rfl, empty⟩ | ⟨id, next, poll, perm⟩
      · simp only [RecyclingShard.allocate, poll, RecyclingShard.allocateNew]
        exact allocated_fresh true found queued empty
      · simp only [RecyclingShard.allocate, poll]
        exact .recycled found queued perm

theorem shardAllocate_allocated (a : Recycling w T) (index : Nat) (hint : Hint) :
    Allocated a index false (a.shardAllocate index hint) := by
  unfold Recycling.shardAllocate
  cases found : a.recyclerShards[index]? with
  | none => simp only [Recycling.onShard, found]; exact .outside
  | some recycler =>
    cases queued : a.reuseQueueShards[index]? with
    | none => simp only [Recycling.onShard, found, queued]; exact .outside
    | some queue =>
      rw [onShard_found found queued]
      rcases Recycler.poll_eq recycler hint with ⟨_, poll, rfl, empty⟩ | ⟨id, next, poll, perm⟩
      · simp only [RecyclingShard.shardAllocate, poll, RecyclingShard.allocateNew]
        exact allocated_fresh false found queued empty
      · simp only [RecyclingShard.shardAllocate, poll]
        exact .recycled found queued perm

/-- A polled ID leaves the recyclers. -/
theorem held_set_polled {shards : List T} {index id : Nat} {recycler recycler' : T}
    (found : shards[index]? = some recycler)
    (polled : (Recycler.contents recycler).Perm (id :: Recycler.contents recycler')) (x : Nat) :
    held (shards.set index recycler') x + [id].count x = held shards x := by
  have change := count_flatMap_set (Recycler.contents : T → List Nat) found recycler' x
  rw [polled.count_eq, List.count_cons] at change
  simp only [List.count_cons, List.count_nil]
  unfold held
  omega

/-- The first ID that was never allocated: the gauge, or the size of the ID
space after the gauge has wrapped around. -/
def Recycling.top (a : Recycling w T) : Nat :=
  if a.globalGauge = 0 then 2 ^ w else a.globalGauge

theorem top_next {a : Recycling w T} (bound : a.globalGauge < 2 ^ w) (some : a.globalGauge ≠ 0) :
    ({ a with globalGauge := (a.globalGauge + 1) % 2 ^ w } : Recycling w T).top = a.top + 1 := by
  have old : a.top = a.globalGauge := if_neg some
  rw [old]
  simp only [Recycling.top]
  rcases Nat.lt_or_ge (a.globalGauge + 1) (2 ^ w) with small | large
  · rw [Nat.mod_eq_of_lt small, if_neg (by omega)]
  · have full : a.globalGauge + 1 = 2 ^ w := by omega
    rw [full, Nat.mod_self, if_pos rfl]

/-- A flush returns whenever there is a shard. -/
theorem flush_ok {a : Recycling w T} (nonempty : a.recyclerShards ≠ []) :
    ∃ shards, a.flush = .ok { a with
        flushMark := false
        recyclable := a.flushedRecyclable
        recyclerShards := shards
        deallocQueue := []
        reuseQueueShards := a.reuseQueueShards.map fun _ => [] } ∧
      shards.length = a.recyclerShards.length ∧
      ((∀ id, held a.recyclerShards id + a.deallocQueue.count id ≤ 1) →
        ∀ id, held shards id = held a.recyclerShards id + a.deallocQueue.count id) := by
  obtain ⟨shards, run, length, kept⟩ := distribute_ok nonempty a.deallocQueue
  exact ⟨shards, by simp [Recycling.flush, run], length, kept⟩

/-! ## Histories -/

/-- An allocator with the IDs in use. It is online while shards are handed
out. -/
structure Ledger (w : Nat) (T : Type) where
  alloc : Recycling w T
  live : List Nat
  online : Bool

namespace Ledger

def start (w : Nat) (T : Type) {Hint : Type} [Recycler T Hint] (numShards : Nat) : Ledger w T :=
  ⟨.new w numShards, [], false⟩

inductive Step (s : Ledger w T) : Ledger w T → Prop
  | allocate (shardId : Nat) (hint : Hint) {id : Nat} {a : Recycling w T}
      (offline : s.online = false)
      (run : s.alloc.allocate shardId hint = (.ok id, a)) :
      Step s { s with alloc := a, live := id :: s.live }
  | shards (offline : s.online = false) : Step s { s with online := true }
  | shardAllocate (shardId : Nat) (hint : Hint) {id : Nat} {a : Recycling w T}
      (online : s.online = true)
      (run : s.alloc.shardAllocate shardId hint = (.ok id, a)) :
      Step s { s with alloc := a, live := id :: s.live }
  | join (online : s.online = true) : Step s { s with online := false }
  | queueDeallocate (id : Nat) (inUse : id ∈ s.live) :
      Step s { s with alloc := s.alloc.queueDeallocate id, live := s.live.erase id }
  | flush {a : Recycling w T} (offline : s.online = false) (run : s.alloc.flush = .ok a) :
      Step s { s with alloc := a }

inductive Reachable (numShards : Nat) : Ledger w T → Prop
  | start : Reachable numShards (.start w T numShards)
  | next {s t} : Reachable numShards s → s.Step t → Reachable numShards t

/-- The places an ID is in, counted. -/
def places (s : Ledger w T) (id : Nat) : Nat :=
  s.live.count id + s.alloc.deallocQueue.count id + held s.alloc.recyclerShards id

structure Inv (s : Ledger w T) : Prop where
  shards : s.alloc.recyclerShards ≠ []
  gauge : s.alloc.globalGauge < 2 ^ w
  once : ∀ id, s.places id = if 1 ≤ id ∧ id < s.alloc.top then 1 else 0

theorem Inv.places_le {s : Ledger w T} (h : s.Inv) (id : Nat) : s.places id ≤ 1 := by
  rw [h.once]
  split <;> omega

/-- An allocation moves one ID to the live ones, from a recycler or from above
the gauge. -/
theorem inv_allocated {s : Ledger w T} (h : s.Inv) {index : Nat} {reuse : Bool} {id : Nat}
    {a : Recycling w T} (allocated : Allocated s.alloc index reuse (.ok id, a)) :
    id ∉ s.live ∧ Ledger.Inv { s with alloc := a, live := id :: s.live } := by
  generalize outcome : (Except.ok id, a) = result at allocated
  cases allocated with
  | @recycled recycler recycler' queue polledId found queued polled =>
    cases outcome
    have moved := held_set_polled found polled
    refine ⟨fun inUse => ?_, ?_, h.gauge, fun x => Eq.trans ?_ (h.once x)⟩
    · have twice := h.places_le id
      have := moved id
      have := List.count_pos_iff.mpr inUse
      simp only [places, List.count_cons_self, List.count_nil] at *
      omega
    · intro empty
      exact h.shards (by simpa using congrArg List.length empty)
    · have := moved x
      simp only [places, List.count_cons, List.count_nil] at *
      omega
  | fresh found empty =>
    by_cases wrapped : s.alloc.globalGauge = 0
    · simp [fetchAdd, wrapped] at outcome
    · simp only [fetchAdd, wrapped, if_false, Prod.mk.injEq, Except.ok.injEq] at outcome
      obtain ⟨rfl, rfl⟩ := outcome
      have old : s.alloc.top = s.alloc.globalGauge := if_neg wrapped
      have new := top_next h.gauge wrapped
      have unused := h.once s.alloc.globalGauge
      rw [old] at unused
      simp only [Nat.lt_irrefl, and_false, if_false, places] at unused
      refine ⟨fun inUse => ?_, h.shards, Nat.mod_lt _ (Nat.two_pow_pos w), fun x => ?_⟩
      · have := List.count_pos_iff.mpr inUse
        omega
      · have before := h.once x
        rw [new, old]
        rw [old] at before
        simp only [places, List.count_cons, beq_iff_eq] at before ⊢
        by_cases same : s.alloc.globalGauge = x
        · subst same
          rw [if_pos rfl, if_pos (by omega)]
          omega
        · rw [if_neg same]
          have range : (1 ≤ x ∧ x < s.alloc.globalGauge + 1) ↔
              (1 ≤ x ∧ x < s.alloc.globalGauge) := by omega
          simp only [range]
          omega
  | outside => cases outcome

theorem step_inv {s t : Ledger w T} (step : s.Step t) (h : s.Inv) : t.Inv := by
  cases step with
  | allocate shardId hint _ run =>
    exact (inv_allocated h (run ▸ allocate_allocated s.alloc shardId hint)).2
  | shardAllocate shardId hint _ run =>
    exact (inv_allocated h (run ▸ shardAllocate_allocated s.alloc shardId hint)).2
  | shards | join => exact ⟨h.shards, h.gauge, h.once⟩
  | queueDeallocate id inUse =>
    refine ⟨h.shards, h.gauge, fun x => Eq.trans ?_ (h.once x)⟩
    have := List.count_pos_iff.mpr inUse
    simp only [places, Recycling.queueDeallocate, List.count_append, List.count_singleton,
      List.count_erase, beq_iff_eq]
    by_cases same : id = x
    · subst same
      simp only [if_true]
      omega
    · simp only [same, if_false]
      omega
  | flush offline run =>
    obtain ⟨shards, run', length, kept⟩ := flush_ok h.shards
    rw [run] at run'
    cases run'
    have apart : ∀ id, held s.alloc.recyclerShards id + s.alloc.deallocQueue.count id ≤ 1 := by
      intro id
      have := h.places_le id
      unfold places at this
      omega
    refine ⟨?_, h.gauge, fun x => Eq.trans ?_ (h.once x)⟩
    · intro empty
      rw [show shards = [] from empty] at length
      exact h.shards (List.length_eq_zero_iff.mp length.symm)
    · have := kept apart x
      simp only [places, List.count_nil]
      omega

theorem held_replicate (n : Nat) (id : Nat) :
    held (List.replicate n (Recycler.default : T)) id = 0 := by
  have none : (List.replicate n (Recycler.default : T)).flatMap Recycler.contents = [] := by
    simp [List.flatMap_eq_nil_iff, Recycler.contents_default]
  simp [held, none]

theorem reachable_inv {numShards : Nat} (some : 0 < numShards) (width : 0 < w) {s : Ledger w T}
    (reached : Reachable numShards s) : s.Inv := by
  induction reached with
  | start =>
    refine ⟨?_, Nat.one_lt_two_pow (by omega), fun id => ?_⟩
    · intro empty
      have := congrArg List.length empty
      simp [start, Recycling.new] at this
      omega
    · have range : ¬ (1 ≤ id ∧ id < 1) := by omega
      refine Eq.trans ?_ (if_neg range).symm
      simp [places, start, Recycling.new, held_replicate]
  | next _ step ih => exact step_inv step ih

/-- Every ID below the gauge is in exactly one place, and no allocation returns
an ID in use. -/
structure Conserved (s : Ledger w T) : Prop where
  once : ∀ id, 1 ≤ id → id < s.alloc.globalGauge → s.live.count id +
    s.alloc.deallocQueue.count id + (s.alloc.recyclerShards.flatMap Recycler.contents).count id = 1
  allocate : ∀ (shardId : Nat) (hint : Hint) (id : Nat) (a : Recycling w T),
    s.alloc.allocate shardId hint = (.ok id, a) → id ∉ s.live
  shardAllocate : ∀ (shardId : Nat) (hint : Hint) (id : Nat) (a : Recycling w T),
    s.alloc.shardAllocate shardId hint = (.ok id, a) → id ∉ s.live

theorem Inv.conserved {s : Ledger w T} (h : s.Inv) : s.Conserved where
  once id low high := by
    have place := h.once id
    have top : s.alloc.top = s.alloc.globalGauge := if_neg (by omega)
    rw [top, if_pos ⟨low, high⟩] at place
    exact place
  allocate shardId hint id a run :=
    (inv_allocated h (run ▸ allocate_allocated s.alloc shardId hint)).1
  shardAllocate shardId hint id a run :=
    (inv_allocated h (run ▸ shardAllocate_allocated s.alloc shardId hint)).1

end Ledger

/-- **No ID is lost or handed out twice**, whatever the recycler, the number of
shards, the shards chosen and the hints. -/
theorem ids_conserved {w numShards : Nat} (width : 0 < w) (some : 0 < numShards) :
    (∀ s : Ledger w (List Nat), Ledger.Reachable numShards s → s.Conserved) ∧
    (∀ s : Ledger w (SortedSet Nat), Ledger.Reachable numShards s → s.Conserved) :=
  ⟨fun _ reached => (Ledger.reachable_inv some width reached).conserved,
    fun _ reached => (Ledger.reachable_inv some width reached).conserved⟩

/-- Two IDs, one of them freed and handed out again. -/
theorem ids_conserved_two : ∃ s : Ledger 16 (List Nat), Ledger.Reachable 1 s ∧
    s.live = [1, 2] ∧ s.Conserved :=
  have reached : Ledger.Reachable 1 _ :=
    .next (.next (.next (.next (.next .start
      (.allocate 0 () rfl rfl)) (.allocate 0 () rfl rfl))
      (.queueDeallocate 1 (by decide))) (.flush rfl rfl)) (.allocate 0 () rfl rfl)
  ⟨_, reached, rfl, (ids_conserved (by decide) (by decide)).1 _ reached⟩

end Dynec.Entity
