import Dynec.Entity.Ledger
import Mathlib.Data.Nat.ModEq

/-!
# An exhausted ID space

The gauge wraps around when the IDs are used up. The call that finds zero
panics, but the gauge has moved on, and the following calls return the first IDs
again.
-/

namespace Dynec.Entity

variable {w : Nat} {T Hint : Type} [Recycler T Hint]

/-- A call of `Ealloc::allocate`, or of `Shard::allocate` on a shard. The shard
is chosen by the assigner or by the worker. -/
structure Call (Hint : Type) where
  online : Bool
  shardId : Nat
  hint : Hint

def Recycling.call (self : Recycling w T) (call : Call Hint) :
    Except Panic Nat × Recycling w T :=
  if call.online then self.shardAllocate call.shardId call.hint
  else self.allocate call.shardId call.hint

/-- The results of calls of several workers, in the order in which they take
effect. A panic ends a call, and the others continue. -/
def Recycling.callAll (self : Recycling w T) :
    List (Call Hint) → List (Except Panic Nat) × Recycling w T
  | [] => ([], self)
  | call :: calls =>
    let (id, self) := self.call call
    let (ids, self) := self.callAll calls
    (id :: ids, self)

/-- The IDs that were returned. -/
def returned (results : List (Except Panic Nat)) : List Nat :=
  results.filterMap fun result => result.toOption

/-- The allocator has nothing to recycle. -/
structure Recycling.Empty (a : Recycling w T) : Prop where
  queues : a.reuseQueueShards.length = a.recyclerShards.length
  gauge : a.globalGauge < 2 ^ w
  recyclers : ∀ recycler ∈ a.recyclerShards, Recycler.contents recycler = []

/-- Without IDs to recycle, a call takes the gauge. -/
theorem Recycling.Empty.call {a : Recycling w T} (h : a.Empty) (call : Call Hint)
    (inside : call.shardId < a.recyclerShards.length) :
    a.call call = ((fetchAdd w a.globalGauge).1,
      { a with globalGauge := (fetchAdd w a.globalGauge).2 }) := by
  have found : a.recyclerShards[call.shardId]? = some a.recyclerShards[call.shardId] :=
    List.getElem?_eq_getElem inside
  have inside' : call.shardId < a.reuseQueueShards.length := h.queues ▸ inside
  have queued : a.reuseQueueShards[call.shardId]? = some a.reuseQueueShards[call.shardId] :=
    List.getElem?_eq_getElem inside'
  have empty := h.recyclers _ (List.getElem_mem inside)
  have poll : Recycler.poll a.recyclerShards[call.shardId] call.hint =
      .ok (none, a.recyclerShards[call.shardId]) := by
    rcases Recycler.poll_eq a.recyclerShards[call.shardId] call.hint with
      ⟨_, poll, rfl, -⟩ | ⟨id, next, -, perm⟩
    · exact poll
    · rw [empty] at perm
      cases perm.nil_eq
  unfold Recycling.call
  split
  · simp only [Recycling.shardAllocate, onShard_found found queued, RecyclingShard.shardAllocate,
      poll, RecyclingShard.allocateNew, set_same found, set_same queued]
  · simp only [Recycling.allocate, onShard_found found queued, RecyclingShard.allocate,
      poll, RecyclingShard.allocateNew, set_same found, set_same queued]

/-- The calls take consecutive values of the gauge. -/
theorem Recycling.Empty.callAll {a : Recycling w T} (h : a.Empty) (calls : List (Call Hint))
    (inside : ∀ call ∈ calls, call.shardId < a.recyclerShards.length) :
    (a.callAll calls).1 = (List.range calls.length).map fun i =>
      (fetchAdd w ((a.globalGauge + i) % 2 ^ w)).1 := by
  induction calls generalizing a with
  | nil => rfl
  | cons call calls ih =>
    obtain ⟨here, inside⟩ := List.forall_mem_cons.mp inside
    have next : ({ a with globalGauge := (fetchAdd w a.globalGauge).2 } : Recycling w T).Empty :=
      ⟨h.queues, Nat.mod_lt _ (Nat.two_pow_pos w), h.recyclers⟩
    have rest := ih next inside
    simp only [Recycling.callAll, h.call call here, rest, List.length_cons,
      List.range_succ_eq_map, List.map_cons, List.map_map, Nat.add_zero, Nat.mod_eq_of_lt h.gauge]
    refine congrArg _ (List.map_congr_left fun i _ => ?_)
    simp only [Function.comp_apply, fetchAdd, Nat.mod_add_mod, Nat.succ_eq_add_one]
    rw [Nat.add_assoc, Nat.add_comm 1 i]

theorem fetchAdd_toOption (gauge : Nat) :
    (fetchAdd w gauge).1.toOption = if gauge = 0 then none else some gauge := by
  unfold fetchAdd
  split <;> rfl

/-- Values of a counter that wraps around at `n`, without those that are zero. -/
def wrapped (n gauge i : Nat) : Option Nat :=
  if (gauge + i) % n = 0 then none else some ((gauge + i) % n)

theorem wrapped_eq_some {n gauge i value : Nat} :
    wrapped n gauge i = some value ↔ value = (gauge + i) % n ∧ value ≠ 0 := by
  unfold wrapped
  split
  · rename_i zero
    exact iff_of_false nofun fun ⟨same, positive⟩ => positive (same.trans zero)
  · rename_i positive
    rw [Option.some.injEq]
    exact ⟨fun same => ⟨same.symm, same ▸ positive⟩, fun both => both.1.symm⟩

/-- Two values are the same if the counter has wrapped around between them. -/
theorem nodup_wrapped {n gauge : Nat} (wide : 1 < n) (bound : gauge < n) (count : Nat) :
    ((List.range count).filterMap (wrapped n gauge)).Nodup ↔
      count ≤ n ∨ gauge = 0 ∧ count = n + 1 := by
  rw [List.Nodup, List.pairwise_filterMap, List.pairwise_iff_getElem]
  simp only [List.length_range, List.getElem_range, wrapped_eq_some]
  constructor
  · intro apart
    by_contra many
    have clash : ∀ i value, i + n < count → (gauge + i) % n = value → value ≠ 0 → False := by
      intro i value below here positive
      have there : (gauge + (i + n)) % n = value := by
        rw [← Nat.add_assoc, Nat.add_mod_right, here]
      exact apart i (i + n) (by omega) below (by omega) value ⟨here.symm, positive⟩ value
        ⟨there.symm, positive⟩ rfl
    by_cases zero : gauge = 0
    · apply clash 1 1 (by omega) _ Nat.one_ne_zero
      rw [zero, Nat.zero_add, Nat.mod_eq_of_lt wide]
    · exact clash 0 gauge (by omega) (Nat.mod_eq_of_lt bound) zero
  · rintro few i j - below less value ⟨here, positive⟩ value' ⟨there, -⟩ same
    have divides : n ∣ (gauge + j) - (gauge + i) := by
      apply (Nat.modEq_iff_dvd' (Nat.add_le_add_left (Nat.le_of_lt less) gauge)).mp
      exact here.symm.trans (same.trans there)
    have far := Nat.le_of_dvd (by omega) divides
    rcases few with few | ⟨rfl, rfl⟩
    · omega
    · have first : i = 0 := by omega
      rw [first, Nat.zero_add, Nat.zero_mod] at here
      exact positive here

theorem Recycling.Empty.returned_eq {a : Recycling w T} (h : a.Empty) (calls : List (Call Hint))
    (inside : ∀ call ∈ calls, call.shardId < a.recyclerShards.length) :
    returned (a.callAll calls).1 =
      (List.range calls.length).filterMap (wrapped (2 ^ w) a.globalGauge) := by
  have same : ((fun result : Except Panic Nat => result.toOption) ∘ fun i =>
      (fetchAdd w ((a.globalGauge + i) % 2 ^ w)).1) = wrapped (2 ^ w) a.globalGauge := by
    funext i
    exact fetchAdd_toOption _
  rw [h.callAll calls inside, returned, List.filterMap_map, same]

/-- **Exhaustion.** The IDs returned are distinct exactly as long as the gauge
does not pass a value other than zero again. -/
theorem allocate_distinct (width : 0 < w) {a : Recycling w T} (empty : a.Empty)
    (calls : List (Call Hint)) (inside : ∀ call ∈ calls, call.shardId < a.recyclerShards.length) :
    (returned (a.callAll calls).1).Nodup ↔
      calls.length ≤ 2 ^ w ∨ a.globalGauge = 0 ∧ calls.length = 2 ^ w + 1 := by
  rw [empty.returned_eq calls inside]
  exact nodup_wrapped (Nat.one_lt_two_pow (Nat.ne_of_gt width)) empty.gauge calls.length

theorem empty_new (width : 0 < w) (numShards : Nat) :
    (Recycling.new w numShards : Recycling w T).Empty := by
  refine ⟨?_, Nat.one_lt_two_pow (Nat.ne_of_gt width), fun recycler member => ?_⟩
  · rw [Recycling.new, List.length_replicate, List.length_replicate]
  · rw [List.eq_of_mem_replicate member]
    exact Recycler.contents_default

theorem allocate_distinct_two :
    (returned ((Recycling.new 16 2 : Recycling 16 (List Nat)).callAll
      [⟨true, 0, ()⟩, ⟨false, 1, ()⟩]).1).Nodup :=
  (allocate_distinct (by decide) (empty_new (by decide) 2) _ (by decide)).mpr (.inl (by decide))

/-- One call more than there are values returns the first ID again. -/
theorem allocate_reissued :
    ∃ calls : List (Call Unit), calls.length = 2 ^ 16 + 1 ∧
      ¬ (returned ((Recycling.new 16 1 : Recycling 16 (List Nat)).callAll calls).1).Nodup := by
  have empty : (Recycling.new 16 1 : Recycling 16 (List Nat)).Empty := empty_new (by decide) 1
  refine ⟨List.replicate (2 ^ 16 + 1) ⟨true, 0, ()⟩, List.length_replicate, fun distinct => ?_⟩
  have inside : ∀ call ∈ List.replicate (2 ^ 16 + 1) (⟨true, 0, ()⟩ : Call Unit),
      call.shardId < (Recycling.new 16 1 : Recycling 16 (List Nat)).recyclerShards.length := by
    intro call member
    rw [List.eq_of_mem_replicate member]
    decide
  have same := empty.returned_eq _ inside
  rw [same, nodup_wrapped (by decide) empty.gauge, List.length_replicate] at distinct
  rcases distinct with few | ⟨zero, -⟩
  · exact absurd few (by decide)
  · exact absurd zero (by decide)

end Dynec.Entity
