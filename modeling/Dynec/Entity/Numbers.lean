import Dynec.Entity.Ledger
import Dynec.Entity.Gaps

/-!
# Issued IDs

Whatever happens to an ID, it was issued: it is below the gauge. This holds
even where IDs are freed more than once.
-/

namespace Dynec.Entity

open Fallible

variable {w : Nat} {T Hint : Type} [Recycler T Hint] {a a' : Recycling w T}

namespace Recycling

/-- The ID was returned by an allocation. -/
def Issued (a : Recycling w T) (id : Nat) : Prop := 1 ≤ id ∧ id < a.top

/-- Every ID in the allocator was issued. -/
structure Numbered (a : Recycling w T) : Prop where
  gauge : a.globalGauge < 2 ^ w
  recyclable : ∀ id ∈ a.recyclable, a.Issued id
  recyclers : ∀ shard ∈ a.recyclerShards, ∀ id ∈ Recycler.contents shard, a.Issued id
  queued : ∀ id ∈ a.deallocQueue, a.Issued id

theorem numbered_new (width : 0 < w) (numShards : Nat) : (new w numShards : Recycling w T).Numbered := by
  refine ⟨Nat.one_lt_two_pow (Nat.pos_iff_ne_zero.mp width), nofun, fun shard member id inside => ?_,
    nofun⟩
  cases List.eq_of_mem_replicate member
  rw [Recycler.contents_default] at inside
  cases inside

theorem Numbered.allocated {index id : Nat} {reuse : Bool} (h : a.Numbered)
    (allocated : Allocated a index reuse (.ok id, a')) :
    a'.Numbered ∧ a'.Issued id ∧ (∀ x, a.Issued x → a'.Issued x) ∧ a'.recyclable = a.recyclable := by
  generalize outcome : (Except.ok id, a') = result at allocated
  cases allocated with
  | @recycled recycler recycler' queue polledId found queued polled =>
    cases outcome
    have inside : ∀ x ∈ Recycler.contents recycler, a.Issued x :=
      h.recyclers recycler (List.mem_of_getElem? found)
    refine ⟨⟨h.gauge, h.recyclable, fun shard member x held => ?_, h.queued⟩,
      inside id (polled.mem_iff.mpr (.head _)), fun _ issued => issued, rfl⟩
    rcases List.mem_or_eq_of_mem_set member with old | rfl
    · exact h.recyclers shard old x held
    · exact inside x (polled.mem_iff.mpr (.tail _ held))
  | fresh found empty =>
    by_cases wrapped : a.globalGauge = 0
    · simp [fetchAdd, wrapped] at outcome
    · simp only [fetchAdd, wrapped, if_false, Prod.mk.injEq, Except.ok.injEq] at outcome
      obtain ⟨rfl, rfl⟩ := outcome
      have old : a.top = a.globalGauge := if_neg wrapped
      have new := top_next h.gauge wrapped
      have grown : ∀ x, a.Issued x →
          ({ a with globalGauge := (a.globalGauge + 1) % 2 ^ w } : Recycling w T).Issued x := by
        intro x issued
        rw [Issued, new]
        exact ⟨issued.1, Nat.lt_succ_of_lt issued.2⟩
      refine ⟨⟨Nat.mod_lt _ (Nat.two_pow_pos w), fun x member => grown x (h.recyclable x member),
        fun shard member x held => grown x (h.recyclers shard member x held),
        fun x member => grown x (h.queued x member)⟩, ?_, grown, rfl⟩
      rw [Issued, new, old]
      exact ⟨Nat.pos_of_ne_zero wrapped, Nat.lt_succ_self _⟩
  | outside => cases outcome

theorem Numbered.queueDeallocate {id : Nat} (h : a.Numbered) (issued : a.Issued id) :
    (a.queueDeallocate id).Numbered := by
  refine ⟨h.gauge, h.recyclable, h.recyclers, fun x member => ?_⟩
  rcases List.mem_append.mp member with old | new
  · exact h.queued x old
  · cases List.mem_singleton.mp new
    exact issued

theorem Numbered.markNeedFlush (h : a.Numbered) : a.markNeedFlush.Numbered :=
  ⟨h.gauge, h.recyclable, h.recyclers, h.queued⟩

/-- The shards hold what they held and what was handed out. -/
theorem distribute_mem {shards shards' : List T} {ids : List Nat} {P : Nat → Prop}
    (run : distribute shards ids = .ok shards')
    (held : ∀ shard ∈ shards, ∀ id ∈ Recycler.contents shard, P id) (handed : ∀ id ∈ ids, P id) :
    ∀ shard ∈ shards', ∀ id ∈ Recycler.contents shard, P id := by
  obtain ⟨targets, -, run⟩ := bind_eq_ok.mp run
  obtain ⟨⟨last, rest⟩, filled, run⟩ := bind_eq_ok.mp run
  cases run
  have both := foldlM_ok filled (fun _ s => (∀ shard ∈ s.1, ∀ id ∈ Recycler.contents shard, P id) ∧
    ∀ id ∈ s.2, P id) ⟨held, handed⟩ ?_
  · exact both.1
  · rintro _ ⟨index, target⟩ ⟨shards, ids⟩ s' _ ⟨held, handed⟩ run
    obtain ⟨recycler, found, run⟩ := bind_eq_ok.mp run
    split at run
    · cases run
    · dsimp only at run
      split at run
      · cases run
      · cases run
        constructor
        · intro shard member id inside
          rcases List.mem_or_eq_of_mem_set member with old | rfl
          · exact held shard old id inside
          · rcases (Recycler.mem_extend _ _ _).mp inside with before | new
            · exact held recycler (List.mem_of_getElem? (expect_eq_ok.mp found)) id before
            · exact handed id (List.mem_of_mem_take new)
        · intro id member
          exact handed id (List.mem_of_mem_drop member)

theorem Numbered.flush (h : a.Numbered) (run : a.flush = .ok a') :
    a'.Numbered ∧ a'.top = a.top ∧ a'.recyclable = a.flushedRecyclable := by
  obtain ⟨shards, distributed, run⟩ := bind_eq_ok.mp run
  cases run
  refine ⟨⟨h.gauge, fun id member => ?_, distribute_mem distributed h.recyclers h.queued, nofun⟩,
    rfl, rfl⟩
  obtain ⟨member, -⟩ := SortedSet.mem_eraseAll.mp member
  rcases SortedSet.mem_extend.mp member with old | new
  · exact h.recyclable id old
  · exact h.queued id new

/-- The free set that `flush_if_marked` leaves. -/
def flushedIfMarked (a : Recycling w T) : SortedSet Nat :=
  if a.flushMark then a.flushedRecyclable else a.recyclable

theorem Numbered.flushIfMarked (h : a.Numbered) (run : a.flushIfMarked = .ok a') :
    a'.Numbered ∧ a'.top = a.top ∧ a'.recyclable = a.flushedIfMarked := by
  unfold Recycling.flushIfMarked at run
  unfold flushedIfMarked
  split at run
  · rename_i marked
    rw [if_pos marked]
    exact h.flush run
  · rename_i unmarked
    cases run
    rw [if_neg unmarked]
    exact ⟨h, rfl, rfl⟩

/-- A snapshot enumerates the issued IDs outside the free set. -/
theorem Numbered.snapshot {snapshot : Snapshot} (h : a.Numbered)
    (taken : a.snapshot = .ok snapshot) : snapshot.recyclable = a.recyclable ∧
    ∃ chunks, snapshot.iterAllocatedChunks w = .ok chunks ∧
      ∀ id, id ∈ rangeIds chunks ↔ a.Issued id ∧ id ∉ a.recyclable := by
  unfold Recycling.snapshot at taken
  split at taken
  · cases taken
  · rename_i some
    cases taken
    have top : a.top = a.globalGauge := if_neg some
    obtain ⟨chunks, run, ids⟩ := iterAllocatedChunks_ok (w := w) ⟨a.globalGauge, a.recyclable⟩ h.gauge
      fun id member => top ▸ h.recyclable id member
    refine ⟨rfl, chunks, run, fun id => ?_⟩
    rw [ids, List.mem_filter, List.mem_range'_1, decide_eq_true_eq, Issued, top]
    have positive := Nat.pos_of_ne_zero some
    refine and_congr_left fun _ => and_congr_right fun _ => ?_
    dsimp only
    omega

end Recycling

end Dynec.Entity
