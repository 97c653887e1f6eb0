import Dynec.Entity.Recycling
import Dynec.Lib.Iterators

/-! The allocated chunks of a snapshot are what its free IDs leave. -/

namespace Dynec.Entity

open Fallible

/-- Leaving out empty ranges loses no ID. -/
theorem rangeIds_filter (ranges : List (Nat × Nat)) :
    rangeIds (ranges.filter fun range => range.1 ≠ range.2) = rangeIds ranges := by
  induction ranges with
  | nil => rfl
  | cons range ranges ih =>
    rw [List.filter_cons]
    by_cases empty : range.1 = range.2
    · rw [if_neg (by simp [empty]), ih]
      simp [rangeIds, empty]
    · rw [if_pos (by simp [empty])]
      unfold rangeIds at ih ⊢
      rw [List.flatMap_cons, List.flatMap_cons, ih]

/-- The IDs from `start` on, around a breakpoint. -/
theorem filter_range'_breakpoint {start gauge b : Nat} {rest : List Nat} (low : start ≤ b)
    (high : b < gauge) (above : ∀ x ∈ rest, b < x) :
    (List.range' start (gauge - start)).filter (· ∉ b :: rest) =
      List.range' start (b - start) ++
        (List.range' (b + 1) (gauge - (b + 1))).filter (· ∉ rest) := by
  have split : List.range' start (gauge - start) =
      List.range' start (b - start) ++ b :: List.range' (b + 1) (gauge - (b + 1)) := by
    have tail : b :: List.range' (b + 1) (gauge - (b + 1)) = List.range' b (gauge - b) := by
      rw [← List.range'_succ]
      congr 1
      omega
    have join := @List.range'_append start (b - start) (gauge - b) 1
    rw [Nat.one_mul] at join
    rw [tail, show gauge - start = b - start + (gauge - b) by omega, ← join]
    congr 2
    omega
  rw [split, List.filter_append]
  congr 1
  · apply List.filter_eq_self.mpr
    intro x hx
    have := List.mem_range'_1.mp hx
    simp only [List.mem_cons, not_or, decide_eq_true_eq]
    refine ⟨by omega, fun member => ?_⟩
    have := above x member
    omega
  · rw [List.filter_cons]
    simp only [List.mem_cons, true_or, not_true_eq_false, decide_false, Bool.false_eq_true,
      if_false]
    apply List.filter_congr
    intro x hx
    have := List.mem_range'_1.mp hx
    have other : x ≠ b := by omega
    simp [other]

theorem gapsFrom_ok {w gauge : Nat} (bound : gauge < 2 ^ w) {start : Nat} {breakpoints : List Nat}
    (sorted : breakpoints.Pairwise (· < ·)) (inside : ∀ b ∈ breakpoints, start ≤ b ∧ b < gauge) :
    ∃ gaps, gapsFrom w gauge start breakpoints = .ok gaps ∧
      rangeIds gaps = (List.range' start (gauge - start)).filter (· ∉ breakpoints) := by
  induction breakpoints generalizing start with
  | nil => exact ⟨[(start, gauge)], rfl, by simp [rangeIds]⟩
  | cons b rest ih =>
    obtain ⟨above, sorted⟩ := List.pairwise_cons.mp sorted
    obtain ⟨low, high⟩ := inside b List.mem_cons_self
    have next : addRaw w b 1 = .ok (b + 1) := if_neg (by omega)
    obtain ⟨gaps, run, ids⟩ := @ih (b + 1) sorted fun x hx =>
      ⟨above x hx, (inside x (List.mem_cons_of_mem _ hx)).2⟩
    refine ⟨(start, b) :: gaps, by simp [gapsFrom, next, run], ?_⟩
    rw [filter_range'_breakpoint low high above, ← ids]
    rfl

/-- A gap starts at the beginning or after a breakpoint, and ends at a
breakpoint or at the gauge. -/
structure Gap (gauge start : Nat) (breakpoints : List Nat) (range : Nat × Nat) : Prop where
  low : start ≤ range.1
  proper : range.1 ≤ range.2
  after : range.1 = start ∨ ∃ b ∈ breakpoints, range.1 = b + 1
  before : range.2 ∈ breakpoints ∨ range.2 = gauge

/-- The gaps of a list that starts with a breakpoint. -/
theorem gapsFrom_cons {w gauge start b : Nat} {rest : List Nat} {gaps : List (Nat × Nat)}
    (run : gapsFrom w gauge start (b :: rest) = .ok gaps) :
    ∃ more, gapsFrom w gauge (b + 1) rest = .ok more ∧ gaps = (start, b) :: more := by
  obtain ⟨next, step, run⟩ := bind_eq_ok.mp run
  obtain ⟨more, later, run⟩ := bind_eq_ok.mp run
  cases run
  unfold addRaw at step
  split at step
  · cases step
  · cases step
    exact ⟨more, later, rfl⟩

theorem gapsFrom_gap {w gauge start : Nat} {breakpoints : List Nat} {gaps : List (Nat × Nat)}
    (run : gapsFrom w gauge start breakpoints = .ok gaps) (le : start ≤ gauge)
    (sorted : breakpoints.Pairwise (· < ·)) (inside : ∀ b ∈ breakpoints, start ≤ b ∧ b < gauge) :
    ∀ range ∈ gaps, Gap gauge start breakpoints range := by
  induction breakpoints generalizing start gaps with
  | nil =>
    cases run
    simpa using ⟨Nat.le_refl _, le, .inl rfl, .inr rfl⟩
  | cons b rest ih =>
    obtain ⟨above, sorted⟩ := List.pairwise_cons.mp sorted
    obtain ⟨⟨low, high⟩, inside⟩ := List.forall_mem_cons.mp inside
    obtain ⟨more, later, rfl⟩ := gapsFrom_cons run
    have rest := ih later high sorted fun x member => ⟨above x member, (inside x member).2⟩
    refine List.forall_mem_cons.mpr ⟨⟨Nat.le_refl _, low, .inl rfl, .inl (.head _)⟩, ?_⟩
    intro range listed
    obtain ⟨next, proper, after, before⟩ := rest range listed
    refine ⟨Nat.le_trans low (Nat.le_of_succ_le next), proper, ?_, before.imp_left (.tail _)⟩
    rcases after with here | ⟨x, member, here⟩
    · exact .inr ⟨b, .head _, here⟩
    · exact .inr ⟨x, .tail _ member, here⟩

/-- There is a breakpoint between two gaps. -/
theorem gapsFrom_apart {w gauge start : Nat} {breakpoints : List Nat} {gaps : List (Nat × Nat)}
    (run : gapsFrom w gauge start breakpoints = .ok gaps) (sorted : breakpoints.Pairwise (· < ·))
    (inside : ∀ b ∈ breakpoints, start ≤ b ∧ b < gauge) :
    gaps.Pairwise fun range other => range.2 < other.1 := by
  induction breakpoints generalizing start gaps with
  | nil =>
    cases run
    exact List.pairwise_singleton _ _
  | cons b rest ih =>
    obtain ⟨above, sorted⟩ := List.pairwise_cons.mp sorted
    obtain ⟨⟨-, high⟩, inside⟩ := List.forall_mem_cons.mp inside
    obtain ⟨more, later, rfl⟩ := gapsFrom_cons run
    have inside : ∀ x ∈ rest, b + 1 ≤ x ∧ x < gauge := fun x member =>
      ⟨above x member, (inside x member).2⟩
    refine List.pairwise_cons.mpr ⟨fun range listed => ?_, ih later sorted inside⟩
    exact (gapsFrom_gap later high sorted inside range listed).low

/-- **Allocated chunks.** The chunks enumerate, in order and once each, the IDs
below the gauge that are not recyclable. -/
theorem iterAllocatedChunks_ok {w : Nat} (snapshot : Snapshot) (bound : snapshot.gauge < 2 ^ w)
    (inside : ∀ id ∈ snapshot.recyclable, 1 ≤ id ∧ id < snapshot.gauge) :
    ∃ chunks, snapshot.iterAllocatedChunks w = .ok chunks ∧
      rangeIds chunks =
        (List.range' 1 (snapshot.gauge - 1)).filter (· ∉ snapshot.recyclable) := by
  obtain ⟨gaps, run, ids⟩ := gapsFrom_ok bound snapshot.recyclable.sorted inside
  refine ⟨gaps.filter fun range => range.1 ≠ range.2, ?_, ?_⟩
  · simp [Snapshot.iterAllocatedChunks, iterGaps, run]
  · rw [rangeIds_filter, ids]
    rfl

/-- The entity was given out and is not free. -/
def Snapshot.Allocated (self : Snapshot) (id : Nat) : Prop :=
  1 ≤ id ∧ id < self.gauge ∧ id ∉ self.recyclable

/-- A range of allocated entities that cannot be extended. -/
structure Snapshot.Maximal (snapshot : Snapshot) (range : Nat × Nat) : Prop where
  nonempty : range.1 < range.2
  allocated : ∀ id, range.1 ≤ id → id < range.2 → snapshot.Allocated id
  before : ¬ snapshot.Allocated (range.1 - 1)
  after : ¬ snapshot.Allocated range.2

theorem iterAllocatedChunks_maximal {w : Nat} {snapshot : Snapshot} {chunks : List (Nat × Nat)}
    (positive : 1 ≤ snapshot.gauge) (bound : snapshot.gauge < 2 ^ w)
    (inside : ∀ id ∈ snapshot.recyclable, 1 ≤ id ∧ id < snapshot.gauge)
    (run : snapshot.iterAllocatedChunks w = .ok chunks) :
    (chunks.Pairwise fun range other => range.2 < other.1) ∧
      ∀ range ∈ chunks, snapshot.Maximal range := by
  obtain ⟨_, run', ids⟩ := iterAllocatedChunks_ok snapshot bound inside
  cases run.symm.trans run'
  obtain ⟨gaps, found, run⟩ := bind_eq_ok.mp run
  cases run
  refine ⟨(gapsFrom_apart found snapshot.recyclable.sorted inside).filter _, fun range listed => ?_⟩
  obtain ⟨gap, proper⟩ := List.mem_filter.mp listed
  obtain ⟨low, le, after, before⟩ := gapsFrom_gap found positive snapshot.recyclable.sorted inside
    range gap
  refine ⟨Nat.lt_of_le_of_ne le (of_decide_eq_true proper), fun id above below => ?_, ?_, ?_⟩
  · have counted : id ∈ rangeIds (gaps.filter fun range => range.1 ≠ range.2) :=
      List.mem_flatMap.mpr ⟨range, listed, List.mem_range'_1.mpr (by omega)⟩
    rw [ids, List.mem_filter, List.mem_range'_1, decide_eq_true_eq] at counted
    exact ⟨counted.1.1, by omega, counted.2⟩
  · rintro ⟨first, -, free⟩
    rcases after with here | ⟨b, member, here⟩
    · omega
    · rw [here] at free
      exact free member
  · rintro ⟨-, below, free⟩
    rcases before with member | here
    · exact free member
    · omega

/-! ## The iterator -/

open Iterators

/-- `Previous` in `iter_gaps` -/
inductive Previous where
  | initial
  | breakpoint (breakpoint : Nat)
  | finalized
  deriving DecidableEq, Repr

/-- Where the next range starts. -/
def Previous.start (w : Nat) : Previous → Except Panic (Option Nat)
  | .initial => return some 1
  | .breakpoint previous => do
    let start ← addRaw w previous 1
    return some start
  | .finalized => return none

structure IterGaps where
  gauge : Nat
  breakpoints : List Nat
  previous : Previous
  deriving DecidableEq, Repr

namespace IterGaps

/-- `<IterGaps as Iterator>::next` for a raw type of width `w`. -/
def next (w : Nat) (self : IterGaps) : Except Panic (Option (Nat × Nat) × IterGaps) := do
  match ← self.previous.start w with
  | none => return (none, self)
  | some start =>
    let (previous, breakpoints, stop) := match self.breakpoints with
      | [] => (.finalized, [], self.gauge)
      | breakpoint :: breakpoints => (.breakpoint breakpoint, breakpoints, breakpoint)
    return (some (start, stop), { self with breakpoints, previous })

/-- More calls of `next` than there are items left. -/
def bound (self : IterGaps) : Nat := self.breakpoints.length + 2

/-- `next` behind the filter that leaves out empty ranges. -/
def nextProper (w : Nat) (self : IterGaps) : Except Panic (Option (Nat × Nat) × IterGaps) :=
  find (next w) (fun range => range.1 ≠ range.2) .diverged self.bound self

variable {w : Nat}

/-- Each call takes a breakpoint, and the last one finalizes the iterator. -/
theorem yields_length {s t : IterGaps} {l : List (Nat × Nat)} (h : Yields (next w) s l t) :
    l.length ≤ s.breakpoints.length + 1 ∧ (s.previous = .finalized → l = []) := by
  induction h with
  | done step => exact ⟨Nat.zero_le _, fun _ => rfl⟩
  | @item s s' t range l step _ ih =>
    unfold next at step
    obtain ⟨start, begin', step⟩ := bind_eq_ok.mp step
    have running : s.previous ≠ .finalized := by
      intro finalized
      rw [finalized] at begin'
      cases begin'
      cases step
    refine ⟨?_, fun finalized => absurd finalized running⟩
    cases start with
    | none => cases step
    | some start =>
      cases left : s.breakpoints with
      | nil =>
        simp only [left] at step
        cases step
        rw [ih.2 rfl]
        exact Nat.le_refl _
      | cons b rest =>
        simp only [left] at step
        cases step
        exact Nat.succ_le_succ ih.1

/-- The iterator yields the gaps. -/
theorem yields_gaps {gauge start : Nat} {breakpoints : List Nat} {gaps : List (Nat × Nat)}
    (run : gapsFrom w gauge start breakpoints = .ok gaps) {previous : Previous}
    (here : previous.start w = .ok (some start)) :
    Yields (next w) ⟨gauge, breakpoints, previous⟩ gaps ⟨gauge, [], .finalized⟩ := by
  induction breakpoints generalizing start previous gaps with
  | nil =>
    cases run
    have last : Yields (next w) ⟨gauge, [], .finalized⟩ [] ⟨gauge, [], .finalized⟩ := .done rfl
    refine .item ?_ last
    rw [next, here]
    rfl
  | cons b rest ih =>
    obtain ⟨start', added, run⟩ := bind_eq_ok.mp run
    obtain ⟨more, later, run⟩ := bind_eq_ok.mp run
    cases run
    have here' : (Previous.breakpoint b).start w = .ok (some start') := by
      rw [Previous.start, added]
      rfl
    refine .item ?_ (ih later here')
    rw [next, here]
    rfl

/-- The iterator over the gaps that are not empty. -/
theorem yields_proper {gauge : Nat} {breakpoints : List Nat} {gaps : List (Nat × Nat)}
    (run : gapsFrom w gauge 1 breakpoints = .ok gaps) :
    Yields (nextProper w) ⟨gauge, breakpoints, .initial⟩
      (gaps.filter fun range => range.1 ≠ range.2) ⟨gauge, [], .finalized⟩ :=
  (yields_gaps run rfl).filter
    (fun _ _ _ yields => Nat.lt_succ_of_le (yields_length yields).1) _ .diverged

end IterGaps

/-- `iter_gaps` -/
def newIterGaps (gauge : Nat) (breakpoints : List Nat) : IterGaps :=
  ⟨gauge, breakpoints, .initial⟩

/-- **Gaps.** For every gauge and every ascending list of breakpoints below it,
the iterator yields the maximal ranges of the IDs below the gauge that are not
breakpoints, and then stays exhausted. -/
theorem iter_gaps_complement {w gauge : Nat} (positive : 1 ≤ gauge) (bound : gauge < 2 ^ w)
    {breakpoints : List Nat} (sorted : breakpoints.Pairwise (· < ·))
    (inside : ∀ b ∈ breakpoints, 1 ≤ b ∧ b < gauge) :
    ∃ gaps last, Yields (IterGaps.nextProper w) (newIterGaps gauge breakpoints) gaps last ∧
      last.nextProper w = .ok (none, last) ∧
      (⟨gauge, ⟨breakpoints, sorted⟩⟩ : Snapshot).iterAllocatedChunks w = .ok gaps ∧
      (∀ range ∈ gaps, range.1 < range.2) ∧
      (gaps.Pairwise fun range other => ∃ b ∈ breakpoints, range.2 ≤ b ∧ b < other.1) ∧
      ∀ id, (∃ range ∈ gaps, range.1 ≤ id ∧ id < range.2) ↔
        1 ≤ id ∧ id < gauge ∧ id ∉ breakpoints := by
  obtain ⟨all, run, ids⟩ := gapsFrom_ok bound sorted inside
  have chunks : (⟨gauge, ⟨breakpoints, sorted⟩⟩ : Snapshot).iterAllocatedChunks w =
      .ok (all.filter fun range => range.1 ≠ range.2) := by
    simp only [Snapshot.iterAllocatedChunks, iterGaps, run, ok_bind]
    rfl
  obtain ⟨apart, maximal⟩ := iterAllocatedChunks_maximal positive bound inside chunks
  refine ⟨_, _, IterGaps.yields_proper run, rfl, chunks, fun range listed =>
    (maximal range listed).nonempty, apart.imp_of_mem fun first second less => ?_, fun id => ?_⟩
  · rename_i range other
    have below := (maximal other second).allocated other.1 (Nat.le_refl _) (maximal other second).nonempty
    obtain ⟨-, -, -, before⟩ := gapsFrom_gap run positive sorted inside range
      (List.mem_of_mem_filter first)
    rcases before with member | last
    · exact ⟨range.2, member, Nat.le_refl _, less⟩
    · have := below.2.1
      dsimp only at this
      omega
  · have member : id ∈ rangeIds (all.filter fun range => range.1 ≠ range.2) ↔
        1 ≤ id ∧ id < gauge ∧ id ∉ breakpoints := by
      rw [rangeIds_filter, ids, List.mem_filter, List.mem_range'_1, decide_eq_true_eq, ← and_assoc]
      exact and_congr_left' (by omega)
    rw [← member, rangeIds, List.mem_flatMap]
    refine exists_congr fun range => and_congr_right fun _ => ?_
    rw [List.mem_range'_1]
    omega

theorem iter_gaps_complement_three :
    ∃ gaps last, Yields (IterGaps.nextProper 16) (newIterGaps 6 [1, 2, 5]) gaps last ∧
      last.nextProper 16 = .ok (none, last) ∧
      ∀ id, (∃ range ∈ gaps, range.1 ≤ id ∧ id < range.2) ↔
        1 ≤ id ∧ id < 6 ∧ id ∉ [1, 2, 5] := by
  have sorted : [1, 2, 5].Pairwise (· < ·) := by decide
  obtain ⟨gaps, last, yields, exhausted, -, -, -, ids⟩ :=
    iter_gaps_complement (show 1 ≤ 6 by decide) (show 6 < 2 ^ 16 by decide) sorted (by decide)
  exact ⟨gaps, last, yields, exhausted, ids⟩

end Dynec.Entity
