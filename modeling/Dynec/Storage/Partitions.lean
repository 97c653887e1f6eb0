import Dynec.Storage.Refinement
import Dynec.Storage.Tree

/-!
# Partitions of a storage

Partitions are cut at entity IDs. Each is responsible for a range of IDs, and
the ranges of all partitions of a storage are consecutive.
-/

namespace Dynec.Storage

open Fallible

variable {C : Type}

/-- `trait Partition` -/
class Partition (P : Type) (C : outParam Type) where
  splitOut : P → Nat → Except Panic (P × P)
  intoMut : P → Nat → Except Panic (Option (CompMut C))
  intoManyMut : P → List Nat → Except Panic (Option (List (CompMut C)))
  intoIterMut : P → Except Panic (List (Nat × CompMut C))

instance : Partition (VecPartition C) C where
  splitOut := VecPartition.splitOut
  intoMut := VecPartition.intoMut
  intoManyMut := VecPartition.intoManyMut
  intoIterMut := VecPartition.intoIterMut

instance : Partition (TreePartition C) C where
  splitOut := TreePartition.splitOut
  intoMut := TreePartition.intoMut
  intoManyMut := TreePartition.intoManyMut
  intoIterMut := TreePartition.intoIterMut

/-! ## Ranges -/

/-- The IDs from `start` to the point where the partition was cut off. The
rightmost partition was not. -/
structure IdRange where
  start : Nat
  stop : Option Nat
  deriving DecidableEq, Repr

def IdRange.Contains (range : IdRange) (id : Nat) : Prop :=
  range.start ≤ id ∧ ∀ stop ∈ range.stop, id < stop

instance (range : IdRange) (id : Nat) : Decidable (range.Contains id) :=
  inferInstanceAs (Decidable (_ ∧ _))

/-- The ranges after the partition at `index` is split at an entity, which has
to be in its range. -/
def cutRanges : List IdRange → Nat → Nat → Option (List IdRange)
  | [], _, _ => none
  | range :: rest, 0, entity =>
    if range.Contains entity then some (⟨range.start, some entity⟩ :: ⟨entity, range.stop⟩ :: rest)
    else none
  | range :: rest, index + 1, entity => (cutRanges rest index entity).map (range :: ·)

/-- The partitions after the one at `index` is split at an entity. -/
def cutParts {P : Type} [Partition P C] : List P → Nat → Nat → Except Panic (List P)
  | [], _, _ => .error .indexOutOfBounds
  | part :: rest, 0, entity => do
    let (left, right) ← Partition.splitOut part entity
    return left :: right :: rest
  | part :: rest, index + 1, entity => do
    let rest ← cutParts rest index entity
    return part :: rest

/-- A call of `split_out`: which partition, and at which entity. -/
structure Cut where
  index : Nat
  entity : Nat
  deriving DecidableEq, Repr

/-- The ranges after a sequence of calls inside the ranges. -/
def rangesAfter (cuts : List Cut) : Option (List IdRange) :=
  cuts.foldlM (fun ranges cut => cutRanges ranges cut.index cut.entity) [⟨0, none⟩]

def partsAfter {P : Type} [Partition P C] (whole : P) (cuts : List Cut) : Except Panic (List P) :=
  cuts.foldlM (fun parts cut => cutParts parts cut.index cut.entity) [whole]

/-- Ranges that follow each other from `start` on and cover everything above. -/
inductive Consecutive : Nat → List IdRange → Prop
  | last (start : Nat) : Consecutive start [⟨start, none⟩]
  | next {start stop : Nat} {rest : List IdRange} (le : start ≤ stop) :
      Consecutive stop rest → Consecutive start (⟨start, some stop⟩ :: rest)

theorem consecutive_cut {start index entity : Nat} {ranges ranges' : List IdRange}
    (h : Consecutive start ranges) (cut : cutRanges ranges index entity = some ranges') :
    Consecutive start ranges' := by
  induction h generalizing index ranges' with
  | last start =>
    cases index with
    | zero =>
      simp only [cutRanges] at cut
      split at cut
      · rename_i inside
        cases cut
        exact .next inside.1 (.last entity)
      · cases cut
    | succ index => cases cut
  | next le rest ih =>
    cases index with
    | zero =>
      simp only [cutRanges] at cut
      split at cut
      · rename_i inside
        cases cut
        exact .next inside.1 (.next (Nat.le_of_lt (inside.2 _ rfl)) rest)
      · cases cut
    | succ index =>
      obtain ⟨rest', cut', rfl⟩ := Option.map_eq_some_iff.mp cut
      exact .next le (ih cut')

theorem option_foldlM_inv {σ α : Type} {f : σ → α → Option σ} (motive : σ → Prop)
    (step : ∀ s a s', motive s → f s a = some s' → motive s') {l : List α} {s t : σ}
    (run : l.foldlM f s = some t) (start : motive s) : motive t := by
  induction l generalizing s with
  | nil =>
    cases run
    exact start
  | cons a l ih =>
    rw [List.foldlM_cons] at run
    obtain ⟨s', first, rest⟩ := Option.bind_eq_some_iff.mp run
    exact ih rest (step s a s' start first)

theorem rangesAfter_consecutive {cuts : List Cut} {ranges : List IdRange}
    (h : rangesAfter cuts = some ranges) : Consecutive 0 ranges :=
  option_foldlM_inv (Consecutive 0) (fun _ _ _ consecutive cut => consecutive_cut consecutive cut) h
    (.last 0)

/-- The entries of consecutive ranges, one after the other. -/
theorem Consecutive.flatten {start : Nat} {ranges : List IdRange} (h : Consecutive start ranges)
    {entries : List (Nat × C)} (sorted : entries.Pairwise fun a b => a.1 < b.1) :
    (ranges.map fun range => entries.filter fun e => range.Contains e.1).flatten =
      entries.filter fun e => start ≤ e.1 := by
  induction h with
  | last start =>
    simp [IdRange.Contains]
  | @next start stop rest le _ ih =>
    rw [List.map_cons, List.flatten_cons, ih]
    refine SortedMap.eq_of_mem ?_ (sorted.filter _) fun e => ?_
    · refine List.pairwise_append.mpr ⟨sorted.filter _, sorted.filter _, fun a ha b hb => ?_⟩
      have := (List.mem_filter.mp ha).2
      have := (List.mem_filter.mp hb).2
      simp [IdRange.Contains] at *
      omega
    · simp only [List.mem_append, List.mem_filter, IdRange.Contains, Option.mem_some,
        decide_eq_true_eq, forall_eq']
      constructor
      · rintro (⟨member, inside⟩ | ⟨member, above⟩)
        · exact ⟨member, inside.1⟩
        · exact ⟨member, Nat.le_trans le above⟩
      · rintro ⟨member, above⟩
        rcases Nat.lt_or_ge e.1 stop with below | beyond
        · exact .inl ⟨member, above, below⟩
        · exact .inr ⟨member, beyond⟩

theorem Consecutive.above {start : Nat} {ranges : List IdRange} (h : Consecutive start ranges) :
    ∀ range ∈ ranges, start ≤ range.start := by
  induction h with
  | last start => simp
  | next le _ ih =>
    exact List.forall_mem_cons.mpr ⟨Nat.le_refl _, fun range member =>
      Nat.le_trans le (ih range member)⟩

/-- An ID is in exactly one of the ranges. -/
theorem Consecutive.unique {start : Nat} {ranges : List IdRange} (h : Consecutive start ranges)
    {id : Nat} (above : start ≤ id) :
    ∃ (i : Nat) (range : IdRange), ranges[i]? = some range ∧ range.Contains id ∧
      ∀ (j : Nat) (range' : IdRange), ranges[j]? = some range' → range'.Contains id → j = i := by
  induction h with
  | last start =>
    refine ⟨0, _, rfl, ⟨above, nofun⟩, fun j range' found _ => ?_⟩
    cases j with
    | zero => rfl
    | succ j => cases found
  | @next start stop rest le tail ih =>
    rcases Nat.lt_or_ge id stop with below | beyond
    · refine ⟨0, _, rfl, ⟨above, by simpa using below⟩, fun j range' found inside => ?_⟩
      cases j with
      | zero => rfl
      | succ j =>
        have := tail.above range' (List.mem_of_getElem? found)
        have := inside.1
        omega
    · obtain ⟨i, range, found, inside, only⟩ := ih beyond
      refine ⟨i + 1, range, found, inside, fun j range' found' inside' => ?_⟩
      cases j with
      | zero =>
        cases found'
        have := inside'.2 stop rfl
        omega
      | succ j => rw [only j range' found' inside']

/-! ## Splitting -/

section

variable {P : Type} [Partition P C] {Shows : IdRange → P → Prop} {Good : Nat → Prop}

/-- What splitting does to partitions that show their ranges. -/
structure Splits (Shows : IdRange → P → Prop) (Good : Nat → Prop) : Prop where
  good : ∀ {range : IdRange} {part : P} {entity : Nat}, Shows range part → range.Contains entity →
    Good entity → ∃ left right, Partition.splitOut part entity = .ok (left, right) ∧
      Shows ⟨range.start, some entity⟩ left ∧ Shows ⟨entity, range.stop⟩ right
  bad : ∀ {range : IdRange} {part : P} {entity : Nat}, Shows range part → range.Contains entity →
    ¬ Good entity → ∃ e, Partition.splitOut part entity = .error e

theorem Splits.cutParts (h : Splits Shows Good) {ranges ranges' : List IdRange} {parts : List P}
    {index entity : Nat} (valid : cutRanges ranges index entity = some ranges')
    (shown : List.Forall₂ Shows ranges parts) :
    (Good entity → ∃ parts', cutParts parts index entity = .ok parts' ∧
      List.Forall₂ Shows ranges' parts') ∧
    (¬ Good entity → ∃ e, cutParts parts index entity = .error e) := by
  induction shown generalizing index ranges' with
  | nil => cases valid
  | cons here rest ih =>
    cases index with
    | zero =>
      simp only [cutRanges] at valid
      split at valid
      · rename_i inside
        cases valid
        constructor
        · intro good
          obtain ⟨left, right, run, lefts, rights⟩ := h.good here inside good
          exact ⟨_, by simp only [Storage.cutParts, run, ok_bind]; rfl, .cons lefts (.cons rights rest)⟩
        · intro bad
          obtain ⟨e, run⟩ := h.bad here inside bad
          exact ⟨e, by simp only [Storage.cutParts, run, error_bind]⟩
      · cases valid
    | succ index =>
      obtain ⟨rest', valid', rfl⟩ := Option.map_eq_some_iff.mp valid
      obtain ⟨returns, fails⟩ := ih valid'
      constructor
      · intro good
        obtain ⟨parts', run, shown⟩ := returns good
        exact ⟨_, by simp only [Storage.cutParts, run, ok_bind]; rfl, .cons here shown⟩
      · intro bad
        obtain ⟨e, run⟩ := fails bad
        exact ⟨e, by simp only [Storage.cutParts, run, error_bind]⟩

/-- A sequence of calls returns exactly if each is at a good entity. -/
theorem Splits.partsAfter (h : Splits Shows Good) {whole : P} (start : Shows ⟨0, none⟩ whole)
    {cuts : List Cut} {ranges : List IdRange} (valid : rangesAfter cuts = some ranges) :
    ((∃ parts, partsAfter whole cuts = .ok parts) ↔ ∀ cut ∈ cuts, Good cut.entity) ∧
    ∀ parts, partsAfter whole cuts = .ok parts → List.Forall₂ Shows ranges parts := by
  have run : ∀ (cuts : List Cut) (ranges : List IdRange) (parts : List P),
      List.Forall₂ Shows ranges parts → ∀ ranges',
      cuts.foldlM (fun ranges cut => cutRanges ranges cut.index cut.entity) ranges = some ranges' →
      ((∃ parts', cuts.foldlM (fun parts cut => Storage.cutParts parts cut.index cut.entity) parts =
        .ok parts') ↔ ∀ cut ∈ cuts, Good cut.entity) ∧
      ∀ parts', cuts.foldlM (fun parts cut => Storage.cutParts parts cut.index cut.entity) parts =
        .ok parts' → List.Forall₂ Shows ranges' parts' := by
    intro cuts
    induction cuts with
    | nil =>
      intro ranges parts shown ranges' valid
      cases valid
      refine ⟨⟨fun _ => nofun, fun _ => ⟨parts, rfl⟩⟩, fun parts' returned => ?_⟩
      cases returned
      exact shown
    | cons cut cuts ih =>
      intro ranges parts shown ranges' valid
      rw [List.foldlM_cons] at valid
      obtain ⟨middle, first, valid⟩ := Option.bind_eq_some_iff.mp valid
      obtain ⟨returns, fails⟩ := h.cutParts first shown
      simp only [List.foldlM_cons, List.forall_mem_cons]
      by_cases good : Good cut.entity
      · obtain ⟨parts', ran, shown⟩ := returns good
        rw [ran, ok_bind]
        obtain ⟨exact', later⟩ := ih middle parts' shown ranges' valid
        exact ⟨exact'.trans ⟨fun all => ⟨good, all⟩, And.right⟩, later⟩
      · obtain ⟨e, failed⟩ := fails good
        rw [failed, error_bind]
        refine ⟨⟨?_, fun all => absurd all.1 good⟩, nofun⟩
        rintro ⟨_, returned⟩
        cases returned
  exact run cuts [⟨0, none⟩] [whole] (.cons start .nil) ranges valid

end

/-! ## What a partition gives access to -/

/-- A partition gives access to the components in its range, and to no other.
`many` is what the storage hands out for several entities. -/
structure Holds {P : Type} [Partition P C]
    (many : List Nat → Except Panic (Option (List (CompMut C)))) (m : SortedMap Nat C)
    (range : IdRange) (part : P) : Prop where
  intoMut : ∀ id, range.Contains id →
    Partition.intoMut part id = .ok ((m.get id).map fun value => ⟨id, value⟩)
  intoManyMut : ∀ entities, (∀ id ∈ entities, range.Contains id) →
    Partition.intoManyMut part entities = many entities
  intoIterMut : Partition.intoIterMut part =
    .ok ((m.entries.filter fun e => range.Contains e.1).map compMut)
  inside : ∀ id ref, Partition.intoMut part id = .ok (some ref) → range.Contains ref.slot
  allInside : ∀ entities refs, Partition.intoManyMut part entities = .ok (some refs) →
    ∀ ref ∈ refs, range.Contains ref.slot

/-- The partitions are a disjoint cover of the storage. -/
structure Cover {P : Type} [Partition P C]
    (many : List Nat → Except Panic (Option (List (CompMut C)))) (m : SortedMap Nat C)
    (ranges : List IdRange) (parts : List P) : Prop where
  holds : List.Forall₂ (Holds many m) ranges parts
  unique : ∀ id value, m.get id = some value →
    ∃! i : Nat, ∃ part, parts[i]? = some part ∧ Partition.intoMut part id = .ok (some ⟨id, value⟩)
  concat : ∃ lists, parts.mapM Partition.intoIterMut = .ok lists ∧
    lists.flatten = m.entries.map compMut

theorem forall₂_at {α β : Type} {R : α → β → Prop} {l : List α} {l' : List β}
    (h : List.Forall₂ R l l') {i : Nat} {a : α} (found : l[i]? = some a) :
    ∃ b, l'[i]? = some b ∧ R a b := by
  induction h generalizing i with
  | nil => cases found
  | cons here _ ih =>
    cases i with
    | zero =>
      cases found
      exact ⟨_, rfl, here⟩
    | succ i => exact ih found

theorem cover_of_holds {P : Type} [Partition P C]
    {many : List Nat → Except Panic (Option (List (CompMut C)))} {m : SortedMap Nat C}
    {ranges : List IdRange} {parts : List P} (consecutive : Consecutive 0 ranges)
    (holds : List.Forall₂ (Holds many m) ranges parts) : Cover many m ranges parts := by
  refine ⟨holds, fun id value found => ?_, ?_⟩
  · obtain ⟨i, range, here, inside, only⟩ := consecutive.unique (Nat.zero_le id)
    obtain ⟨part, there, holding⟩ := forall₂_at holds here
    refine ⟨i, ⟨part, there, ?_⟩, ?_⟩
    · rw [holding.intoMut id inside, found]
      rfl
    · rintro j ⟨part', there', returned⟩
      obtain ⟨range', here', holding'⟩ := forall₂_at holds.flip there'
      exact only j range' here' (holding'.inside id _ returned)
  · refine ⟨ranges.map fun range => (m.entries.filter fun e => range.Contains e.1).map compMut,
      ?_, ?_⟩
    · clear consecutive
      induction holds with
      | nil => rfl
      | cons here _ ih =>
        rw [List.mapM_cons, here.intoIterMut, ok_bind, ih]
        rfl
    · have whole := consecutive.flatten m.sorted
      simp only [Nat.zero_le, decide_true, List.filter_true] at whole
      have mapped := congrArg (List.map compMut) whole
      rw [List.map_flatten, List.map_map] at mapped
      exact mapped

/-! ## Partitions of the tree -/

/-- The partition of the tree for a range. -/
structure TreeShows (m : SortedMap Nat C) (range : IdRange) (part : TreePartition C) : Prop where
  data : part.data = m
  lower : part.lowerBound = some range.start ∨ part.lowerBound = none ∧ range.start = 0
  upper : part.upperBound = range.stop
  ordered : ∀ stop ∈ range.stop, range.start ≤ stop

namespace TreeShows

variable {m : SortedMap Nat C} {range : IdRange} {part : TreePartition C}

theorem lower_iff (h : TreeShows m range part) (id : Nat) :
    part.lowerBound.any (id < ·) = true ↔ id < range.start := by
  rcases h.lower with lower | ⟨lower, zero⟩
  · simp [lower]
  · simp [lower, zero]

theorem upper_iff (h : TreeShows m range part) (id : Nat) :
    part.upperBound.any (· ≤ id) = true ↔ ∃ stop ∈ range.stop, stop ≤ id := by
  rw [h.upper]
  cases range.stop <;> simp

/-- The assertion accepts exactly the range. -/
theorem assertBounds (h : TreeShows m range part) (id : Nat) :
    part.assertBounds id = if range.Contains id then .ok () else .error (.notInPartition id) := by
  unfold TreePartition.assertBounds
  by_cases below : id < range.start
  · rw [if_pos ((h.lower_iff id).mpr below), if_neg]
    exact fun inside => Nat.not_lt_of_le inside.1 below
  · rw [if_neg fun any => below ((h.lower_iff id).mp any)]
    by_cases beyond : ∃ stop ∈ range.stop, stop ≤ id
    · rw [if_pos ((h.upper_iff id).mpr beyond), if_neg]
      obtain ⟨stop, cut, le⟩ := beyond
      exact fun inside => Nat.not_lt_of_le le (inside.2 stop cut)
    · rw [if_neg fun any => beyond ((h.upper_iff id).mp any), if_pos]
      · rfl
      · refine ⟨Nat.le_of_not_lt below, fun stop cut => ?_⟩
        exact Nat.lt_of_not_le fun le => beyond ⟨stop, cut, le⟩

theorem splits : Splits (TreeShows m) fun _ => True where
  good := by
    intro range part entity h inside _
    refine ⟨{ part with upperBound := some entity }, { part with lowerBound := some entity }, ?_,
      ⟨h.data, h.lower, rfl, by simpa using inside.1⟩,
      ⟨h.data, .inl rfl, h.upper, fun stop cut => Nat.le_of_lt (inside.2 stop cut)⟩⟩
    simp only [Partition.splitOut, TreePartition.splitOut, h.assertBounds, if_pos inside, ok_bind]
    rfl
  bad := fun _ _ bad => absurd trivial bad

theorem entries (h : TreeShows m range part) :
    m.range part.lowerBound part.upperBound = m.entries.filter fun e => range.Contains e.1 := by
  unfold SortedMap.range
  apply List.filter_congr
  intro e _
  rw [h.upper, Bool.eq_iff_iff, Bool.and_eq_true, decide_eq_true_eq, IdRange.Contains]
  refine and_congr ?_ ?_
  · rcases h.lower with lower | ⟨lower, zero⟩
    · simp [lower]
    · simp [lower, zero]
  · cases range.stop <;> simp

theorem forM_assertBounds (h : TreeShows m range part) {entities : List Nat}
    (inside : ∀ id ∈ entities, range.Contains id) : entities.forM part.assertBounds = .ok () := by
  induction entities with
  | nil => rfl
  | cons id entities ih =>
    obtain ⟨here, inside⟩ := List.forall_mem_cons.mp inside
    change (part.assertBounds id >>= fun _ => entities.forM part.assertBounds) = _
    rw [h.assertBounds, if_pos here, ok_bind]
    exact ih inside

/-- The two ways of collecting the pointers. -/
theorem mapM_ptrs (ptrs : List (Option (CompMut C))) :
    (if ptrs.any (·.isNone) then return none
      else do
        let values ← ptrs.mapM (expect .nullPointer)
        return some values : Except Panic (Option (List (CompMut C)))) = .ok (ptrs.mapM id) := by
  induction ptrs with
  | nil => rfl
  | cons ptr ptrs ih =>
    cases ptr with
    | none => rfl
    | some ref =>
      simp only [List.any_cons, Option.isNone_some, Bool.false_or, List.mapM_cons, expect_some,
        ok_bind, id_eq, Option.bind_eq_bind, Option.bind_some]
      cases missing : ptrs.any (·.isNone) with
      | true =>
        simp only [missing, if_true] at ih ⊢
        rw [← Except.ok.inj ih]
        rfl
      | false =>
        simp only [missing, Bool.false_eq_true, if_false] at ih ⊢
        obtain ⟨values, run, same⟩ := bind_eq_ok.mp ih
        rw [run, ← Except.ok.inj same]
        rfl

theorem intoManyMut (h : TreeShows m range part) {entities : List Nat}
    (inside : ∀ id ∈ entities, range.Contains id) :
    part.intoManyMut entities = (Tree.mk m).getManyMut entities := by
  simp only [TreePartition.intoManyMut, Tree.getManyMut, h.forM_assertBounds inside, ok_bind, h.data]
  split
  · rfl
  · exact (mapM_ptrs _).symm

theorem mem_of_mapM_id {α : Type} {ptrs : List (Option α)} {refs : List α}
    (h : ptrs.mapM id = some refs) : ∀ ref ∈ refs, some ref ∈ ptrs := by
  induction ptrs generalizing refs with
  | nil =>
    cases h
    exact nofun
  | cons ptr ptrs ih =>
    simp only [List.mapM_cons, id_eq, Option.bind_eq_bind, Option.bind_eq_some_iff] at h
    obtain ⟨ref, rfl, rest, run, same⟩ := h
    cases same
    exact List.forall_mem_cons.mpr ⟨.head _, fun other member => .tail _ (ih run other member)⟩

theorem assertBounds_ok (h : TreeShows m range part) {id : Nat} {u : Unit}
    (asserted : part.assertBounds id = .ok u) : range.Contains id := by
  rw [h.assertBounds] at asserted
  split at asserted
  · assumption
  · cases asserted

/-- A partition of the tree gives access to its range. -/
theorem holds (h : TreeShows m range part) : Holds (Tree.mk m).getManyMut m range part where
  intoMut := by
    intro id inside
    simp only [Partition.intoMut, TreePartition.intoMut, h.assertBounds, if_pos inside, ok_bind,
      h.data]
    rfl
  intoManyMut := fun entities inside => h.intoManyMut inside
  intoIterMut := by
    have straight : ¬ (part.lowerBound.any fun lower => part.upperBound.any (· < lower)) = true := by
      intro reversed
      obtain ⟨lower, here, above⟩ := (Option.any_eq_true _ _).mp reversed
      obtain ⟨stop, there, less⟩ := (Option.any_eq_true _ _).mp above
      have le := h.ordered stop (h.upper ▸ there)
      rcases h.lower with same | ⟨none, -⟩
      · rw [same] at here
        cases here
        exact Nat.not_lt_of_le le (of_decide_eq_true less)
      · rw [none] at here
        cases here
    simp only [Partition.intoIterMut, TreePartition.intoIterMut]
    rw [if_neg straight, h.data, h.entries]
    rfl
  inside := by
    intro id ref returned
    obtain ⟨_, asserted, returned⟩ := bind_eq_ok.mp returned
    obtain ⟨value, -, rfl⟩ := Option.map_eq_some_iff.mp (Except.ok.inj returned)
    exact h.assertBounds_ok asserted
  allInside := by
    intro entities refs returned ref member
    obtain ⟨_, asserted, returned⟩ := bind_eq_ok.mp returned
    dsimp only at returned
    split at returned
    · cases returned
    · have listed := mem_of_mapM_id (Except.ok.inj returned) ref member
      obtain ⟨entity, requested, cell⟩ := List.mem_map.mp listed
      obtain ⟨value, -, rfl⟩ := Option.map_eq_some_iff.mp cell
      exact h.assertBounds_ok (forM_ok asserted entity requested)

end TreeShows

/-! ## Partitions of the vector storage -/

def cutOff {α : Type} (stop : Option Nat) (l : List α) : List α :=
  match stop with
  | some stop => l.take stop
  | none => l

/-- The slots of a range. -/
def slots {α : Type} (range : IdRange) (l : List α) : List α := (cutOff range.stop l).drop range.start

theorem getElem?_slots {α : Type} (range : IdRange) (l : List α) (i : Nat) :
    (slots range l)[i]? =
      if range.Contains (range.start + i) then l[range.start + i]? else none := by
  obtain ⟨start, stop⟩ := range
  rw [slots, List.getElem?_drop]
  cases stop with
  | none => simp [cutOff, IdRange.Contains]
  | some stop => simp [cutOff, IdRange.Contains, List.getElem?_take]

theorem getElem?_slots_sub {α : Type} {range : IdRange} {id : Nat} (inside : range.Contains id)
    (l : List α) : (slots range l)[id - range.start]? = l[id]? := by
  have same : range.start + (id - range.start) = id := Nat.add_sub_cancel' inside.1
  rw [getElem?_slots, same, if_pos inside]

/-- The range may be cut at an entity: in its range, or at its end. -/
def IdRange.CutAt (range : IdRange) (entity : Nat) : Prop :=
  range.start ≤ entity ∧ ∀ stop ∈ range.stop, entity ≤ stop

theorem IdRange.Contains.cutAt {range : IdRange} {entity : Nat} (inside : range.Contains entity) :
    range.CutAt entity :=
  ⟨inside.1, fun stop cut => Nat.le_of_lt (inside.2 stop cut)⟩

theorem slots_left {α : Type} {range : IdRange} {entity : Nat} (here : range.CutAt entity)
    (l : List α) : slots ⟨range.start, some entity⟩ l =
      (slots range l).take (entity - range.start) := by
  refine List.ext_getElem? fun i => ?_
  have le := here.1
  rw [getElem?_slots, List.getElem?_take, getElem?_slots]
  by_cases left : i < entity - range.start
  · have inside : (⟨range.start, some entity⟩ : IdRange).Contains (range.start + i) :=
      ⟨Nat.le_add_right .., fun stop cut => by cases cut; omega⟩
    have there : range.Contains (range.start + i) :=
      ⟨Nat.le_add_right .., fun stop cut => by have := here.2 stop cut; omega⟩
    rw [if_pos inside, if_pos left, if_pos there]
  · rw [if_neg left, if_neg]
    intro inside
    have : range.start + i < entity := inside.2 entity rfl
    omega

theorem slots_right {α : Type} {range : IdRange} {entity : Nat} (le : range.start ≤ entity)
    (l : List α) : slots ⟨entity, range.stop⟩ l = (slots range l).drop (entity - range.start) := by
  rw [slots, slots, List.drop_drop, Nat.add_sub_cancel' le]

theorem length_slots {α : Type} (range : IdRange) (l : List α) : (slots range l).length =
    (range.stop.elim l.length fun stop => min stop l.length) - range.start := by
  rw [slots, List.length_drop]
  cases range.stop with
  | none => rfl
  | some stop => simp [cutOff]

/-- A range that reaches an entity, in terms of the whole. -/
theorem length_slots_lt {α : Type} {range : IdRange} {entity : Nat} (here : range.CutAt entity)
    (l : List α) : (slots range l).length < entity - range.start ↔
      range.start < entity ∧ l.length < entity := by
  rw [length_slots]
  cases stop : range.stop with
  | none =>
    simp only [Option.elim_none]
    omega
  | some stop' =>
    have := here.2 stop' stop
    simp only [Option.elim_some]
    omega

/-- The partition has the slots of a range. -/
def SlotsOf (s : VecStorage C) (range : IdRange) (part : VecPartition C) : Prop :=
  part = ⟨slots range s.bits, slots range s.data, range.start⟩

namespace SlotsOf

variable {s : VecStorage C} {m : SortedMap Nat C} {range : IdRange} {part : VecPartition C}

theorem eq (h : SlotsOf s range part) :
    part = ⟨slots range s.bits, slots range s.data, range.start⟩ := h

theorem offset (h : SlotsOf s range part) : part.offset = range.start := by
  rw [h.eq]

/-- The bit of an entity in the range. -/
theorem bit (h : SlotsOf s range part) (represents : Represents s m) {id : Nat}
    (inside : range.Contains id) :
    part.bits[id - part.offset]? = some true ↔ (m.get id).isSome = true := by
  rw [h.eq, getElem?_slots_sub inside, ← s.bit_eq, represents.bit_iff]

/-- A bit that is set is that of an entity in the range. -/
theorem bit_inside (h : SlotsOf s range part) {i : Nat} (one : part.bits[i]? = some true) :
    range.Contains (part.offset + i) := by
  rw [h.eq, getElem?_slots] at one
  rw [h.eq]
  split at one
  · assumption
  · cases one

theorem slot (h : SlotsOf s range part) (represents : Represents s m) {id : Nat} {value : C}
    (inside : range.Contains id) (found : m.get id = some value) :
    part.data[id - part.offset]? = some (some value) := by
  rw [h.eq, getElem?_slots_sub inside]
  exact (represents.slot found).2

theorem slotMut (h : SlotsOf s range part) (represents : Represents s m) {id : Nat} {value : C}
    (inside : range.Contains id) (found : m.get id = some value) :
    slotMut part.offset part.data (id - part.offset) = .ok ⟨id, value⟩ := by
  have offset := h.offset
  have same : part.offset + (id - part.offset) = id := Nat.add_sub_cancel' (offset ▸ inside.1)
  simp [Storage.slotMut, assumeInit, h.slot represents inside found, same]

theorem intoMut (h : SlotsOf s range part) (represents : Represents s m) {id : Nat}
    (inside : range.Contains id) :
    part.intoMut id = .ok ((m.get id).map fun value => ⟨id, value⟩) := by
  have offset := h.offset
  unfold VecPartition.intoMut
  rw [if_neg (Nat.not_lt_of_le (offset ▸ inside.1))]
  cases found : m.get id with
  | none =>
    have zero : part.bits[id - part.offset]? ≠ some true := by
      rw [Ne, h.bit represents inside, found]
      simp
    split
    · contradiction
    · rfl
  | some value =>
    have one : part.bits[id - part.offset]? = some true := by
      rw [h.bit represents inside, found]
      rfl
    simp only [one, h.slotMut represents inside found, ok_bind]
    rfl

theorem keys (h : SlotsOf s range part) (represents : Represents s m) :
    iterOnes part.bits =
      (m.entries.filter fun e => range.Contains e.1).map fun e => e.1 - part.offset := by
  have offset := h.offset
  have above : ∀ e ∈ m.entries.filter fun e => range.Contains e.1, range.start ≤ e.1 := by
    intro e member
    exact (of_decide_eq_true (List.mem_filter.mp member).2).1
  refine eq_of_sorted (sorted_iterOnes _) ?_ fun i => ?_
  · refine List.pairwise_map.mpr ((m.sorted.filter _).imp_of_mem fun ha hb less => ?_)
    have := above _ ha
    have := above _ hb
    omega
  · rw [mem_iterOnes, List.mem_map]
    constructor
    · intro one
      have inside := h.bit_inside one
      have index : part.offset + i - part.offset = i := by omega
      have present := h.bit represents inside
      rw [index] at present
      obtain ⟨value, found⟩ := Option.isSome_iff_exists.mp (present.mp one)
      exact ⟨_, List.mem_filter.mpr ⟨SortedMap.mem_entries.mpr found, decide_eq_true inside⟩, index⟩
    · rintro ⟨e, member, rfl⟩
      obtain ⟨stored, inside⟩ := List.mem_filter.mp member
      rw [h.bit represents (of_decide_eq_true inside), SortedMap.mem_entries.mp stored]
      rfl

theorem intoIterMut (h : SlotsOf s range part) (represents : Represents s m) :
    part.intoIterMut = .ok ((m.entries.filter fun e => range.Contains e.1).map compMut) := by
  have offset := h.offset
  rw [VecPartition.intoIterMut, Storage.iterMut, h.keys represents, List.mapM_map]
  apply mapM_ok
  intro e member
  obtain ⟨stored, inside⟩ := List.mem_filter.mp member
  have inside := of_decide_eq_true inside
  have same : part.offset + (e.1 - part.offset) = e.1 := Nat.add_sub_cancel' (offset ▸ inside.1)
  simp [h.slotMut represents inside (SortedMap.mem_entries.mp stored), same, compMut]

end SlotsOf

/-- The partition of the vector storage for a range. -/
structure VecShows (s : VecStorage C) (range : IdRange) (part : VecPartition C) : Prop where
  part : part = ⟨slots range s.bits, slots range s.data, range.start⟩
  start : ¬ (s.data.length < range.start ∧ range.start ≤ s.bits.length)

namespace VecShows

variable {s : VecStorage C} {m : SortedMap Nat C} {range : IdRange} {part : VecPartition C}

theorem slotsOf (h : VecShows s range part) : SlotsOf s range part := h.part

/-- Splitting fails where the bits go on and the data does not. -/
theorem splitOut (h : VecShows s range part) (within : s.data.length ≤ s.bits.length) {entity : Nat}
    (here : range.CutAt entity) :
    Exactly (¬ (s.data.length < entity ∧ entity ≤ s.bits.length)) (part.splitOut entity)
      fun parts => VecShows s ⟨range.start, some entity⟩ parts.1 ∧
        VecShows s ⟨entity, range.stop⟩ parts.2 := by
  have le := here.1
  have start := h.start
  have bits := length_slots_lt here s.bits
  have data := length_slots_lt here s.data
  rw [h.part]
  unfold VecPartition.splitOut
  simp only [if_neg (Nat.not_lt_of_le le), Nat.add_sub_cancel' le]
  split
  · rename_i beyond
    obtain ⟨less, short⟩ := bits.mp beyond
    have lacking := data.mpr ⟨less, Nat.lt_of_le_of_lt within short⟩
    refine .ok (fun both => Nat.not_lt_of_le both.2 short) ⟨⟨?_, start⟩, ⟨?_, fun both => ?_⟩⟩
    · rw [slots_left here, slots_left here, List.take_of_length_le (Nat.le_of_lt beyond),
        List.take_of_length_le (Nat.le_of_lt lacking)]
    · rw [slots_right le, slots_right le, List.drop_eq_nil_of_le (Nat.le_of_lt beyond),
        List.drop_eq_nil_of_le (Nat.le_of_lt lacking)]
    · exact Nat.not_lt_of_le both.2 short
  · rename_i reached
    split
    · rename_i lacking
      obtain ⟨less, short⟩ := data.mp lacking
      refine .error fun good => good ⟨short, ?_⟩
      exact Nat.le_of_not_lt fun beyond => reached (bits.mpr ⟨less, beyond⟩)
    · rename_i stored
      have good : ¬ (s.data.length < entity ∧ entity ≤ s.bits.length) := by
        rintro ⟨short, long⟩
        have same : range.start = entity :=
          Nat.le_antisymm le (Nat.le_of_not_lt fun less => stored (data.mpr ⟨less, short⟩))
        rw [same] at start
        exact start ⟨short, long⟩
      refine .ok good ⟨⟨?_, start⟩, ⟨?_, good⟩⟩
      · rw [slots_left here, slots_left here]
      · rw [slots_right le, slots_right le]

theorem splits (within : s.data.length ≤ s.bits.length) :
    Splits (VecShows s) fun entity =>
      ¬ (s.data.length < entity ∧ entity ≤ s.bits.length) where
  good := by
    intro range part entity h inside good
    obtain ⟨⟨left, right⟩, run, shown⟩ := (h.splitOut within inside.cutAt).returns good
    exact ⟨left, right, run, shown⟩
  bad := by
    intro range part entity h inside bad
    exact (h.splitOut within inside.cutAt).fails bad

theorem presentIndices (h : VecShows s range part) (represents : Represents s m)
    {entities : List Nat} (inside : ∀ id ∈ entities, range.Contains id) :
    part.presentIndices entities = .ok (if ∀ id ∈ entities, (m.get id).isSome = true then
      some (entities.map (· - part.offset)) else none) := by
  have offset : part.offset = range.start := by rw [h.part]
  induction entities with
  | nil => rfl
  | cons id entities ih =>
    obtain ⟨here, inside⟩ := List.forall_mem_cons.mp inside
    have index : part.presentIndex id =
        .ok (if (m.get id).isSome = true then some (id - part.offset) else none) := by
      unfold VecPartition.presentIndex
      rw [if_neg (Nat.not_lt_of_le (offset ▸ here.1))]
      by_cases present : (m.get id).isSome = true
      · simp [(h.slotsOf.bit represents here).mpr present, present]
      · have zero : part.bits[id - part.offset]? ≠ some true := by
          rw [Ne, h.slotsOf.bit represents here]
          exact present
        rw [if_neg present]
        split
        · contradiction
        · rfl
    rw [VecPartition.presentIndices, index, ok_bind, ih inside]
    simp only [List.forall_mem_cons]
    by_cases present : (m.get id).isSome = true
    · simp only [present, if_true, ok_bind, true_and]
      split <;> rfl
    · simp [present]

theorem intoManyMut (h : VecShows s range part) (represents : Represents s m)
    {entities : List Nat} (inside : ∀ id ∈ entities, range.Contains id) :
    part.intoManyMut entities = s.getManyMut entities := by
  have offset : part.offset = range.start := by rw [h.part]
  rw [represents.getManyMut]
  unfold VecPartition.intoManyMut
  rw [h.presentIndices represents inside, ok_bind]
  by_cases all : ∀ id ∈ entities, (m.get id).isSome = true
  · have values : ∀ id ∈ entities, ∃ value, m.get id = some value := fun id member =>
      Option.isSome_iff_exists.mp (all id member)
    have stored : ∀ index ∈ entities.map (· - part.offset), index < part.data.length := by
      intro index member
      obtain ⟨id, requested, rfl⟩ := List.mem_map.mp member
      obtain ⟨value, found⟩ := values id requested
      exact (List.getElem?_eq_some_iff.mp (h.slotsOf.slot represents (inside id requested) found)).1
    have injective : (entities.map (· - part.offset)).Nodup ↔ entities.Nodup := by
      refine ⟨List.Nodup.of_map _, fun nodup => nodup.map_on fun a ha b hb same => ?_⟩
      have := (inside a ha).1
      have := (inside b hb).1
      omega
    have refs : (entities.map (· - part.offset)).mapM (Storage.slotMut part.offset part.data) =
        .ok (manyMut m entities) := by
      rw [List.mapM_map]
      apply manyMut_mapM
      intro id member
      obtain ⟨value, found⟩ := values id member
      exact ⟨value, found, h.slotsOf.slotMut represents (inside id member) found⟩
    rw [if_pos all]
    simp only [sliceGetManyMut]
    by_cases nodup : entities.Nodup
    · rw [if_pos ⟨stored, injective.mpr nodup⟩, if_pos ⟨all, nodup⟩]
      simp only [refs, ok_bind]
      rfl
    · rw [if_neg fun both => nodup (injective.mp both.2), if_neg fun both => nodup both.2]
      rfl
  · rw [if_neg all, if_neg fun both : Requestable m entities => all both.1]
    rfl

theorem presentIndices_inside (h : VecShows s range part) {entities indices : List Nat}
    (returned : part.presentIndices entities = .ok (some indices)) :
    ∀ index ∈ indices, range.Contains (part.offset + index) := by
  induction entities generalizing indices with
  | nil =>
    cases returned
    exact nofun
  | cons id entities ih =>
    obtain ⟨index, first, rest⟩ := bind_eq_ok.mp returned
    cases index with
    | none => cases rest
    | some index =>
      obtain ⟨later, run, same⟩ := bind_eq_ok.mp rest
      obtain ⟨others, rfl, rfl⟩ := Option.map_eq_some_iff.mp (Except.ok.inj same)
      refine List.forall_mem_cons.mpr ⟨?_, ih run⟩
      unfold VecPartition.presentIndex at first
      split at first
      · cases first
      · split at first
        · rename_i one
          cases first
          exact h.slotsOf.bit_inside one
        · cases first

/-- A reference points to the slot of its index. -/
theorem slotMut_slot {offset index : Nat} {data : List (Option C)} {ref : CompMut C}
    (returned : Storage.slotMut offset data index = .ok ref) : ref.slot = offset + index := by
  obtain ⟨_, -, returned⟩ := bind_eq_ok.mp returned
  obtain ⟨_, -, returned⟩ := bind_eq_ok.mp returned
  cases returned
  rfl

/-- A partition of the vector storage gives access to its range. -/
theorem holds (h : VecShows s range part) (represents : Represents s m) :
    Holds s.getManyMut m range part where
  intoMut := fun id inside => h.slotsOf.intoMut represents inside
  intoManyMut := fun entities inside => h.intoManyMut represents inside
  intoIterMut := h.slotsOf.intoIterMut represents
  inside := by
    intro id ref returned
    simp only [Partition.intoMut, VecPartition.intoMut] at returned
    split at returned
    · cases returned
    · split at returned
      · rename_i one
        obtain ⟨_, run, returned⟩ := bind_eq_ok.mp returned
        cases returned
        rw [slotMut_slot run]
        exact h.slotsOf.bit_inside one
      · cases returned
  allInside := by
    intro entities refs returned ref member
    obtain ⟨indices, present, returned⟩ := bind_eq_ok.mp returned
    cases indices with
    | none => cases returned
    | some indices =>
      have inside := h.presentIndices_inside present
      cases taken : sliceGetManyMut part.data.length indices with
      | none =>
        simp only [taken] at returned
        cases returned
      | some indices' =>
        simp only [taken] at returned
        obtain ⟨values, run, returned⟩ := bind_eq_ok.mp returned
        cases returned
        obtain ⟨index, member, pointed⟩ := mem_of_mapM run ref member
        have same : indices' = indices := by
          unfold sliceGetManyMut at taken
          split at taken
          · exact (Option.some.inj taken).symm
          · cases taken
        rw [slotMut_slot pointed]
        exact inside index (same ▸ member)

end VecShows

/-! ## A disjoint cover -/

/-- Set components one after the other. -/
def VecStorage.setAll (self : VecStorage C) (sets : List (Nat × Option C)) :
    Except Panic (VecStorage C) :=
  sets.foldlM (fun self set => do
    let (_, self) ← self.set set.1 set.2
    return self) self

def Tree.setAll (self : Tree C) (sets : List (Nat × Option C)) : Tree C :=
  sets.foldl (fun self set => (self.set set.1 set.2).2) self

theorem setAll_represents {s : VecStorage C} {m : SortedMap Nat C} (h : Represents s m)
    (sets : List (Nat × Option C)) :
    ∃ s', s.setAll sets = .ok s' ∧ Represents s' ((Tree.mk m).setAll sets).data := by
  induction sets generalizing s m with
  | nil => exact ⟨s, rfl, h⟩
  | cons set sets ih =>
    obtain ⟨t, run, next⟩ := h.set set.1 set.2
    obtain ⟨u, rest, last⟩ := ih next
    refine ⟨u, ?_, last⟩
    rw [VecStorage.setAll, List.foldlM_cons, run]
    exact rest

theorem vec_partsAfter {s : VecStorage C} {m : SortedMap Nat C} (represents : Represents s m)
    {cuts : List Cut} {ranges : List IdRange} (valid : rangesAfter cuts = some ranges) :
    ((∃ parts, partsAfter s.asPartition cuts = .ok parts) ↔
      ∀ cut ∈ cuts, ¬ (s.data.length < cut.entity ∧ cut.entity ≤ s.bits.length)) ∧
    ∀ parts, partsAfter s.asPartition cuts = .ok parts → Cover s.getManyMut m ranges parts := by
  have start : VecShows s ⟨0, none⟩ s.asPartition := by
    refine ⟨rfl, fun bad => ?_⟩
    exact absurd bad.1 (Nat.not_lt_zero _)
  obtain ⟨returns, shown⟩ := (VecShows.splits represents.within).partsAfter start valid
  refine ⟨returns, fun parts run => cover_of_holds (rangesAfter_consecutive valid) ?_⟩
  exact (shown parts run).imp fun _ _ shows => shows.holds represents

theorem tree_partsAfter (tree : Tree C) {cuts : List Cut} {ranges : List IdRange}
    (valid : rangesAfter cuts = some ranges) :
    ∃ parts, partsAfter tree.asPartition cuts = .ok parts ∧
      Cover tree.getManyMut tree.data ranges parts := by
  have start : TreeShows tree.data ⟨0, none⟩ tree.asPartition := ⟨rfl, .inr ⟨rfl, rfl⟩, rfl, nofun⟩
  obtain ⟨returns, shown⟩ := TreeShows.splits.partsAfter start valid
  obtain ⟨parts, run⟩ := returns.mpr fun _ _ => trivial
  refine ⟨parts, run, cover_of_holds (rangesAfter_consecutive valid) ?_⟩
  exact (shown parts run).imp fun _ _ shows => shows.holds

/-- **Partitions.** For a storage filled by any sequence of `set`, splitting
inside the ranges of the partitions yields a disjoint cover. The tree always
does. The vector storage does unless it is split where its bits go on and its
data does not. -/
theorem partition_cover (sets : List (Nat × Option C)) {cuts : List Cut} {ranges : List IdRange}
    (valid : rangesAfter cuts = some ranges) :
    ∃ s, VecStorage.default.setAll sets = .ok s ∧ Observes s (Tree.default.setAll sets).data ∧
      (((∃ parts, partsAfter s.asPartition cuts = .ok parts ∧
          Cover s.getManyMut (Tree.default.setAll sets).data ranges parts) ∧
        ∃ parts, partsAfter (Tree.default.setAll sets).asPartition cuts = .ok parts ∧
          Cover (Tree.default.setAll sets).getManyMut (Tree.default.setAll sets).data ranges parts) ↔
      ∀ cut ∈ cuts, ¬ (s.data.length < cut.entity ∧ cut.entity ≤ s.bits.length)) := by
  obtain ⟨s, run, represents⟩ := setAll_represents represents_default sets
  obtain ⟨returns, cover⟩ := vec_partsAfter represents valid
  refine ⟨s, run, represents.observes, ?_⟩
  constructor
  · rintro ⟨⟨parts, returned, -⟩, -⟩
    exact returns.mp ⟨parts, returned⟩
  · intro good
    obtain ⟨parts, returned⟩ := returns.mpr good
    exact ⟨⟨parts, returned, cover parts returned⟩, tree_partsAfter _ valid⟩

theorem partition_cover_two :
    ∃ s, VecStorage.default.setAll [(1, some 7), (3, some 9)] = .ok s ∧
      ∃ parts, partsAfter s.asPartition [⟨0, 2⟩] = .ok parts ∧
        Cover s.getManyMut (Tree.default.setAll [(1, some 7), (3, some 9)]).data
          [⟨0, some 2⟩, ⟨2, none⟩] parts := by
  obtain ⟨s, run, -, exact'⟩ := partition_cover [(1, some 7), (3, some 9)]
    (show rangesAfter [⟨0, 2⟩] = some [⟨0, some 2⟩, ⟨2, none⟩] from rfl)
  refine ⟨s, run, (exact'.mpr ?_).1⟩
  cases run
  decide

/-- Removing a component that was never there, and splitting below it. -/
theorem partition_cover_removed :
    ∃ s : VecStorage Nat, VecStorage.default.setAll [(5, none)] = .ok s ∧
      rangesAfter [⟨0, 3⟩] = some [⟨0, some 3⟩, ⟨3, none⟩] ∧
      partsAfter s.asPartition [⟨0, 3⟩] = .error .dataTooShort :=
  ⟨_, rfl, rfl, rfl⟩

end Dynec.Storage
