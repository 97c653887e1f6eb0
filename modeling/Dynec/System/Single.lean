import Dynec.Storage.Chunks
import Dynec.System.Parallel

/-!
# Parallel iteration of one accessor

`par_iter_mut` and `par_iter_chunks_mut` split the partition of a storage along
the snapshot of the allocator, and every job iterates over its partition.
-/

namespace Dynec.System

open Fallible Entity Storage

variable {C : Type}

section
variable {P : Type} [Partition P C]

/-- The jobs of `rayon::iter::split`, from left to right. -/
def splitJobs (w : Nat) : Splitting → P → Slice → Except Panic (List (P × Slice))
  | .whole, partition, slice => return [(partition, slice)]
  | .split left right, partition, slice => do
    match ← slice.midpointForSplit w with
    | none => return [(partition, slice)]
    | some midpt =>
      let (sliceLeft, sliceRight) := slice.splitAt midpt
      let (partitionLeft, partitionRight) ← Partition.splitOut partition midpt
      let lefts ← splitJobs w left partitionLeft sliceLeft
      let rights ← splitJobs w right partitionRight sliceRight
      return lefts ++ rights

/-- `Single::par_iter_mut` -/
def parIterMut (w : Nat) (splitting : Splitting) (partition : P) (snapshot : Snapshot) :
    Except Panic (List (Nat × CompMut C)) := do
  let jobs ← splitJobs w splitting partition snapshot.asSlice
  let lists ← jobs.mapM fun job => Partition.intoIterMut job.1
  return lists.flatten

end

/-- `Single::into_iter_chunks_mut` -/
def intoIterChunksMut (w : Nat) (partition : VecPartition C) (calls : Nat) :
    Except Panic (List ((Nat × Nat) × List (CompMut C))) := do
  let chunks ← partition.intoIterChunksMut calls
  chunks.mapM fun chunk => do
    let stop ← addRaw w chunk.1 chunk.2.length
    return ((chunk.1, stop), chunk.2)

/-- `Single::par_iter_chunks_mut` -/
def parIterChunksMut (w : Nat) (splitting : Splitting) (calls : Nat) (partition : VecPartition C)
    (snapshot : Snapshot) : Except Panic (List ((Nat × Nat) × List (CompMut C))) := do
  let jobs ← splitJobs w splitting partition snapshot.asSlice
  let lists ← jobs.mapM fun job => intoIterChunksMut w job.1 calls
  return lists.flatten

/-! ## The partitions of the jobs -/

/-- The ranges of IDs of the partitions. -/
def Splitting.partRanges : Splitting → Nat → Nat → IdRange → List IdRange
  | .whole, _, _, range => [range]
  | .split left right, start, stop, range =>
    if 8 ≤ stop - (start + stop) / 2 then
      left.partRanges start ((start + stop) / 2) ⟨range.start, some ((start + stop) / 2)⟩ ++
        right.partRanges ((start + stop) / 2) stop ⟨(start + stop) / 2, range.stop⟩
    else [range]

/-- The range of a partition has all of the slice that it is split along. -/
def IdRange.Around (range : IdRange) (start stop : Nat) : Prop :=
  range.start ≤ start ∧ ∀ last ∈ range.stop, stop ≤ last

theorem IdRange.Around.contains {range : IdRange} {start stop mid : Nat}
    (around : IdRange.Around range start stop) (low : start ≤ mid) (high : mid < stop) :
    range.Contains mid := by
  constructor
  · exact Nat.le_trans around.1 low
  · intro last cut
    exact Nat.lt_of_lt_of_le high (around.2 last cut)

theorem IdRange.Around.halves {range : IdRange} {start stop : Nat}
    (around : IdRange.Around range start stop) (mid : Nat) :
    IdRange.Around ⟨range.start, some mid⟩ start mid ∧
      IdRange.Around ⟨mid, range.stop⟩ mid stop := by
  constructor
  · constructor
    · exact around.1
    · intro last cut
      cases cut
      exact Nat.le_refl _
  · exact ⟨Nat.le_refl _, around.2⟩

/-- The entries of a range that is cut inside. -/
theorem filter_cut {range : IdRange} {mid : Nat} (inside : range.Contains mid)
    {entries : List (Nat × C)} (sorted : entries.Pairwise fun a b => a.1 < b.1) :
    (entries.filter fun e => (⟨range.start, some mid⟩ : IdRange).Contains e.1) ++
        (entries.filter fun e => (⟨mid, range.stop⟩ : IdRange).Contains e.1) =
      entries.filter fun e => range.Contains e.1 := by
  apply SortedMap.eq_of_mem _ (sorted.filter _)
  · intro e
    simp only [List.mem_append, List.mem_filter, IdRange.Contains]
    have before : ∀ last ∈ range.stop, e.1 < mid → e.1 < last := by
      intro last cut below
      exact Nat.lt_trans below (inside.2 last cut)
    have after : mid ≤ e.1 → range.start ≤ e.1 := Nat.le_trans inside.1
    grind
  · apply List.pairwise_append.mpr
    refine ⟨sorted.filter _, sorted.filter _, ?_⟩
    intro a left b right
    have below : a.1 < mid := (of_decide_eq_true (List.mem_filter.mp left).2).2 mid rfl
    have above : mid ≤ b.1 := (of_decide_eq_true (List.mem_filter.mp right).2).1
    exact Nat.lt_of_lt_of_le below above

/-- The partitions of the jobs have all entries, one after the other. -/
theorem partRanges_flatten (splitting : Splitting) {start stop : Nat} {range : IdRange}
    (le : start ≤ stop) (around : IdRange.Around range start stop) {entries : List (Nat × C)}
    (sorted : entries.Pairwise fun a b => a.1 < b.1) :
    ((splitting.partRanges start stop range).map fun range =>
      entries.filter fun e => range.Contains e.1).flatten =
        entries.filter fun e => range.Contains e.1 := by
  induction splitting generalizing start stop range with
  | whole => simp [Splitting.partRanges]
  | split left right ihl ihr =>
    rw [Splitting.partRanges]
    split
    · have low : start ≤ (start + stop) / 2 := by omega
      have high : (start + stop) / 2 < stop := by omega
      obtain ⟨lefts, rights⟩ := around.halves ((start + stop) / 2)
      rw [List.map_append, List.flatten_append, ihl low lefts, ihr (Nat.le_of_lt high) rights]
      exact filter_cut (around.contains low high) sorted
    · simp

/-- From the whole storage on. -/
theorem partRanges_whole (splitting : Splitting) {gauge : Nat} (positive : 1 ≤ gauge)
    {entries : List (Nat × C)} (sorted : entries.Pairwise fun a b => a.1 < b.1) :
    ((splitting.partRanges 1 gauge ⟨0, none⟩).map fun range =>
      entries.filter fun e => range.Contains e.1).flatten = entries := by
  have around : IdRange.Around ⟨0, none⟩ 1 gauge := ⟨Nat.zero_le _, nofun⟩
  rw [partRanges_flatten splitting positive around sorted, List.filter_eq_self]
  intro e _
  apply decide_eq_true
  constructor
  · exact Nat.zero_le _
  · exact nofun

section
variable {P : Type} [Partition P C] {Shows : IdRange → P → Prop} {Good : Nat → Prop}

/-- The jobs have the partitions for their ranges. Splitting fails exactly at an
overflow and at an entity that is not good. -/
theorem splitJobs_exactly {w : Nat} (splits : Splits Shows Good) (splitting : Splitting)
    {range : IdRange} {part : P} {slice : Slice} (le : slice.start ≤ slice.stop)
    (shown : Shows range part) (around : IdRange.Around range slice.start slice.stop) :
    Exactly (splitting.Fits w slice.start slice.stop ∧
        ∀ cut ∈ splitting.cuts slice.start slice.stop, Good cut)
      (splitJobs w splitting part slice)
      (List.Forall₂ (fun range job => Shows range job.1)
        (splitting.partRanges slice.start slice.stop range)) := by
  induction splitting generalizing range part slice with
  | whole => exact .ok ⟨trivial, nofun⟩ (.cons shown .nil)
  | split left right ihl ihr =>
    obtain ⟨mid, midpoint⟩ : ∃ mid, (slice.start + slice.stop) / 2 = mid := ⟨_, rfl⟩
    have attempt := @midpointForSplit_exactly w slice le
    rw [Splitting.Fits, Splitting.cuts, Splitting.partRanges, splitJobs]
    rw [midpoint] at attempt ⊢
    by_cases far : 8 ≤ slice.stop - mid
    · rw [if_pos far] at attempt ⊢
      rw [if_pos far]
      have low : slice.start ≤ mid := by omega
      have high : mid < slice.stop := by omega
      have inside := around.contains low high
      obtain ⟨aroundLeft, aroundRight⟩ := around.halves mid
      have cut : Exactly (Good mid) (Partition.splitOut part mid) fun parts =>
          Shows ⟨range.start, some mid⟩ parts.1 ∧ Shows ⟨mid, range.stop⟩ parts.2 := by
        constructor
        · intro good
          obtain ⟨lefts, rights, run, shown⟩ := splits.good shown inside good
          exact ⟨(lefts, rights), run, shown⟩
        · exact splits.bad shown inside
      refine Exactly.mono (p := slice.start + slice.stop < 2 ^ w ∧ Good mid ∧
        (left.Fits w slice.start mid ∧ ∀ cut ∈ left.cuts slice.start mid, Good cut) ∧
        (right.Fits w mid slice.stop ∧ ∀ cut ∈ right.cuts mid slice.stop, Good cut))
        (attempt.bind fun found same => ?_) ?_ fun _ last => last
      · subst same
        apply cut.bind
        intro parts shown
        have lefts := @ihl _ parts.1 (slice.splitAt mid).1 low shown.1 aroundLeft
        have rights := @ihr _ parts.2 (slice.splitAt mid).2 (Nat.le_of_lt high) shown.2 aroundRight
        apply lefts.bind
        intro lefts inLeft
        apply rights.bind_pure
        intro rights inRight
        exact List.rel_append inLeft inRight
      · simp only [List.forall_mem_append, List.forall_mem_cons]
        grind
    · rw [if_neg far] at attempt ⊢
      rw [if_neg far]
      refine Exactly.mono (p := slice.start + slice.stop < 2 ^ w ∧ True)
        (attempt.bind fun found same => ?_) (by simp [far]) fun _ last => last
      subst same
      exact .ok trivial (.cons shown .nil)

theorem splitJobs_whole {w : Nat} (splits : Splits Shows Good) (splitting : Splitting) {part : P}
    (whole : Shows ⟨0, none⟩ part) {snapshot : Snapshot} (positive : 1 ≤ snapshot.gauge) :
    Exactly (splitting.Fits w 1 snapshot.gauge ∧ ∀ cut ∈ splitting.cuts 1 snapshot.gauge, Good cut)
      (splitJobs w splitting part snapshot.asSlice)
      (List.Forall₂ (fun range job => Shows range job.1)
        (splitting.partRanges 1 snapshot.gauge ⟨0, none⟩)) := by
  have le : snapshot.asSlice.start ≤ snapshot.asSlice.stop := positive
  exact splitJobs_exactly splits splitting le whole ⟨Nat.zero_le _, nofun⟩

theorem parIterMut_exactly {w : Nat} (splits : Splits Shows Good) {m : SortedMap Nat C}
    (yields : ∀ range part, Shows range part → Partition.intoIterMut part =
      .ok ((m.entries.filter fun e => range.Contains e.1).map compMut))
    (splitting : Splitting) {part : P} (whole : Shows ⟨0, none⟩ part) {snapshot : Snapshot}
    (positive : 1 ≤ snapshot.gauge) :
    Exactly (splitting.Fits w 1 snapshot.gauge ∧ ∀ cut ∈ splitting.cuts 1 snapshot.gauge, Good cut)
      (parIterMut w splitting part snapshot) (· = m.entries.map compMut) := by
  have jobs := splitJobs_whole (w := w) splits splitting whole positive
  refine (jobs.bind (q := True) fun jobs shown => ?_).mono (and_iff_left trivial) fun _ last => last
  have lists := Exactly.mapM (p := fun _ => True) (f := fun job => Partition.intoIterMut job.1)
    (Q := fun range list => list = (m.entries.filter fun e => range.Contains e.1).map compMut)
    shown fun range _ job shown => by
      rw [yields range job.1 shown]
      exact .ok trivial rfl
  refine (lists.bind_pure fun lists same => ?_).mono (by simp) fun _ last => last
  rw [eq_map_of_forall₂ same, ← Function.comp_def, ← List.map_map, ← List.map_flatten]
  exact congrArg (List.map compMut) (partRanges_whole splitting positive m.sorted)

end

/-! ## Chunks -/

/-- A chunk with its first entity and the one after its last. -/
def chunkOf {β : Type} (chunk : Nat × List β) : (Nat × Nat) × List β :=
  ((chunk.1, chunk.1 + chunk.2.length), chunk.2)

/-- No chunk ends at the bound or above if the entities do not. -/
theorem chunk_ends {β : Type} {chunks : List (Nat × List β)}
    (nonempty : ∀ chunk ∈ chunks, chunk.2 ≠ []) (bound : Nat) :
    (∀ chunk ∈ chunks, chunk.1 + chunk.2.length < bound) ↔
      ∀ e ∈ Runs.entries chunks, e.1 + 1 < bound := by
  constructor
  · intro ends e member
    obtain ⟨chunk, listed, inside⟩ := List.mem_flatMap.mp member
    have below := (List.mem_range'_1.mp (List.of_mem_zip inside).1).2
    exact Nat.lt_of_le_of_lt below (ends chunk listed)
  · intro entries chunk listed
    have some := List.length_pos_of_ne_nil (nonempty chunk listed)
    have last : chunk.2.length - 1 < chunk.2.length := by omega
    have member : (chunk.1 + (chunk.2.length - 1), chunk.2[chunk.2.length - 1]) ∈
        (List.range' chunk.1 chunk.2.length).zip chunk.2 := by
      apply List.mem_iff_getElem.mpr
      exact ⟨chunk.2.length - 1, by simpa using some, by simp⟩
    have := entries _ (List.mem_flatMap.mpr ⟨chunk, listed, member⟩)
    dsimp only at this
    omega

/-- The components of a range, as references to their slots. -/
def within (m : SortedMap Nat C) (range : IdRange) (id : Nat) : Option (CompMut C) :=
  if range.Contains id then (m.get id).map fun value => ⟨id, value⟩ else none

theorem chunkOf_exactly {β : Type} (w : Nat) (chunk : Nat × List β) :
    Exactly (chunk.1 + chunk.2.length < 2 ^ w) (do
      let stop ← addRaw w chunk.1 chunk.2.length
      return ((chunk.1, stop), chunk.2)) (· = chunkOf chunk) := by
  unfold addRaw
  split
  · rename_i overflow
    exact .error (Nat.not_lt_of_le overflow)
  · rename_i fits
    exact .ok (Nat.lt_of_not_le fits) rfl

theorem intoIterChunksMut_exactly {w : Nat} {s : VecStorage C} {m : SortedMap Nat C}
    {range : IdRange} {part : VecPartition C} (slots : SlotsOf s range part)
    (represents : Represents s m) {calls : Nat} (enough : part.bits.length + 1 < calls) :
    Exactly (∀ e ∈ m.entries.filter fun e => range.Contains e.1, e.1 + 1 < 2 ^ w)
      (intoIterChunksMut w part calls) fun out => ∃ chunks, Runs.Maximal (within m range) chunks ∧
        out = chunks.map chunkOf ∧
        Runs.entries chunks = (m.entries.filter fun e => range.Contains e.1).map compMut := by
  obtain ⟨chunks, collected, maximal, yields⟩ := slots.yieldsChunks represents
  rw [funext (slots.found represents)] at maximal
  rw [slots.intoIterMut represents] at yields
  have listed := Except.ok.inj yields
  have ends := chunk_ends maximal.nonempty (2 ^ w)
  rw [← listed, List.forall_mem_map] at ends
  rw [intoIterChunksMut, collected calls enough, ok_bind]
  have same : List.Forall₂ Eq chunks chunks := List.forall₂_same.mpr fun _ _ => rfl
  have told := Exactly.mapM (p := fun chunk => chunk.1 + chunk.2.length < 2 ^ w)
    (Q := fun chunk told => told = chunkOf chunk) same fun chunk _ other same => by
      cases same
      exact chunkOf_exactly w chunk
  apply told.mono ends
  intro out same
  exact ⟨chunks, maximal, eq_map_of_forall₂ same, listed.symm⟩

/-- The partition of a job has no more bits than the storage. -/
theorem slotsOf_bits {s : VecStorage C} {range : IdRange} {part : VecPartition C}
    (slots : SlotsOf s range part) : part.bits.length ≤ s.bits.length := by
  rw [slots.eq, length_slots]
  cases range.stop with
  | none => exact Nat.sub_le _ _
  | some stop => exact Nat.le_trans (Nat.sub_le _ _) (Nat.min_le_right _ _)

/-- The chunks of all jobs, one after the other. -/
theorem chunks_flatten {m : SortedMap Nat C} {ranges : List IdRange}
    {lists : List (List ((Nat × Nat) × List (CompMut C)))}
    (found : List.Forall₂ (fun range out => ∃ chunks, Runs.Maximal (within m range) chunks ∧
      out = chunks.map chunkOf ∧
      Runs.entries chunks = (m.entries.filter fun e => range.Contains e.1).map compMut)
      ranges lists) :
    ∃ chunks, List.Forall₂ (fun range chunks => Runs.Maximal (within m range) chunks) ranges chunks ∧
      lists.flatten = chunks.flatten.map chunkOf ∧
      Runs.entries chunks.flatten = (ranges.map fun range =>
        m.entries.filter fun e => range.Contains e.1).flatten.map compMut := by
  induction found with
  | nil => exact ⟨[], .nil, rfl, rfl⟩
  | cons here _ ih =>
    obtain ⟨chunks, maximal, told, listed⟩ := here
    obtain ⟨rest, others, tolds, listeds⟩ := ih
    refine ⟨chunks :: rest, .cons maximal others, ?_, ?_⟩
    · rw [List.flatten_cons, List.flatten_cons, List.map_append, told, tolds]
    · rw [List.flatten_cons, Runs.entries, List.flatMap_append, List.map_cons, List.flatten_cons,
        List.map_append, ← listed, ← listeds]
      rfl

theorem parIterChunksMut_exactly {w : Nat} {s : VecStorage C} {m : SortedMap Nat C}
    (represents : Represents s m) (splitting : Splitting) {calls : Nat}
    (enough : s.bits.length + 1 < calls) {snapshot : Snapshot} (positive : 1 ≤ snapshot.gauge) :
    Exactly ((splitting.Fits w 1 snapshot.gauge ∧ ∀ cut ∈ splitting.cuts 1 snapshot.gauge,
        ¬ (s.data.length < cut ∧ cut ≤ s.bits.length)) ∧ ∀ e ∈ m.entries, e.1 + 1 < 2 ^ w)
      (parIterChunksMut w splitting calls s.asPartition snapshot) fun out =>
        ∃ lists, List.Forall₂ (fun range chunks => Runs.Maximal (within m range) chunks)
            (splitting.partRanges 1 snapshot.gauge ⟨0, none⟩) lists ∧
          out = lists.flatten.map chunkOf ∧
          Runs.entries lists.flatten = m.entries.map compMut := by
  have whole : VecShows s ⟨0, none⟩ s.asPartition :=
    ⟨rfl, fun bad => absurd bad.1 (Nat.not_lt_zero _)⟩
  have jobs := splitJobs_whole (w := w) (VecShows.splits represents.within) splitting whole positive
  apply jobs.bind
  intro jobs shown
  have lists := Exactly.mapM (f := fun job => intoIterChunksMut w job.1 calls)
    shown fun range _ job shown => intoIterChunksMut_exactly (w := w) shown.slotsOf represents
      (Nat.lt_of_le_of_lt (Nat.succ_le_succ (slotsOf_bits shown.slotsOf)) enough)
  have flat := partRanges_whole splitting positive m.sorted
  refine (lists.bind_pure fun lists found => ?_).mono ?_ fun _ last => last
  · obtain ⟨chunks, maximal, told, listed⟩ := chunks_flatten found
    exact ⟨chunks, maximal, told, listed.trans (congrArg (List.map compMut) flat)⟩
  · constructor
    · intro all e member
      rw [← flat] at member
      obtain ⟨list, listed, member⟩ := List.mem_flatten.mp member
      obtain ⟨range, part, rfl⟩ := List.mem_map.mp listed
      exact all range part e member
    · intro all range _ e member
      exact all e (List.mem_filter.mp member).1

/-- **Parallel iteration of an accessor.** For a storage filled by any sequence
of `set`, every snapshot and every splitting, `par_iter_mut` yields what
`iter_mut` yields, and `par_iter_chunks_mut` the maximal chunks of every
partition, which have the same components. They panic exactly if a midpoint
overflows, if a vector storage is split where its bits go on and its data does
not, or if a chunk ends at the last ID. -/
theorem single_par_iter_mut (sets : List (Nat × Option C)) (w : Nat) (splitting : Splitting)
    {snapshot : Snapshot} (positive : 1 ≤ snapshot.gauge) :
    Exactly (splitting.Fits w 1 snapshot.gauge)
      (parIterMut w splitting (Tree.default.setAll sets).asPartition snapshot)
      (· = (Tree.default.setAll sets).iterMut) ∧
    ∃ s, VecStorage.default.setAll sets = .ok s ∧
      Exactly (splitting.Fits w 1 snapshot.gauge ∧ ∀ cut ∈ splitting.cuts 1 snapshot.gauge,
          ¬ (s.data.length < cut ∧ cut ≤ s.bits.length))
        (parIterMut w splitting s.asPartition snapshot) (fun out => s.iterMut = .ok out) ∧
      ∀ calls, s.bits.length + 1 < calls →
        Exactly ((splitting.Fits w 1 snapshot.gauge ∧ ∀ cut ∈ splitting.cuts 1 snapshot.gauge,
            ¬ (s.data.length < cut ∧ cut ≤ s.bits.length)) ∧
            ∀ e ∈ (Tree.default.setAll sets).iter, e.1 + 1 < 2 ^ w)
          (parIterChunksMut w splitting calls s.asPartition snapshot) fun out =>
            ∃ lists, List.Forall₂ (fun range chunks =>
                Runs.Maximal (within (Tree.default.setAll sets).data range) chunks)
                (splitting.partRanges 1 snapshot.gauge ⟨0, none⟩) lists ∧
              out = lists.flatten.map chunkOf ∧ s.iterMut = .ok (Runs.entries lists.flatten) := by
  obtain ⟨s, run, represents⟩ := setAll_represents represents_default sets
  change Represents s (Tree.default.setAll sets).data at represents
  constructor
  · have whole : TreeShows (Tree.default.setAll sets).data ⟨0, none⟩
        (Tree.default.setAll sets).asPartition := ⟨rfl, .inr ⟨rfl, rfl⟩, rfl, nofun⟩
    have agrees := parIterMut_exactly (w := w) TreeShows.splits
      (fun range part shown => shown.holds.intoIterMut) splitting whole positive
    exact agrees.mono (and_iff_left fun _ _ => trivial) fun _ same => same
  refine ⟨s, run, ?_, ?_⟩
  · have whole : VecShows s ⟨0, none⟩ s.asPartition :=
      ⟨rfl, fun bad => absurd bad.1 (Nat.not_lt_zero _)⟩
    have agrees := parIterMut_exactly (w := w) (VecShows.splits represents.within)
      (fun range part shown => shown.slotsOf.intoIterMut represents) splitting whole positive
    apply agrees.mono Iff.rfl
    intro out same
    rw [represents.iterMut, same]
  · intro calls enough
    apply (parIterChunksMut_exactly represents splitting enough positive).mono Iff.rfl
    rintro out ⟨lists, maximal, told, listed⟩
    refine ⟨lists, maximal, told, ?_⟩
    rw [represents.iterMut, listed]

theorem single_par_iter_mut_halves :
    ∃ s : VecStorage Nat, VecStorage.default.setAll [(1, some 7), (9, some 8), (10, some 9)] = .ok s ∧
      ∃ out, parIterMut 16 (.split .whole .whole) s.asPartition ⟨20, .empty⟩ = .ok out ∧
        s.iterMut = .ok out ∧ ∃ lists : List (List (Nat × List (CompMut Nat))), lists.length = 2 ∧
          parIterChunksMut 16 (.split .whole .whole) 20 s.asPartition ⟨20, .empty⟩ =
            .ok (lists.flatten.map chunkOf) := by
  obtain ⟨-, s, run, entities, chunks⟩ := single_par_iter_mut
    [(1, some 7), (9, some 8), (10, some 9)] 16 (.split .whole .whole)
    (show 1 ≤ (⟨20, .empty⟩ : Snapshot).gauge by decide)
  cases run
  obtain ⟨out, ran, same⟩ := entities.returns ⟨⟨by decide, fun _ => ⟨trivial, trivial⟩⟩, by decide⟩
  obtain ⟨told, ran', lists, maximal, rfl, -⟩ := (chunks 20 (by decide)).returns
    ⟨⟨⟨by decide, fun _ => ⟨trivial, trivial⟩⟩, by decide⟩, by decide⟩
  exact ⟨_, rfl, out, ran, same, lists, maximal.length_eq.symm, ran'⟩

end Dynec.System
