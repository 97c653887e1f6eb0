import Dynec.Storage.Chunks

/-!
# A chunk for a range of IDs

Whether a range is filled is read from the presence bits, and the slice is taken
from the data, which may be shorter. The two disagree for empty ranges only.
-/

namespace Dynec.Storage

open Fallible Runs

variable {C α β : Type}

theorem map_slice {l : List α} {a b : Nat} (within : b ≤ l.length) :
    ((l.take b).drop a).map some = (List.range' a (b - a)).map fun i => l[i]? := by
  refine List.ext_getElem? fun i => ?_
  rw [List.getElem?_map, List.getElem?_map, List.getElem?_drop, List.getElem?_take]
  by_cases below : a + i < b
  · have inside : i < b - a := by omega
    have stored : a + i < l.length := by omega
    simp [below, List.getElem?_range' inside, stored]
  · have outside : (List.range' a (b - a))[i]? = none := by
      rw [List.getElem?_eq_none_iff, List.length_range']
      omega
    rw [if_neg below, outside]
    rfl

theorem mem_span {a b i : Nat} : i ∈ List.range' a (b - a) ↔ a ≤ i ∧ i < b := by
  rw [List.mem_range'_1]
  omega

theorem all_slice {bits : List Bool} {a b : Nat} (within : b ≤ bits.length) :
    ((bits.take b).drop a).all id = true ↔ ∀ i, a ≤ i → i < b → bits[i]? = some true := by
  have mapped : ∀ x, some x ∈ (List.range' a (b - a)).map (fun i => bits[i]?) ↔
      x ∈ (bits.take b).drop a := by
    intro x
    rw [← map_slice within, List.mem_map_of_injective (Option.some_injective _)]
  constructor
  · intro all i above below
    have stored : i < bits.length := Nat.lt_of_lt_of_le below within
    have listed := (mapped bits[i]).mp
      (List.mem_map.mpr ⟨i, mem_span.mpr ⟨above, below⟩, List.getElem?_eq_getElem stored⟩)
    rw [List.getElem?_eq_getElem stored]
    exact congrArg some (List.all_eq_true.mp all _ listed)
  · intro ones
    apply List.all_eq_true.mpr
    intro x listed
    obtain ⟨i, inside, found⟩ := List.mem_map.mp ((mapped x).mpr listed)
    obtain ⟨above, below⟩ := mem_span.mp inside
    exact Option.some.inj (found.symm.trans (ones i above below))

theorem exists_zero {bits : List Bool} {a b : Nat} (within : b ≤ bits.length)
    (some_zero : ¬ ((bits.take b).drop a).all id = true) :
    ∃ i, a ≤ i ∧ i < b ∧ bits[i]? ≠ some true := by
  rw [all_slice within] at some_zero
  push Not at some_zero
  exact some_zero

/-- What a request for a chunk results in, for data that ends at `reach`. -/
inductive Fetched (found : Nat → Option β) (start stop reach : Nat) :
    Except Panic (Option (List β)) → Prop
  | filled {values : List β} (reached : stop ≤ reach)
      (present : ∀ id, start ≤ id → id < stop → (found id).isSome = true)
      (same : values.map some = (List.range' start (stop - start)).map found) :
      Fetched found start stop reach (.ok (some values))
  | missing {id : Nat} (above : start ≤ id) (below : id < stop) (absent : found id = none) :
      Fetched found start stop reach (.ok none)
  | beyond (empty : start = stop) (short : reach < stop) : Fetched found start stop reach (.ok none)
  | mismatch (empty : start = stop) (short : reach < stop) :
      Fetched found start stop reach (.error .chunkMismatch)

/-- The presence bits are tested, then the slice is taken and its values are
gathered. -/
theorem fetched_of_slices {found : Nat → Option β} {bits : List Bool} {data : List α}
    {start stop : Nat} {gather : List α → Except Panic (List β)} (le : start ≤ stop)
    (within : data.length ≤ bits.length)
    (bit : ∀ i : Nat, bits[i]? = some true ↔ (found i).isSome = true)
    (backed : ∀ i : Nat, bits[i]? = some true → i < data.length)
    (gathered : stop ≤ data.length → (∀ id, start ≤ id → id < stop → (found id).isSome = true) →
      ∃ values, gather ((data.take stop).drop start) = .ok values ∧
        values.map some = (List.range' start (stop - start)).map found) :
    Fetched found start stop data.length
      (match sliceGet bits start stop with
        | none => return none
        | some bits =>
          if !bits.all id then
            return none
          else do
            let data ← expect .chunkMismatch (sliceGet data start stop)
            let values ← gather data
            return some values) := by
  have absent : ∀ i, bits[i]? ≠ some true → found i = none := by
    intro i zero
    rw [Ne, bit] at zero
    simpa using zero
  by_cases reached : stop ≤ bits.length
  · have slice : sliceGet bits start stop = some ((bits.take stop).drop start) :=
      if_pos ⟨le, reached⟩
    rw [slice]
    dsimp only
    by_cases all : ((bits.take stop).drop start).all id = true
    · have present : ∀ id, start ≤ id → id < stop → (found id).isSome = true := fun i above below =>
        (bit i).mp ((all_slice reached).mp all i above below)
      rw [all]
      by_cases stored : stop ≤ data.length
      · obtain ⟨values, run, same⟩ := gathered stored present
        have slice' : sliceGet data start stop = some ((data.take stop).drop start) :=
          if_pos ⟨le, stored⟩
        simp only [slice', expect_some, ok_bind, run]
        exact .filled stored present same
      · have slice' : sliceGet data start stop = none := if_neg fun both => stored both.2
        have empty : start = stop := by
          by_contra differ
          have last := backed (stop - 1) ((bit _).mpr (present (stop - 1) (by omega) (by omega)))
          omega
        rw [slice']
        exact .mismatch empty (Nat.lt_of_not_le stored)
    · obtain ⟨i, above, below, zero⟩ := exists_zero reached all
      rw [Bool.not_eq_true] at all
      rw [all]
      exact .missing above below (absent i zero)
  · have slice : sliceGet bits start stop = none := if_neg fun both => reached both.2
    rw [slice]
    rcases Nat.eq_or_lt_of_le le with empty | less
    · exact .beyond empty (by omega)
    · have above : start ≤ stop - 1 := Nat.le_sub_one_of_lt less
      refine .missing above (by omega) (absent _ fun one => ?_)
      have stored := backed _ one
      omega

/-! ## The storage and its partitions -/

section

variable {s : VecStorage C} {m : SortedMap Nat C} {range : IdRange} {part : VecPartition C}

theorem Represents.backed (h : Represents s m) {i : Nat} (one : s.bits[i]? = some true) :
    ∃ value, s.data[i]? = some (some value) ∧ m.get i = some value :=
  h.present i ((s.bit_eq i).mpr one)

theorem Represents.getChunk (h : Represents s m) {start stop : Nat} (le : start ≤ stop) :
    Fetched m.get start stop s.data.length (s.getChunk start stop) := by
  have bit : ∀ i : Nat, s.bits[i]? = some true ↔ (m.get i).isSome = true := by
    intro i
    rw [← s.bit_eq, h.bit_iff]
  refine fetched_of_slices le h.within bit (fun i one => ?_) fun stored present => ?_
  · obtain ⟨value, found, -⟩ := h.backed one
    exact (List.getElem?_eq_some_iff.mp found).1
  · have slots : ((s.data.take stop).drop start).map some =
        (List.range' start (stop - start)).map fun i =>
          if (m.get i).isSome = true then s.data[i]? else none := by
      rw [map_slice stored]
      apply List.map_congr_left
      intro i inside
      obtain ⟨above, below⟩ := mem_span.mp inside
      rw [if_pos (present i above below)]
    refine RunsFrom.read (fun i slot found => ?_) slots
    split at found
    · rename_i present
      obtain ⟨value, stored, there⟩ := h.backed ((bit i).mpr present)
      rw [found] at stored
      cases stored
      exact ⟨value, rfl, there⟩
    · cases found

/-- Requests for a chunk of a partition, relative to its offset. -/
theorem Fetched.moved {found : Nat → Option β} {offset start stop reach : Nat}
    {fetch : Except Panic (Option (List β))} (low : offset ≤ start) (le : start ≤ stop)
    (h : Fetched (fun i => found (offset + i)) (start - offset) (stop - offset) reach fetch) :
    Fetched found start stop (offset + reach) fetch := by
  have back : ∀ i, start ≤ i → offset + (i - offset) = i := fun i above => by omega
  cases h with
  | @filled values reached present same =>
    refine .filled (by omega) (fun i above below => ?_) ?_
    · have := present (i - offset) (by omega) (by omega)
      rwa [back i above] at this
    · have length : stop - offset - (start - offset) = stop - start := by omega
      rw [same, length, ← Nat.add_sub_cancel' low, ← List.map_add_range', List.map_map,
        Nat.add_sub_cancel' low]
      rfl
  | missing above below absent => exact .missing (by omega) (by omega) absent
  | beyond empty short => exact .beyond (by omega) (by omega)
  | mismatch empty short => exact .mismatch (by omega) (by omega)

theorem SlotsOf.within (h : SlotsOf s range part) (represents : Represents s m) :
    part.data.length ≤ part.bits.length := by
  have within := represents.within
  rw [h.eq, length_slots, length_slots]
  cases range.stop with
  | none => exact Nat.sub_le_sub_right within _
  | some stop =>
    simp only [Option.elim_some]
    omega

theorem SlotsOf.found_iff (h : SlotsOf s range part) (represents : Represents s m) (i : Nat) :
    part.bits[i]? = some true ↔ (part.found (part.offset + i)).isSome = true := by
  rw [h.found represents]
  constructor
  · intro one
    have inside := h.bit_inside one
    have bit := h.bit represents inside
    rw [Nat.add_sub_cancel_left] at bit
    rw [if_pos inside, Option.isSome_map]
    exact bit.mp one
  · intro present
    split at present
    · rename_i inside
      have bit := h.bit represents inside
      rw [Nat.add_sub_cancel_left] at bit
      rw [Option.isSome_map] at present
      exact bit.mpr present
    · cases present

/-- A component that is found is in its slot. -/
theorem SlotsOf.slotMut_found (h : SlotsOf s range part) (represents : Represents s m) {i : Nat}
    {ref : CompMut C} (found : part.found (part.offset + i) = some ref) :
    Storage.slotMut part.offset part.data i = .ok ref := by
  rw [h.found represents] at found
  split at found
  · rename_i inside
    obtain ⟨value, stored, rfl⟩ := Option.map_eq_some_iff.mp found
    have slot := h.slotMut represents inside stored
    rwa [Nat.add_sub_cancel_left] at slot
  · cases found

theorem SlotsOf.intoChunkMut (h : SlotsOf s range part) (represents : Represents s m)
    {start stop : Nat} (low : part.offset ≤ start) (le : start ≤ stop) :
    Fetched part.found start stop (part.offset + part.data.length)
      (part.intoChunkMut start stop) := by
  have reached : ¬ (start < part.offset ∨ stop < part.offset) := by omega
  unfold VecPartition.intoChunkMut
  rw [if_neg reached]
  refine Fetched.moved low le (fetched_of_slices (Nat.sub_le_sub_right le _) (h.within represents)
    (h.found_iff represents) (fun i one => ?_) fun stored present => ?_)
  · obtain ⟨ref, found⟩ := Option.isSome_iff_exists.mp ((h.found_iff represents i).mp one)
    obtain ⟨slot, stored, -⟩ := bind_eq_ok.mp (h.slotMut_found represents found)
    exact (List.getElem?_eq_some_iff.mp (expect_eq_ok.mp stored)).1
  · refine RunsFrom.read (f := fun i => if (part.found (part.offset + i)).isSome = true then some i
      else none) (fun i index same => ?_) (List.map_congr_left fun i inside => ?_)
    · split at same
      · rename_i some
        cases same
        obtain ⟨ref, found⟩ := Option.isSome_iff_exists.mp some
        exact ⟨ref, h.slotMut_found represents found, found⟩
      · cases same
    · obtain ⟨above, below⟩ := mem_span.mp inside
      exact (if_pos (present i above below)).symm

end

theorem getChunkMut_eq (s : VecStorage C) (start stop : Nat) :
    s.getChunkMut start stop = s.asPartition.intoChunkMut start stop := rfl

/-- A request that has to be answered with a chunk. -/
theorem Fetched.exactly {found : Nat → Option β} {start stop reach : Nat}
    {fetch : Except Panic (Option (List β))} (h : Fetched found start stop reach fetch)
    (e : Panic) :
    Exactly (stop ≤ reach ∧ ∀ id ∈ List.range' start (stop - start), (found id).isSome = true)
      (do expect e (← fetch))
      fun values => values.map some = (List.range' start (stop - start)).map found := by
  cases h with
  | filled reached present same =>
    refine .ok ⟨reached, fun id inside => ?_⟩ same
    obtain ⟨above, below⟩ := mem_span.mp inside
    exact present id above below
  | missing above below absent =>
    refine .error fun both => ?_
    have some := both.2 _ (mem_span.mpr ⟨above, below⟩)
    rw [absent] at some
    cases some
  | beyond _ short => exact .error fun both => Nat.not_lt_of_le both.1 short
  | mismatch _ short => exact .error fun both => Nat.not_lt_of_le both.1 short

/-! ## Exact requests -/

/-- The request returns, with a chunk if and only if every ID has a component,
and then with these components. -/
def FetchesChunk (found : Nat → Option β) (start stop : Nat)
    (fetch : Except Panic (Option (List β))) : Prop :=
  ∃ chunk, fetch = .ok chunk ∧
    (chunk.isSome = true ↔ ∀ id, start ≤ id → id < stop → (found id).isSome = true) ∧
    ∀ values, chunk = some values →
      values.map some = (List.range' start (stop - start)).map found

/-- Empty ranges behind the data are the only exception. -/
theorem Fetched.exact_iff {found : Nat → Option β} {start stop reach : Nat}
    {fetch : Except Panic (Option (List β))} (h : Fetched found start stop reach fetch) :
    FetchesChunk found start stop fetch ↔ start < stop ∨ stop ≤ reach := by
  cases h with
  | filled reached present same =>
    refine iff_of_true ⟨_, rfl, iff_of_true rfl present, fun values taken => ?_⟩ (.inr reached)
    cases taken
    exact same
  | missing above below absent =>
    refine iff_of_true ⟨none, rfl, iff_of_false nofun fun all => ?_, nofun⟩ (.inl (by omega))
    have some := all _ above below
    rw [absent] at some
    cases some
  | beyond empty short =>
    refine iff_of_false ?_ (by omega)
    rintro ⟨chunk, returned, some, -⟩
    cases returned
    exact absurd (some.mpr fun i above below => by omega) nofun
  | mismatch empty short =>
    refine iff_of_false ?_ (by omega)
    rintro ⟨chunk, returned, -⟩
    cases returned

/-- **Chunks by range.** For a storage filled by any sequence of `set`, and for
its partitions, a request for a chunk is answered exactly, unless it is for an
empty range behind the data. -/
theorem get_chunk_exact (sets : List (Nat × Option C)) {start stop : Nat} (le : start ≤ stop) :
    ∃ s, VecStorage.default.setAll sets = .ok s ∧ Observes s (Tree.default.setAll sets).data ∧
      (FetchesChunk (Tree.default.setAll sets).data.get start stop (s.getChunk start stop) ↔
        start < stop ∨ stop ≤ s.data.length) ∧
      (FetchesChunk
          (fun id => ((Tree.default.setAll sets).data.get id).map fun value => ⟨id, value⟩)
          start stop (s.getChunkMut start stop) ↔
        start < stop ∨ stop ≤ s.data.length) ∧
      ∀ part, PartitionOf s part → part.offset ≤ start →
        (FetchesChunk part.found start stop (part.intoChunkMut start stop) ↔
          start < stop ∨ stop ≤ part.offset + part.data.length) := by
  obtain ⟨s, run, represents⟩ := setAll_represents represents_default sets
  change Represents s (Tree.default.setAll sets).data at represents
  have whole : SlotsOf s ⟨0, none⟩ s.asPartition := rfl
  refine ⟨s, run, represents.observes, (represents.getChunk le).exact_iff, ?_,
    fun part split low => ?_⟩
  · have fetched := whole.intoChunkMut represents (Nat.zero_le start) le
    have reach : s.asPartition.offset + s.asPartition.data.length = s.data.length := Nat.zero_add _
    rw [whole.found_eq represents, reach, ← getChunkMut_eq] at fetched
    exact fetched.exact_iff
  · obtain ⟨range, slots, -⟩ := split.slotsOf
    exact (slots.intoChunkMut represents low le).exact_iff

theorem get_chunk_exact_two :
    ∃ s, VecStorage.default.setAll [(1, some 7), (2, some 9)] = .ok s ∧
      FetchesChunk (Tree.default.setAll [(1, some 7), (2, some 9)]).data.get 1 3
        (s.getChunk 1 3) := by
  obtain ⟨s, run, -, shared, -⟩ :=
    get_chunk_exact [(1, some 7), (2, some 9)] (show 1 ≤ 3 by decide)
  exact ⟨s, run, shared.mpr (.inl (by decide))⟩

/-- After the removal of a component that was never there, the bits reach
further than the data. -/
theorem get_chunk_empty :
    ∃ s : VecStorage Nat, VecStorage.default.setAll [(5, none)] = .ok s ∧
      s.getChunk 3 3 = .error .chunkMismatch ∧ s.getChunkMut 3 3 = .error .chunkMismatch ∧
      s.asPartition.intoChunkMut 3 3 = .error .chunkMismatch ∧ s.getChunk 9 9 = .ok none ∧
      ¬ FetchesChunk (Tree.default.setAll [(5, none)]).data.get 3 3 (s.getChunk 3 3) := by
  refine ⟨_, rfl, rfl, rfl, rfl, rfl, ?_⟩
  rintro ⟨chunk, returned, -⟩
  cases returned

end Dynec.Storage
