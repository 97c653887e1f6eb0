import Dynec.Lib.Iterators
import Dynec.Lib.Runs
import Dynec.Storage.Partitions

/-!
# Chunks of the vector storage

The chunk iterator walks over the zeros of the presence bits and cuts the data
slice at each of them. The chunks are the maximal runs of present components.
-/

namespace Dynec.Storage

open Fallible Iterators Runs

variable {C α : Type}

/-- `BitSlice::iter_zeros` -/
def iterZeros (bits : List Bool) : List Nat :=
  (List.range bits.length).filter fun index => !bits[index]?.getD true

structure IterChunks (α : Type) where
  lastZero : Option Nat
  iterZeros : List Nat
  data : List α
  deriving DecidableEq, Repr

/-- `trisplit_fn_ref` and `trisplit_fn_mut` -/
def trisplit (data : List α) (index : Nat) : Except Panic (List α × List α × List α) :=
  if data.length < index then
    .error .splitOutOfRange
  else
    let left := data.take index
    let rest := data.drop index
    let (mid, right) := if rest.isEmpty then ([], []) else (rest.take 1, rest.drop 1)
    return (left, mid, right)

def newIterChunks (bits : List Bool) (data : List α) : IterChunks α :=
  ⟨none, iterZeros bits ++ [bits.length], data⟩

namespace IterChunks

/-- The index after the last zero. -/
def firstOne (lastZero : Option Nat) : Nat :=
  match lastZero with
  | some index => index + 1
  | none => 0

/-- The loop of `next`: empty chunks are skipped. -/
def nextFrom (lastZero : Option Nat) (data : List α) :
    List Nat → Except Panic (Option (Nat × List α) × IterChunks α)
  | [] => return (none, ⟨lastZero, [], data⟩)
  | nextZero :: iterZeros => do
    let first := firstOne lastZero
    if first = nextZero then
      let (_, _, rest) ← trisplit data 0
      nextFrom (some nextZero) rest iterZeros
    else if nextZero < first then
      .error .arithmeticOverflow
    else
      let (chunk, _, rest) ← trisplit data (nextZero - first)
      return (some (first, chunk), ⟨some nextZero, iterZeros, rest⟩)

def next (self : IterChunks α) : Except Panic (Option (Nat × List α) × IterChunks α) :=
  nextFrom self.lastZero self.data self.iterZeros

end IterChunks

/-- `slice_assume_init_ref` or `slice_assume_init_mut`, on each of the chunks. -/
def sliceAssumeInit {β : Type} (assumeInit : α → Except Panic β) (chunks : List (Nat × List α)) :
    Except Panic (List (Nat × List β)) :=
  chunks.mapM fun chunk => do
    let slice ← chunk.2.mapM assumeInit
    return (chunk.1, slice)

def VecStorage.iterChunks (self : VecStorage C) (calls : Nat) :
    Except Panic (List (Nat × List C)) := do
  let chunks ← collect IterChunks.next .diverged calls (newIterChunks self.bits self.data)
  sliceAssumeInit assumeInit chunks

/-- A slot and its number, as a reference to the component in it. -/
def assumeInitMut (slot : Option C × Nat) : Except Panic (CompMut C) := do
  let value ← assumeInit slot.1
  return ⟨slot.2, value⟩

def VecStorage.iterChunksMut (self : VecStorage C) (calls : Nat) :
    Except Panic (List (Nat × List (CompMut C))) := do
  let chunks ← collect IterChunks.next .diverged calls
    (newIterChunks self.bits self.data.zipIdx)
  sliceAssumeInit assumeInitMut chunks

def VecPartition.intoIterChunksMut (self : VecPartition C) (calls : Nat) :
    Except Panic (List (Nat × List (CompMut C))) := do
  let chunks ← collect IterChunks.next .diverged calls
    (newIterChunks self.bits (self.data.zipIdx self.offset))
  let chunks ← sliceAssumeInit assumeInitMut chunks
  return chunks.map fun chunk => (chunk.1 + self.offset, chunk.2)

/-! ## The iterator -/

theorem mem_iterZeros {bits : List Bool} {i : Nat} : i ∈ iterZeros bits ↔ bits[i]? = some false := by
  rw [iterZeros, List.mem_filter, List.mem_range]
  constructor
  · rintro ⟨below, zero⟩
    rw [List.getElem?_eq_getElem below] at zero ⊢
    simpa using zero
  · intro zero
    exact ⟨(List.getElem?_eq_some_iff.mp zero).1, by simp [zero]⟩

theorem sorted_iterZeros (bits : List Bool) : (iterZeros bits).Pairwise (· < ·) :=
  List.pairwise_lt_range.filter _

theorem trisplit_ok {data : List α} {index : Nat} (le : index ≤ data.length) :
    ∃ mid, trisplit data index = .ok (data.take index, mid, data.drop (index + 1)) := by
  unfold trisplit
  rw [if_neg (Nat.not_lt_of_le le)]
  cases empty : (data.drop index).isEmpty with
  | true =>
    have last := List.drop_eq_nil_iff.mp (List.isEmpty_iff.mp empty)
    refine ⟨[], ?_⟩
    simp only [empty, List.drop_eq_nil_of_le (Nat.le_succ_of_le last)]
    rfl
  | false =>
    refine ⟨(data.drop index).take 1, ?_⟩
    simp only [empty, List.drop_drop]
    rfl

namespace IterChunks

/-- The iterator stands at `start`: its zeros are where `f` is not defined from
there on, and its data begins there. -/
structure Aligned (f : Nat → Option α) (start : Nat) (iter : IterChunks α) : Prop where
  first : firstOne iter.lastZero = start
  sorted : iter.iterZeros.Pairwise (· < ·)
  zeros : ∀ z ∈ iter.iterZeros, start ≤ z ∧ f z = none
  ones : ∀ i, start ≤ i → i ∉ iter.iterZeros → (∃ z ∈ iter.iterZeros, i < z) → (f i).isSome = true
  beyond : ∀ i, start ≤ i → (∀ z ∈ iter.iterZeros, z < i) → f i = none
  data : ∀ i a, f (start + i) = some a → iter.data[i]? = some a

variable {f : Nat → Option α}

/-- Behind the next zero, the iterator is aligned again. -/
theorem Aligned.behind {start nextZero : Nat} {lastZero : Option Nat} {iterZeros : List Nat}
    {data : List α} (h : Aligned f start ⟨lastZero, nextZero :: iterZeros, data⟩) :
    Aligned f (nextZero + 1) ⟨some nextZero, iterZeros, data.drop (nextZero - start + 1)⟩ := by
  obtain ⟨after, sorted⟩ := List.pairwise_cons.mp h.sorted
  have low := (h.zeros nextZero (.head _)).1
  refine ⟨rfl, sorted, fun z member => ⟨after z member, (h.zeros z (.tail _ member)).2⟩,
    fun i above other before => ?_, fun i above past => ?_, fun i a found => ?_⟩
  · obtain ⟨z, member, less⟩ := before
    refine h.ones i (by omega) ?_ ⟨z, .tail _ member, less⟩
    rintro (_ | ⟨_, member⟩)
    · exact absurd above (Nat.not_succ_le_self _)
    · exact other member
  · exact h.beyond i (by omega) (List.forall_mem_cons.mpr ⟨above, past⟩)
  · have shifted : start + (nextZero - start + 1 + i) = nextZero + 1 + i := by omega
    rw [List.getElem?_drop]
    exact h.data _ a (shifted ▸ found)

/-- Between the start and the next zero, the data is the run. -/
theorem Aligned.chunk {start nextZero : Nat} {lastZero : Option Nat} {iterZeros : List Nat}
    {data : List α} (h : Aligned f start ⟨lastZero, nextZero :: iterZeros, data⟩) :
    nextZero - start ≤ data.length ∧
      (data.take (nextZero - start)).map some = (List.range' start (nextZero - start)).map f := by
  obtain ⟨after, sorted⟩ := List.pairwise_cons.mp h.sorted
  have present : ∀ i, i < nextZero - start → ∃ a, f (start + i) = some a ∧ data[i]? = some a := by
    intro i below
    have some : (f (start + i)).isSome = true := by
      refine h.ones _ (Nat.le_add_right ..) ?_ ⟨nextZero, .head _, by omega⟩
      rintro (_ | ⟨_, member⟩)
      · omega
      · have := after _ member
        omega
    obtain ⟨a, found⟩ := Option.isSome_iff_exists.mp some
    exact ⟨a, found, h.data i a found⟩
  have long : nextZero - start ≤ data.length := by
    by_contra short
    obtain ⟨a, -, stored⟩ := present data.length (by omega)
    simp at stored
  refine ⟨long, List.ext_getElem? fun i => ?_⟩
  rw [List.getElem?_map, List.getElem?_map, List.getElem?_take]
  by_cases below : i < nextZero - start
  · obtain ⟨a, found, stored⟩ := present i below
    rw [if_pos below, List.getElem?_range' below, stored]
    simp [found]
  · rw [if_neg below, List.getElem?_eq_none (by simpa using below)]
    rfl

/-- What a call of `next` returns. -/
inductive Returns (f : Nat → Option α) (start : Nat) (self : IterChunks α) :
    Option (Nat × List α) → IterChunks α → Prop
  | finished {last : IterChunks α} (rest : ∀ i, start ≤ i → f i = none) :
      Returns f start self none last
  | chunk {first : Nat} {values : List α} {later : IterChunks α} (le : start ≤ first)
      (gap : ∀ i, start ≤ i → i < first → f i = none) (nonempty : values ≠ [])
      (found : values.map some = (List.range' first values.length).map f)
      (ended : f (first + values.length) = none)
      (aligned : Aligned f (first + values.length + 1) later)
      (fewer : later.iterZeros.length < self.iterZeros.length) :
      Returns f start self (some (first, values)) later

theorem Aligned.next {start : Nat} {self : IterChunks α} (h : Aligned f start self) :
    ∃ item later, self.next = .ok (item, later) ∧ Returns f start self item later := by
  obtain ⟨lastZero, iterZeros, data⟩ := self
  induction iterZeros generalizing start lastZero data with
  | nil => exact ⟨none, _, rfl, .finished fun i above => h.beyond i above nofun⟩
  | cons nextZero iterZeros ih =>
    obtain ⟨low, none⟩ := h.zeros nextZero (.head _)
    obtain ⟨long, chunk⟩ := h.chunk
    have first : firstOne lastZero = start := h.first
    have behind := h.behind
    simp only [IterChunks.next, nextFrom, first]
    by_cases empty : start = nextZero
    · subst empty
      obtain ⟨mid, split⟩ := trisplit_ok (Nat.zero_le data.length)
      rw [Nat.sub_self] at behind
      obtain ⟨item, later, run, returned⟩ := ih _ _ behind
      refine ⟨item, later, ?_, ?_⟩
      · rw [if_pos rfl, split, ok_bind]
        exact run
      · cases returned with
        | finished rest =>
          refine .finished fun i above => ?_
          rcases Nat.eq_or_lt_of_le above with rfl | later
          · exact none
          · exact rest i later
        | chunk le gap nonempty found ended aligned fewer =>
          refine .chunk (Nat.le_of_succ_le le) (fun i above below => ?_) nonempty found ended aligned
            (Nat.lt_succ_of_lt fewer)
          rcases Nat.eq_or_lt_of_le above with rfl | later
          · exact none
          · exact gap i later below
    · obtain ⟨mid, split⟩ := trisplit_ok long
      have length : (data.take (nextZero - start)).length = nextZero - start := by simpa using long
      have last : start + (nextZero - start) = nextZero := Nat.add_sub_cancel' low
      refine ⟨some (start, data.take (nextZero - start)),
        ⟨some nextZero, iterZeros, data.drop (nextZero - start + 1)⟩, ?_, .chunk (Nat.le_refl start)
          (fun i above below => absurd above (Nat.not_le_of_lt below)) ?_ ?_ ?_ ?_
          (Nat.lt_succ_self _)⟩
      · rw [if_neg empty, if_neg (Nat.not_lt_of_le low), split]
        rfl
      · intro nil
        rw [nil, List.length_nil] at length
        omega
      · rw [length]
        exact chunk
      · rw [length, last]
        exact none
      · rw [length, last]
        exact behind

/-- The chunks are the runs. -/
theorem Aligned.yields {start : Nat} {self : IterChunks α} (h : Aligned f start self) :
    ∃ runs last, RunsFrom f start runs ∧ runs.length ≤ self.iterZeros.length ∧
      Yields IterChunks.next self runs last := by
  induction bound : self.iterZeros.length using Nat.strong_induction_on generalizing start self with
  | _ n ih =>
    obtain ⟨item, later, run, returned⟩ := h.next
    cases returned with
    | finished rest => exact ⟨[], later, .done rest, Nat.zero_le n, .done run⟩
    | @chunk first values _ le gap nonempty found ended aligned fewer =>
      obtain ⟨runs, last, rest, short, yields⟩ := ih _ (bound ▸ fewer) aligned rfl
      refine ⟨(first, values) :: runs, last, .run le gap nonempty found ended rest, ?_,
        .item run yields⟩
      exact Nat.succ_le_of_lt (Nat.lt_of_le_of_lt short (bound ▸ fewer))

end IterChunks

/-- The cell of an index whose bit is set. -/
def cell (bits : List Bool) (data : List α) (i : Nat) : Option α :=
  if bits[i]? = some true then data[i]? else none

/-- Every bit that is set has a cell. -/
theorem newIterChunks_aligned {bits : List Bool} {data : List α}
    (backed : ∀ i : Nat, bits[i]? = some true → i < data.length) :
    (newIterChunks bits data).Aligned (cell bits data) 0 := by
  have last : bits[bits.length]? = none := List.getElem?_eq_none (Nat.le_refl _)
  refine ⟨rfl, ?_, fun z member => ?_, fun i _ other before => ?_, fun i _ past => ?_,
    fun i a found => ?_⟩
  · refine List.pairwise_append.mpr ⟨sorted_iterZeros bits, List.pairwise_singleton _ _, ?_⟩
    intro z member last same
    rw [List.mem_singleton.mp same]
    exact (List.getElem?_eq_some_iff.mp (mem_iterZeros.mp member)).1
  · refine ⟨Nat.zero_le z, if_neg ?_⟩
    rcases List.mem_append.mp member with zero | sentinel
    · rw [mem_iterZeros.mp zero]
      simp
    · rw [List.mem_singleton.mp sentinel, last]
      simp
  · have below : i < bits.length := by
      obtain ⟨z, member, less⟩ := before
      rcases List.mem_append.mp member with zero | sentinel
      · exact Nat.lt_trans less (List.getElem?_eq_some_iff.mp (mem_iterZeros.mp zero)).1
      · exact List.mem_singleton.mp sentinel ▸ less
    have one : bits[i]? = some true := by
      rw [List.getElem?_eq_getElem below, Option.some.injEq, ← Bool.not_eq_false]
      intro zero
      refine other (List.mem_append_left _ (mem_iterZeros.mpr ?_))
      rw [List.getElem?_eq_getElem below, zero]
    rw [cell, if_pos one, List.getElem?_eq_getElem (backed i one)]
    rfl
  · apply if_neg
    rw [List.getElem?_eq_none (Nat.le_of_lt (past _ (List.mem_append_right _ (.head _))))]
    simp
  · rw [Nat.zero_add] at found
    unfold cell at found
    split at found
    · exact found
    · cases found

theorem newIterChunks_calls (bits : List Bool) (data : List α) :
    (newIterChunks bits data).iterZeros.length ≤ bits.length + 1 := by
  have zeros : (iterZeros bits).length ≤ bits.length :=
    (List.length_filter_le _ _).trans (Nat.le_of_eq List.length_range)
  simpa [newIterChunks] using zeros

/-- The chunks of a slice whose cells are read one by one. -/
theorem newIterChunks_runs {β : Type} {bits : List Bool} {data : List α} {g : Nat → Option β}
    {read : α → Except Panic β} (absent : ∀ i : Nat, bits[i]? ≠ some true → g i = none)
    (present : ∀ i : Nat, bits[i]? = some true →
      ∃ a b, data[i]? = some a ∧ read a = .ok b ∧ g i = some b) :
    ∃ runs, RunsFrom g 0 runs ∧ ∀ calls, bits.length + 1 < calls →
      collect IterChunks.next .diverged calls (newIterChunks bits data) >>=
        sliceAssumeInit read = .ok runs := by
  have backed : ∀ i : Nat, bits[i]? = some true → i < data.length := by
    intro i one
    obtain ⟨a, -, stored, -⟩ := present i one
    exact (List.getElem?_eq_some_iff.mp stored).1
  obtain ⟨chunks, last, cells, short, yields⟩ := (newIterChunks_aligned backed).yields
  have none_of : ∀ i, cell bits data i = none → g i = none := by
    intro i none
    apply absent i
    intro one
    rw [cell, if_pos one, List.getElem?_eq_getElem (backed i one)] at none
    cases none
  have some_of : ∀ i a, cell bits data i = some a → ∃ b, read a = .ok b ∧ g i = some b := by
    intro i a found
    unfold cell at found
    split at found
    · rename_i one
      obtain ⟨a', b, stored, run, there⟩ := present i one
      rw [found] at stored
      cases stored
      exact ⟨b, run, there⟩
    · cases found
  obtain ⟨runs, run, read⟩ := cells.mapM none_of some_of
  refine ⟨runs, read, fun calls enough => ?_⟩
  have bound := Nat.le_trans short (newIterChunks_calls bits data)
  rw [yields.collect .diverged (Nat.lt_of_le_of_lt bound enough), ok_bind]
  exact run

/-! ## The storage -/

theorem Represents.iterChunks {s : VecStorage C} {m : SortedMap Nat C} (h : Represents s m) :
    ∃ chunks, RunsFrom m.get 0 chunks ∧
      ∀ calls, s.bits.length + 1 < calls → s.iterChunks calls = .ok chunks := by
  refine newIterChunks_runs (fun i zero => h.absent i ?_) fun i one => ?_
  · rwa [Ne, ← s.bit_eq, Bool.not_eq_true] at zero
  · obtain ⟨value, stored, found⟩ := h.present i ((s.bit_eq i).mpr one)
    exact ⟨_, value, stored, rfl, found⟩

/-- Partitions of a storage, made by splits that return. -/
inductive PartitionOf (s : VecStorage C) : VecPartition C → Prop
  | whole : PartitionOf s s.asPartition
  | left {part left right : VecPartition C} {entity : Nat} :
      PartitionOf s part → part.splitOut entity = .ok (left, right) → PartitionOf s left
  | right {part left right : VecPartition C} {entity : Nat} :
      PartitionOf s part → part.splitOut entity = .ok (left, right) → PartitionOf s right

/-- A split that returns leaves the slots of two ranges, also beyond the end. -/
theorem SlotsOf.splitOut {s : VecStorage C} {range : IdRange} {part left right : VecPartition C}
    {entity : Nat} (h : SlotsOf s range part) (ordered : ∀ stop ∈ range.stop, range.start ≤ stop)
    (returned : part.splitOut entity = .ok (left, right)) :
    (∃ range' : IdRange, SlotsOf s range' left ∧ ∀ stop ∈ range'.stop, range'.start ≤ stop) ∧
      ∃ range' : IdRange, SlotsOf s range' right ∧ ∀ stop ∈ range'.stop, range'.start ≤ stop := by
  have offset := h.offset
  unfold VecPartition.splitOut at returned
  split at returned
  · cases returned
  · rename_i above
    dsimp only at returned
    split at returned
    · cases returned
      refine ⟨⟨range, h, ordered⟩, ⟨entity, some entity⟩, ?_, by simp⟩
      have empty : ∀ {α : Type} (l : List α), slots ⟨entity, some entity⟩ l = [] := fun l =>
        List.drop_eq_nil_of_le (List.length_take_le _ _)
      rw [SlotsOf, empty, empty, Nat.add_sub_cancel' (Nat.le_of_not_lt above)]
    · rename_i reached
      split at returned
      · cases returned
      · cases returned
        have low : range.start ≤ entity := by omega
        have here : range.CutAt entity := by
          refine ⟨low, fun stop cut => ?_⟩
          have le := ordered stop cut
          have length := length_slots range s.bits
          rw [cut] at length
          simp only [h.eq, Option.elim_some] at reached length
          omega
        refine ⟨⟨⟨range.start, some entity⟩, ?_, by simpa using low⟩,
          ⟨⟨entity, range.stop⟩, ?_, here.2⟩⟩
        · rw [SlotsOf, slots_left here, slots_left here, h.eq]
        · rw [SlotsOf, slots_right low, slots_right low, h.eq]
          simp only [Nat.add_sub_cancel' low]

theorem PartitionOf.slotsOf {s : VecStorage C} {part : VecPartition C} (h : PartitionOf s part) :
    ∃ range : IdRange, SlotsOf s range part ∧ ∀ stop ∈ range.stop, range.start ≤ stop := by
  induction h with
  | whole => exact ⟨⟨0, none⟩, rfl, nofun⟩
  | left _ returned ih =>
    obtain ⟨range, slots, ordered⟩ := ih
    exact (slots.splitOut ordered returned).1
  | right _ returned ih =>
    obtain ⟨range, slots, ordered⟩ := ih
    exact (slots.splitOut ordered returned).2

/-- The component that a partition gives access to. -/
def VecPartition.found (self : VecPartition C) (entity : Nat) : Option (CompMut C) :=
  match self.intoMut entity with
  | .ok found => found
  | .error _ => none

section

variable {s : VecStorage C} {m : SortedMap Nat C} {range : IdRange} {part : VecPartition C}

theorem SlotsOf.found (h : SlotsOf s range part) (represents : Represents s m) (id : Nat) :
    part.found id =
      if range.Contains id then (m.get id).map fun value => ⟨id, value⟩ else none := by
  have offset := h.offset
  unfold VecPartition.found
  by_cases inside : range.Contains id
  · rw [h.intoMut represents inside, if_pos inside]
  · rw [if_neg inside]
    unfold VecPartition.intoMut
    by_cases below : id < part.offset
    · rw [if_pos below]
    · rw [if_neg below]
      rcases bit : part.bits[id - part.offset]? with _ | _ | _
      · rfl
      · rfl
      · have contained := h.bit_inside bit
        rw [Nat.add_sub_cancel' (Nat.le_of_not_lt below)] at contained
        exact absurd contained inside

/-- The partition that covers the storage finds every component. -/
theorem SlotsOf.found_eq {part : VecPartition C} (h : SlotsOf s ⟨0, none⟩ part)
    (represents : Represents s m) :
    part.found = fun id => (m.get id).map fun value => ⟨id, value⟩ := by
  funext id
  rw [h.found represents]
  exact if_pos ⟨Nat.zero_le id, nofun⟩

theorem SlotsOf.intoIterChunksMut (h : SlotsOf s range part) (represents : Represents s m) :
    ∃ chunks, RunsFrom part.found 0 chunks ∧
      ∀ calls, part.bits.length + 1 < calls → part.intoIterChunksMut calls = .ok chunks := by
  have offset := h.offset
  have index : ∀ i, part.offset + i - part.offset = i := Nat.add_sub_cancel_left part.offset
  have absent : ∀ i : Nat, part.bits[i]? ≠ some true → part.found (part.offset + i) = none := by
    intro i zero
    rw [h.found represents]
    by_cases inside : range.Contains (part.offset + i)
    · have bit := h.bit represents inside
      rw [index] at bit
      rw [if_pos inside, Option.map_eq_none_iff, ← Option.not_isSome_iff_eq_none]
      exact fun present => zero (bit.mpr present)
    · exact if_neg inside
  have present : ∀ i : Nat, part.bits[i]? = some true → ∃ a b,
      (part.data.zipIdx part.offset)[i]? = some a ∧ assumeInitMut a = .ok b ∧
        part.found (part.offset + i) = some b := by
    intro i one
    have inside := h.bit_inside one
    have bit := h.bit represents inside
    rw [index] at bit
    obtain ⟨value, found⟩ := Option.isSome_iff_exists.mp (bit.mp one)
    have slot := h.slot represents inside found
    rw [index] at slot
    refine ⟨(some value, part.offset + i), ⟨part.offset + i, value⟩, ?_, rfl, ?_⟩
    · rw [List.getElem?_zipIdx, slot]
      rfl
    · rw [h.found represents, if_pos inside, found]
      rfl
  obtain ⟨runs, last, collected⟩ := newIterChunks_runs absent present
  have moved : (fun id => if part.offset ≤ id then part.found (part.offset + (id - part.offset))
      else none) = part.found := by
    funext id
    split
    · rename_i above
      rw [Nat.add_sub_cancel' above]
    · rename_i below
      rw [h.found represents, if_neg fun inside => below (offset ▸ inside.1)]
  have shifted := last.shift part.offset
  rw [moved] at shifted
  refine ⟨_, shifted.lower (Nat.zero_le _) fun id _ below => ?_, fun calls enough => ?_⟩
  · rw [h.found represents, if_neg fun inside => ?_]
    have := inside.1
    omega
  · have run := collected calls enough
    obtain ⟨chunks, cut, run⟩ := bind_eq_ok.mp run
    rw [VecPartition.intoIterChunksMut, cut, ok_bind, run]
    rfl

end

/-- The whole storage as a partition yields the same chunks. -/
theorem asPartition_intoIterChunksMut (s : VecStorage C) (calls : Nat) :
    s.asPartition.intoIterChunksMut calls = s.iterChunksMut calls := by
  have same : (fun chunk : Nat × List (CompMut C) => (chunk.1 + 0, chunk.2)) = id := rfl
  unfold VecPartition.intoIterChunksMut VecStorage.iterChunksMut VecStorage.asPartition
  simp only [same, List.map_id, bind_pure]

/-- An iterator over chunks ends within some number of calls. Its chunks are the
maximal runs of the components found, and taken apart they are what the plain
iterator yields. -/
def YieldsChunks {β : Type} (found : Nat → Option β) (iter : Except Panic (List (Nat × β)))
    (bound : Nat) (iterChunks : Nat → Except Panic (List (Nat × List β))) : Prop :=
  ∃ chunks, (∀ calls, bound < calls → iterChunks calls = .ok chunks) ∧ Maximal found chunks ∧
    iter = .ok (entries chunks)

/-- It is enough that the plain iterator yields what is found, in order. -/
theorem yieldsChunks_of_runs {β : Type} {found : Nat → Option β}
    {iter : Except Panic (List (Nat × β))} {bound : Nat}
    {iterChunks : Nat → Except Panic (List (Nat × List β))} {l : List (Nat × β)}
    (runs : ∃ chunks, RunsFrom found 0 chunks ∧
      ∀ calls, bound < calls → iterChunks calls = .ok chunks)
    (yields : iter = .ok l) (sorted : l.Pairwise fun a b => a.1 < b.1)
    (mem : ∀ e, e ∈ l ↔ found e.1 = some e.2) : YieldsChunks found iter bound iterChunks := by
  obtain ⟨chunks, runs, collected⟩ := runs
  refine ⟨chunks, collected, runs.maximal, yields.trans (congrArg _ ?_)⟩
  apply SortedMap.eq_of_mem sorted runs.entries_sorted
  intro e
  rw [mem, runs.mem_entries]
  exact (and_iff_right (Nat.zero_le _)).symm

theorem sorted_compMut {l : List (Nat × C)} (sorted : l.Pairwise fun a b => a.1 < b.1) :
    (l.map compMut).Pairwise fun a b => a.1 < b.1 :=
  List.pairwise_map.mpr sorted

theorem mem_compMut {m : SortedMap Nat C} {range : IdRange} {e : Nat × CompMut C} :
    e ∈ (m.entries.filter fun e => range.Contains e.1).map compMut ↔
      (if range.Contains e.1 then (m.get e.1).map fun value => (⟨e.1, value⟩ : CompMut C)
        else none) = some e.2 := by
  rw [List.mem_map]
  constructor
  · rintro ⟨e', member, rfl⟩
    obtain ⟨stored, inside⟩ := List.mem_filter.mp member
    have inside : range.Contains e'.1 := of_decide_eq_true inside
    simp only [compMut, if_pos inside, SortedMap.mem_entries.mp stored, Option.map_some]
  · intro found
    split at found
    · rename_i inside
      obtain ⟨value, stored, same⟩ := Option.map_eq_some_iff.mp found
      refine ⟨(e.1, value), List.mem_filter.mpr ⟨SortedMap.mem_entries.mpr stored, ?_⟩, ?_⟩
      · exact decide_eq_true inside
      · exact Prod.ext rfl same
    · cases found

theorem SlotsOf.yieldsChunks {s : VecStorage C} {m : SortedMap Nat C} {range : IdRange}
    {part : VecPartition C} (h : SlotsOf s range part) (represents : Represents s m) :
    YieldsChunks part.found part.intoIterMut (part.bits.length + 1) part.intoIterChunksMut := by
  refine yieldsChunks_of_runs (h.intoIterChunksMut represents) (h.intoIterMut represents)
    (sorted_compMut (m.sorted.filter _)) fun e => ?_
  rw [h.found represents]
  exact mem_compMut

/-- **Chunk iteration.** For a storage filled by any sequence of `set`, and for
its partitions, the chunks are the maximal runs of the components present, in
ascending order. -/
theorem iter_chunks_maximal (sets : List (Nat × Option C)) :
    ∃ s, VecStorage.default.setAll sets = .ok s ∧ Observes s (Tree.default.setAll sets).data ∧
      YieldsChunks (Tree.default.setAll sets).data.get s.iter (s.bits.length + 1) s.iterChunks ∧
      YieldsChunks (fun id => ((Tree.default.setAll sets).data.get id).map fun value => ⟨id, value⟩)
        s.iterMut (s.bits.length + 1) s.iterChunksMut ∧
      ∀ part, PartitionOf s part →
        (∃ range : IdRange, range.start = part.offset ∧ ∀ id, part.found id =
          if range.Contains id then
            ((Tree.default.setAll sets).data.get id).map fun value => ⟨id, value⟩
          else none) ∧
        YieldsChunks part.found part.intoIterMut (part.bits.length + 1)
          part.intoIterChunksMut := by
  obtain ⟨s, run, represents⟩ := setAll_represents represents_default sets
  change Represents s (Tree.default.setAll sets).data at represents
  have whole : SlotsOf s ⟨0, none⟩ s.asPartition := rfl
  refine ⟨s, run, represents.observes, ?_, ?_, fun part split => ?_⟩
  · exact yieldsChunks_of_runs represents.iterChunks represents.iter
      (Tree.default.setAll sets).data.sorted fun e => SortedMap.mem_entries
  · have yields := whole.yieldsChunks represents
    rw [whole.found_eq represents, funext (asPartition_intoIterChunksMut s)] at yields
    exact yields
  · obtain ⟨range, slots, -⟩ := split.slotsOf
    exact ⟨⟨range, slots.offset.symm, slots.found represents⟩, slots.yieldsChunks represents⟩

example : (do
    let s ← VecStorage.default.setAll
      [(1, some 1), (2, some 2), (4, some 4), (6, some 6), (7, some 7), (9, none)]
    s.iterChunks 12) = .ok [(1, [1, 2]), (4, [4]), (6, [6, 7])] := rfl

end Dynec.Storage
