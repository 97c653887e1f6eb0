import Dynec.Storage.Fetches
import Dynec.System.Parallel

/-!
# Chunks

The storages of a chunked tuple are vectors, and hand out the components of a
chunk as a slice. With them, the parallel iterators are compared to the serial
ones.
-/

namespace Dynec.System

open Fallible Entity Storage

variable {K : Type} {C : K → Type}

/-! ## Slices -/

/-- A chunk of the vector storage. -/
theorem getChunk_exactly {C : Type} {s : VecStorage C} {m : SortedMap Nat C}
    (represents : Represents s m) {a b : Nat} (le : a ≤ b) :
    Exactly (b ≤ s.data.length ∧ ∀ id ∈ rawRange a b, (m.get id).isSome = true)
      (do expect .chunkNotFilled (← s.getChunk a b))
      fun values => values.map some = (rawRange a b).map m.get :=
  (represents.getChunk le).exactly .chunkNotFilled

/-- A chunk of a partition of the vector storage. -/
theorem intoChunkMut_exactly {C : Type} {s : VecStorage C} {m : SortedMap Nat C}
    {part : VecPartition C} (represents : Represents s m) {first a b : Nat}
    (shown : VecShows s ⟨first, some b⟩ part) (low : first ≤ a) (le : a ≤ b) (less : first < b) :
    Exactly (b ≤ s.data.length ∧ ∀ id ∈ rawRange a b, (m.get id).isSome = true)
      (do expect .missingMust (← part.intoChunkMut a b))
      fun refs => refs.map some =
        (rawRange a b).map fun id => (m.get id).map fun value => ⟨id, value⟩ := by
  have slots := shown.slotsOf
  have offset : part.offset = first := slots.offset
  have here : (⟨first, some b⟩ : IdRange).CutAt b := by
    refine ⟨Nat.le_of_lt less, fun stop cut => ?_⟩
    cases cut
    exact Nat.le_refl _
  have reach : b ≤ part.offset + part.data.length ↔ b ≤ s.data.length := by
    have length : part.data.length = (Storage.slots ⟨first, some b⟩ s.data).length := by
      rw [slots.eq]
    have short := length_slots_lt here s.data
    dsimp only at short
    rw [← length] at short
    omega
  have found : ∀ id ∈ rawRange a b,
      part.found id = (m.get id).map fun value => ⟨id, value⟩ := by
    intro id inside
    obtain ⟨above, below⟩ := mem_span.mp inside
    have contained : (⟨first, some b⟩ : IdRange).Contains id := by
      refine ⟨Nat.le_trans low above, fun stop cut => ?_⟩
      cases cut
      exact below
    rw [slots.found represents, if_pos contained]
  refine ((slots.intoChunkMut represents (offset ▸ low) le).exactly .missingMust).mono ?_
    fun refs same => same.trans (List.map_congr_left found)
  refine and_congr reach (forall₂_congr fun id inside => ?_)
  rw [found id inside, Option.isSome_map]

/-! ## Members -/

namespace IntoZip

/-- The component type has a vector storage. -/
def OnVec (member : IntoZip C) : Prop := ∃ storage, member.store = .vec storage

/-- The accessor hands out chunks: its component type implements `comp::Must`
and has a vector storage. -/
def Chunked (member : IntoZip C) : Prop :=
  member.must = true ∧ ∃ storage, member.store = .vec storage

theorem OnVec.exists_eq {comp : K} {must write : Bool} {store : Store (C comp)}
    (onVec : OnVec ⟨comp, must, write, store⟩) : ∃ storage, store = .vec storage := onVec

/-- How far the data of a vector storage reaches. -/
def reach (member : IntoZip C) : Nat :=
  match member.store with
  | .vec storage => storage.data.length
  | .tree _ => 0

/-- The storage holds the whole chunk. -/
def Stores (member : IntoZip C) (start stop : Nat) : Prop :=
  stop ≤ member.reach ∧ ∀ id ∈ rawRange start stop, (member.found id).isSome = true

theorem found_vec {comp : K} {must write : Bool} {storage : VecStorage (C comp)}
    {m : SortedMap Nat (C comp)} (represents : Represents storage m) (id : Nat) :
    (IntoZip.mk comp must write (.vec storage)).found id = m.get id := by
  simp only [IntoZip.found, Store.get, represents.get]
  rfl

end IntoZip

/-- The items of a chunk. -/
theorem items_of_found {comp : K} {β : Type} {f : β → Handle (C comp)} {values : List β}
    {found : Nat → Option β} {ids : List Nat} (same : values.map some = ids.map found) :
    (values.map f).map (fun handle => (⟨comp, some handle⟩ : Item C)) =
      ids.map fun id => ⟨comp, (found id).map f⟩ := by
  have mapped := congrArg (List.map fun o => (⟨comp, o.map f⟩ : Item C)) same
  rw [List.map_map, List.map_map] at mapped
  rw [List.map_map]
  exact mapped

theorem Shows.getChunk {member : IntoZip C} {zip : Zip C} {first a b : Nat}
    (h : Shows member ⟨first, some b⟩ zip) (filled : member.Filled) (chunked : member.Chunked)
    (low : first ≤ a) (le : a ≤ b) (less : first < b) :
    Exactly (member.Stores a b) (zip.getChunk a b) fun chunk =>
      chunk.2.map (fun handle => (⟨chunk.1, some handle⟩ : Item C)) =
        (rawRange a b).map member.item := by
  obtain ⟨comp, must, write, store⟩ := member
  obtain ⟨storage, rfl⟩ := IntoZip.OnVec.exists_eq chunked.2
  cases h with
  | storage =>
    obtain ⟨m, represents⟩ := filled.represents
    have items : ∀ values : List (C comp), values.map some = (rawRange a b).map m.get →
        (values.map Handle.shared).map (fun handle => (⟨comp, some handle⟩ : Item C)) =
          (rawRange a b).map (IntoZip.mk comp must false (.vec storage)).item := by
      intro values same
      rw [items_of_found same]
      apply List.map_congr_left
      intro id _
      simp [IntoZip.item, IntoZip.found_vec represents]
    have spec : Exactly _ (_ >>= fun values : List (C comp) =>
        pure (⟨comp, values.map .shared⟩ : Chunk C)) fun chunk =>
          chunk.2.map (fun handle => (⟨chunk.1, some handle⟩ : Item C)) =
            (rawRange a b).map (IntoZip.mk comp must false (.vec storage)).item :=
      (getChunk_exactly represents le).bind_pure items
    rw [bind_assoc] at spec
    refine spec.mono ?_ fun _ last => last
    simp only [IntoZip.Stores, IntoZip.reach, IntoZip.found_vec represents]
  | vec shown =>
    obtain ⟨m, represents⟩ := filled.represents
    have items : ∀ refs : List (CompMut (C comp)), refs.map some =
          (rawRange a b).map (fun id => (m.get id).map fun value => ⟨id, value⟩) →
        (refs.map Handle.mutable).map (fun handle => (⟨comp, some handle⟩ : Item C)) =
          (rawRange a b).map (IntoZip.mk comp must true (.vec storage)).item := by
      intro refs same
      rw [items_of_found same]
      apply List.map_congr_left
      intro id _
      simp only [IntoZip.item, IntoZip.found_vec represents, Option.map_map]
      rfl
    have spec : Exactly _ (_ >>= fun refs : List (CompMut (C comp)) =>
        pure (⟨comp, refs.map .mutable⟩ : Chunk C)) fun chunk =>
          chunk.2.map (fun handle => (⟨chunk.1, some handle⟩ : Item C)) =
            (rawRange a b).map (IntoZip.mk comp must true (.vec storage)).item :=
      (intoChunkMut_exactly represents shown low le less).bind_pure items
    rw [bind_assoc] at spec
    refine spec.mono ?_ fun _ last => last
    simp only [IntoZip.Stores, IntoZip.reach, IntoZip.found_vec represents]

theorem IntoZip.lt_reach {member : IntoZip C} (filled : member.Filled) (onVec : member.OnVec)
    {id : Nat} (found : (member.found id).isSome = true) : id < member.reach := by
  obtain ⟨comp, must, write, store⟩ := member
  obtain ⟨storage, rfl⟩ := onVec.exists_eq
  obtain ⟨m, represents⟩ := filled.represents
  rw [found_vec represents] at found
  obtain ⟨value, found⟩ := Option.isSome_iff_exists.mp found
  exact (List.getElem?_eq_some_iff.mp (represents.slot found).2).1

theorem IntoZip.splits_of_reach {member : IntoZip C} {entity : Nat} (onVec : member.OnVec)
    (le : entity ≤ member.reach) : member.Splits entity := by
  obtain ⟨comp, must, write, store⟩ := member
  obtain ⟨storage, rfl⟩ := onVec.exists_eq
  cases write with
  | false => trivial
  | true => exact fun both => Nat.not_lt_of_le le both.1

theorem IntoZip.Chunked.not_writesTree {member : IntoZip C} (chunked : member.Chunked) :
    ¬ member.WritesTree := by
  obtain ⟨comp, must, write, store⟩ := member
  obtain ⟨storage, rfl⟩ := IntoZip.OnVec.exists_eq chunked.2
  cases write <;> exact id

/-! ## Tuples -/

theorem uniformIzip_map {α β : Type} {f : α → Nat → β} {ids : List Nat} {members : List α}
    (nonempty : members ≠ []) : uniformIzip (members.map fun member => ids.map (f member)) =
      ids.map fun id => members.map fun member => f member id := by
  induction members with
  | nil => exact absurd rfl nonempty
  | cons member members ih =>
    cases members with
    | nil =>
      simp only [List.map_cons, List.map_nil, uniformIzip, List.map_map]
      rfl
    | cons other members =>
      have rest := ih (List.cons_ne_nil _ _)
      rw [List.map_cons] at rest
      rw [List.map_cons, List.map_cons, uniformIzip, rest, List.zipWith_map, List.zipWith_self]
      · rfl
      · exact nofun

section

variable {members : List (IntoZip C)}

/-- The parts of a chunk. -/
def ChunkItems (members : List (IntoZip C)) (start stop : Nat) (chunk : List (Chunk C)) : Prop :=
  List.Forall₂ (fun member part => part.2.map (fun handle => (⟨part.1, some handle⟩ : Item C)) =
    (rawRange start stop).map member.item) members chunk

theorem ChunkItems.toEntities {start stop : Nat} {chunk : List (Chunk C)}
    (h : ChunkItems members start stop chunk) (nonempty : members ≠ []) :
    (rawRange start stop).zip (chunkToEntities chunk) =
      (rawRange start stop).map (entry members) := by
  have parts := eq_map_of_forall₂ (List.forall₂_map_right_iff.mpr h)
  rw [chunkToEntities, parts, uniformIzip_map nonempty, List.zip_map_right, List.zip,
    List.zipWith_self, List.map_map]
  rfl

theorem takeSerialChunk_exactly {range : IdRange} {zip : Tuple C} {a b : Nat}
    (h : TupleShows members range zip) (filled : ∀ member ∈ members, member.Filled)
    (chunked : ∀ member ∈ members, member.Chunked) (low : range.start ≤ a) (le : a ≤ b)
    (less : range.start < b) (high : ∀ stop ∈ range.stop, b ≤ stop) :
    Exactly (∀ member ∈ members, member.Stores a b) (takeSerialChunk zip a b) fun taken =>
      ChunkItems members a b taken.1 ∧ TupleShows members ⟨b, range.stop⟩ taken.2 := by
  refine Exactly.mono (p := SplitsAll members range.stop b ∧ ∀ member ∈ members, member.Stores a b)
    ((h.split filled ⟨Nat.le_of_lt less, high⟩).bind fun zips shown => ?_) ?_ fun _ last => last
  · refine (Exactly.mapM shown.1 fun member listed zip shows => shows.getChunk
      (filled member listed) (chunked member listed) low le less).bind_pure fun chunk items => ?_
    exact ⟨items, shown.2⟩
  · refine and_iff_right_of_imp fun stores member listed => ⟨?_, fun _ => ?_⟩
    · exact IntoZip.splits_of_reach (chunked member listed).2 (stores member listed).1
    · exact (chunked member listed).not_writesTree

/-- A range with its chunk. -/
def Taken (members : List (IntoZip C)) (range : Nat × Nat)
    (taken : (Nat × Nat) × List (Chunk C)) : Prop :=
  taken.1 = range ∧ ChunkItems members range.1 range.2 taken.2

theorem taken_ranges {ranges : List (Nat × Nat)} {taken : List ((Nat × Nat) × List (Chunk C))}
    (each : List.Forall₂ (Taken members) ranges taken) : taken.map (·.1) = ranges := by
  induction each with
  | nil => rfl
  | cons here _ ih => rw [List.map_cons, here.1, ih]

/-- Chunks in ascending order are taken one after the other. -/
theorem takeChunks_ok {first : Nat} {zip : Tuple C} {ranges : List (Nat × Nat)}
    (h : TupleShows members ⟨first, none⟩ zip) (filled : ∀ member ∈ members, member.Filled)
    (chunked : ∀ member ∈ members, member.Chunked) (sorted : (rangeIds ranges).Pairwise (· < ·))
    (proper : ∀ range ∈ ranges, range.1 < range.2) (above : ∀ range ∈ ranges, first ≤ range.1)
    (stores : ∀ range ∈ ranges, ∀ member ∈ members, member.Stores range.1 range.2) :
    ∃ taken, takeChunks zip ranges = .ok taken ∧ List.Forall₂ (Taken members) ranges taken := by
  induction ranges generalizing first zip with
  | nil => exact ⟨[], rfl, .nil⟩
  | cons range ranges ih =>
    obtain ⟨here, proper⟩ := List.forall_mem_cons.mp proper
    obtain ⟨low, -⟩ := List.forall_mem_cons.mp above
    obtain ⟨stored, stores⟩ := List.forall_mem_cons.mp stores
    obtain ⟨-, sorted, apart⟩ := List.pairwise_append.mp sorted
    obtain ⟨⟨chunk, zip'⟩, run, items, shown⟩ := (takeSerialChunk_exactly h filled chunked low
      (Nat.le_of_lt here) (Nat.lt_of_le_of_lt low here) nofun).returns stored
    have later : ∀ other ∈ ranges, range.2 ≤ other.1 := by
      intro other member
      have last : range.2 - 1 ∈ List.range' range.1 (range.2 - range.1) :=
        List.mem_range'_1.mpr (by omega)
      have next : other.1 ∈ rangeIds ranges := by
        refine List.mem_flatMap.mpr ⟨other, member, List.mem_range'_1.mpr ?_⟩
        have := proper other member
        omega
      have := apart _ last _ next
      omega
    obtain ⟨taken, rest, each⟩ := ih shown sorted proper later stores
    refine ⟨(range, chunk) :: taken, ?_, .cons ⟨rfl, items⟩ each⟩
    rw [takeChunks, run, ok_bind]
    dsimp only
    rw [rest]
    rfl

variable {ealloc : Snapshot} {w : Nat}

/-- The condition under which every job gets its chunk. -/
theorem jobs_store {splitting : Splitting} (filled : ∀ member ∈ members, member.Filled)
    (chunked : ∀ member ∈ members, member.Chunked) (positive : 1 ≤ ealloc.gauge) :
    ((∀ cut ∈ splitting.cuts 1 ealloc.gauge, ∀ member ∈ members, member.Splits cut) ∧
      ∀ range ∈ splitting.ranges 1 ealloc.gauge, ∀ member ∈ members,
        member.Stores range.1 range.2) ↔
    ∀ member ∈ members, member.Stores 1 ealloc.gauge := by
  constructor
  · rintro ⟨-, stores⟩ member listed
    have found : ∀ id ∈ rawRange 1 ealloc.gauge, (member.found id).isSome = true := by
      intro id inside
      rw [← splitting.ranges_flatMap positive] at inside
      obtain ⟨range, job, inside⟩ := List.mem_flatMap.mp inside
      exact (stores range job member listed).2 id inside
    refine ⟨?_, found⟩
    rcases Nat.lt_or_ge 1 ealloc.gauge with some | none
    · have last := found (ealloc.gauge - 1) (mem_rawRange.mpr (by omega))
      have := member.lt_reach (filled member listed) (chunked member listed).2 last
      omega
    · have uncut : splitting.cuts 1 ealloc.gauge = [] := by
        apply List.eq_nil_iff_forall_not_mem.mpr
        intro cut listed
        have := Splitting.mem_cuts positive listed
        omega
      rw [Splitting.ranges_of_cuts uncut] at stores
      exact (stores _ (List.mem_singleton_self _) member listed).1
  · intro stores
    constructor
    · intro cut member
      have := Splitting.mem_cuts positive member
      intro member listed
      apply IntoZip.splits_of_reach (chunked member listed).2
      have := (stores member listed).1
      omega
    · intro range job member listed
      obtain ⟨reached, found⟩ := stores member listed
      have bounds := Splitting.mem_ranges positive job
      refine ⟨by omega, fun id inside => found id (mem_rawRange.mpr ?_)⟩
      have := mem_rawRange.mp inside
      omega

/-- What each job does with its chunk. -/
theorem jobs_exactly {β : Type} {f : (Nat × Nat) → List (Chunk C) → β}
    {jobs : List (Slice × Tuple C)} {Q : (Nat × Nat) → β → Prop}
    (filled : ∀ member ∈ members, member.Filled) (chunked : ∀ member ∈ members, member.Chunked)
    {splitting : Splitting} (positive : 1 ≤ ealloc.gauge)
    (shown : List.Forall₂ (JobShows members ealloc.gauge) (splitting.ranges 1 ealloc.gauge) jobs)
    (result : ∀ range chunk, ChunkItems members range.1 range.2 chunk → Q range (f range chunk)) :
    Exactly (∀ range ∈ splitting.ranges 1 ealloc.gauge, ∀ member ∈ members,
        member.Stores range.1 range.2)
      (jobs.mapM fun job => do
        let (chunk, _) ← takeSerialChunk job.2 job.1.start job.1.stop
        return f (job.1.start, job.1.stop) chunk)
      (List.Forall₂ Q (splitting.ranges 1 ealloc.gauge)) := by
  apply Exactly.mapM shown
  intro range listed job shown
  obtain ⟨rfl, first, low, less, shown⟩ := shown
  have bounds := Splitting.mem_ranges positive listed
  refine (takeSerialChunk_exactly shown filled chunked low bounds.2.2.1 less
    (le_cutEnd (Nat.le_refl _))).bind_pure fun taken items => ?_
  exact result _ _ items.1

theorem parChunksWith_exactly (filled : ∀ member ∈ members, member.Filled)
    (chunked : ∀ member ∈ members, member.Chunked) (splitting : Splitting)
    (positive : 1 ≤ ealloc.gauge) :
    Exactly (splitting.Fits w 1 ealloc.gauge ∧ ∀ member ∈ members, member.Stores 1 ealloc.gauge)
      (parChunksWith w splitting ealloc members) fun chunks =>
        rangeIds (chunks.map (·.1)) = rawRange 1 ealloc.gauge := by
  refine Exactly.mono ((parRawChunks_exactly filled splitting positive).bind fun jobs shown =>
    jobs_exactly (Q := fun range (taken : (Nat × Nat) × List (Chunk C)) => taken.1 = range) filled
      chunked positive shown
      fun _ _ _ => rfl) ?_ fun chunks same => ?_
  · rw [and_assoc, jobs_store filled chunked positive]
  · have ranges := eq_map_of_forall₂ (f := id) (List.forall₂_map_right_iff.mpr same)
    rw [ranges, List.map_id]
    exact splitting.ranges_flatMap positive

theorem parEntitiesWithChunked_exactly (filled : ∀ member ∈ members, member.Filled)
    (chunked : ∀ member ∈ members, member.Chunked) (nonempty : members ≠ [])
    (splitting : Splitting) (positive : 1 ≤ ealloc.gauge) :
    Exactly (splitting.Fits w 1 ealloc.gauge ∧ ∀ member ∈ members, member.Stores 1 ealloc.gauge)
      (parEntitiesWithChunked w splitting ealloc members)
      (· = (rawRange 1 ealloc.gauge).map (entry members)) := by
  refine Exactly.mono ((parRawChunks_exactly filled splitting positive).bind fun jobs shown =>
    (jobs_exactly (f := fun range chunk => (rawRange range.1 range.2).zip (chunkToEntities chunk))
      (Q := fun range list => list = (rawRange range.1 range.2).map (entry members)) filled chunked
      positive shown fun _ _ items => items.toEntities nonempty).bind_pure
        fun lists same => ?_) ?_ fun _ last => last
  · rw [eq_map_of_forall₂ same, ← splitting.ranges_flatMap positive,
      List.map_flatMap]
    rfl
  · rw [and_assoc, jobs_store filled chunked positive]

theorem chunksWith_ok (filled : ∀ member ∈ members, member.Filled)
    (chunked : ∀ member ∈ members, member.Chunked) (positive : 1 ≤ ealloc.gauge)
    (bound : ealloc.gauge < 2 ^ w)
    (inside : ∀ id ∈ ealloc.recyclable, 1 ≤ id ∧ id < ealloc.gauge)
    (complete : ∀ entity ∈ ealloc.asSlice.allocated, Complete members entity) :
    ∃ ranges taken, ealloc.iterAllocatedChunks w = .ok ranges ∧
      rangeIds ranges = ealloc.asSlice.allocated ∧ chunksWith w ealloc members = .ok taken ∧
      List.Forall₂ (Taken members) ranges taken := by
  obtain ⟨ranges, run, listed⟩ := iterAllocatedChunks_ok ealloc bound inside
  obtain ⟨-, maximal⟩ := iterAllocatedChunks_maximal positive bound inside run
  have stores : ∀ range ∈ ranges, ∀ member ∈ members, member.Stores range.1 range.2 := by
    intro range job member here
    have found : ∀ id ∈ rawRange range.1 range.2, (member.found id).isSome = true := by
      intro id within
      refine complete id ?_ member here (chunked member here).1
      rw [Slice.allocated, Snapshot.asSlice, ← listed]
      exact List.mem_flatMap.mpr ⟨range, job, within⟩
    refine ⟨?_, found⟩
    have less := (maximal range job).nonempty
    have last := found (range.2 - 1) (mem_rawRange.mpr (by omega))
    have := member.lt_reach (filled member here) (chunked member here).2 last
    omega
  obtain ⟨taken, taking, each⟩ := takeChunks_ok (tupleShows_intoZip members) filled chunked
    (listed ▸ (List.pairwise_lt_range' _).filter _) (fun range job => (maximal range job).nonempty)
    (fun _ _ => Nat.zero_le _) stores
  exact ⟨ranges, taken, run, listed, by rw [chunksWith, run, ok_bind, taking], each⟩

end

/-! ## Serial and parallel -/

section

variable {members : List (IntoZip C)} {ealloc : Snapshot} {w : Nat}

/-- The parallel iterators do what the serial ones do: the same items, or the
same entities for chunks, or a panic in both. -/
structure ParallelAgrees (w : Nat) (splitting : Splitting) (ealloc : Snapshot)
    (members : List (IntoZip C)) : Prop where
  entities : Lockstep List.Perm (parEntitiesWith w splitting ealloc members)
    (entitiesWith w ealloc members)
  entitiesChunked : (∀ member ∈ members, member.Chunked) →
    Lockstep List.Perm (parEntitiesWithChunked w splitting ealloc members)
      (entitiesWith w ealloc members)
  chunks : (∀ member ∈ members, member.Chunked) →
    Lockstep (fun chunks chunks' => ∀ id, id ∈ rangeIds (chunks.map (·.1)) ↔
        id ∈ rangeIds (chunks'.map (·.1)))
      (parChunksWith w splitting ealloc members) (chunksWith w ealloc members)

/-- Some storage cannot be split after an allocated entity, or there is nothing
to recycle, no midpoint overflows, and no tree is split for writing. A chunked
tuple needs an entity, or storages that have slots. -/
def ParallelSound (w : Nat) (splitting : Splitting) (ealloc : Snapshot)
    (members : List (IntoZip C)) : Prop :=
  ((∃ entity ∈ ealloc.asSlice.allocated, ∃ member ∈ members, ¬ member.Splits (entity + 1)) ∨
    (∀ id, id ∉ ealloc.recyclable) ∧ splitting.Fits w 1 ealloc.gauge ∧
      (splitting.cuts 1 ealloc.gauge = [] ∨ ∀ member ∈ members, ¬ member.WritesTree)) ∧
  ((∀ member ∈ members, member.Chunked) →
    1 < ealloc.gauge ∨ ∀ member ∈ members, 1 ≤ member.reach)

theorem mem_allocated {id : Nat} :
    id ∈ ealloc.asSlice.allocated ↔ id ∈ rawRange 1 ealloc.gauge ∧ id ∉ ealloc.recyclable := by
  rw [Slice.allocated, List.mem_filter, decide_eq_true_eq]
  rfl

/-- Holes are what the serial iteration leaves out. -/
theorem holes_iff (inside : ∀ id ∈ ealloc.recyclable, 1 ≤ id ∧ id < ealloc.gauge) :
    (∀ id, id ∈ rawRange 1 ealloc.gauge ↔ id ∈ ealloc.asSlice.allocated) ↔
      ∀ id, id ∉ ealloc.recyclable := by
  constructor
  · intro same id hole
    have := inside id hole
    exact (mem_allocated.mp ((same id).mp (mem_rawRange.mpr this))).2 hole
  · intro whole id
    exact ⟨fun listed => mem_allocated.mpr ⟨listed, whole id⟩, fun listed => (mem_allocated.mp listed).1⟩

theorem perm_iff (inside : ∀ id ∈ ealloc.recyclable, 1 ≤ id ∧ id < ealloc.gauge) :
    ((rawRange 1 ealloc.gauge).map (entry members)).Perm
      (ealloc.asSlice.allocated.map (entry members)) ↔ ∀ id, id ∉ ealloc.recyclable := by
  constructor
  · intro perm
    rw [← holes_iff inside]
    have ids := perm.map Prod.fst
    simp only [List.map_map, Function.comp_def, entry, List.map_id'] at ids
    exact fun id => ids.mem_iff
  · intro whole
    have same : ealloc.asSlice.allocated = rawRange 1 ealloc.gauge :=
      List.filter_eq_self.mpr fun id _ => decide_eq_true (whole id)
    rw [same]

/-- The entities in parallel. -/
theorem entities_agree (filled : ∀ member ∈ members, member.Filled) (splitting : Splitting)
    (positive : 1 ≤ ealloc.gauge) (bound : ealloc.gauge < 2 ^ w)
    (inside : ∀ id ∈ ealloc.recyclable, 1 ≤ id ∧ id < ealloc.gauge)
    (complete : ∀ entity ∈ ealloc.asSlice.allocated, Complete members entity) :
    Lockstep List.Perm (parEntitiesWith w splitting ealloc members)
        (entitiesWith w ealloc members) ↔
      (∃ entity ∈ ealloc.asSlice.allocated, ∃ member ∈ members, ¬ member.Splits (entity + 1)) ∨
      (∀ id, id ∉ ealloc.recyclable) ∧ splitting.Fits w 1 ealloc.gauge ∧
        (splitting.cuts 1 ealloc.gauge = [] ∨ ∀ member ∈ members, ¬ member.WritesTree) := by
  have parallel := parEntitiesWith_exactly filled splitting positive bound
  have serial := entitiesWith_exactly filled bound inside
  rw [Lockstep.iff_exactly parallel serial (r := ∀ id, id ∉ ealloc.recyclable)]
  · constructor
    · rintro ⟨same, whole⟩
      by_cases plain : ∀ entity ∈ ealloc.asSlice.allocated, Plain members entity
      · obtain ⟨fits, all, trees⟩ := same.mpr plain
        exact .inr ⟨whole ⟨fits, all, trees⟩, fits, trees⟩
      · push Not at plain
        obtain ⟨entity, listed, fails⟩ := plain
        refine .inl ⟨entity, listed, ?_⟩
        by_contra splits
        push Not at splits
        exact fails ⟨splits, complete entity listed⟩
    · rintro (⟨entity, listed, member, here, fails⟩ | ⟨whole, fits, trees⟩)
      · have broken : ¬ Plain members entity := fun plain => fails (plain.1 member here)
        refine ⟨iff_of_false (fun all => broken (all.2.1 entity (mem_allocated.mp listed).1))
          fun all => broken (all entity listed), fun all => ?_⟩
        exact absurd (all.2.1 entity (mem_allocated.mp listed).1) broken
      · refine ⟨⟨fun all entity listed => all.2.1 entity (mem_allocated.mp listed).1, fun all => ?_⟩,
          fun _ => whole⟩
        exact ⟨fits, fun entity listed => all entity (((holes_iff inside).mpr whole entity).mp listed),
          trees⟩
  · rintro _ _ rfl rfl
    exact perm_iff inside

/-- A chunked tuple stores the whole range. -/
theorem stores_iff (filled : ∀ member ∈ members, member.Filled)
    (chunked : ∀ member ∈ members, member.Chunked) (positive : 1 ≤ ealloc.gauge)
    (complete : ∀ entity ∈ ealloc.asSlice.allocated, Complete members entity)
    (whole : ∀ id, id ∉ ealloc.recyclable) :
    (∀ member ∈ members, member.Stores 1 ealloc.gauge) ↔
      (1 < ealloc.gauge ∨ ∀ member ∈ members, 1 ≤ member.reach) := by
  constructor
  · intro stores
    refine .inr fun member listed => ?_
    exact Nat.le_trans positive (stores member listed).1
  · intro reached member listed
    have found : ∀ id ∈ rawRange 1 ealloc.gauge, (member.found id).isSome = true := fun id range =>
      complete id (mem_allocated.mpr ⟨range, whole id⟩) member listed (chunked member listed).1
    refine ⟨?_, found⟩
    rcases Nat.lt_or_ge 1 ealloc.gauge with some | none
    · have last := found (ealloc.gauge - 1) (mem_rawRange.mpr (by omega))
      have := member.lt_reach (filled member listed) (chunked member listed).2 last
      omega
    · rcases reached with some | reached
      · omega
      · exact Nat.le_trans none (reached member listed)

/-- The serial iteration of a tuple on vectors returns. -/
theorem plain_of_present (filled : ∀ member ∈ members, member.Filled)
    (onVec : ∀ member ∈ members, member.OnVec) {entity : Nat}
    (present : ∀ member ∈ members, (member.found entity).isSome = true) : Plain members entity := by
  refine ⟨fun member here => ?_, fun member here _ => present member here⟩
  apply IntoZip.splits_of_reach (onVec member here)
  exact member.lt_reach (filled member here) (onVec member here) (present member here)

/-- The serial iteration of a chunked tuple returns. -/
theorem plain_of_chunked (filled : ∀ member ∈ members, member.Filled)
    (chunked : ∀ member ∈ members, member.Chunked)
    (complete : ∀ entity ∈ ealloc.asSlice.allocated, Complete members entity) :
    ∀ entity ∈ ealloc.asSlice.allocated, Plain members entity := by
  intro entity listed
  refine plain_of_present filled (fun member here => (chunked member here).2) fun member here => ?_
  exact complete entity listed member here (chunked member here).1

/-- **Parallel iteration.** For every snapshot, every tuple whose required
components are present, and every way to split the jobs, the parallel iterators
agree with the serial ones exactly under `ParallelSound`. -/
theorem parallel_iteration (splitting : Splitting) (nonempty : members ≠ [])
    (filled : ∀ member ∈ members, member.Filled) (positive : 1 ≤ ealloc.gauge)
    (bound : ealloc.gauge < 2 ^ w)
    (inside : ∀ id ∈ ealloc.recyclable, 1 ≤ id ∧ id < ealloc.gauge)
    (complete : ∀ entity ∈ ealloc.asSlice.allocated, Complete members entity) :
    ParallelAgrees w splitting ealloc members ↔ ParallelSound w splitting ealloc members := by
  have entities := entities_agree filled splitting positive bound inside complete
  constructor
  · intro agrees
    refine ⟨entities.mp agrees.entities, fun chunked => ?_⟩
    have plain := plain_of_chunked filled chunked complete
    have parallel := @parEntitiesWithChunked_exactly _ _ _ ealloc w filled chunked nonempty splitting
      positive
    have serial := entitiesWith_exactly filled bound inside
    have both := (Lockstep.iff_exactly parallel serial (r := ∀ id, id ∉ ealloc.recyclable) (by
      rintro _ _ rfl rfl
      exact perm_iff inside)).mp (agrees.entitiesChunked chunked)
    have returned := both.1.mpr plain
    exact (stores_iff filled chunked positive complete (both.2 returned)).mp returned.2
  · rintro ⟨sound, reached⟩
    have chunks : (∀ member ∈ members, member.Chunked) → (∀ id, id ∉ ealloc.recyclable) ∧
        splitting.Fits w 1 ealloc.gauge ∧ ∀ member ∈ members, member.Stores 1 ealloc.gauge := by
      intro chunked
      have plain := plain_of_chunked filled chunked complete
      rcases sound with ⟨entity, listed, member, here, fails⟩ | ⟨whole, fits, -⟩
      · exact absurd ((plain entity listed).1 member here) fails
      · exact ⟨whole, fits, (stores_iff filled chunked positive complete whole).mpr (reached chunked)⟩
    refine ⟨entities.mpr sound, fun chunked => ?_, fun chunked => ?_⟩
    · obtain ⟨whole, fits, stores⟩ := chunks chunked
      have parallel := @parEntitiesWithChunked_exactly _ _ _ ealloc w filled chunked nonempty
        splitting positive
      obtain ⟨_, run, rfl⟩ := parallel.returns ⟨fits, stores⟩
      obtain ⟨_, run', rfl⟩ := (entitiesWith_exactly filled bound inside).returns
        (plain_of_chunked filled chunked complete)
      rw [run, run']
      exact .ok ((perm_iff inside).mpr whole)
    · obtain ⟨whole, fits, stores⟩ := chunks chunked
      have parallel := @parChunksWith_exactly _ _ _ ealloc w filled chunked splitting positive
      obtain ⟨taken, run, ids⟩ := parallel.returns ⟨fits, stores⟩
      obtain ⟨ranges, taken', -, ids', run', each⟩ :=
        chunksWith_ok filled chunked positive bound inside complete
      rw [run, run']
      refine .ok fun id => ?_
      rw [ids, taken_ranges each, ids']
      exact (holes_iff inside).mpr whole id

/-- Sixteen entities whose components are written, in two halves. -/
theorem parallel_iteration_halves :
    Splitting.cuts (.split .whole .whole) 1 17 = [9] ∧
    ParallelAgrees 32 (.split .whole .whole) ⟨17, .empty⟩
      [(⟨(), true, true,
        .vec ⟨16, false :: List.replicate 16 true, none :: List.replicate 16 (some 7)⟩⟩ :
        IntoZip fun _ : Unit => Nat)] := by
  refine ⟨rfl, (parallel_iteration _ (List.cons_ne_nil _ _) ?_ (by decide) (by decide)
    (fun id hole => absurd hole (SortedSet.not_mem_empty id)) ?_).mpr ?_⟩
  · intro member listed
    cases List.mem_singleton.mp listed
    exact ⟨(List.range' 1 16).map fun id => (id, some 7), rfl⟩
  · intro entity allocated member listed _
    cases List.mem_singleton.mp listed
    revert entity
    decide
  · constructor
    · refine .inr ⟨fun id => SortedSet.not_mem_empty id, ⟨by decide, fun _ => ⟨trivial, trivial⟩⟩, ?_⟩
      refine .inr fun member listed writes => ?_
      cases List.mem_singleton.mp listed
      exact writes
    · exact fun _ => .inl (by decide)

/-- A recyclable ID is visited in parallel, and a tree that is split for writing
panics. -/
theorem parallel_iteration_hole :
    ¬ ParallelAgrees 32 .whole ⟨3, ⟨[1], List.pairwise_singleton _ _⟩⟩
      [(⟨(), false, false, .tree .default⟩ : IntoZip fun _ : Unit => Nat)] ∧
    ¬ ParallelAgrees 32 (.split .whole .whole) ⟨17, .empty⟩
      [(⟨(), false, true, .tree .default⟩ : IntoZip fun _ : Unit => Nat)] := by
  constructor
  · intro agrees
    obtain ⟨items, run, perm⟩ := agrees.entities.of_ok (a := [(1, [⟨(), none⟩]), (2, [⟨(), none⟩])]) rfl
    cases run
    exact absurd perm.length_eq (by decide)
  · intro agrees
    have fails : parEntitiesWith 32 (.split .whole .whole) ⟨17, .empty⟩
        [(⟨(), false, true, .tree .default⟩ : IntoZip fun _ : Unit => Nat)] =
          .error (.notInPartition 9) := rfl
    have returns : entitiesWith 32 ⟨17, .empty⟩
        [(⟨(), false, true, .tree .default⟩ : IntoZip fun _ : Unit => Nat)] =
          .ok ((List.range' 1 16).map fun id => (id, [⟨(), none⟩])) := rfl
    obtain ⟨_, run, -⟩ := agrees.entities.to_ok returns
    cases fails.symm.trans run

end

end Dynec.System
