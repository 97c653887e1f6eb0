import Dynec.Lib.Nested
import Dynec.System.Chunked

/-!
# Serial iteration

The members of a tuple may be tuples again. Iterating a nested tuple is
iterating the flat tuple of its accessors, so what is known about flat tuples
carries over. On vectors, the chunked iterators are then compared to a lookup of
every entity.
-/

namespace Dynec.System

open Fallible Entity Storage

variable {K : Type} {C : K → Type} {level : Level} {s : Shape level}

/-- An accessor, or a tuple. -/
abbrev NestedZip (C : K → Type) {level : Level} (s : Shape level) := Nested (Zip C) s

namespace NestedZip

def intoZip (zip : Nested (IntoZip C) s) : NestedZip C s := zip.map (·.intoZip)

/-- The tuple that stays, and the one that is split out. -/
def split (self : NestedZip C s) (offset : Nat) : Except Panic (NestedZip C s × NestedZip C s) := do
  let members ← self.mapM fun zip => zip.split offset
  return (members.map (·.1), members.map (·.2))

def get (self : NestedZip C s) (entity : Nat) : Except Panic (Nested (Item C) s) :=
  self.mapM fun zip => zip.get entity

def getChunk (self : NestedZip C s) (start stop : Nat) : Except Panic (Nested (Chunk C) s) :=
  self.mapM fun zip => zip.getChunk start stop

/-- `ZipChunked::chunk_to_entities`, where `uniform_izip!` is `zipAll`. -/
def chunkToEntities (chunk : Nested (Chunk C) s) : List (Nested (Item C) s) :=
  (chunk.map fun part => part.2.map fun handle => (⟨part.1, some handle⟩ : Item C)).zipAll

/-- `ZipIter::take_serial`, with the tuple that is left. -/
def takeSerial (w : Nat) (zip : NestedZip C s) (entity : Nat) :
    Except Panic (Nested (Item C) s × NestedZip C s) := do
  let offset ← addRaw w entity 1
  let (left, right) ← zip.split offset
  let item ← left.get entity
  return (item, right)

/-- `ZipIter::take_serial_chunk`, with the tuple that is left. -/
def takeSerialChunk (zip : NestedZip C s) (start stop : Nat) :
    Except Panic (Nested (Chunk C) s × NestedZip C s) := do
  let (left, right) ← zip.split stop
  let chunk ← left.getChunk start stop
  return (chunk, right)

def takeEntities (w : Nat) :
    NestedZip C s → List Nat → Except Panic (List (Nat × Nested (Item C) s))
  | _, [] => return []
  | zip, entity :: entities => do
    let (item, zip) ← takeSerial w zip entity
    let rest ← takeEntities w zip entities
    return (entity, item) :: rest

def takeChunks : NestedZip C s → List (Nat × Nat) →
    Except Panic (List ((Nat × Nat) × Nested (Chunk C) s))
  | _, [] => return []
  | zip, range :: ranges => do
    let (chunk, zip) ← takeSerialChunk zip range.1 range.2
    let rest ← takeChunks zip ranges
    return (range, chunk) :: rest

/-- `EntityIterator::entities_with` -/
def entitiesWith (w : Nat) (ealloc : Snapshot) (zip : Nested (IntoZip C) s) :
    Except Panic (List (Nat × Nested (Item C) s)) := do
  let chunks ← ealloc.iterAllocatedChunks w
  takeEntities w (intoZip zip) (rangeIds chunks)

/-- `EntityIterator::chunks_with` -/
def chunksWith (w : Nat) (ealloc : Snapshot) (zip : Nested (IntoZip C) s) :
    Except Panic (List ((Nat × Nat) × Nested (Chunk C) s)) := do
  let chunks ← ealloc.iterAllocatedChunks w
  takeChunks (intoZip zip) chunks

/-- `EntityIterator::entities_with_chunked` -/
def entitiesWithChunked (w : Nat) (ealloc : Snapshot) (zip : Nested (IntoZip C) s) :
    Except Panic (List (Nat × Nested (Item C) s)) := do
  let chunks ← chunksWith w ealloc zip
  return chunks.flatMap fun (entities, data) =>
    (rawRange entities.1 entities.2).zip (chunkToEntities data)

/-! ## The flat tuple -/

theorem split_leaves (zip : NestedZip C s) (offset : Nat) :
    Prod.map Nested.leaves Nested.leaves <$> zip.split offset = Tuple.split zip.leaves offset := by
  apply map_bind_of (Nested.mapM_leaves _ zip)
  intro members
  rw [← Nested.leaves_map, ← Nested.leaves_map]
  rfl

theorem takeSerial_leaves (w : Nat) (zip : NestedZip C s) (entity : Nat) :
    Prod.map Nested.leaves Nested.leaves <$> takeSerial w zip entity =
      System.takeSerial w zip.leaves entity := by
  apply map_bind_of (id_map _)
  intro offset
  refine map_bind_of (split_leaves zip offset) fun (left, right) => ?_
  exact map_bind_of (Nested.mapM_leaves _ left) fun item => rfl

theorem takeSerialChunk_leaves (zip : NestedZip C s) (start stop : Nat) :
    Prod.map Nested.leaves Nested.leaves <$> takeSerialChunk zip start stop =
      System.takeSerialChunk zip.leaves start stop := by
  refine map_bind_of (split_leaves zip stop) fun (left, right) => ?_
  exact map_bind_of (Nested.mapM_leaves _ left) fun chunk => rfl

theorem takeEntities_leaves (w : Nat) (zip : NestedZip C s) (entities : List Nat) :
    List.map (Prod.map id Nested.leaves) <$> takeEntities w zip entities =
      System.takeEntities w zip.leaves entities := by
  induction entities generalizing zip with
  | nil => rfl
  | cons entity entities ih =>
    refine map_bind_of (takeSerial_leaves w zip entity) fun (item, zip) => ?_
    exact map_bind_of (ih zip) fun rest => rfl

theorem takeChunks_leaves (zip : NestedZip C s) (ranges : List (Nat × Nat)) :
    List.map (Prod.map id Nested.leaves) <$> takeChunks zip ranges =
      System.takeChunks zip.leaves ranges := by
  induction ranges generalizing zip with
  | nil => rfl
  | cons range ranges ih =>
    refine map_bind_of (takeSerialChunk_leaves zip range.1 range.2) fun (chunk, zip) => ?_
    exact map_bind_of (ih zip) fun rest => rfl

theorem leaves_intoZip (zip : Nested (IntoZip C) s) :
    (intoZip zip).leaves = zip.leaves.map (·.intoZip) :=
  zip.leaves_map _

theorem entitiesWith_leaves (w : Nat) (ealloc : Snapshot) (zip : Nested (IntoZip C) s) :
    List.map (Prod.map id Nested.leaves) <$> entitiesWith w ealloc zip =
      System.entitiesWith w ealloc zip.leaves := by
  apply map_bind_of (id_map _)
  intro chunks
  rw [takeEntities_leaves, leaves_intoZip]
  rfl

theorem chunksWith_leaves (w : Nat) (ealloc : Snapshot) (zip : Nested (IntoZip C) s) :
    List.map (Prod.map id Nested.leaves) <$> chunksWith w ealloc zip =
      System.chunksWith w ealloc zip.leaves := by
  apply map_bind_of (id_map _)
  intro chunks
  rw [takeChunks_leaves, leaves_intoZip]
  rfl

end NestedZip

/-! ## Lookup -/

/-- What looking up an entity through the accessor returns, as a reference that
the iterators hand out. -/
def IntoZip.lookup (member : IntoZip C) (entity : Nat) : Except Panic (Item C) := do
  let value ← member.store.get entity
  return ⟨member.comp, value.map fun value =>
    if member.write then .mutable ⟨entity, value⟩ else .shared value⟩

theorem IntoZip.Filled.lookup {member : IntoZip C} (filled : member.Filled) (entity : Nat) :
    member.lookup entity = .ok (member.item entity) := by
  rw [IntoZip.lookup, filled.get entity]
  rfl

/-- Every component of the entity is there. -/
def Present (zip : Nested (IntoZip C) s) (entity : Nat) : Prop :=
  ∀ member ∈ zip.leaves, ∃ value, member.store.get entity = .ok (some value)

/-- The slices have the length of the chunk, and hold the components of its
entities in order. -/
def Aligned (zip : Nested (IntoZip C) s) (range : Nat × Nat) (data : Nested (Chunk C) s) : Prop :=
  List.Forall₂ (fun member part => part.2.length = range.2 - range.1 ∧
    ∀ i, i < range.2 - range.1 → member.lookup (range.1 + i) = .ok ⟨part.1, part.2[i]?⟩)
    zip.leaves data.leaves

/-- The iterators do what looking up every allocated entity does. -/
structure SerialAgrees (w : Nat) (ealloc : Snapshot) (zip : Nested (IntoZip C) s) : Prop where
  entities : ∃ items, NestedZip.entitiesWith w ealloc zip = .ok items ∧
    (items.map (·.1)).Pairwise (· < ·) ∧
    (∀ id, id ∈ items.map (·.1) ↔ ealloc.Allocated id) ∧
    ∀ item ∈ items, zip.mapM (fun member => member.lookup item.1) = .ok item.2
  entitiesChunked : (∀ member ∈ zip.leaves, member.must = true) →
    NestedZip.entitiesWithChunked w ealloc zip = NestedZip.entitiesWith w ealloc zip
  chunks : (∀ member ∈ zip.leaves, member.must = true) →
    ∃ chunks, NestedZip.chunksWith w ealloc zip = .ok chunks ∧
      (chunks.Pairwise fun chunk other => chunk.1.2 < other.1.1) ∧
      (∀ id, ealloc.Allocated id → ∃ chunk ∈ chunks, chunk.1.1 ≤ id ∧ id < chunk.1.2) ∧
      ∀ chunk ∈ chunks, ealloc.Maximal chunk.1 ∧ Aligned zip chunk.1 chunk.2

section

variable {zip : Nested (IntoZip C) s} {ealloc : Snapshot} {w : Nat}

/-- What a nested tuple yields for an entity. -/
def nestedEntry (zip : Nested (IntoZip C) s) (entity : Nat) : Nat × Nested (Item C) s :=
  (entity, zip.map fun member => member.item entity)

theorem nestedEntry_leaves (zip : Nested (IntoZip C) s) (entity : Nat) :
    Prod.map id Nested.leaves (nestedEntry zip entity) = entry zip.leaves entity :=
  congrArg (Prod.mk entity) (zip.leaves_map _)

theorem lookup_all (filled : ∀ member ∈ zip.leaves, member.Filled) (entity : Nat) :
    zip.mapM (fun member => member.lookup entity) =
      .ok (zip.map fun member => member.item entity) := by
  have flat := zip.mapM_leaves fun member => member.lookup entity
  rw [mapM_ok fun member listed => (filled member listed).lookup entity] at flat
  obtain ⟨items, run, same⟩ := map_eq_ok.mp flat
  rw [run, Nested.leaves_injective (same.trans (zip.leaves_map _).symm)]

theorem nested_entitiesWith (filled : ∀ member ∈ zip.leaves, member.Filled)
    (bound : ealloc.gauge < 2 ^ w)
    (inside : ∀ id ∈ ealloc.recyclable, 1 ≤ id ∧ id < ealloc.gauge)
    (plain : ∀ entity ∈ ealloc.asSlice.allocated, Plain zip.leaves entity) :
    NestedZip.entitiesWith w ealloc zip = .ok (ealloc.asSlice.allocated.map (nestedEntry zip)) := by
  obtain ⟨_, flat, rfl⟩ := (entitiesWith_exactly filled bound inside).returns plain
  rw [← NestedZip.entitiesWith_leaves] at flat
  obtain ⟨items, run, same⟩ := map_eq_ok.mp flat
  rw [run]
  congr 1
  refine (Function.injective_id.prodMap Nested.leaves_injective).list_map ?_
  rw [same, List.map_map]
  exact List.map_congr_left fun entity _ => (nestedEntry_leaves zip entity).symm

/-- The slices of a chunk, read side by side. -/
theorem chunkToEntities_eq {range : Nat × Nat} {data : Nested (Chunk C) s}
    (items : ChunkItems zip.leaves range.1 range.2 data.leaves) :
    NestedZip.chunkToEntities data = (rawRange range.1 range.2).map fun entity =>
      zip.map fun member => member.item entity := by
  have parts : data.map (fun part => part.2.map fun handle => (⟨part.1, some handle⟩ : Item C)) =
      zip.map fun member => (rawRange range.1 range.2).map member.item := by
    apply Nested.leaves_injective
    rw [Nested.leaves_map, Nested.leaves_map]
    exact eq_map_of_forall₂ (List.forall₂_map_right_iff.mpr items)
  rw [NestedZip.chunkToEntities, parts]
  exact Nested.zipAll_map (fun member => member.item) _ zip

theorem aligned_of_items (filled : ∀ member ∈ zip.leaves, member.Filled) {range : Nat × Nat}
    {data : Nested (Chunk C) s} (items : ChunkItems zip.leaves range.1 range.2 data.leaves) :
    Aligned zip range data := by
  refine ((List.forall₂_and_left _ _).mpr ⟨filled, items⟩).imp fun member part both => ?_
  obtain ⟨filled, same⟩ := both
  have length : part.2.length = range.2 - range.1 := by
    have lengths := congrArg List.length same
    rwa [List.length_map, List.length_map, rawRange, List.length_range'] at lengths
  refine ⟨length, fun i below => ?_⟩
  have here := congrArg (·[i]?) same
  rw [← length] at below
  simp only [List.getElem?_map, List.getElem?_eq_getElem below, rawRange, Option.map_some] at here
  rw [List.getElem?_range' (length ▸ below), Nat.one_mul, Option.map_some] at here
  rw [filled.lookup, ← Option.some.inj here, List.getElem?_eq_getElem below]

/-- The chunks with their slices, in the order of the snapshot. -/
theorem nested_chunksWith (filled : ∀ member ∈ zip.leaves, member.Filled)
    (chunked : ∀ member ∈ zip.leaves, member.Chunked) (positive : 1 ≤ ealloc.gauge)
    (bound : ealloc.gauge < 2 ^ w)
    (inside : ∀ id ∈ ealloc.recyclable, 1 ≤ id ∧ id < ealloc.gauge)
    (complete : ∀ entity ∈ ealloc.asSlice.allocated, Complete zip.leaves entity) :
    ∃ chunks, NestedZip.chunksWith w ealloc zip = .ok chunks ∧
      ealloc.iterAllocatedChunks w = .ok (chunks.map (·.1)) ∧
      rangeIds (chunks.map (·.1)) = ealloc.asSlice.allocated ∧
      ∀ chunk ∈ chunks, ChunkItems zip.leaves chunk.1.1 chunk.1.2 chunk.2.leaves := by
  obtain ⟨ranges, taken, gaps, listed, flat, each⟩ :=
    chunksWith_ok filled chunked positive bound inside complete
  rw [← NestedZip.chunksWith_leaves] at flat
  obtain ⟨chunks, run, rfl⟩ := map_eq_ok.mp flat
  have same : chunks.map (·.1) = ranges := by
    have ranges := taken_ranges each
    rwa [List.map_map] at ranges
  refine ⟨chunks, run, by rw [same, gaps], by rw [same, listed], fun chunk job => ?_⟩
  subst same
  rw [List.forall₂_map_left_iff, List.forall₂_map_right_iff, List.forall₂_same] at each
  exact (each chunk job).2

/-- Zipping the IDs of every chunk with its slices visits the entities in order. -/
theorem flatMap_chunks {chunks : List ((Nat × Nat) × Nested (Chunk C) s)}
    (items : ∀ chunk ∈ chunks, ChunkItems zip.leaves chunk.1.1 chunk.1.2 chunk.2.leaves) :
    (chunks.flatMap fun (entities, data) =>
      (rawRange entities.1 entities.2).zip (NestedZip.chunkToEntities data)) =
        (rangeIds (chunks.map (·.1))).map (nestedEntry zip) := by
  rw [rangeIds, List.flatMap_map, List.map_flatMap]
  apply List.flatMap_congr
  intro chunk job
  dsimp only
  rw [chunkToEntities_eq (items chunk job), List.zip_map_right, List.zip, List.zipWith_self,
    List.map_map]
  rfl

theorem allocated_iff {id : Nat} : id ∈ ealloc.asSlice.allocated ↔ ealloc.Allocated id := by
  rw [mem_allocated, mem_rawRange, and_assoc]
  rfl

end

/-- **Serial iteration.** On vectors that were filled by `set` and hold the
components of all allocated entities, the serial iterators return what looking
up every allocated entity does. -/
theorem serial_iteration {w : Nat} {ealloc : Snapshot} (zip : Nested (IntoZip C) s)
    (positive : 1 ≤ ealloc.gauge) (bound : ealloc.gauge < 2 ^ w)
    (inside : ∀ id ∈ ealloc.recyclable, 1 ≤ id ∧ id < ealloc.gauge)
    (filled : ∀ member ∈ zip.leaves, member.Filled) (onVec : ∀ member ∈ zip.leaves, member.OnVec)
    (present : ∀ id, ealloc.Allocated id → Present zip id) : SerialAgrees w ealloc zip := by
  have found : ∀ entity ∈ ealloc.asSlice.allocated, ∀ member ∈ zip.leaves,
      (member.found entity).isSome = true := by
    intro entity listed member here
    obtain ⟨value, stored⟩ := present entity (allocated_iff.mp listed) member here
    rw [(filled member here).get entity] at stored
    rw [Except.ok.inj stored]
    rfl
  have entities := nested_entitiesWith filled bound inside fun entity listed =>
    plain_of_present filled onVec (found entity listed)
  have chunks : (∀ member ∈ zip.leaves, member.must = true) → _ := fun must =>
    nested_chunksWith filled (fun member here => ⟨must member here, onVec member here⟩) positive
      bound inside fun entity listed member here _ => found entity listed member here
  refine ⟨⟨_, entities, ?_, fun id => ?_, fun item listed => ?_⟩, fun must => ?_, fun must => ?_⟩
  · rw [List.map_map]
    exact (List.map_id' _).symm ▸ (List.pairwise_lt_range' _).filter _
  · rw [List.map_map]
    exact (List.map_id' _).symm ▸ allocated_iff
  · obtain ⟨entity, -, rfl⟩ := List.mem_map.mp listed
    exact lookup_all filled entity
  · obtain ⟨taken, run, -, ids, items⟩ := chunks must
    rw [NestedZip.entitiesWithChunked, run, entities, ok_bind, flatMap_chunks items, ids]
    rfl
  · obtain ⟨taken, run, gaps, ids, items⟩ := chunks must
    obtain ⟨apart, maximal⟩ := iterAllocatedChunks_maximal positive bound inside gaps
    refine ⟨taken, run, List.pairwise_map.mp apart, fun id allocated => ?_, fun chunk job => ?_⟩
    · rw [← allocated_iff, ← ids] at allocated
      obtain ⟨range, job, within⟩ := List.mem_flatMap.mp allocated
      obtain ⟨chunk, listed, rfl⟩ := List.mem_map.mp job
      exact ⟨chunk, listed, mem_rawRange.mp within⟩
    · exact ⟨maximal chunk.1 (List.mem_map_of_mem job), aligned_of_items filled (items chunk job)⟩

theorem serial_iteration_hole :
    SerialAgrees 32 ⟨5, ⟨[3], List.pairwise_singleton _ _⟩⟩
      (.tuple (.more (.leaf ⟨false, true, false, .vec ⟨3, [false, true, true, false, true],
          [none, some 7, some 9, none, some 2]⟩⟩)
        (.last (.tuple (.last (.leaf ⟨true, true, true, .vec ⟨4, [false, true, true, true, true],
          [none, some 4, some 6, some 0, some 8]⟩⟩))))) : Nested (IntoZip fun _ : Bool => Nat) _) := by
  refine serial_iteration _ (by decide) (by decide) (by decide) ?_ ?_ ?_
  · intro member listed
    rcases List.mem_cons.mp listed with rfl | listed
    · exact ⟨[(1, some 7), (2, some 9), (4, some 2)], rfl⟩
    · cases List.mem_singleton.mp listed
      exact ⟨[(3, some 0), (1, some 4), (4, some 8), (2, some 6)], rfl⟩
  · intro member listed
    rcases List.mem_cons.mp listed with rfl | listed
    · exact ⟨_, rfl⟩
    · cases List.mem_singleton.mp listed
      exact ⟨_, rfl⟩
  · rintro id ⟨first, below, free⟩ member listed
    have cases : id = 1 ∨ id = 2 ∨ id = 4 := by
      have other : id ≠ 3 := fun same => free (List.mem_singleton.mpr same)
      dsimp only at below
      omega
    rcases List.mem_cons.mp listed with rfl | listed
    · rcases cases with rfl | rfl | rfl <;> exact ⟨_, rfl⟩
    · cases List.mem_singleton.mp listed
      rcases cases with rfl | rfl | rfl <;> exact ⟨_, rfl⟩

end Dynec.System
