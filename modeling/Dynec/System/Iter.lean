import Dynec.Entity.Slices
import Dynec.Storage.Partitions

/-! Iteration over the entities of an archetype, with the components of several
accessors. -/

namespace Dynec.System

open Entity Storage

variable {K : Type} {C : K → Type}

/-- The storage of a component type, one of the two provided. -/
inductive Store (C : Type) where
  | vec (storage : VecStorage C)
  | tree (storage : Storage.Tree C)

def Store.get {C : Type} (self : Store C) (id : Nat) : Except Panic (Option C) :=
  match self with
  | .vec storage => storage.get id
  | .tree storage => return storage.get id

/-- A shared reference to a component, or a mutable one. -/
inductive Handle (C : Type) where
  | shared (value : C)
  | mutable (ref : CompMut C)
  deriving DecidableEq, Repr

/-- `access::Single`: a borrowed storage, or a partition of one. -/
inductive Accessor (C : Type) where
  | storage (store : Store C)
  | vec (part : VecPartition C)
  | tree (part : TreePartition C)

/-- What is passed for one member of the tuple: a reference to an accessor of a
component type, mutable or not, and wrapped with `Try` or not. -/
structure IntoZip (C : K → Type) where
  comp : K
  must : Bool
  write : Bool
  store : Store (C comp)

/-- `Read` or `Write`. Its resolution of missing components is `MustMissingResln`
or `TryMissingResln`. -/
structure Zip (C : K → Type) where
  comp : K
  must : Bool
  accessor : Accessor (C comp)

def IntoZip.intoZip (self : IntoZip C) : Zip C where
  comp := self.comp
  must := self.must
  accessor :=
    match self.write, self.store with
    | false, store => .storage store
    | true, .vec storage => .vec storage.asPartition
    | true, .tree storage => .tree storage.asPartition

/-- `MissingResln::must_or_try` -/
def mustOrTry {α : Type} (must : Bool) : Option α → Except Panic (Option α)
  | some value => return some value
  | none => if must then .error .missingMust else return none

/-- The component of one accessor for an entity. -/
abbrev Item (C : K → Type) := (comp : K) × Option (Handle (C comp))

/-- The components of one accessor for a chunk. -/
abbrev Chunk (C : K → Type) := (comp : K) × List (Handle (C comp))

namespace Zip

/-- The member that stays, and the one that is split out. -/
def split (self : Zip C) (offset : Nat) : Except Panic (Zip C × Zip C) :=
  match self with
  | ⟨comp, must, .storage store⟩ => return (⟨comp, must, .storage store⟩, ⟨comp, must, .storage store⟩)
  | ⟨comp, must, .vec part⟩ => do
    let (left, right) ← part.splitOut offset
    return (⟨comp, must, .vec left⟩, ⟨comp, must, .vec right⟩)
  | ⟨comp, must, .tree part⟩ => do
    let (left, right) ← part.splitOut offset
    return (⟨comp, must, .tree left⟩, ⟨comp, must, .tree right⟩)

def get (self : Zip C) (entity : Nat) : Except Panic (Item C) :=
  match self with
  | ⟨comp, must, .storage store⟩ => do
    let found ← mustOrTry must (← store.get entity)
    return ⟨comp, found.map .shared⟩
  | ⟨comp, must, .vec part⟩ => do
    let found ← mustOrTry must (← part.intoMut entity)
    return ⟨comp, found.map .mutable⟩
  | ⟨comp, must, .tree part⟩ => do
    let found ← mustOrTry must (← part.intoMut entity)
    return ⟨comp, found.map .mutable⟩

/-- `ZipChunked::get_chunk`, which trees do not implement. -/
def getChunk (self : Zip C) (start stop : Nat) : Except Panic (Chunk C) :=
  match self with
  | ⟨comp, _, .storage (.vec storage)⟩ => do
    let values ← expect .chunkNotFilled (← storage.getChunk start stop)
    return ⟨comp, values.map .shared⟩
  | ⟨comp, _, .vec part⟩ => do
    let refs ← expect .missingMust (← part.intoChunkMut start stop)
    return ⟨comp, refs.map .mutable⟩
  | _ => .error .notChunked

end Zip

/-! ## Tuples -/

/-- A tuple of members. -/
abbrev Tuple (C : K → Type) := List (Zip C)

namespace Tuple

def split (self : Tuple C) (offset : Nat) : Except Panic (Tuple C × Tuple C) := do
  let members ← self.mapM fun zip => zip.split offset
  return (members.map (·.1), members.map (·.2))

def get (self : Tuple C) (entity : Nat) : Except Panic (List (Item C)) :=
  self.mapM fun zip => zip.get entity

def getChunk (self : Tuple C) (start stop : Nat) : Except Panic (List (Chunk C)) :=
  self.mapM fun zip => zip.getChunk start stop

end Tuple

/-- `uniform_izip!` -/
def uniformIzip {α : Type} : List (List α) → List (List α)
  | [] => []
  | [values] => values.map ([·])
  | values :: rest => List.zipWith (· :: ·) values (uniformIzip rest)

/-- `ZipChunked::chunk_to_entities` -/
def chunkToEntities (chunk : List (Chunk C)) : List (List (Item C)) :=
  uniformIzip (chunk.map fun part => part.2.map fun handle => ⟨part.1, some handle⟩)

/-! ## Iterators -/

/-- `ZipIter::take_serial`, with the tuple that is left. -/
def takeSerial (w : Nat) (zip : Tuple C) (entity : Nat) :
    Except Panic (List (Item C) × Tuple C) := do
  let offset ← addRaw w entity 1
  let (left, right) ← zip.split offset
  let item ← left.get entity
  return (item, right)

/-- `ZipIter::take_serial_chunk`, with the tuple that is left. -/
def takeSerialChunk (zip : Tuple C) (start stop : Nat) :
    Except Panic (List (Chunk C) × Tuple C) := do
  let (left, right) ← zip.split stop
  let chunk ← left.getChunk start stop
  return (chunk, right)

/-- Take the entities one after the other. -/
def takeEntities (w : Nat) : Tuple C → List Nat → Except Panic (List (Nat × List (Item C)))
  | _, [] => return []
  | zip, entity :: entities => do
    let (item, zip) ← takeSerial w zip entity
    let rest ← takeEntities w zip entities
    return (entity, item) :: rest

/-- Take the chunks one after the other. -/
def takeChunks : Tuple C → List (Nat × Nat) → Except Panic (List ((Nat × Nat) × List (Chunk C)))
  | _, [] => return []
  | zip, range :: ranges => do
    let (chunk, zip) ← takeSerialChunk zip range.1 range.2
    let rest ← takeChunks zip ranges
    return (range, chunk) :: rest

/-- `Raw::range` -/
def rawRange (start stop : Nat) : List Nat := List.range' start (stop - start)

/-- `EntityIterator::entities_with` -/
def entitiesWith (w : Nat) (ealloc : Snapshot) (zip : List (IntoZip C)) :
    Except Panic (List (Nat × List (Item C))) := do
  let chunks ← ealloc.iterAllocatedChunks w
  takeEntities w (zip.map (·.intoZip)) (rangeIds chunks)

/-- `EntityIterator::chunks_with` -/
def chunksWith (w : Nat) (ealloc : Snapshot) (zip : List (IntoZip C)) :
    Except Panic (List ((Nat × Nat) × List (Chunk C))) := do
  let chunks ← ealloc.iterAllocatedChunks w
  takeChunks (zip.map (·.intoZip)) chunks

/-- Which jobs rayon attempts to split. -/
inductive Splitting where
  | whole
  | split (left right : Splitting)
  deriving DecidableEq, Repr

/-- The jobs of `EntityIterator::par_raw_chunks`, from left to right. A job that
cannot be split is not split. -/
def parRawJobs (w : Nat) : Splitting → Slice → Tuple C → Except Panic (List (Slice × Tuple C))
  | .whole, slice, zip => return [(slice, zip)]
  | .split left right, slice, zip => do
    match ← slice.midpointForSplit w with
    | none => return [(slice, zip)]
    | some midpt =>
      let (sliceLeft, sliceRight) := slice.splitAt midpt
      let (zipLeft, zipRight) ← zip.split midpt
      let lefts ← parRawJobs w left sliceLeft zipLeft
      let rights ← parRawJobs w right sliceRight zipRight
      return lefts ++ rights

def parRawChunks (w : Nat) (splitting : Splitting) (ealloc : Snapshot) (zip : List (IntoZip C)) :
    Except Panic (List (Slice × Tuple C)) :=
  parRawJobs w splitting ealloc.asSlice (zip.map (·.intoZip))

/-- `EntityIterator::par_entities_with` -/
def parEntitiesWith (w : Nat) (splitting : Splitting) (ealloc : Snapshot) (zip : List (IntoZip C)) :
    Except Panic (List (Nat × List (Item C))) := do
  let jobs ← parRawChunks w splitting ealloc zip
  let lists ← jobs.mapM fun job => takeEntities w job.2 (rawRange job.1.start job.1.stop)
  return lists.flatten

/-- `EntityIterator::par_chunks_with` -/
def parChunksWith (w : Nat) (splitting : Splitting) (ealloc : Snapshot) (zip : List (IntoZip C)) :
    Except Panic (List ((Nat × Nat) × List (Chunk C))) := do
  let jobs ← parRawChunks w splitting ealloc zip
  jobs.mapM fun job => do
    let (chunk, _) ← takeSerialChunk job.2 job.1.start job.1.stop
    return ((job.1.start, job.1.stop), chunk)

/-- `EntityIterator::par_entities_with_chunked` -/
def parEntitiesWithChunked (w : Nat) (splitting : Splitting) (ealloc : Snapshot)
    (zip : List (IntoZip C)) : Except Panic (List (Nat × List (Item C))) := do
  let jobs ← parRawChunks w splitting ealloc zip
  let lists ← jobs.mapM fun job => do
    let (chunk, _) ← takeSerialChunk job.2 job.1.start job.1.stop
    return (rawRange job.1.start job.1.stop).zip (chunkToEntities chunk)
  return lists.flatten

end Dynec.System
