import Dynec.World.Builder
import Dynec.World.Init

/-! The world: its archetypes, the creation and deletion of entities, and the
operations that are buffered until the end of a cycle. -/

namespace Dynec.World

open Entity (Recycling)

variable {V : Type}

/-! ## Stores -/

/-- `vec.resize(id + 1, default)` when the vector is shorter. -/
def resized {α : Type} (vec : List α) (id : Nat) (default : α) : List α :=
  vec ++ List.replicate (id + 1 - vec.length) default

/-- `generation::Store::next`: bump the generation of an entity, a wrapping
`u32`. -/
def nextGeneration (store : List Nat) (id : Nat) : List Nat :=
  (resized store id 0).modify id fun generation => (generation + 1) % 2 ^ 32

/-- `generation::Store::get`. -/
def generationOf (store : List Nat) (id : Nat) : Nat := store[id]?.getD 0

/-- `rctrack::StoreMap::set` on the store of one archetype: start tracking a
strong reference. -/
def rctrackSet (store : Option (List (Option Nat))) (id rc : Nat) :
    Except Panic (Option (List (Option Nat))) :=
  let vec := resized (store.getD []) id none
  match vec[id]? with
  | some none => .ok (some (vec.set id (some rc)))
  | _ => .error .notFreed

/-- `rctrack::StoreMap::remove` on the store of one archetype. -/
def rctrackRemove (store : Option (List (Option Nat))) (id : Nat) :
    Except Panic (Nat × Option (List (Option Nat))) := do
  let vec ← expect .unexpectedArchetype store
  let slot ← expect .nonexistentId vec[id]?
  let rc ← expect .doubleFree slot
  return (rc, some (vec.set id none))

/-- The part of `init_entity` that is compiled with reference counting. -/
def trackReference (types : Types V) (store : Option (List (Option Nat))) (id rc : Nat) :
    Except Panic (Option (List (Option Nat))) :=
  if types.entityRc then rctrackSet store id rc else .ok store

/-- The part of `try_real_delete_entity` that is compiled with reference
counting: the tracked reference must be the last one. -/
def untrackReference (types : Types V) (references : List Nat)
    (store : Option (List (Option Nat))) (arch : DbgTypeId) (entity : Nat) :
    Except Panic (Option (List (Option Nat))) :=
  if types.entityRc then do
    let (rc, store) ← rctrackRemove store entity
    if references[rc]?.getD 0 = 0 then return store
    else .error (.danglingReference arch entity)
  else .ok store

/-- What a world stores for one archetype: its entry in each of the maps of the
allocators, of the component storages, of the generations, and of the tracked
references. The last map has no entry before the first entity. -/
structure Archetype (w : Nat) (T V : Type) where
  ealloc : Recycling w T
  typed : Typed V
  generations : List Nat
  rctrack : Option (List (Option Nat))

inductive Operation (V : Type) where
  | createEntity (arch : DbgTypeId) (entity rc : Nat) (compMap : CompMap V)
  | deleteEntity (arch : DbgTypeId) (entity : Nat)

/-- The archetype an operation is about. -/
def Operation.arch : Operation V → DbgTypeId
  | .createEntity arch _ _ _ => arch
  | .deleteEntity arch _ => arch

/-- The entity an operation is about. -/
def Operation.entity : Operation V → Nat
  | .createEntity _ entity _ _ => entity
  | .deleteEntity _ entity => entity

inductive OperationResult where
  | ok
  | queueForRerun
  deriving DecidableEq, Repr

/-- A sharded store for offline operations. -/
structure Buffer (V : Type) where
  rerunQueue : List (Operation V)
  shards : List (List (Operation V))

inductive DeleteResult where
  | deleted
  | terminating
  deriving DecidableEq, Repr

end Dynec.World

namespace Dynec

open World

/-- The world. Reference counters are numbered: `references` counts the strong
references that the program holds on each of them, apart from those in
`rctrack` and in buffered operations. -/
structure World (w : DbgTypeId → Nat) (T : DbgTypeId → Type) (V : Type) where
  archetypes : AList fun arch => Archetype (w arch) (T arch) V
  offlineBuffer : Buffer V
  references : List Nat

end Dynec

namespace Dynec.World

open Entity (Recycling Recycler Snapshot)

variable {V : Type} {w : DbgTypeId → Nat} {T Hint : DbgTypeId → Type}

/-- Constructs the world from the builder, with one shard for each worker and
one for the main thread. -/
def Builder.build {U : Type} [∀ arch, Recycler (T arch) (Hint arch)] (self : Builder U V) :
    World w T V where
  archetypes := self.archetypes.entries.foldr (fun e archetypes => archetypes.insert e.1
    ⟨.new (w e.1) (self.scheduler.concurrency + 1), e.2, [], none⟩) ∅
  offlineBuffer := ⟨[], List.replicate (self.scheduler.concurrency + 1) []⟩
  references := []

/-- `components.archetype::<A>()`, and the lookups in the other maps. -/
def archetype (self : World w T V) (arch : DbgTypeId) :
    Except Panic (Archetype (w arch) (T arch) V) :=
  expect (.unusedArchetype arch) (self.archetypes.lookup arch)

def setArchetype (self : World w T V) (arch : DbgTypeId)
    (archetype : Archetype (w arch) (T arch) V) : World w T V :=
  { self with archetypes := self.archetypes.insert arch archetype }

/-- `Entity::new_allocated`: a new counter, with the reference that is
returned. -/
def newAllocated (self : World w T V) : Nat × World w T V :=
  (self.references.length, { self with references := self.references ++ [1] })

/-- Initialize an entity after allocation. -/
def initEntity (types : Types V) (self : World w T V) (arch : DbgTypeId) (id rc : Nat)
    (compMap : CompMap V) : Except Panic (World w T V) := do
  let archetype ← self.archetype arch
  let rctrack ← trackReference types archetype.rctrack id rc
  let typed ← archetype.typed.initEntity types arch id compMap archetype.ealloc
  return self.setArchetype arch { archetype with
    generations := nextGeneration archetype.generations id, rctrack, typed }

/-- Delete an entity immediately if there are no finalizers. -/
def tryRealDeleteEntity (types : Types V) (self : World w T V) (arch : DbgTypeId) (entity : Nat) :
    Except Panic (DeleteResult × World w T V) := do
  let archetype ← self.archetype arch
  if archetype.typed.hasFinalizer types arch entity then
    return (.terminating, self)
  else
    let typed := archetype.typed.clearEntry entity
    let rctrack ← untrackReference types self.references archetype.rctrack arch entity
    return (.deleted, self.setArchetype arch { archetype with
      typed, rctrack, ealloc := archetype.ealloc.queueDeallocate entity })

/-- Flag an entity for deletion, and delete it immediately if there are no
finalizers. -/
def flagDeleteEntity (types : Types V) (self : World w T V) (arch : DbgTypeId) (id : Nat) :
    Except Panic (DeleteResult × World w T V) := do
  let archetype ← self.archetype arch
  let typed ← archetype.typed.setSimple .missingFlag types.flag id (some types.flagValue)
  tryRealDeleteEntity types (self.setArchetype arch { archetype with typed }) arch id

/-! ## Offline operations -/

/-- Run a buffered operation during offline. -/
def runOperation (types : Types V) (self : World w T V) :
    Operation V → Except Panic (OperationResult × World w T V)
  | .createEntity arch entity rc compMap => do
    let self ← self.initEntity types arch entity rc compMap
    return (.ok, self)
  | .deleteEntity arch entity => do
    let (result, self) ← self.flagDeleteEntity types arch entity
    match result with
    | .deleted => return (.ok, self)
    | .terminating => return (.queueForRerun, self)

/-- One round of the loop of `drain_cycle`, with its new queue. -/
def drainOperation (types : Types V) (s : World w T V × List (Operation V)) (op : Operation V) :
    Except Panic (World w T V × List (Operation V)) := do
  let (result, self) ← s.1.runOperation types op
  match result with
  | .ok => return (self, s.2)
  | .queueForRerun => return (self, s.2 ++ [op])

def Buffer.operations (self : Buffer V) : List (Operation V) :=
  self.rerunQueue ++ self.shards.flatten

def drainCycle (types : Types V) (self : World w T V) : Except Panic (World w T V) := do
  let drained := { self with
    offlineBuffer := ⟨[], self.offlineBuffer.shards.map fun _ => []⟩ }
  let (world, newQueue) ← self.offlineBuffer.operations.foldlM (drainOperation types)
    (drained, [])
  return { world with offlineBuffer := { world.offlineBuffer with rerunQueue := newQueue } }

/-! ## The allocators of a cycle -/

variable [∀ arch, Recycler (T arch) (Hint arch)]

/-- A loop over all allocators. -/
def forEalloc (f : ∀ arch, Recycling (w arch) (T arch) → Except Panic (Recycling (w arch) (T arch)))
    (self : World w T V) : Except Panic (World w T V) := do
  let archetypes ← HashMap.updateM (fun arch (a : Archetype (w arch) (T arch) V) => do
    let ealloc ← f arch a.ealloc
    return { a with ealloc }) self.archetypes
  return { self with archetypes }

/-- The snapshots that `shards` hands out with the shards. -/
def snapshots (self : World w T V) : Except Panic (HashMap DbgTypeId Snapshot) :=
  self.archetypes.entries.foldlM (fun snapshots e => do
    let snapshot ← e.2.ealloc.snapshot
    return snapshots.insert e.1 snapshot) ∅

def flushIfMarked (self : World w T V) : Except Panic (World w T V) :=
  self.forEalloc fun _ ealloc => ealloc.flushIfMarked

/-- The loop at the end of `execute_full_cycle`. -/
def flush (self : World w T V) : Except Panic (World w T V) :=
  self.forEalloc fun _ ealloc => ealloc.flush

/-! ## Component access -/

/-- `set` through an accessor of a simple storage. -/
def setSimple (self : World w T V) (arch comp : DbgTypeId) (id : Nat) (value : Option V) :
    Except Panic (World w T V) := do
  let archetype ← self.archetype arch
  let typed ← archetype.typed.setSimple (.unusedComponent comp) comp id value
  return self.setArchetype arch { archetype with typed }

/-- An isotope accessor obtains the storage of a discriminant. -/
def openIsotope (types : Types V) (self : World w T V) (snapshot : Snapshot)
    (arch comp : DbgTypeId) (discrim : Discrim) : Except Panic (World w T V) := do
  let archetype ← self.archetype arch
  let map ← expect (.unusedComponent comp) (archetype.typed.isotopeStorageMaps.lookup comp)
  let (_, map) ← map.getOrCreate (types.isotopeOf arch comp) discrim
    (allocatedIds (w arch) snapshot)
  return self.setArchetype arch { archetype with typed := { archetype.typed with
    isotopeStorageMaps := archetype.typed.isotopeStorageMaps.insert comp map } }

/-- `set` through an isotope accessor. -/
def setIsotope (self : World w T V) (arch comp : DbgTypeId) (discrim : Discrim) (id : Nat)
    (value : Option V) : Except Panic (World w T V) := do
  let archetype ← self.archetype arch
  let map ← expect (.unusedComponent comp) (archetype.typed.isotopeStorageMaps.lookup comp)
  let storage ← expect .invalidKey (map.lookup discrim)
  return self.setArchetype arch { archetype with typed := { archetype.typed with
    isotopeStorageMaps := archetype.typed.isotopeStorageMaps.insert comp
      (map.insert discrim (storage.set id value)) } }

/-- The value of a simple component. -/
def getSimple (self : World w T V) (arch comp : DbgTypeId) (id : Nat) : Option V := do
  let archetype ← self.archetypes.lookup arch
  archetype.typed.getSimple comp id

/-- The value `get_isotope` finds. -/
def getIsotope (self : World w T V) (arch comp : DbgTypeId) (discrim : Discrim) (id : Nat) :
    Option V := do
  let archetype ← self.archetypes.lookup arch
  archetype.typed.getIsotope comp discrim id

/-! ## Host code -/

def createWithHint (types : Types V) (self : World w T V) (arch : DbgTypeId) (shardId : Nat)
    (hint : Hint arch) (compMap : CompMap V) : Except Panic (Nat × World w T V) := do
  let archetype ← self.archetype arch
  let (id, ealloc) := archetype.ealloc.allocate shardId hint
  let id ← id
  let (rc, self) := (self.setArchetype arch { archetype with ealloc }).newAllocated
  let self ← self.initEntity types arch id rc compMap
  return (id, self)

def markNeedFlush (self : World w T V) (arch : DbgTypeId) : Except Panic (World w T V) := do
  let archetype ← self.archetype arch
  return self.setArchetype arch { archetype with ealloc := archetype.ealloc.markNeedFlush }

/-- Try to delete an entity, after the given reference to it was dropped. -/
def delete (types : Types V) (self : World w T V) (arch : DbgTypeId) (id : Nat) :
    Except Panic (DeleteResult × World w T V) := do
  let self ← self.markNeedFlush arch
  let (result, self) ← self.flagDeleteEntity types arch id
  match result with
  | .deleted => return (result, self)
  | .terminating => return (result, { self with offlineBuffer := { self.offlineBuffer with
      rerunQueue := self.offlineBuffer.rerunQueue ++ [.deleteEntity arch id] } })

/-! ## Systems -/

/-- Push an operation to the buffer shard of a worker. -/
def pushOperation (self : World w T V) (worker : Nat) (op : Operation V) :
    Except Panic (World w T V) := do
  let items ← expect .indexOutOfBounds self.offlineBuffer.shards[worker]?
  return { self with offlineBuffer := { self.offlineBuffer with
    shards := self.offlineBuffer.shards.set worker (items ++ [op]) } }

/-- Create an entity with the given allocator shard and queue it for
initialization. -/
def createEntityWithHintAndShard (self : World w T V) (worker : Nat) (arch : DbgTypeId)
    (shardId : Nat) (hint : Hint arch) (compMap : CompMap V) :
    Except Panic (Nat × World w T V) := do
  let archetype ← self.archetype arch
  let (id, ealloc) := archetype.ealloc.shardAllocate shardId hint
  let id ← id
  let (rc, self) := (self.setArchetype arch { archetype with ealloc }).newAllocated
  let self ← self.pushOperation worker (.createEntity arch id rc compMap)
  return (id, self)

/-- Queue an entity deletion. -/
def deleteEntity (self : World w T V) (worker : Nat) (arch : DbgTypeId) (id : Nat) :
    Except Panic (World w T V) :=
  self.pushOperation worker (.deleteEntity arch id)

end Dynec.World
