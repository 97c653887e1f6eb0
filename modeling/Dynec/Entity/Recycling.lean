import Dynec.Entity.Recycler
import Mathlib.Data.List.Sort

/-! The recycling allocator: new IDs come from a shared gauge, freed IDs are
spread over the recyclers of its shards when it is flushed. -/

namespace Dynec.Entity

/-- `Recycling<RawT, T, S>` for a raw type of width `w`. The choices of the
shard assigner are arguments of the operations. -/
structure Recycling (w : Nat) (T : Type) where
  /-- Whether `mark_need_flush` was called. -/
  flushMark : Bool
  /-- The next ID to allocate into shards. -/
  globalGauge : Nat
  /-- A sorted list of recycled IDs during the last join. -/
  recyclable : SortedSet Nat
  /-- The actual IDs assigned to different shards. -/
  recyclerShards : List T
  /-- The queue of deallocated IDs to distribute. -/
  deallocQueue : List Nat
  /-- The queue of allocated IDs during online, to be synced to recyclable
  after join. -/
  reuseQueueShards : List (List Nat)

/-- The view of an allocator that one shard has. -/
structure RecyclingShard (T : Type) where
  globalGauge : Nat
  recycler : T
  reuseQueue : List Nat

structure Snapshot where
  gauge : Nat
  recyclable : SortedSet Nat

/-- `fetch_add(1)` on the atomic wraps around, and zero is not an ID. -/
def fetchAdd (w gauge : Nat) : Except Panic Nat × Nat :=
  (if gauge = 0 then .error .integerOverflow else .ok gauge, (gauge + 1) % 2 ^ w)

namespace RecyclingShard

variable {T Hint : Type} [Recycler T Hint]

/-- Allocate from the gauge when the recycler has nothing. -/
def allocateNew (w : Nat) (self : RecyclingShard T) : Except Panic Nat × RecyclingShard T :=
  let (id, gauge) := fetchAdd w self.globalGauge
  (id, { self with globalGauge := gauge })

/-- `<RecyclingShard as Shard>::allocate`. -/
def shardAllocate (w : Nat) (hint : Hint) (self : RecyclingShard T) :
    Except Panic Nat × RecyclingShard T :=
  match Recycler.poll self.recycler hint with
  | .error e => (.error e, self)
  | .ok (some id, recycler) => (.ok id, { self with recycler })
  | .ok (none, recycler) => allocateNew w { self with recycler }

/-- The inherent `RecyclingShard::allocate`. -/
def allocate (w : Nat) (hint : Hint) (self : RecyclingShard T) :
    Except Panic Nat × RecyclingShard T :=
  match Recycler.poll self.recycler hint with
  | .error e => (.error e, self)
  | .ok (some id, recycler) =>
    (.ok id, { self with recycler, reuseQueue := self.reuseQueue ++ [id] })
  | .ok (none, recycler) => allocateNew w { self with recycler }

end RecyclingShard

/-! ## Distribution -/

/-- The variables of `distribute_sorted` when its loop ends. -/
structure Distribution where
  added : Nat
  target : Nat
  shardsUsed : Nat

/-- The loop over the sizes, from index `i` on. -/
def distributeLoop (total : Nat) : Nat → List Nat → Distribution → Except Panic Distribution
  | _, [], d => .ok d
  | i, size :: rest, d =>
    if size < d.target then .error .arithmeticOverflow
    else
      let delta := (size - d.target) * i
      if total ≤ d.added + delta then .ok d
      else distributeLoop total (i + 1) rest ⟨d.added + delta, size, d.shardsUsed + 1⟩

def distributeSorted (sizes : List Nat) (total : Nat) : Except Panic (List Nat) := do
  let d ← distributeLoop total 0 sizes ⟨0, 0, 0⟩
  if d.shardsUsed = 0 then
    return sizes -- no shards need updating
  else if total < d.added then
    .error .arithmeticOverflow
  else
    let deficit := total - d.added
    let target := d.target + deficit / d.shardsUsed
    let remainder := deficit % d.shardsUsed
    return List.replicate (d.shardsUsed - remainder) target ++
      List.replicate remainder (target + 1) ++ sizes.drop d.shardsUsed

/-! ## The allocator -/

namespace Recycling

variable {w : Nat} {T Hint : Type} [Recycler T Hint]

def new (w : Nat) (numShards : Nat) : Recycling w T where
  flushMark := false
  globalGauge := 1
  recyclable := .empty
  recyclerShards := List.replicate numShards (Recycler.default)
  deallocQueue := []
  reuseQueueShards := List.replicate numShards []

/-- Run an allocation on the shard with the given index. -/
def onShard (self : Recycling w T) (index : Nat)
    (run : RecyclingShard T → Except Panic Nat × RecyclingShard T) :
    Except Panic Nat × Recycling w T :=
  match self.recyclerShards[index]?, self.reuseQueueShards[index]? with
  | some recycler, some reuseQueue =>
    let (id, shard) := run ⟨self.globalGauge, recycler, reuseQueue⟩
    (id, { self with
      globalGauge := shard.globalGauge
      recyclerShards := self.recyclerShards.set index shard.recycler
      reuseQueueShards := self.reuseQueueShards.set index shard.reuseQueue })
  | _, _ => (.error .indexOutOfBounds, self)

/-- Allocate an ID in offline mode from the shard the assigner selects. -/
def allocate (self : Recycling w T) (shardId : Nat) (hint : Hint) :
    Except Panic Nat × Recycling w T :=
  self.onShard shardId (RecyclingShard.allocate w hint)

/-- Allocate an ID online through the shard handed to a worker. -/
def shardAllocate (self : Recycling w T) (shardId : Nat) (hint : Hint) :
    Except Panic Nat × Recycling w T :=
  self.onShard shardId (RecyclingShard.shardAllocate w hint)

def queueDeallocate (self : Recycling w T) (id : Nat) : Recycling w T :=
  { self with deallocQueue := self.deallocQueue ++ [id] }

def snapshot (self : Recycling w T) : Except Panic Snapshot :=
  if self.globalGauge = 0 then .error .invalidState
  else .ok ⟨self.globalGauge, self.recyclable⟩

/-- The indices of the shards, the smallest recyclers first. -/
def sortedShards (shards : List T) : List Nat :=
  (List.range shards.length).insertionSort fun i j =>
    (shards[i]?.map Recycler.len).getD 0 ≤ (shards[j]?.map Recycler.len).getD 0

/-- Hand a recycler the IDs that are missing to its target size. -/
def fillShard (s : List T × List Nat) (e : Nat × Nat) : Except Panic (List T × List Nat) := do
  let (shards, ids) := s
  let (index, targetSize) := e
  let recycler ← expect .indexOutOfBounds shards[index]?
  if targetSize < Recycler.len recycler then
    .error .arithmeticOverflow
  else
    let take := targetSize - Recycler.len recycler
    if ids.length < take then .error .splitOutOfRange
    else return (shards.set index (Recycler.extend recycler (ids.take take)), ids.drop take)

/-- Distribute IDs to all shards evenly. -/
def distribute (shards : List T) (ids : List Nat) : Except Panic (List T) := do
  let order := sortedShards shards
  let sizes := order.map fun i => (shards[i]?.map Recycler.len).getD 0
  let targetSizes ← distributeSorted sizes ids.length
  let (shards, _) ← (order.zip targetSizes).foldlM fillShard (shards, ids)
  return shards

/-- The free set after a flush: the deallocated IDs join it, and the reused
ones leave it. -/
def flushedRecyclable (self : Recycling w T) : SortedSet Nat :=
  (self.recyclable.extend self.deallocQueue).eraseAll self.reuseQueueShards.flatten

def flush (self : Recycling w T) : Except Panic (Recycling w T) := do
  let recyclerShards ← distribute self.recyclerShards self.deallocQueue
  return { self with
    flushMark := false
    recyclable := self.flushedRecyclable
    recyclerShards
    deallocQueue := []
    reuseQueueShards := self.reuseQueueShards.map fun _ => [] }

def markNeedFlush (self : Recycling w T) : Recycling w T := { self with flushMark := true }

def flushIfMarked (self : Recycling w T) : Except Panic (Recycling w T) :=
  if self.flushMark then self.flush else .ok self

end Recycling

/-! ## Snapshots -/

/-- `Raw::add` on a raw type of width `w`. -/
def addRaw (w a count : Nat) : Except Panic Nat :=
  if 2 ^ w ≤ a + count then .error .arithmeticOverflow else .ok (a + count)

/-- The gaps from `start` on. -/
def gapsFrom (w gauge : Nat) : Nat → List Nat → Except Panic (List (Nat × Nat))
  | start, [] => .ok [(start, gauge)]
  | start, breakpoint :: rest => do
    let next ← addRaw w breakpoint 1
    let gaps ← gapsFrom w gauge next rest
    return (start, breakpoint) :: gaps

def iterGaps (w gauge : Nat) (breakpoints : List Nat) : Except Panic (List (Nat × Nat)) := do
  let gaps ← gapsFrom w gauge 1 breakpoints
  return gaps.filter fun range => range.1 ≠ range.2

def Snapshot.iterAllocatedChunks (w : Nat) (self : Snapshot) : Except Panic (List (Nat × Nat)) :=
  iterGaps w self.gauge self.recyclable.toList

/-- The IDs in a list of ranges, as iterating them yields. -/
def rangeIds (ranges : List (Nat × Nat)) : List Nat :=
  ranges.flatMap fun range => List.range' range.1 (range.2 - range.1)

end Dynec.Entity
