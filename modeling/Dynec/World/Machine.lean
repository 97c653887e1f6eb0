import Dynec.World.State

/-!
# Runs of a world

A world is in the hands of host code, or it executes systems on several
workers, or it drains the buffered operations at the end of a cycle. What
systems do is not constrained: they act in any order, on any worker. Host code
could also use the allocators, open isotope storages and change generations, all
behind public fields of the world; this is not part of a run.
-/

namespace Dynec.World

open Entity (Recycling Recycler Snapshot)

/-- The entities of an archetype: the IDs that allocations returned, those
passed to `queue_deallocate`, those created and not deleted, and those
initialized and not deleted. -/
structure Roll where
  created : List Nat
  freed : List Nat
  live : List Nat
  ready : List Nat

namespace Roll

def empty : Roll := ⟨[], [], [], []⟩

def create (r : Roll) (id : Nat) : Roll :=
  { r with created := id :: r.created, live := id :: r.live }

def init (r : Roll) (id : Nat) : Roll := { r with ready := id :: r.ready }

def free (r : Roll) (id : Nat) : Roll :=
  { r with freed := id :: r.freed, live := r.live.erase id, ready := r.ready.erase id }

end Roll

/-- While systems run, each worker has one shard of every allocator, and the
snapshots taken when the shards were handed out. While operations are drained,
some are still to do and some are queued for the next cycle. -/
inductive Phase (V : Type) where
  | host
  | online (assign : DbgTypeId → List Nat) (snapshots : HashMap DbgTypeId Snapshot)
  | draining (todo newQueue : List (Operation V))

structure Machine (w : DbgTypeId → Nat) (T : DbgTypeId → Type) (V : Type) where
  world : World w T V
  phase : Phase V
  roll : DbgTypeId → Roll

inductive Label (Hint : DbgTypeId → Type) (V : Type) where
  | create (arch : DbgTypeId) (shardId : Nat) (hint : Hint arch) (compMap : CompMap V)
  | delete (arch : DbgTypeId) (id : Nat)
  | setSimple (arch comp : DbgTypeId) (id : Nat) (value : Option V)
  | openIsotope (arch comp : DbgTypeId) (discrim : Discrim)
  | setIsotope (arch comp : DbgTypeId) (discrim : Discrim) (id : Nat) (value : Option V)
  | cloneReference (rc : Nat)
  | dropReference (rc : Nat)
  | execute (assign : DbgTypeId → List Nat)
  | createOnline (worker : Nat) (arch : DbgTypeId) (hint : Hint arch) (compMap : CompMap V)
  | deleteOnline (worker : Nat) (arch : DbgTypeId) (id : Nat)
  | join
  | drain
  | flush

variable {U V : Type} {w : DbgTypeId → Nat} {T Hint : DbgTypeId → Type}
  [∀ arch, Recycler (T arch) (Hint arch)]

namespace Machine

def start (b : Builder U V) : Machine w T V := ⟨b.build, .host, fun _ => .empty⟩

/-- Whether component storages can be accessed. -/
def Accessible (s : Machine w T V) : Prop :=
  match s.phase with
  | .draining _ _ => False
  | _ => True

omit [∀ arch, Recycler (T arch) (Hint arch)] in
/-- Change the roll of one archetype. -/
def enroll (s : Machine w T V) (arch : DbgTypeId) (f : Roll → Roll) : DbgTypeId → Roll :=
  Function.update s.roll arch (f (s.roll arch))

/-- The calls that return. -/
inductive Step (types : Types V) (s : Machine w T V) : Label Hint V → Machine w T V → Prop
  | create (arch : DbgTypeId) (shardId : Nat) (hint : Hint arch) (compMap : CompMap V) {id world}
      (host : s.phase = .host)
      (run : s.world.createWithHint types arch shardId hint compMap = .ok (id, world)) :
      Step types s (.create arch shardId hint compMap)
        { s with world, roll := s.enroll arch fun r => (r.create id).init id }
  | delete (arch : DbgTypeId) (id : Nat) {world} (host : s.phase = .host)
      (run : s.world.delete types arch id = .ok (.deleted, world)) :
      Step types s (.delete arch id) { s with world, roll := s.enroll arch (·.free id) }
  | deleteTerminating (arch : DbgTypeId) (id : Nat) {world} (host : s.phase = .host)
      (run : s.world.delete types arch id = .ok (.terminating, world)) :
      Step types s (.delete arch id) { s with world }
  | setSimple (arch comp : DbgTypeId) (id : Nat) (value : Option V) {world}
      (accessible : s.Accessible) (hidden : comp ≠ types.flag)
      (run : s.world.setSimple arch comp id value = .ok world) :
      Step types s (.setSimple arch comp id value) { s with world }
  | openIsotope (arch comp : DbgTypeId) (discrim : Discrim) {assign snapshots snapshot world}
      (online : s.phase = .online assign snapshots)
      (taken : snapshots.lookup arch = some snapshot)
      (run : s.world.openIsotope types snapshot arch comp discrim = .ok world) :
      Step types s (.openIsotope arch comp discrim) { s with world }
  | setIsotope (arch comp : DbgTypeId) (discrim : Discrim) (id : Nat) (value : Option V)
      {assign snapshots world} (online : s.phase = .online assign snapshots)
      (run : s.world.setIsotope arch comp discrim id value = .ok world) :
      Step types s (.setIsotope arch comp discrim id value) { s with world }
  | getIsotope (arch comp : DbgTypeId) (discrim : Discrim) (id : Nat) (value : V) {world}
      (host : s.phase = .host)
      (present : (s.world.getIsotope arch comp discrim id).isSome = true)
      (run : s.world.setIsotope arch comp discrim id (some value) = .ok world) :
      Step types s (.setIsotope arch comp discrim id (some value)) { s with world }
  | cloneReference (rc : Nat) (accessible : s.Accessible) :
      Step types s (.cloneReference rc) { s with
        world := { s.world with references := s.world.references.modify rc (· + 1) } }
  | dropReference (rc : Nat) (accessible : s.Accessible) :
      Step types s (.dropReference rc) { s with
        world := { s.world with references := s.world.references.modify rc (· - 1) } }
  | execute (assign : DbgTypeId → List Nat) {world snapshots} (host : s.phase = .host)
      (flushed : s.world.flushIfMarked = .ok world) (shards : world.snapshots = .ok snapshots)
      (shuffled : ∀ e ∈ world.archetypes.entries,
        (assign e.1).Perm (List.range e.2.ealloc.recyclerShards.length)) :
      Step types s (.execute assign) { s with world, phase := .online assign snapshots }
  | createOnline (worker : Nat) (arch : DbgTypeId) (hint : Hint arch) (compMap : CompMap V)
      {assign snapshots shardId id world} (online : s.phase = .online assign snapshots)
      (assigned : (assign arch)[worker]? = some shardId)
      (run : s.world.createEntityWithHintAndShard worker arch shardId hint compMap =
        .ok (id, world)) :
      Step types s (.createOnline worker arch hint compMap)
        { s with world, roll := s.enroll arch (·.create id) }
  | deleteOnline (worker : Nat) (arch : DbgTypeId) (id : Nat) {assign snapshots world}
      (online : s.phase = .online assign snapshots)
      (run : s.world.deleteEntity worker arch id = .ok world) :
      Step types s (.deleteOnline worker arch id) { s with world }
  | join {assign snapshots} (online : s.phase = .online assign snapshots) :
      Step types s .join { s with
        world := { s.world with
          offlineBuffer := ⟨[], s.world.offlineBuffer.shards.map fun _ => []⟩ }
        phase := .draining s.world.offlineBuffer.operations [] }
  | drainCreate {arch id rc compMap todo newQueue world}
      (draining : s.phase = .draining (.createEntity arch id rc compMap :: todo) newQueue)
      (run : s.world.initEntity types arch id rc compMap = .ok world) :
      Step types s .drain { s with
        world, phase := .draining todo newQueue, roll := s.enroll arch (·.init id) }
  | drainDelete {arch id todo newQueue world}
      (draining : s.phase = .draining (.deleteEntity arch id :: todo) newQueue)
      (run : s.world.flagDeleteEntity types arch id = .ok (.deleted, world)) :
      Step types s .drain { s with
        world, phase := .draining todo newQueue, roll := s.enroll arch (·.free id) }
  | drainRerun {arch id todo newQueue world}
      (draining : s.phase = .draining (.deleteEntity arch id :: todo) newQueue)
      (run : s.world.flagDeleteEntity types arch id = .ok (.terminating, world)) :
      Step types s .drain { s with
        world, phase := .draining todo (newQueue ++ [.deleteEntity arch id]) }
  | flush {newQueue world} (drained : s.phase = .draining [] newQueue)
      (run : World.flush { s.world with
        offlineBuffer := { s.world.offlineBuffer with rerunQueue := newQueue } } = .ok world) :
      Step types s .flush { s with world, phase := .host }

structure Transition (w : DbgTypeId → Nat) (T Hint : DbgTypeId → Type) (V : Type) where
  before : Machine w T V
  label : Label Hint V
  after : Machine w T V

/-- A run with its transitions, the last one first. -/
inductive Run (types : Types V) (first : Machine w T V) :
    List (Transition w T Hint V) → Machine w T V → Prop
  | start : Run types first [] first
  | next {trace s label t} : Run types first trace s → Step types s label t →
      Run types first (⟨s, label, t⟩ :: trace) t

end Machine

end Dynec.World
