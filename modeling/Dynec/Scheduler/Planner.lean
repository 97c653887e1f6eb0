import Dynec.Scheduler.Topology

/-! The planner: stealing a runnable node and completing a started one. The
tracer argument of the source is a log of the calls made on it. -/

namespace Dynec.Scheduler

variable {P : Type}

inductive Thread where
  | main
  | worker (id : Nat)
  deriving DecidableEq, Repr

inductive TraceEvent (P : Type) where
  | stealReturnComplete (thread : Thread)
  | stealReturnPending (thread : Thread)
  | markRunnable (node : Node)
  | unmarkRunnable (node : Node)
  | partition (node : Node) (partition : P)
  | completeSystem (node : Node) (remaining : Nat)

abbrev Tracer (P : Type) := List (TraceEvent P)

/-- The two runnable pools. -/
inductive Pool where
  | send
  | unsend
  deriving DecidableEq, Repr

def Pool.toNode : Pool → Nat → Node
  | .send => .sendSystem
  | .unsend => .unsendSystem

inductive StealResult where
  | ready (index : Nat)
  | pending
  | cycleComplete
  deriving DecidableEq, Repr

namespace Planner

def pool (self : Planner) : Pool → SortedSet Nat
  | .send => self.sendRunnable
  | .unsend => self.unsendRunnable

def setPool (self : Planner) (pool : Pool) (set : SortedSet Nat) : Planner :=
  match pool with
  | .send => { self with sendRunnable := set }
  | .unsend => { self with unsendRunnable := set }

def setState (self : Planner) (node : Node) (state : WakeupState) : Planner :=
  { self with wakeupState := self.wakeupState.insert node state }

/-- `take` of an index that must be in its pool. -/
def takeRunnable (self : Planner) (pool : Pool) (index : Nat) : Except Panic Planner :=
  if index ∈ self.pool pool then .ok (self.setPool pool ((self.pool pool).erase index))
  else .error .pendingNotInPool

/-- `insert` of an index that must be new in its pool. -/
def insertRunnable (self : Planner) (pool : Pool) (index : Nat) : Except Panic Planner :=
  if index ∈ self.pool pool then .error (.alreadyInPool (pool.toNode index))
  else .ok (self.setPool pool ((self.pool pool).insert index))

/-- The body of the exclusion loop of `steal`. -/
def blockExclusion (s : Planner × Tracer P) (excl : Node) : Except Panic (Planner × Tracer P) := do
  let (self, tracer) := s
  match ← expect .invalidNodeIndex (self.wakeupState.lookup excl) with
  | .pending =>
    let self := self.setState excl (.blocked 1)
    let self ← match excl with
      | .sendSystem index => self.takeRunnable .send index
      | .unsendSystem index => self.takeRunnable .unsend index
      | .partition _ => .error .exclusivePartition
    return (self, tracer ++ [.unmarkRunnable excl])
  | .blocked count => return (self.setState excl (.blocked (count + 1)), tracer)
  | .started => .error (.startedInPool excl)
  | .completed => return (self, tracer) -- completed nodes need no blocking

def steal (self : Planner) (tracer : Tracer P) (thread : Thread) (topology : Topology P)
    (pool : Pool) : Except Panic (StealResult × Planner × Tracer P) := do
  if self.remainingSystems = 0 then
    return (.cycleComplete, self, tracer ++ [.stealReturnComplete thread])
  match (self.pool pool).popFirst with
  | none => return (.pending, self, tracer ++ [.stealReturnPending thread])
  | some (index, rest) =>
    let self := self.setPool pool rest
    let node := pool.toNode index
    let self ← match ← expect .invalidNodeIndex (self.wakeupState.lookup node) with
      | .pending => pure (self.setState node .started)
      | state => .error (.notPending node state)
    let exclusions ← topology.exclusionsOf node
    let (self, tracer) ← exclusions.foldlM blockExclusion (self, tracer)
    return (.ready index, self, tracer)

def stealSend (self : Planner) (tracer : Tracer P) (thread : Thread) (topology : Topology P) :
    Except Panic (StealResult × Planner × Tracer P) :=
  self.steal tracer thread topology .send

def stealUnsend (self : Planner) (tracer : Tracer P) (thread : Thread) (topology : Topology P) :
    Except Panic (StealResult × Planner × Tracer P) :=
  self.steal tracer thread topology .unsend

/-- Remove one blocker from a node. Returns what it adds to the work queue. -/
def removeOneBlockNoRecursion (self : Planner) (tracer : Tracer P) (node : Node)
    (topology : Topology P) : Except Panic (Planner × Tracer P × List Node) := do
  match ← expect .invalidNodeIndex (self.wakeupState.lookup node) with
  | .blocked count =>
    if 1 < count then
      return (self.setState node (.blocked (count - 1)), tracer, [])
    else
      match node with
      | .sendSystem index =>
        let self ← (self.setState node .pending).insertRunnable .send index
        return (self, tracer ++ [.markRunnable node], [])
      | .unsendSystem index =>
        let self ← (self.setState node .pending).insertRunnable .unsend index
        return (self, tracer ++ [.markRunnable node], [])
      | .partition index =>
        let partition ← expect .invalidNodeIndex topology.partitions[index]?
        let dependents ← topology.dependentsOf node
        return (self.setState node .completed, tracer ++ [.partition node partition], dependents)
  | .completed => return (self, tracer, []) -- no exclusion for completed nodes
  | state => .error (.noBlockers node state)

/-- The work queue of `remove_one_block`, which pops from its end, for at most
`n` rounds. -/
def removeLoop (topology : Topology P) :
    Nat → Planner × Tracer P → List Node → Except Panic (Planner × Tracer P)
  | n, s, queue =>
    match queue.getLast? with
    | none => .ok s
    | some node =>
      match n with
      | 0 => .error .diverged
      | n + 1 => do
        let (self, tracer, more) ← s.1.removeOneBlockNoRecursion s.2 node topology
        removeLoop topology n (self, tracer) (queue.dropLast ++ more)

/-- A bound on the rounds of a work queue: what is queued, and every dependent
a partition may still queue. -/
def removeBound (topology : Topology P) (queue : List Node) : Nat :=
  queue.length + (topology.dependents.entries.map (·.2.length)).sum

def removeOneBlock (self : Planner) (tracer : Tracer P) (topology : Topology P)
    (queue : List Node) : Except Panic (Planner × Tracer P) :=
  removeLoop topology (removeBound topology queue) (self, tracer) queue

/-- Mark a system node as completed. Partitions are completed in place. The
notification of the waiting threads belongs to the executor. -/
def complete (self : Planner) (tracer : Tracer P) (node : Node) (topology : Topology P) :
    Except Panic (Planner × Tracer P) := do
  let self ← match ← expect .invalidNodeIndex (self.wakeupState.lookup node) with
    | .started => pure (self.setState node .completed)
    | state => .error (.notStarted state)
  let (self, tracer) ← self.removeOneBlock tracer topology (← topology.dependentsOf node)
  let (self, tracer) ← self.removeOneBlock tracer topology (← topology.exclusionsOf node)
  if self.remainingSystems = 0 then
    .error .arithmeticOverflow
  else
    let self := { self with remainingSystems := self.remainingSystems - 1 }
    return (self, tracer ++ [.completeSystem node self.remainingSystems])

end Planner

end Dynec.Scheduler
