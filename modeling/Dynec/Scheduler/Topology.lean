import Dynec.Panic
import Dynec.Lib.HashMap
import Dynec.Lib.SortedSet

/-! The topology of a schedule and how it is built from the orders and the
resource table. -/

namespace Dynec.Scheduler

/-- The tick-local state for schedule availability. -/
structure Planner where
  /-- The state of every node. A blocked node counts the nodes blocking it:
  started nodes and completed nodes stay in the map. -/
  wakeupState : HashMap Node WakeupState
  sendRunnable : SortedSet SendSystemIndex
  unsendRunnable : SortedSet UnsendSystemIndex
  remainingSystems : Nat

/-- The dependency and exclusion relations of a schedule. `P` is the type of
partition objects. -/
structure Topology (P : Type) where
  /-- `b` is in `dependents[a]` when `b` is a wakeup candidate of `a`. -/
  dependents : HashMap Node (List Node)
  /-- The planner reset state of every tick. -/
  initialPlanner : Planner
  /-- The partitions without dependencies, persisted for tracing. -/
  deplessPars : List PartitionIndex
  /-- The indexable list of partitions, persisted for tracing. -/
  partitions : List P
  /-- `a` and `b` must not execute concurrently if `b` is in `exclusions[a]`. -/
  exclusions : HashMap Node (List Node)

abbrev ResourceTable := HashMap ResourceType (HashMap Node (List ResourceAccess))

/-- The accesses of a node to a resource. -/
def ResourceTable.accesses (resources : ResourceTable) (ty : ResourceType) (node : Node) :
    List ResourceAccess :=
  (((resources.lookup ty).getD ∅).lookup node).getD []

/-- The orders in which the hash tables of one build are iterated. -/
structure HashOrders where
  deplessPars : IterOrder PartitionIndex
  exclusions : Node → IterOrder Node

def HashOrders.insertion : HashOrders := ⟨.insertion _, fun _ => .insertion _⟩

/-- `nodes_iter` of `Topology::init`. -/
def allNodes (sends unsends partitions : Nat) : List Node :=
  (List.range sends).map .sendSystem ++ (List.range unsends).map .unsendSystem ++
    (List.range partitions).map .partition

def pushDependent (dependents : HashMap Node (List Node)) (order : Order) :
    Except Panic (HashMap Node (List Node)) := do
  let list ← expect .invalidNodeIndex (dependents.lookup order.before)
  return dependents.insert order.before (list ++ [order.after])

def buildDependentsMap (nodes : List Node) (orders : List Order) :
    Except Panic (HashMap Node (List Node)) :=
  orders.foldlM pushDependent (HashMap.ofKeys nodes fun _ => [])

/-! ## Cycle detection -/

/-- The three mutable pieces of the depth-first search. The stack grows at its
end. -/
structure Scan where
  remaining : SortedSet Node
  exited : List Node
  stack : List Node

/-- `scan_cycles_from`, on a call stack of the given depth. -/
def scanCyclesFrom (map : HashMap Node (List Node)) : Nat → Node → Scan → Except Panic Scan
  | 0, _, _ => .error .stackOverflow
  | depth + 1, node, s =>
    if node ∈ s.exited then
      .ok s -- already scanned
    else if node ∉ s.remaining then
      .error (.cyclicDependency (s.stack.dropWhile (· ≠ node) ++ [node]))
    else do
      let entered : Scan :=
        { s with remaining := s.remaining.erase node, stack := s.stack ++ [node] }
      let dependents ← expect .invalidNodeIndex (map.lookup node)
      let s ← dependents.foldlM (fun s dependent => scanCyclesFrom map depth dependent s) entered
      if s.stack.getLast? ≠ some node then
        .error .stackMismatch
      else if node ∈ s.exited then
        .error .exitedTwice
      else
        .ok { s with stack := s.stack.dropLast, exited := node :: s.exited }

/-- The `while` loop of `scan_cycles`, for at most `n` rounds. -/
def scanLoop (map : HashMap Node (List Node)) (depth : Nat) : Nat → Scan → Except Panic Unit
  | 0, s => if s.remaining.first = none then .ok () else .error .diverged
  | n + 1, s =>
    match s.remaining.first with
    | none => .ok ()
    | some node => do
      let s ← scanCyclesFrom map depth node s
      scanLoop map depth n s

def scanCycles (map : HashMap Node (List Node)) : Except Panic Unit :=
  let remaining := SortedSet.empty.extend map.keys
  scanLoop map (map.keys.length + 1) map.keys.length ⟨remaining, [], []⟩

/-! ## The initial planner -/

def countDependency (counts : HashMap Node Nat) (order : Order) :
    Except Panic (HashMap Node Nat) := do
  let count ← expect .invalidNodeIndex (counts.lookup order.after)
  return counts.insert order.after (count + 1)

/-- One `dependent` of a trimmed partition: its count goes down, and a
partition among the dependents joins the worklist. -/
def trimDependent (s : HashMap Node Nat × List PartitionIndex) (dependent : Node) :
    Except Panic (HashMap Node Nat × List PartitionIndex) := do
  let (counts, deplessPars) := s
  let count ← expect .invalidNodeIndex (counts.lookup dependent)
  if count = 0 then
    .error .zeroDependencyCount
  else
    let counts := counts.insert dependent (count - 1)
    match dependent with
    | .partition index => return (counts, deplessPars ++ [index])
    | _ => return (counts, deplessPars)

/-- The trimming loop, which pops from the end, for at most `n` rounds. It
returns the counts and what is left of `depless_pars`. -/
def trimLoop (dependents : HashMap Node (List Node)) :
    Nat → HashMap Node Nat → List PartitionIndex →
      Except Panic (HashMap Node Nat × List PartitionIndex)
  | n, counts, deplessPars =>
    match deplessPars.getLast? with
    | none => .ok (counts, deplessPars)
    | some par =>
      match n with
      | 0 => .error .diverged
      | n + 1 => do
        let list ← expect .invalidNodeIndex (dependents.lookup (.partition par))
        let (counts, deplessPars) ← list.foldlM trimDependent (counts, deplessPars.dropLast)
        trimLoop dependents n counts deplessPars

/-- The partitions whose count is zero, in the order of the table. -/
def deplessOf (counts : HashMap Node Nat) : List PartitionIndex :=
  counts.entries.filterMap fun e =>
    match e with
    | ⟨.partition index, 0⟩ => some index
    | _ => none

def initialState (node : Node) (count : Nat) : WakeupState :=
  if h : 0 < count then .blocked ⟨count, h⟩
  else if node.isSystem then .pending
  else .completed

def sendIndices (l : List Node) : List SendSystemIndex :=
  l.filterMap fun node => match node with | .sendSystem index => some index | _ => none

def unsendIndices (l : List Node) : List UnsendSystemIndex :=
  l.filterMap fun node => match node with | .unsendSystem index => some index | _ => none

/-- The nodes with count zero. -/
def zeroNodes (counts : HashMap Node Nat) : List Node :=
  (counts.entries.filter (·.2 = 0)).map (·.1)

def buildInitials (it : HashOrders) (nodes : List Node) (orders : List Order)
    (dependents : HashMap Node (List Node)) : Except Panic (Planner × List PartitionIndex) := do
  let counts ← orders.foldlM countDependency (HashMap.ofKeys nodes fun _ => 0)
  let deplessPars := it.deplessPars.arrange (deplessOf counts)
  let (counts, deplessPars) ←
    trimLoop dependents (deplessPars.length + orders.length) counts deplessPars
  let planner : Planner :=
    { wakeupState := HashMap.ofKeys counts.keys
        fun node => initialState node ((counts.lookup node).getD 0)
      sendRunnable := SortedSet.empty.extend (sendIndices (zeroNodes counts))
      unsendRunnable := SortedSet.empty.extend (unsendIndices (zeroNodes counts))
      remainingSystems := nodes.countP (·.isSystem) }
  return (planner, deplessPars)

/-! ## Exclusions -/

/-- Some access of the first list conflicts with some access of the second. -/
def anyConflict (accesses1 accesses2 : List ResourceAccess) : Bool :=
  accesses1.any fun access1 => accesses2.any fun access2 => access1.conflictsWith access2

def addExclusion (node1 : Node) (accesses1 : List ResourceAccess)
    (exclusions : HashMap Node (List Node)) (entry : (_ : Node) × List ResourceAccess) :
    Except Panic (HashMap Node (List Node)) :=
  if node1 = entry.1 then
    .ok exclusions
  else if anyConflict accesses1 entry.2 then do
    let set ← expect .invalidNodeIndex (exclusions.lookup node1)
    return exclusions.insert node1 (set.insert entry.1)
  else
    .ok exclusions

def excludeNode (nodes : HashMap Node (List ResourceAccess))
    (exclusions : HashMap Node (List Node)) (entry : (_ : Node) × List ResourceAccess) :
    Except Panic (HashMap Node (List Node)) :=
  nodes.entries.foldlM (addExclusion entry.1 entry.2) exclusions

def excludeResource (exclusions : HashMap Node (List Node))
    (entry : (_ : ResourceType) × HashMap Node (List ResourceAccess)) :
    Except Panic (HashMap Node (List Node)) :=
  entry.2.entries.foldlM (excludeNode entry.2) exclusions

/-- The sets are turned into vectors in an arbitrary order. -/
def buildExclusions (it : HashOrders) (nodes : List Node) (resources : ResourceTable) :
    Except Panic (HashMap Node (List Node)) := do
  let sets ← resources.entries.foldlM excludeResource (HashMap.ofKeys nodes fun _ => [])
  return HashMap.ofKeys sets.keys fun node =>
    (it.exclusions node).arrange ((sets.lookup node).getD [])

variable {P : Type}

/-- `partitions` is filled in by the builder after `init` returns. -/
def Topology.init (it : HashOrders) (sends unsends : Nat) (partitions : List P)
    (orders : List Order) (resources : ResourceTable) : Except Panic (Topology P) := do
  let nodes := allNodes sends unsends partitions.length
  let dependents ← buildDependentsMap nodes orders
  scanCycles dependents
  let (initialPlanner, deplessPars) ← buildInitials it nodes orders dependents
  let exclusions ← buildExclusions it nodes resources
  return { dependents, initialPlanner, deplessPars, partitions := [], exclusions }

def Topology.dependentsOf (self : Topology P) (node : Node) : Except Panic (List Node) :=
  expect .invalidNodeIndex (self.dependents.lookup node)

def Topology.exclusionsOf (self : Topology P) (node : Node) : Except Panic (List Node) :=
  expect .invalidNodeIndex (self.exclusions.lookup node)

end Dynec.Scheduler
