import Dynec.Scheduler.Node
import Dynec.Lib.Fallible

/-! Every way a modelled function can panic. The comments give the text of the
source where the name does not. -/

namespace Dynec

open Scheduler (Node WakeupState ResourceType)

inductive Panic where
  -- "invalid node index"
  | invalidNodeIndex
  -- "Scheduled systems have a cyclic dependency: ..", with the reported chain.
  | cyclicDependency (chain : List Node)
  -- The debug assertion on the popped stack entry of `scan_cycles_from`.
  | stackMismatch
  -- "exited is inserted recursively but no cycles were detected"
  | exitedTwice
  -- "dependent of partition should not have zero dependency count"
  | zeroDependencyCount
  -- "Cannot schedule .. due to conflicts in .. access: .."
  | accessConflict (node : Node) (ty : ResourceType) (err : String)
  -- "node .. is in runnable queue but state is .. instead of Pending"
  | notPending (node : Node) (state : WakeupState)
  -- "Pending node should be in runnable pool"
  | pendingNotInPool
  -- "partitions are not exclusive with other nodes"
  | exclusivePartition
  -- "Started node .. should not be in the runnable pool"
  | startedInPool (node : Node)
  -- "cannot mark a .. node as completed"
  | notStarted (state : WakeupState)
  -- "Blocked node .. is already in runnable pool"
  | alreadyInPool (node : Node)
  -- "Node .. is in state .. which should not have blockers"
  | noBlockers (node : Node) (state : WakeupState)
  -- "Deadlock detected, all workers and main are waiting for tasks"
  | deadlock
  -- "Initializer of .. cannot depend on the same component type .. multiple times"
  | duplicateDependency (dep : DbgTypeId)
  -- "Global type .. is used as both thread-safe and thread-local"
  | mixedGlobal (ty : DbgTypeId)
  -- "Cannot schedule system .. as thread-safe because it requires thread-unsafe resources"
  | unsyncInSend (debugName : String)
  -- "index out of bounds"
  | indexOutOfBounds
  -- "integer overflow"
  | integerOverflow
  -- "invalid state"
  | invalidState
  -- "self.range() item is not in self"
  | rangeItemMissing
  -- A slice split beyond its end.
  | splitOutOfRange
  -- A checked subtraction or addition of machine integers.
  | arithmeticOverflow
  -- "The archetype .. cannot be used because it is not used in any systems"
  | unusedArchetype (arch : DbgTypeId)
  -- "The component .. cannot be used because it is not used in any systems"
  | unusedComponent (comp : DbgTypeId)
  -- "deletion::Flags storage is always available"
  | missingFlag
  -- "The index .. is not available in the isotope request for .."
  | invalidKey
  -- "dep storage does not exist, toposort bug" and ".. >= .., toposort bug"
  | toposort
  -- "mut access to indexmap and dep indices checked to be unique during toposort"
  | storageLocked
  -- "Cannot create an entity of type .. without explicitly passing a component of type ..,
  -- or .. to invoke its auto-initializer"
  | missingDependency (arch comp dep : DbgTypeId)
  -- "Cannot create an entity of type .. without explicitly passing a component of type .."
  | missingRequired (arch comp : DbgTypeId)
  -- "Isotope type .. cannot declare `Required` presence without an auto-initializer"
  | requiredIsotope (arch comp : DbgTypeId)
  -- "Isotope initializers with dependencies are currently not supported .."
  | isotopeDependency
  -- "Previous entity was not freed correctly"
  | notFreed
  -- "call to rctrack::Store::remove() with nonexistent ID"
  | nonexistentId
  -- "call to remove() with unexpected archetype"
  | unexpectedArchetype
  -- "double free of entity last strong reference"
  | doubleFree
  -- "Detected dangling strong reference to entity .."
  | danglingReference (arch : DbgTypeId) (entity : Nat)
  -- "bits mismatch"
  | bitsMismatch
  -- `assume_init` of a slot that holds no value. The source has no panic here, but
  -- undefined behaviour.
  | uninitialized
  -- "resized len >= index+1" and "just resized"
  | notResized
  -- "Entity .. is not in the partition .."
  | notInPartition (entity : Nat)
  -- "parameter out of bounds"
  | parameterOutOfBounds
  -- "index < self.data.len()"
  | dataTooShort
  -- "checked all are not none"
  | nullPointer
  -- "range start is greater than range end in BTreeMap", or in BTreeSet
  | reversedRange
  -- "Component .. implements comp::Must but is not present"
  | missingMust
  -- ".. : comp::Must<..> but has no default initializer"
  | noInitializer
  -- "range exists in self.bits implies existence in self.data"
  | chunkMismatch
  -- "chunk is not completely filled"
  | chunkNotFilled
  -- A call that the types of the source do not admit.
  | notChunked
  -- "Cannot split isotopes with duplicate key .."
  | duplicateKey
  -- "Duplicate value with discriminant .."
  | duplicateDiscrim
  -- "Discriminants using ArrayMap<N = ..> must return integers less than .. in into_usize()"
  | discrimOutOfRange
  -- `from_usize` of an integer that is not a discriminant.
  | unsupportedUsize
  -- A branch marked `unreachable!`.
  | unreachable
  -- A recursion deeper than the stack it was given.
  | stackOverflow
  -- A loop that has not ended within the bound it was given.
  | diverged
  deriving Repr

/-- Unwrap an option, panicking with `e`. -/
def expect {α : Type*} (e : Panic) : Option α → Except Panic α
  | some a => .ok a
  | none => .error e

@[simp] theorem expect_some {α : Type*} (e : Panic) (a : α) : expect e (some a) = .ok a := rfl

@[simp] theorem expect_none {α : Type*} (e : Panic) :
    expect e (none : Option α) = .error e := rfl

theorem expect_eq_ok {α : Type*} {e : Panic} {o : Option α} {a : α} :
    expect e o = .ok a ↔ o = some a := by
  cases o <;> simp [expect]

end Dynec
