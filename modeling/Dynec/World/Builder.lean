import Dynec.World.Component
import Dynec.Scheduler.Safety

/-! The world builder: scheduling a system registers its resources and the
partitions it depends on. -/

namespace Dynec.World

open Fallible
open Scheduler (Node ResourceType ResourceAccess Dependency)

/-- Partition objects: the native one of an archetype, and those of the
program, which compare by `Eq`. -/
inductive Partition (U : Type) where
  | entityCreation (ty : DbgTypeId)
  | custom (value : U)
  deriving DecidableEq, Repr

structure GlobalRequest where
  ty : DbgTypeId
  -- whether the initial value is `GlobalInitial::Sync`
  sync : Bool
  mutable : Bool
  strongRefs : List DbgTypeId

structure SimpleRequest where
  arch : DbgTypeId
  comp : DbgTypeId
  mutable : Bool
  strongRefs : List DbgTypeId

structure IsotopeRequest where
  arch : DbgTypeId
  comp : DbgTypeId
  discrim : Option (List Nat)
  mutable : Bool
  strongRefs : List DbgTypeId

structure EntityCreatorRequest where
  arch : DbgTypeId
  noPartition : Bool

structure Spec (U : Type) where
  debugName : String
  dependencies : List (Dependency (Partition U))
  globalRequests : List GlobalRequest
  simpleRequests : List SimpleRequest
  isotopeRequests : List IsotopeRequest
  entityCreatorRequests : List EntityCreatorRequest

/-- A system: its specification, the archetypes its state refers to, and those
of them it does not require to be initialized. -/
structure System (U : Type) where
  spec : Spec U
  foundArchs : List DbgTypeId
  stateMaybeUninit : List DbgTypeId

inductive GlobalBuilder where
  | provided
  | missing
  deriving DecidableEq, Repr

structure Builder (U V : Type) where
  scheduler : Scheduler.Builder (Partition U)
  archetypes : HashMap DbgTypeId (Typed V)
  syncGlobals : HashMap DbgTypeId GlobalBuilder
  unsyncGlobals : HashMap DbgTypeId GlobalBuilder

namespace Builder

variable {U V : Type} [DecidableEq U]

def new (types : Types V) (concurrency : Nat) : Builder U V :=
  ⟨.new concurrency, ∅, AList.insert types.generations .provided ∅, ∅⟩

/-- The builder of an archetype, created when it is missing. -/
def archetype (types : Types V) (self : Builder U V) (arch : DbgTypeId) : Typed V :=
  (self.archetypes.lookup arch).getD (.builder types)

def setArchetype (self : Builder U V) (arch : DbgTypeId) (typed : Typed V) : Builder U V :=
  { self with archetypes := self.archetypes.insert arch typed }

def addDependencies (self : Builder U V) (deps : List (Dependency (Partition U))) (node : Node) :
    Builder U V :=
  { self with scheduler := self.scheduler.addDependencies deps node }

/-- The loop over the strong references of a request. -/
def addStrongRefs (self : Builder U V) (node : Node) (strongRefs : List DbgTypeId) :
    Builder U V :=
  strongRefs.foldl
    (fun self strongRef => self.addDependencies [.before (.entityCreation strongRef)] node) self

def useResource (self : Builder U V) (node : Node) (ty : ResourceType) (access : ResourceAccess) :
    Except Panic (Builder U V) := do
  let scheduler ← self.scheduler.useResource node ty access
  return { self with scheduler }

/-- The entry of a global that has none yet. -/
def missingGlobal (globals : HashMap DbgTypeId GlobalBuilder) (ty : DbgTypeId) :
    HashMap DbgTypeId GlobalBuilder :=
  match globals.lookup ty with
  | some _ => globals
  | none => globals.insert ty .missing

/-- A global is used either as thread-safe or as thread-local, and a
thread-safe system uses no thread-local one. -/
def enterGlobal (debugName : String) (sync : Bool) (self : Builder U V)
    (request : GlobalRequest) : Except Panic (Builder U V) :=
  match request.sync, sync with
  | true, _ =>
    if (self.unsyncGlobals.lookup request.ty).isSome then
      .error (.mixedGlobal request.ty)
    else
      .ok { self with syncGlobals := missingGlobal self.syncGlobals request.ty }
  | false, true => .error (.unsyncInSend debugName)
  | false, false =>
    if (self.syncGlobals.lookup request.ty).isSome then
      .error (.mixedGlobal request.ty)
    else
      .ok { self with unsyncGlobals := missingGlobal self.unsyncGlobals request.ty }

def registerGlobal (debugName : String) (sync : Bool) (node : Node) (self : Builder U V)
    (request : GlobalRequest) : Except Panic (Builder U V) := do
  let self ← self.enterGlobal debugName sync request
  let self ← self.useResource node (.global request.ty) (.new request.mutable)
  return self.addStrongRefs node request.strongRefs

def registerSimple (types : Types V) (node : Node) (self : Builder U V)
    (request : SimpleRequest) : Except Panic (Builder U V) := do
  let typed ← (self.archetype types request.arch).addSimpleStorageIfMissing types request.arch
    types.stack request.comp
  let self := self.setArchetype request.arch typed
  let self ← self.useResource node (.simple request.arch request.comp) (.new request.mutable)
  return self.addStrongRefs node request.strongRefs

def registerIsotope (types : Types V) (node : Node) (self : Builder U V)
    (request : IsotopeRequest) : Except Panic (Builder U V) := do
  let typed := (self.archetype types request.arch).addIsotopeMapIfMissing request.comp
  let self := self.setArchetype request.arch typed
  let self ← self.useResource node (.isotope request.arch request.comp)
    (.withDiscrim request.mutable request.discrim)
  return self.addStrongRefs node request.strongRefs

def registerCreator (node : Node) (self : Builder U V) (request : EntityCreatorRequest) :
    Builder U V :=
  if request.noPartition then self
  else self.addDependencies [.after (.entityCreation request.arch)] node

/-- One archetype found in the state of a system. -/
def registerState (stateMaybeUninit : List DbgTypeId) (node : Node) (self : Builder U V)
    (arch : DbgTypeId) : Builder U V :=
  if arch ∈ stateMaybeUninit then self
  else self.addDependencies [.before (.entityCreation arch)] node

def registerResources (types : Types V) (self : Builder U V) (system : System U) (sync : Bool)
    (node : Node) : Except Panic (Builder U V) := do
  let spec := system.spec
  let self := system.foundArchs.foldl (registerState system.stateMaybeUninit node) self
  let self ← spec.globalRequests.foldlM (registerGlobal spec.debugName sync node) self
  let self ← spec.simpleRequests.foldlM (registerSimple types node) self
  let self ← spec.isotopeRequests.foldlM (registerIsotope types node) self
  let self := spec.entityCreatorRequests.foldl (registerCreator node) self
  return self.addDependencies spec.dependencies node

def schedule (types : Types V) (self : Builder U V) (system : System U) :
    Except Panic (Builder U V) :=
  let (node, scheduler) := self.scheduler.pushSendSystem system.spec.debugName
  registerResources types { self with scheduler } system true node

def scheduleThreadUnsafe (types : Types V) (self : Builder U V) (system : System U) :
    Except Panic (Builder U V) :=
  let (node, scheduler) := self.scheduler.pushUnsendSystem system.spec.debugName
  registerResources types { self with scheduler } system false node

def global (self : Builder U V) (ty : DbgTypeId) : Builder U V :=
  { self with syncGlobals := self.syncGlobals.insert ty .provided }

def globalThreadUnsafe (self : Builder U V) (ty : DbgTypeId) : Builder U V :=
  { self with unsyncGlobals := self.unsyncGlobals.insert ty .provided }

def setConcurrency (self : Builder U V) (concurrency : Nat) : Builder U V :=
  { self with scheduler := { self.scheduler with concurrency } }

end Builder

section

variable {U V : Type} [DecidableEq U]

/-- The builders that calls of the builder interface can produce, with the
systems scheduled so far and their nodes. -/
inductive Scheduled (types : Types V) : Builder U V → List (Node × System U) → Prop
  | new (concurrency : Nat) : Scheduled types (.new types concurrency) []
  | schedule {b b' systems} (s : System U) (run : b.schedule types s = .ok b') :
      Scheduled types b systems →
      Scheduled types b' (systems ++ [((b.scheduler.pushSendSystem s.spec.debugName).1, s)])
  | scheduleThreadUnsafe {b b' systems} (s : System U)
      (run : b.scheduleThreadUnsafe types s = .ok b') : Scheduled types b systems →
      Scheduled types b' (systems ++ [((b.scheduler.pushUnsendSystem s.spec.debugName).1, s)])
  | global {b systems} (ty : DbgTypeId) :
      Scheduled types b systems → Scheduled types (b.global ty) systems
  | globalThreadUnsafe {b systems} (ty : DbgTypeId) :
      Scheduled types b systems → Scheduled types (b.globalThreadUnsafe ty) systems
  | setConcurrency {b systems} (concurrency : Nat) :
      Scheduled types b systems → Scheduled types (b.setConcurrency concurrency) systems

end

end Dynec.World
