import Dynec.World.Component
import Dynec.Entity.Recycling

/-! Initialization of the components of one entity. -/

namespace Dynec.World

open Entity (Recycling Recycler Snapshot rangeIds)

variable {V : Type}

/-- `comp::Map`: the components given to a new entity. Each type is taken out of
it at most once, so taking is looking up. -/
structure CompMap (V : Type) where
  simple : HashMap DbgTypeId V
  isotope : HashMap DbgTypeId (List (Discrim × V))

def CompMap.removeSimple (self : CompMap V) (comp : DbgTypeId) : Option V :=
  self.simple.lookup comp

def CompMap.removeIsotope (self : CompMap V) (comp : DbgTypeId) : List (Discrim × V) :=
  (self.isotope.lookup comp).getD []

/-- How an initializer gets the components it depends on. `index` is the place
of a simple component in initialization order. -/
structure DepGetter (V : Type) where
  simpleStorages : IndexMap DbgTypeId (Simple V)
  index : Option Nat
  entity : Nat

def DepGetter.get (self : DepGetter V) (ty : DbgTypeId) : Except Panic (Storage V) := do
  let dep ← expect .toposort (self.simpleStorages.get ty)
  match self.index with
  | some index =>
    if self.simpleStorages.indexOf ty < index then return dep.storage else .error .toposort
  | none => return dep.storage

/-- The arguments of an initializer. The storages already read stay locked. -/
def DepGetter.args (self : DepGetter V) (arch comp : DbgTypeId) :
    List DbgTypeId → List DbgTypeId → Except Panic (List V)
  | _, [] => .ok []
  | locked, dep :: deps => do
    let storage ← self.get dep
    if dep ∈ locked then
      .error .storageLocked
    else
      let value ← expect (.missingDependency arch comp dep) (storage self.entity)
      let values ← self.args arch comp (dep :: locked) deps
      return value :: values

/-- Fill a simple component with the initial value. -/
def Storage.fillInitSimple (types : Types V) (arch comp : DbgTypeId) (self : Storage V)
    (entity : Nat) (compMap : CompMap V) (depGetter : DepGetter V) :
    Except Panic (Storage V) :=
  match compMap.removeSimple comp with
  | some value => .ok (self.set entity (some value))
  | none =>
    match (types.simple arch comp).initStrategy with
    | .auto deps init => do
      let args ← depGetter.args arch comp [] deps
      return self.set entity (some (init args))
    | .none =>
      match (types.simple arch comp).presence with
      | .required => .error (.missingRequired arch comp)
      | .optional => .ok self

/-- The IDs a snapshot enumerates. -/
def allocatedIds (w : Nat) (snapshot : Snapshot) : Except Panic (List Nat) := do
  let chunks ← snapshot.iterAllocatedChunks w
  return rangeIds chunks

namespace IsotopeMap

/-- Initialize a new storage for the given entities. Their initializers have no
access to other components. -/
def newStorage (ty : IsotopeType V) (entities : Except Panic (List Nat)) :
    Except Panic (Storage V) :=
  match ty.initStrategy with
  | .auto deps init => do
    let entities ← entities
    entities.foldlM (fun storage entity =>
      if deps = [] then .ok (storage.set entity (some (init [])))
      else .error .isotopeDependency) .empty
  | .none => .ok .empty

/-- The storage of a discriminant, created when it is missing. -/
def getOrCreate (ty : IsotopeType V) (discrim : Discrim) (entities : Except Panic (List Nat))
    (self : IsotopeMap V) : Except Panic (Storage V × IsotopeMap V) :=
  match self.lookup discrim with
  | some storage => .ok (storage, self)
  | none => do
    let storage ← newStorage ty entities
    return (storage, self.insert discrim storage)

/-- One of the isotope values that a new entity is given. -/
def fillGiven {w : Nat} {T : Type} (ty : IsotopeType V) (entity : Nat) (ealloc : Recycling w T)
    (self : IsotopeMap V) (given : Discrim × V) : Except Panic (IsotopeMap V) := do
  let snapshot ← ealloc.snapshot
  let (storage, self) ← getOrCreate ty given.1 (allocatedIds w snapshot) self
  return self.insert given.1 (storage.set entity (some given.2))

/-- The loop that runs the initializer for every discriminant without a
value. -/
def fillMissing (arch comp : DbgTypeId) (deps : List DbgTypeId) (init : List V → V)
    (entity : Nat) (depGetter : DepGetter V) (self : IsotopeMap V) :
    Except Panic (IsotopeMap V) :=
  HashMap.updateM (fun _ storage => do
    if (storage entity).isNone then
      let args ← depGetter.args arch comp [] deps
      return storage.set entity (some (init args))
    else
      return storage) self

def fillInitIsotope {w : Nat} {T : Type} (types : Types V) (arch comp : DbgTypeId)
    (self : IsotopeMap V) (entity : Nat) (compMap : CompMap V) (depGetter : DepGetter V)
    (ealloc : Recycling w T) : Except Panic (IsotopeMap V) := do
  let ty := types.isotopeOf arch comp
  let values := compMap.removeIsotope comp
  let self ← values.foldlM (fillGiven ty entity ealloc) self
  match ty.initStrategy with
  | .auto deps init => fillMissing arch comp deps init entity depGetter self
  | .none =>
    match ty.presence with
    | .required =>
      if values.length ≠ self.keys.length then .error (.requiredIsotope arch comp) else return self
    | .optional => return self

end IsotopeMap

namespace Typed

/-- One round of the loop over the simple storages. -/
def initSimple (types : Types V) (arch : DbgTypeId) (entity : Nat) (compMap : CompMap V)
    (simpleStorages : IndexMap DbgTypeId (Simple V)) (comp : DbgTypeId) :
    Except Panic (IndexMap DbgTypeId (Simple V)) := do
  let simple ← expect (.unusedComponent comp) (simpleStorages.get comp)
  let storage ← simple.storage.fillInitSimple types arch comp entity compMap
    ⟨simpleStorages, some (simpleStorages.indexOf comp), entity⟩
  return simpleStorages.insert comp { simple with storage }

/-- Initialize an entity. -/
def initEntity {w : Nat} {T : Type} (types : Types V) (arch : DbgTypeId) (self : Typed V)
    (entity : Nat) (compMap : CompMap V) (ealloc : Recycling w T) :
    Except Panic (Typed V) := do
  let simpleStorages ← self.simpleStorages.order.foldlM (initSimple types arch entity compMap)
    self.simpleStorages
  let isotopeStorageMaps ← HashMap.updateM (fun comp map =>
    IsotopeMap.fillInitIsotope types arch comp map entity compMap ⟨simpleStorages, none, entity⟩
      ealloc) self.isotopeStorageMaps
  return ⟨simpleStorages, isotopeStorageMaps⟩

/-- The value of a simple component of an entity. -/
def valueIn (simpleStorages : IndexMap DbgTypeId (Simple V)) (comp : DbgTypeId) (id : Nat) :
    Option V := do
  let simple ← simpleStorages.get comp
  simple.storage id

def getSimple (self : Typed V) (comp : DbgTypeId) (id : Nat) : Option V :=
  valueIn self.simpleStorages comp id

/-- The value of an isotope component of an entity. -/
def getIsotope (self : Typed V) (comp : DbgTypeId) (discrim : Discrim) (id : Nat) :
    Option V := do
  let map ← self.isotopeStorageMaps.lookup comp
  let storage ← map.lookup discrim
  storage id

/-- Set a simple component of an entity, with the panic for a storage that is
missing. -/
def setSimple (missing : Panic) (self : Typed V) (comp : DbgTypeId) (id : Nat)
    (value : Option V) : Except Panic (Typed V) := do
  let simple ← expect missing (self.simpleStorages.get comp)
  let storage := simple.storage.set id value
  return { self with simpleStorages := self.simpleStorages.insert comp { simple with storage } }

/-- Whether a finalizer component exists for the entity. -/
def hasFinalizer (types : Types V) (arch : DbgTypeId) (self : Typed V) (entity : Nat) : Bool :=
  self.simpleStorages.order.any fun comp => (types.simple arch comp).isFinalizer &&
    (self.getSimple comp entity).isSome

/-- Clear the entries of an entity in the simple storages. -/
def clearEntry (self : Typed V) (entity : Nat) : Typed V :=
  { self with simpleStorages := self.simpleStorages.mapValues fun simple =>
      { simple with storage := simple.storage.set entity none } }

end Typed

end Dynec.World
