import Dynec.Lib.SortedMap
import Dynec.Storage.Vec

/-! The storage based on an ordered map, and its partitions. -/

namespace Dynec.Storage

variable {C : Type}

def isAllDistinctQuadtime {T : Type} [DecidableEq T] : List T → Bool
  | [] => true
  | item :: rest =>
    if !rest.all fun other => item = other then false else isAllDistinctQuadtime rest

structure Tree (C : Type) where
  data : SortedMap Nat C

namespace Tree

def default : Tree C := ⟨.empty⟩

def getMut (self : Tree C) (id : Nat) : Option (CompMut C) :=
  (self.data.get id).map fun value => ⟨id, value⟩

def get (self : Tree C) (id : Nat) : Option C := self.data.get id

def set (self : Tree C) (id : Nat) (new : Option C) : Option C × Tree C :=
  (self.data.get id, ⟨self.data.set id new⟩)

def cardinality (self : Tree C) : Nat := self.data.size

def iter (self : Tree C) : List (Nat × C) := self.data.entries

def iterMut (self : Tree C) : List (Nat × CompMut C) :=
  self.data.entries.map fun e => (e.1, ⟨e.1, e.2⟩)

end Tree

/-- The pointers to the requested cells. A cell has one address, and two cells
have two. -/
def cellPtrs (data : SortedMap Nat C) (entities : List Nat) : List (Option (CompMut C)) :=
  entities.map fun entity => (data.get entity).map fun value => ⟨entity, value⟩

/-- Pointers are compared by address. -/
def allDistinct (ptrs : List (Option (CompMut C))) : Bool :=
  isAllDistinctQuadtime (ptrs.map fun ptr => ptr.map (·.slot))

def Tree.getManyMut (self : Tree C) (entities : List Nat) :
    Except Panic (Option (List (CompMut C))) :=
  let ptrs := cellPtrs self.data entities
  if !allDistinct ptrs then
    return none
  else if ptrs.any (·.isNone) then
    return none
  else do
    let values ← ptrs.mapM (expect .nullPointer)
    return some values

/-- `tree::StoragePartition` -/
structure TreePartition (C : Type) where
  data : SortedMap Nat C
  lowerBound : Option Nat
  upperBound : Option Nat

def Tree.asPartition (self : Tree C) : TreePartition C := ⟨self.data, none, none⟩

namespace TreePartition

def assertBounds (self : TreePartition C) (entity : Nat) : Except Panic Unit :=
  if self.lowerBound.any (entity < ·) then .error (.notInPartition entity)
  else if self.upperBound.any (· ≤ entity) then .error (.notInPartition entity)
  else return ()

def intoIterMut (self : TreePartition C) : Except Panic (List (Nat × CompMut C)) :=
  if self.lowerBound.any fun lower => self.upperBound.any (· < lower) then
    .error .reversedRange
  else
    return (self.data.range self.lowerBound self.upperBound).map fun e => (e.1, ⟨e.1, e.2⟩)

def intoMut (self : TreePartition C) (entity : Nat) : Except Panic (Option (CompMut C)) := do
  self.assertBounds entity
  return (self.data.get entity).map fun value => ⟨entity, value⟩

def intoManyMut (self : TreePartition C) (entities : List Nat) :
    Except Panic (Option (List (CompMut C))) := do
  entities.forM self.assertBounds
  let ptrs := cellPtrs self.data entities
  if !allDistinct ptrs then
    return none
  else
    -- `array::try_from_fn` stops at the first entity without a cell
    return ptrs.mapM id

/-- The partition that stays, and the one that is split out. -/
def splitOut (self : TreePartition C) (entity : Nat) :
    Except Panic (TreePartition C × TreePartition C) := do
  self.assertBounds entity
  return ({ self with upperBound := some entity }, { self with lowerBound := some entity })

end TreePartition

end Dynec.Storage
