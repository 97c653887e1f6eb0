import Dynec.Panic

/-! The storage indexed by entity IDs, and its partitions. -/

namespace Dynec.Storage

variable {C : Type}

/-- A mutable reference to a component: the slot it points to, and the value
found there. The slots of a storage are numbered by entity ID. -/
structure CompMut (C : Type) where
  slot : Nat
  value : C
  deriving DecidableEq, Repr

/-- A `MaybeUninit` is `none` until it is written and after it is moved out. -/
def assumeInit (slot : Option C) : Except Panic C := expect .uninitialized slot

/-- `<[_]>::get_many_mut` for a slice of the given length. It rejects indices
that are out of range or repeated. -/
def sliceGetManyMut (length : Nat) (indices : List Nat) : Option (List Nat) :=
  if (∀ index ∈ indices, index < length) ∧ indices.Nodup then some indices else none

/-- `<[_]>::get` for a range of indices. -/
def sliceGet {α : Type} (slice : List α) (start stop : Nat) : Option (List α) :=
  if start ≤ stop ∧ stop ≤ slice.length then some ((slice.take stop).drop start) else none

/-- `BitSlice::iter_ones` -/
def iterOnes (bits : List Bool) : List Nat :=
  (List.range bits.length).filter fun index => bits[index]?.getD false

/-- The component in a slot of a storage whose slots are numbered from
`offset`. -/
def slotMut (offset : Nat) (data : List (Option C)) (index : Nat) : Except Panic (CompMut C) := do
  let slot ← expect .bitsMismatch data[index]?
  let value ← assumeInit slot
  return ⟨offset + index, value⟩

/-- The free function `iter_mut`. -/
def iterMut (startOffset : Nat) (bits : List Bool) (data : List (Option C)) :
    Except Panic (List (Nat × CompMut C)) :=
  (iterOnes bits).mapM fun index => do
    let value ← slotMut startOffset data index
    return (startOffset + index, value)

structure VecStorage (C : Type) where
  cardinality : Nat
  bits : List Bool
  data : List (Option C)
  deriving DecidableEq, Repr

namespace VecStorage

def bit (self : VecStorage C) (index : Nat) : Bool :=
  match self.bits[index]? with
  | some bit => bit
  | none => false

def setBit (self : VecStorage C) (index : Nat) (bit : Bool) : Except Panic (VecStorage C) := do
  let bits := if self.bits.length ≤ index then self.bits.rightpad (index + 1) false else self.bits
  let old ← expect .notResized bits[index]?
  let deltaOld := if old then 1 else 0
  let deltaNew := if bit then 1 else 0
  let bits := bits.set index bit
  if self.cardinality < deltaOld then
    .error .arithmeticOverflow
  else
    return { self with cardinality := self.cardinality - deltaOld + deltaNew, bits }

def default : VecStorage C := ⟨0, [], []⟩

def getMut (self : VecStorage C) (id : Nat) : Except Panic (Option (CompMut C)) :=
  if self.bit id then do
    let value ← slotMut 0 self.data id
    return some value
  else
    return none

def getManyMut (self : VecStorage C) (entities : List Nat) :
    Except Panic (Option (List (CompMut C))) :=
  if entities.all self.bit then
    match sliceGetManyMut self.data.length entities with
    | some indices => do
      let values ← indices.mapM (slotMut 0 self.data)
      return some values
    | none => return none
  else
    return none

def iterMut (self : VecStorage C) : Except Panic (List (Nat × CompMut C)) :=
  Storage.iterMut 0 self.bits self.data

def get (self : VecStorage C) (id : Nat) : Except Panic (Option C) :=
  if self.bit id then do
    let slot ← expect .bitsMismatch self.data[id]?
    let value ← assumeInit slot
    return some value
  else
    return none

/-- Move the old value out of its slot. -/
def take (self : VecStorage C) (index : Nat) : Except Panic (Option C × VecStorage C) :=
  if self.bit index then do
    let slot ← expect .bitsMismatch self.data[index]?
    let value ← assumeInit slot
    return (some value, { self with data := self.data.set index none })
  else
    return (none, self)

def set (self : VecStorage C) (id : Nat) (new : Option C) :
    Except Panic (Option C × VecStorage C) := do
  let (old, self) ← self.take id
  match new with
  | some new => do
    let self ← self.setBit id true
    let data := if self.data.length ≤ id then self.data.rightpad (id + 1) none else self.data
    let _ ← expect .notResized data[id]?
    return (old, { self with data := data.set id (some new) })
  | none => do
    let self ← self.setBit id false
    return (old, self)

def iter (self : VecStorage C) : Except Panic (List (Nat × C)) :=
  (iterOnes self.bits).mapM fun index => do
    let slot ← expect .bitsMismatch self.data[index]?
    let value ← assumeInit slot
    return (index, value)

def getChunk (self : VecStorage C) (start stop : Nat) : Except Panic (Option (List C)) :=
  match sliceGet self.bits start stop with
  | none => return none
  | some bits =>
    if !bits.all id then
      return none
    else do
      let data ← expect .chunkMismatch (sliceGet self.data start stop)
      let values ← data.mapM assumeInit
      return some values

def getChunkMut (self : VecStorage C) (start stop : Nat) :
    Except Panic (Option (List (CompMut C))) :=
  match sliceGet self.bits start stop with
  | none => return none
  | some bits =>
    if !bits.all id then
      return none
    else do
      let _ ← expect .chunkMismatch (sliceGet self.data start stop)
      let values ← (List.range' start (stop - start)).mapM (slotMut 0 self.data)
      return some values

/-- Write through a mutable reference. -/
def write (self : VecStorage C) (slot : Nat) (value : C) : VecStorage C :=
  { self with data := self.data.set slot (some value) }

end VecStorage

/-- `vec::StoragePartition` -/
structure VecPartition (C : Type) where
  bits : List Bool
  data : List (Option C)
  offset : Nat
  deriving DecidableEq, Repr

def VecStorage.asPartition (self : VecStorage C) : VecPartition C := ⟨self.bits, self.data, 0⟩

namespace VecPartition

def intoIterMut (self : VecPartition C) : Except Panic (List (Nat × CompMut C)) :=
  iterMut self.offset self.bits self.data

def intoMut (self : VecPartition C) (entity : Nat) : Except Panic (Option (CompMut C)) :=
  if entity < self.offset then
    .error (.notInPartition entity)
  else
    match self.bits[entity - self.offset]? with
    | some true => do
      let value ← slotMut self.offset self.data (entity - self.offset)
      return some value
    | _ => return none

/-- The index of an entity that is present. -/
def presentIndex (self : VecPartition C) (entity : Nat) : Except Panic (Option Nat) :=
  if entity < self.offset then
    .error (.notInPartition entity)
  else
    match self.bits[entity - self.offset]? with
    | some true => return some (entity - self.offset)
    | _ => return none

/-- `entities.try_map(..)?`: it stops at the first entity that is not present. -/
def presentIndices (self : VecPartition C) : List Nat → Except Panic (Option (List Nat))
  | [] => return some []
  | entity :: entities => do
    match ← self.presentIndex entity with
    | some index =>
      let indices ← self.presentIndices entities
      return indices.map (index :: ·)
    | none => return none

def intoManyMut (self : VecPartition C) (entities : List Nat) :
    Except Panic (Option (List (CompMut C))) := do
  match ← self.presentIndices entities with
  | some indices =>
    match sliceGetManyMut self.data.length indices with
    | some indices =>
      let values ← indices.mapM (slotMut self.offset self.data)
      return some values
    | none => return none
  | none => return none

/-- The partition that stays, and the one that is split out. -/
def splitOut (self : VecPartition C) (entity : Nat) :
    Except Panic (VecPartition C × VecPartition C) :=
  if entity < self.offset then
    .error .parameterOutOfBounds
  else
    let index := entity - self.offset
    if self.bits.length < index then
      return (self, ⟨[], [], self.offset + index⟩)
    else if self.data.length < index then
      .error .dataTooShort
    else
      return (⟨self.bits.take index, self.data.take index, self.offset⟩,
        ⟨self.bits.drop index, self.data.drop index, self.offset + index⟩)

def intoChunkMut (self : VecPartition C) (start stop : Nat) :
    Except Panic (Option (List (CompMut C))) :=
  if start < self.offset ∨ stop < self.offset then
    .error .arithmeticOverflow
  else
    let first := start - self.offset
    let last := stop - self.offset
    match sliceGet self.bits first last with
    | none => return none
    | some bits =>
      if !bits.all id then
        return none
      else do
        let _ ← expect .chunkMismatch (sliceGet self.data first last)
        let values ← (List.range' first (last - first)).mapM (slotMut self.offset self.data)
        return some values

end VecPartition

end Dynec.Storage
