import Dynec.Panic
import Mathlib.Data.List.Sort

/-!
# Discriminants

The data structures that are indexed by the discriminants of an isotope component.
A mutable reference to a value is the index of its slot, and a callback that is
given one returns a result with the new value of the slot.
-/

namespace Dynec.Comp

/-- `usize::MAX` on a 64-bit target. -/
def usizeMax : Nat := 2 ^ 64 - 1

/-- A discriminant type. `from_usize` panics for an integer that is not a
discriminant. -/
class Discrim (D : Type) where
  intoUsize : D → Nat
  fromUsize : Nat → Option D
  inverse : ∀ u d, fromUsize u = some d ↔ intoUsize d = u
  small : ∀ d, intoUsize d < usizeMax

/-- `D::from_usize`. -/
def fromUsize (D : Type) [Discrim D] (u : Nat) : Except Panic D :=
  expect .unsupportedUsize (Discrim.fromUsize u)

/-- `index + 1` on machine integers. -/
def nextLen (index : Nat) : Except Panic Nat :=
  if index < usizeMax then .ok (index + 1) else .error .arithmeticOverflow

/-- Calls a closure that has a state for each item of an array. -/
def mapAccum {σ α β : Type} (f : σ → α → Except Panic (β × σ)) :
    σ → List α → Except Panic (List β × σ)
  | s, [] => .ok ([], s)
  | s, a :: rest => do
    let (b, s) ← f s a
    let (bs, s) ← mapAccum f s rest
    return (b :: bs, s)

/-! ## Several mutable references -/

section Split

variable {C T U P : Type} [DecidableEq P]

/-- The loop of `split_mut_array`: `past` are the keys before, and `array` what is
filled. -/
def splitLoop (getter : C → Nat → Except Panic (Option T)) (put : C → Nat → T → C)
    (transform : Nat → Nat → T → Except Panic (U × T)) (onMissing : Nat → Panic)
    (asPtr : U → P) : List Nat → List Nat → List U → C → Except Panic (List U × C)
  | [], _, array, context => .ok (array, context)
  | key :: rest, past, array, context =>
    if key ∈ past then .error .duplicateKey
    else do
      let (value, new) ← match ← getter context key with
        | some old => transform past.length key old
        | none => .error (onMissing past.length)
      if asPtr value ∈ array.map asPtr then
        .error .duplicateKey
      else
        splitLoop getter put transform onMissing asPtr rest (past ++ [key]) (array ++ [value])
          (put context key new)

def splitMutArray (context : C) (getter : C → Nat → Except Panic (Option T))
    (put : C → Nat → T → C) (keys : List Nat)
    (transform : Nat → Nat → T → Except Panic (U × T)) (onMissing : Nat → Panic)
    (asPtr : U → P) : Except Panic (List U × C) :=
  splitLoop getter put transform onMissing asPtr keys [] [] context

end Split

variable {D V U P σ : Type} [DecidableEq P]

/-- `split_mut_array` on a slice of pairs, with `slice.get_mut`. -/
def splitPairs (vec : List (D × V)) (indices : List Nat) (transform : D → Nat → V → U × V)
    (onMissing : Nat → Panic) (asPtr : U → P) : Except Panic (List U × List (D × V)) :=
  splitMutArray vec (fun vec index => .ok vec[index]?) List.set indices
    (fun _ slot entry => .ok ((transform entry.1 slot entry.2).1,
      (entry.1, (transform entry.1 slot entry.2).2))) onMissing asPtr

/-- The value in a slot that may be empty. -/
def occupied (slots : List (Option V)) (index : Nat) : Option V := slots[index]?.join

/-- `split_mut_array` on a slice of optional values. -/
def splitSlots (slots : List (Option V)) (getter : List (Option V) → Nat → Except Panic (Option V))
    (indices : List Nat) (transform : Nat → Nat → V → Except Panic (U × V))
    (onMissing : Nat → Panic) (asPtr : U → P) : Except Panic (List U × List (Option V)) :=
  splitMutArray slots getter (fun slots index value => slots.set index (some value)) indices
    transform onMissing asPtr

/-- The values of the slots that are not empty, with the discriminant of the slot and its
index. The discriminant of an empty slot is computed too. -/
def filterSlots (D : Type) [Discrim D] (slots : List (Option V)) :
    Except Panic (List (D × Nat × V)) := do
  let items ← slots.zipIdx.mapM fun (value, index) => do
    let discrim ← fromUsize D index
    return value.map fun value => (discrim, index, value)
  return items.filterMap id

/-! ## Pairs

`[(D, V); N]` and `Vec<(D, V)>`, whose keys are indices. -/

namespace Pairs

def getDiscrim (self : List (D × V)) (key : Nat) : Option D := self[key]?.map (·.1)

def getBy (self : List (D × V)) (key : Nat) : Option V := self[key]?.map (·.2)

def getMutBy (self : List (D × V)) (key : Nat) : Option Nat := self[key]?.map fun _ => key

def getMutArrayBy (self : List (D × V)) (keys : List Nat) (transform : Nat → V → U × V)
    (onMissing : Nat → Panic) (asPtr : U → P) : Except Panic (List U × List (D × V)) :=
  splitPairs self keys (fun _ => transform) (fun i => onMissing (keys[i]?.getD 0)) asPtr

end Pairs

/-! ## The maps -/

/-- `binary_search_by_key` on a sorted slice: the index of the key, or where it would be
inserted. -/
def binarySearchByKey (keys : List Nat) (key : Nat) : Except Nat Nat :=
  let index := keys.countP (· < key)
  if keys[index]? = some key then .ok index else .error index


/-- Linear search. -/
structure LinearVecMap (D V : Type) where
  vec : List (D × V)

namespace LinearVecMap

def fromIter (entries : List (D × V)) : LinearVecMap D V := ⟨entries⟩

variable [DecidableEq D]

def getBy (self : LinearVecMap D V) (key : D) : Option V :=
  (self.vec.find? fun e => e.1 = key).map (·.2)

/-- The first entry with the key. -/
def position (self : LinearVecMap D V) (key : D) : Option Nat :=
  self.vec.findIdx? fun e => e.1 = key

def getMutBy (self : LinearVecMap D V) (key : D) : Option Nat := self.position key

def getMutArrayBy (self : LinearVecMap D V) (keys : List D) (transform : Nat → V → U × V)
    (onMissing : D → Panic) (asPtr : U → P) : Except Panic (List U × LinearVecMap D V) := do
  let indices ← keys.mapM fun key => expect (onMissing key) (self.position key)
  let (array, vec) ← splitPairs self.vec indices (fun _ => transform) (fun _ => .unreachable) asPtr
  return (array, ⟨vec⟩)

def iterMapped (self : LinearVecMap D V) : Except Panic (List (D × D × V)) :=
  .ok (self.vec.map fun e => (e.1, e.1, e.2))

def iterMappedMut (self : LinearVecMap D V) : Except Panic (List (D × Nat)) :=
  .ok (self.vec.zipIdx.map fun e => (e.1.1, e.2))

def intoIterMapped (self : LinearVecMap D V) : Except Panic (List (D × V)) := .ok self.vec

def mapRef (self : LinearVecMap D V) (f : V → U) : LinearVecMap D U :=
  ⟨self.vec.map fun e => (e.1, f e.2)⟩

/-- The slot of the entry, which is pushed if it is missing. -/
def getByOrInsert (self : LinearVecMap D V) (discrim : D) (inserter : σ → V × σ) (s : σ) :
    Except Panic (Nat × LinearVecMap D V × σ) :=
  match self.position discrim with
  | some i => .ok (i, self, s)
  | none => .ok (self.vec.length, ⟨self.vec ++ [(discrim, (inserter s).1)]⟩, (inserter s).2)

def getByOrInsertArray (self : LinearVecMap D V) (discrims : List D) (inserter : D → σ → V × σ)
    (s : σ) (transform : D → Nat → V → U × V) (asPtr : U → P) :
    Except Panic (List U × LinearVecMap D V × σ) := do
  let (indices, self, s) ←
    mapAccum (fun (self, s) discrim => getByOrInsert self discrim (inserter discrim) s) (self, s)
      discrims
  let (array, vec) ← splitPairs self.vec indices transform (fun _ => .unreachable) asPtr
  return (array, ⟨vec⟩, s)

end LinearVecMap

/-- Binary search. -/
structure SortedVecMap (D V : Type) where
  vec : List (D × V)

namespace SortedVecMap

variable [Discrim D]

def fromIter (entries : List (D × V)) : SortedVecMap D V :=
  ⟨entries.insertionSort fun e e' => Discrim.intoUsize e.1 ≤ Discrim.intoUsize e'.1⟩

def search (self : SortedVecMap D V) (key : D) : Except Nat Nat :=
  binarySearchByKey (self.vec.map fun e => Discrim.intoUsize e.1) (Discrim.intoUsize key)

def getBy (self : SortedVecMap D V) (key : D) : Option V :=
  match self.search key with
  | .ok index => self.vec[index]?.map (·.2)
  | .error _ => none

def getMutBy (self : SortedVecMap D V) (key : D) : Option Nat := (self.search key).toOption

def getMutArrayBy (self : SortedVecMap D V) (keys : List D) (transform : Nat → V → U × V)
    (onMissing : D → Panic) (asPtr : U → P) : Except Panic (List U × SortedVecMap D V) := do
  let indices ← keys.mapM fun key => expect (onMissing key) (self.search key).toOption
  let (array, vec) ← splitPairs self.vec indices (fun _ => transform) (fun _ => .unreachable) asPtr
  return (array, ⟨vec⟩)

def iterMapped (self : SortedVecMap D V) : Except Panic (List (D × D × V)) :=
  .ok (self.vec.map fun e => (e.1, e.1, e.2))

def iterMappedMut (self : SortedVecMap D V) : Except Panic (List (D × Nat)) :=
  .ok (self.vec.zipIdx.map fun e => (e.1.1, e.2))

def intoIterMapped (self : SortedVecMap D V) : Except Panic (List (D × V)) := .ok self.vec

def mapRef (self : SortedVecMap D V) (f : V → U) : SortedVecMap D U :=
  ⟨self.vec.map fun e => (e.1, f e.2)⟩

/-- The slot of the entry, which is inserted at its place if it is missing. -/
def getByOrInsert (self : SortedVecMap D V) (discrim : D) (inserter : σ → V × σ) (s : σ) :
    Except Panic (Nat × SortedVecMap D V × σ) :=
  match self.search discrim with
  | .ok index => .ok (index, self, s)
  | .error index =>
    .ok (index, ⟨self.vec.insertIdx index (discrim, (inserter s).1)⟩, (inserter s).2)

def getByOrInsertArray (self : SortedVecMap D V) (discrims : List D) (inserter : D → σ → V × σ)
    (s : σ) (transform : D → Nat → V → U × V) (asPtr : U → P) :
    Except Panic (List U × SortedVecMap D V × σ) := do
  let (indices, self, s) ←
    mapAccum (fun (self, s) discrim => getByOrInsert self discrim (inserter discrim) s) (self, s)
      discrims
  let (array, vec) ← splitPairs self.vec indices transform (fun _ => .unreachable) asPtr
  return (array, ⟨vec⟩, s)

end SortedVecMap

/-- The integers of the discriminants are indices. -/
structure BoundedVecMap (D V : Type) where
  vec : List (Option V)

namespace BoundedVecMap

variable [Discrim D]

/-- Lengthens the vector so that it has the index. -/
def resize (vec : List (Option V)) (index : Nat) : Except Panic (List (Option V)) := do
  let len ← nextLen index
  return vec ++ List.replicate (len - vec.length) none

def extend (self : BoundedVecMap D V) (entries : List (D × V)) :
    Except Panic (BoundedVecMap D V) :=
  entries.foldlM (fun self (d, value) => do
    let vec ← resize self.vec (Discrim.intoUsize d)
    return ⟨vec.set (Discrim.intoUsize d) (some value)⟩) self

/-- `sizeHint` is the lower bound of the iterator. -/
def fromIter (sizeHint : Nat) (entries : List (D × V)) : Except Panic (BoundedVecMap D V) :=
  extend ⟨List.replicate sizeHint none⟩ entries

def getBy (self : BoundedVecMap D V) (key : D) : Option V :=
  occupied self.vec (Discrim.intoUsize key)

def getMutBy (self : BoundedVecMap D V) (key : D) : Option Nat :=
  (occupied self.vec (Discrim.intoUsize key)).map fun _ => Discrim.intoUsize key

def getMutArrayBy (self : BoundedVecMap D V) (keys : List D) (transform : Nat → V → U × V)
    (onMissing : D → Panic) (asPtr : U → P) : Except Panic (List U × BoundedVecMap D V) := do
  let indices := keys.map Discrim.intoUsize
  let (array, vec) ← splitSlots self.vec (fun vec index => .ok (occupied vec index)) indices
    (fun _ slot value => .ok (transform slot value))
    (fun i => (keys[i]?.map onMissing).getD .unreachable) asPtr
  return (array, ⟨vec⟩)

def iterMapped (self : BoundedVecMap D V) : Except Panic (List (D × D × V)) := do
  return (← filterSlots D self.vec).map fun (discrim, _, value) => (discrim, discrim, value)

def iterMappedMut (self : BoundedVecMap D V) : Except Panic (List (D × Nat)) := do
  return (← filterSlots D self.vec).map fun (discrim, index, _) => (discrim, index)

def intoIterMapped (self : BoundedVecMap D V) : Except Panic (List (D × V)) := do
  return (← filterSlots D self.vec).map fun (discrim, _, value) => (discrim, value)

def mapRef (self : BoundedVecMap D V) (f : V → U) : BoundedVecMap D U :=
  ⟨self.vec.map (Option.map f)⟩

/-- The slot of the entry, which is filled if it is empty. -/
def getByOrInsert (self : BoundedVecMap D V) (discrim : D) (inserter : σ → V × σ) (s : σ) :
    Except Panic (Nat × BoundedVecMap D V × σ) := do
  let index := Discrim.intoUsize discrim
  let vec ← resize self.vec index
  match occupied vec index with
  | some _ => return (index, ⟨vec⟩, s)
  | none => return (index, ⟨vec.set index (some (inserter s).1)⟩, (inserter s).2)

def getByOrInsertArray (self : BoundedVecMap D V) (discrims : List D) (inserter : D → σ → V × σ)
    (s : σ) (transform : D → Nat → V → U × V) (asPtr : U → P) :
    Except Panic (List U × BoundedVecMap D V × σ) := do
  let (indices, self, s) ←
    mapAccum (fun (self, s) discrim => getByOrInsert self discrim (inserter discrim) s) (self, s)
      discrims
  let (array, vec) ← splitSlots self.vec (fun vec index => expect .notResized vec[index]?) indices
    (fun i slot value => do return transform (← fromUsize D i) slot value)
    (fun _ => .unreachable) asPtr
  return (array, ⟨vec⟩, s)

end BoundedVecMap

/-- The integers of the discriminants are indices of an array of fixed size. -/
structure ArrayMap (D V : Type) (N : Nat) where
  array : List (Option V)
  size : array.length = N

namespace ArrayMap

variable [Discrim D] {N : Nat}

def set (self : ArrayMap D V N) (index : Nat) (value : Option V) : ArrayMap D V N :=
  ⟨self.array.set index value, by rw [List.length_set, self.size]⟩

def fromIter (N : Nat) (entries : List (D × V)) : Except Panic (ArrayMap D V N) :=
  entries.foldlM (fun self (d, value) =>
    match self.array[Discrim.intoUsize d]? with
    | some (some _) => .error .duplicateDiscrim
    | some none => .ok (self.set (Discrim.intoUsize d) (some value))
    | none => .error .discrimOutOfRange) ⟨List.replicate N none, List.length_replicate⟩

def getBy (self : ArrayMap D V N) (key : D) : Option V :=
  occupied self.array (Discrim.intoUsize key)

def getMutBy (self : ArrayMap D V N) (key : D) : Option Nat :=
  (occupied self.array (Discrim.intoUsize key)).map fun _ => Discrim.intoUsize key

def getMutArrayBy (self : ArrayMap D V N) (keys : List D) (transform : Nat → V → U × V)
    (onMissing : D → Panic) (asPtr : U → P) : Except Panic (List U × ArrayMap D V N) :=
  splitMutArray self (fun self index => .ok (occupied self.array index))
    (fun self index value => self.set index (some value)) (keys.map Discrim.intoUsize)
    (fun _ slot value => .ok (transform slot value))
    (fun i => (keys[i]?.map onMissing).getD .unreachable) asPtr

def iterMapped (self : ArrayMap D V N) : Except Panic (List (D × D × V)) := do
  return (← filterSlots D self.array).map fun (discrim, _, value) => (discrim, discrim, value)

def iterMappedMut (self : ArrayMap D V N) : Except Panic (List (D × Nat)) := do
  return (← filterSlots D self.array).map fun (discrim, index, _) => (discrim, index)

def intoIterMapped (self : ArrayMap D V N) : Except Panic (List (D × V)) := do
  return (← filterSlots D self.array).map fun (discrim, _, value) => (discrim, value)

def mapRef (self : ArrayMap D V N) (f : V → U) : ArrayMap D U N :=
  ⟨self.array.map (Option.map f), by rw [List.length_map, self.size]⟩

/-- The slot of the entry, which is filled if it is empty. -/
def getByOrInsert (self : ArrayMap D V N) (discrim : D) (inserter : σ → V × σ) (s : σ) :
    Except Panic (Nat × ArrayMap D V N × σ) :=
  let index := Discrim.intoUsize discrim
  match self.array[index]? with
  | some (some _) => .ok (index, self, s)
  | some none => .ok (index, self.set index (some (inserter s).1), (inserter s).2)
  | none => .error .discrimOutOfRange

def getByOrInsertArray (self : ArrayMap D V N) (discrims : List D) (inserter : D → σ → V × σ)
    (s : σ) (transform : D → Nat → V → U × V) (asPtr : U → P) :
    Except Panic (List U × ArrayMap D V N × σ) := do
  let (indices, self, s) ←
    mapAccum (fun (self, s) discrim => getByOrInsert self discrim (inserter discrim) s) (self, s)
      discrims
  let (array, self) ← splitMutArray self
    (fun self index => expect .indexOutOfBounds self.array[index]?)
    (fun self index value => self.set index (some value)) indices
    (fun i slot value => do return transform (← fromUsize D i) slot value)
    (fun _ => .unreachable) asPtr
  return (array, self, s)

end ArrayMap

/-! ## All maps -/

/-- The implementations of `FullMap`. -/
inductive FullMap (D V : Type) where
  | linear (map : LinearVecMap D V)
  | sorted (map : SortedVecMap D V)
  | bounded (map : BoundedVecMap D V)
  | array {N : Nat} (map : ArrayMap D V N)

/-- What `from_iter` builds a map from: the type of the map, with the lower bound of the
iterator or the size of the array where it depends on them. -/
inductive MapType where
  | linear
  | sorted
  | bounded (sizeHint : Nat)
  | array (N : Nat)

namespace FullMap

variable [Discrim D] [DecidableEq D]

def fromIter (entries : List (D × V)) : MapType → Except Panic (FullMap D V)
  | .linear => .ok (.linear (.fromIter entries))
  | .sorted => .ok (.sorted (.fromIter entries))
  | .bounded sizeHint => .bounded <$> BoundedVecMap.fromIter sizeHint entries
  | .array N => .array <$> ArrayMap.fromIter N entries

def getBy : FullMap D V → D → Option V
  | .linear map => map.getBy
  | .sorted map => map.getBy
  | .bounded map => map.getBy
  | .array map => map.getBy

def getMutBy : FullMap D V → D → Option Nat
  | .linear map => map.getMutBy
  | .sorted map => map.getMutBy
  | .bounded map => map.getMutBy
  | .array map => map.getMutBy

/-- Writes a value through a reference. -/
def write (slot : Nat) (value : V) : FullMap D V → FullMap D V
  | .linear map => .linear ⟨map.vec.modify slot fun e => (e.1, value)⟩
  | .sorted map => .sorted ⟨map.vec.modify slot fun e => (e.1, value)⟩
  | .bounded map => .bounded ⟨map.vec.set slot (some value)⟩
  | .array map => .array (map.set slot (some value))

def getMutArrayBy (self : FullMap D V) (keys : List D) (transform : Nat → V → U × V)
    (onMissing : D → Panic) (asPtr : U → P) : Except Panic (List U × FullMap D V) :=
  match self with
  | .linear map => Prod.map id .linear <$> map.getMutArrayBy keys transform onMissing asPtr
  | .sorted map => Prod.map id .sorted <$> map.getMutArrayBy keys transform onMissing asPtr
  | .bounded map => Prod.map id .bounded <$> map.getMutArrayBy keys transform onMissing asPtr
  | .array map => Prod.map id .array <$> map.getMutArrayBy keys transform onMissing asPtr

def iterMapped : FullMap D V → Except Panic (List (D × D × V))
  | .linear map => map.iterMapped
  | .sorted map => map.iterMapped
  | .bounded map => map.iterMapped
  | .array map => map.iterMapped

def iterMappedMut : FullMap D V → Except Panic (List (D × Nat))
  | .linear map => map.iterMappedMut
  | .sorted map => map.iterMappedMut
  | .bounded map => map.iterMappedMut
  | .array map => map.iterMappedMut

def intoIterMapped : FullMap D V → Except Panic (List (D × V))
  | .linear map => map.intoIterMapped
  | .sorted map => map.intoIterMapped
  | .bounded map => map.intoIterMapped
  | .array map => map.intoIterMapped

def mapRef (f : V → U) : FullMap D V → FullMap D U
  | .linear map => .linear (map.mapRef f)
  | .sorted map => .sorted (map.mapRef f)
  | .bounded map => .bounded (map.mapRef f)
  | .array map => .array (map.mapRef f)

def getByOrInsert (self : FullMap D V) (discrim : D) (inserter : σ → V × σ) (s : σ) :
    Except Panic (Nat × FullMap D V × σ) :=
  match self with
  | .linear map => Prod.map id (Prod.map .linear id) <$> map.getByOrInsert discrim inserter s
  | .sorted map => Prod.map id (Prod.map .sorted id) <$> map.getByOrInsert discrim inserter s
  | .bounded map => Prod.map id (Prod.map .bounded id) <$> map.getByOrInsert discrim inserter s
  | .array map => Prod.map id (Prod.map .array id) <$> map.getByOrInsert discrim inserter s

def getByOrInsertArray (self : FullMap D V) (discrims : List D) (inserter : D → σ → V × σ) (s : σ)
    (transform : D → Nat → V → U × V) (asPtr : U → P) :
    Except Panic (List U × FullMap D V × σ) :=
  match self with
  | .linear map => Prod.map id (Prod.map .linear id) <$>
      map.getByOrInsertArray discrims inserter s transform asPtr
  | .sorted map => Prod.map id (Prod.map .sorted id) <$>
      map.getByOrInsertArray discrims inserter s transform asPtr
  | .bounded map => Prod.map id (Prod.map .bounded id) <$>
      map.getByOrInsertArray discrims inserter s transform asPtr
  | .array map => Prod.map id (Prod.map .array id) <$>
      map.getByOrInsertArray discrims inserter s transform asPtr

end FullMap

end Dynec.Comp
