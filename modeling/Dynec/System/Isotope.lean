import Dynec.Lib.HashMap
import Dynec.Comp.Inserts

/-!
# Accessors of isotope storages

A storage is in a cell, and a reference to the storage points to the cell. A partial
accessor has the cells of the discriminants it was made for. A full accessor keeps the
cells it has seen in a map, and takes others from the storages of the component, where
they are created if they do not exist. The accessors for reading and for writing differ
in how they lock the cells only.
-/

namespace Dynec.System

open Fallible Dynec.Comp

variable {D S T K : Type}

/-- The storages of an isotope component. -/
structure MapInner (D S : Type) where
  map : HashMap D Nat
  cells : List S

/-- The cell of the discriminant. A new one has the storage `initial`. -/
def MapInner.getOrCreate [DecidableEq D] (initial : S) (discrim : D) (self : MapInner D S) :
    Nat × MapInner D S :=
  match self.map.lookup discrim with
  | some cell => (cell, self)
  | none =>
    (self.cells.length, ⟨self.map.insert discrim self.cells.length, self.cells ++ [initial]⟩)

/-- The methods of an accessor. -/
structure StorageMap (T K : Type) where
  getStorage : K → T → Except Panic (Nat × T)
  getStorageMany : List K → T → Except Panic (List Nat × T)

/-- An accessor of one storage. -/
structure AccessSingle where
  storage : Nat
  deriving DecidableEq

def StorageMap.split (map : StorageMap T K) (keys : List K) (self : T) :
    Except Panic (List AccessSingle × T) := do
  let (storages, self) ← map.getStorageMany keys self
  return (storages.map fun storage => ⟨storage⟩, self)

/-! ## Partial accessors -/

def partialStorages (D : Type) : StorageMap (List (D × Nat)) Nat where
  getStorage key self := do
    let storage ← expect .invalidKey (Pairs.getBy self key)
    return (storage, self)
  getStorageMany keys self :=
    Pairs.getMutArrayBy self keys (fun _ storage => (storage, storage)) (fun _ => .invalidKey) id

/-- `read_partial_isotope_storage` and `write_partial_isotope_storage`. -/
def openPartial [DecidableEq D] (initial : S) (discrims : List D) (fullMap : MapInner D S) :
    Except Panic (List (D × Nat) × MapInner D S) :=
  mapAccum (fun fullMap discrim =>
    let (storage, fullMap) := fullMap.getOrCreate initial discrim
    .ok ((discrim, storage), fullMap)) fullMap discrims

def readPartial (D : Type) : StorageMap (List (D × Nat)) Nat := partialStorages D

def writePartial (D : Type) : StorageMap (List (D × Nat)) Nat := partialStorages D

/-! ## Full accessors -/

structure Storages (D S : Type) where
  fullMap : MapInner D S
  accessorStorages : FullMap D Nat

variable [Discrim D] [DecidableEq D]

def fullStorages (initial : S) : StorageMap (Storages D S) D where
  getStorage discrim self := do
    let (slot, accessorStorages, fullMap) ← self.accessorStorages.getByOrInsert discrim
      (MapInner.getOrCreate initial discrim) self.fullMap
    let storage ← expect .unreachable (accessorStorages.valueAt slot)
    return (storage, ⟨fullMap, accessorStorages⟩)
  getStorageMany discrims self := do
    let (storages, accessorStorages, fullMap) ← self.accessorStorages.getByOrInsertArray discrims
      (MapInner.getOrCreate initial) self.fullMap (fun _ _ storage => (storage, storage)) id
    return (storages, ⟨fullMap, accessorStorages⟩)

/-- `read_full_isotope_storage` and `write_full_isotope_storage`, with the order in which the
storages are iterated. -/
def openFull (ty : MapType) (order : IterOrder (Sigma fun _ : D => Nat)) (fullMap : MapInner D S) :
    Except Panic (Storages D S) := do
  let accessorStorages ← FullMap.fromIter
    ((order.arrange fullMap.map.entries).map fun e => (e.1, e.2)) ty
  return ⟨fullMap, accessorStorages⟩

def readFull (initial : S) : StorageMap (Storages D S) D := fullStorages initial

def writeFull (initial : S) : StorageMap (Storages D S) D := fullStorages initial

/-! ## States -/

/-- Different discriminants have different cells. -/
structure MapInner.Sound (inner : MapInner D S) : Prop where
  bound : ∀ d cell, inner.map.lookup d = some cell → cell < inner.cells.length
  apart : ∀ d d' cell, inner.map.lookup d = some cell → inner.map.lookup d' = some cell → d = d'

omit [Discrim D] in
theorem getOrCreate_lookup (initial : S) (d : D) (self : MapInner D S) (d' : D) :
    (self.getOrCreate initial d).2.map.lookup d' =
      if d' = d then some (self.getOrCreate initial d).1 else self.map.lookup d' := by
  rw [MapInner.getOrCreate]
  cases found : self.map.lookup d with
  | some cell =>
    by_cases same : d' = d
    · rw [if_pos same, same]
      exact found
    · rw [if_neg same]
  | none =>
    simp only
    rw [HashMap.lookup_insert_ite]

omit [Discrim D] in
theorem getOrCreate_kept {self : MapInner D S} {d : D} {cell : Nat}
    (found : self.map.lookup d = some cell) (initial : S) (d' : D) :
    (self.getOrCreate initial d').2.map.lookup d = some cell := by
  rw [getOrCreate_lookup]
  split
  · rename_i same
    subst same
    rw [MapInner.getOrCreate, found]
  · exact found

omit [Discrim D] in
theorem MapInner.Sound.getOrCreate {self : MapInner D S} (sound : self.Sound) (initial : S) (d : D) :
    (self.getOrCreate initial d).2.Sound := by
  cases found : self.map.lookup d with
  | some cell =>
    rw [MapInner.getOrCreate, found]
    exact sound
  | none =>
    have created : self.getOrCreate initial d = (self.cells.length,
        ⟨self.map.insert d self.cells.length, self.cells ++ [initial]⟩) := by
      rw [MapInner.getOrCreate, found]
    rw [created]
    constructor
    case bound =>
      intro d' cell here
      rw [HashMap.lookup_insert_ite] at here
      rw [List.length_append, List.length_singleton]
      split at here
      · cases here
        omega
      · have := sound.bound d' cell here
        omega
    case apart =>
      intro d₁ d₂ cell here here'
      rw [HashMap.lookup_insert_ite] at here here'
      split at here <;> split at here'
      · rename_i first second
        rw [first, second]
      · cases here
        have := sound.bound d₂ _ here'
        omega
      · cases here'
        have := sound.bound d₁ _ here
        omega
      · exact sound.apart d₁ d₂ cell here here'

/-- A cell is that of one discriminant. -/
def Tagged (storages : List (D × Nat)) : Prop :=
  ∀ d d' cell cell', (d, cell) ∈ storages → (d', cell') ∈ storages → (cell = cell' ↔ d = d')

omit [Discrim D] in
theorem openPartial_known {initial : S} {discrims : List D} {fullMap fullMap' : MapInner D S}
    {storages : List (D × Nat)} (sound : fullMap.Sound)
    (run : openPartial initial discrims fullMap = .ok (storages, fullMap')) :
    fullMap'.Sound ∧ (∀ d cell, fullMap.map.lookup d = some cell → fullMap'.map.lookup d = some cell) ∧
      ∀ d cell, (d, cell) ∈ storages → fullMap'.map.lookup d = some cell := by
  induction discrims generalizing fullMap storages with
  | nil =>
    cases run
    exact ⟨sound, fun _ _ found => found, nofun⟩
  | cons d rest ih =>
    obtain ⟨_, first, run⟩ := bind_eq_ok.mp run
    cases first
    obtain ⟨⟨tail, last⟩, later, run⟩ := bind_eq_ok.mp run
    cases run
    obtain ⟨sound', kept, found⟩ := ih (sound.getOrCreate initial d) later
    refine ⟨sound', fun d' cell here => kept d' cell ?_, fun d' cell member => ?_⟩
    · exact getOrCreate_kept here initial d
    · rcases List.mem_cons.mp member with same | member
      · cases same
        exact kept _ _ ((getOrCreate_lookup initial _ fullMap _).trans (if_pos rfl))
      · exact found d' cell member

omit [Discrim D] in
theorem openPartial_tagged {initial : S} {discrims : List D} {fullMap fullMap' : MapInner D S}
    {storages : List (D × Nat)} (sound : fullMap.Sound)
    (run : openPartial initial discrims fullMap = .ok (storages, fullMap')) : Tagged storages := by
  obtain ⟨sound', -, known⟩ := openPartial_known sound run
  intro d d' cell cell' member member'
  have found := known d cell member
  have found' := known d' cell' member'
  constructor
  · rintro rfl
    exact sound'.apart d d' cell found found'
  · rintro rfl
    exact Option.some.inj (found.symm.trans found')

/-- The cells of the accessor are those of the component. -/
structure Storages.Valid (storages : Storages D S) : Prop where
  wellFormed : storages.accessorStorages.WellFormed
  sound : storages.fullMap.Sound
  known : ∀ d cell, storages.accessorStorages.getBy d = some cell →
    storages.fullMap.map.lookup d = some cell

theorem openFull_valid {ty : MapType} {order : IterOrder (Sigma fun _ : D => Nat)}
    {fullMap : MapInner D S} (sound : fullMap.Sound) {self : Storages D S}
    (run : openFull ty order fullMap = .ok self)
    (accepts : FullMap.Accepts ((order.arrange fullMap.map.entries).map fun e => (e.1, e.2)) ty) :
    self.Valid := by
  have distinct : (((order.arrange fullMap.map.entries).map fun e => (e.1, e.2)).map (·.1)).Nodup := by
    rw [List.map_map]
    have keys := fullMap.map.nodupKeys
    exact ((order.perm fullMap.map.entries).map Sigma.fst).nodup_iff.mpr keys
  obtain ⟨m, collected, wf, entries⟩ := FullMap.fromIter_returns distinct accepts
  rw [openFull, collected] at run
  cases run
  refine ⟨wf, sound, fun d cell found => ?_⟩
  rw [FullMap.getBy_iff wf, entries, List.mem_map] at found
  obtain ⟨e, member, same⟩ := found
  cases same
  rw [order.mem_arrange] at member
  exact (HashMap.mem_entries_iff _ _ _).mp member

/-! ## Many storages at once -/

/-- `get_storage_many` and `split` give what `get_storage` gives for each key. -/
def Pointwise (map : StorageMap T K) (keys : List K) (self : T) : Prop :=
  ∃ storages self', mapAccum (fun self key => map.getStorage key self) self keys = .ok (storages, self') ∧
    map.getStorageMany keys self = .ok (storages, self') ∧
    map.split keys self = .ok (storages.map fun storage => ⟨storage⟩, self')

omit [Discrim D] [DecidableEq D] in
theorem pointwise_iff {map : StorageMap T K} {keys : List K} {self self' : T} {storages : List Nat}
    (sequential : mapAccum (fun self key => map.getStorage key self) self keys = .ok (storages, self')) :
    Pointwise map keys self ↔ map.getStorageMany keys self = .ok (storages, self') := by
  constructor
  · rintro ⟨storages', self'', sequential', many, -⟩
    cases sequential.symm.trans sequential'
    exact many
  · intro many
    refine ⟨storages, self', sequential, many, ?_⟩
    rw [StorageMap.split, many]
    rfl

section Partial

variable {storages : List (D × Nat)} {keys : List Nat}

omit [Discrim D] [DecidableEq D] in
theorem partial_sequential {cells : List Nat}
    (found : List.Forall₂ (fun k cell => Pairs.getBy storages k = some cell) keys cells) :
    mapAccum (fun self key => (partialStorages D).getStorage key self) storages keys =
      .ok (cells, storages) := by
  induction found with
  | nil => rfl
  | @cons k cell keys cells here _ ih =>
    have first : (partialStorages D).getStorage k storages = .ok (cell, storages) := by
      simp only [partialStorages, here, expect_some, ok_bind]
      rfl
    exact mapAccum_cons first ih

section Many

variable {es : List (D × Nat)} (found : List.Forall₂ (fun (k : Nat) e => storages[k]? = some e) keys es)

omit [Discrim D] [DecidableEq D] in
include found in
theorem entry_at_key {i k : Nat} (at_i : keys[i]? = some k) :
    ∃ e, storages[k]? = some e ∧ es[i]? = some e := by
  obtain ⟨inside, rfl⟩ := List.getElem?_eq_some_iff.mp at_i
  have inside' : i < es.length := by
    rw [← found.length_eq]
    exact inside
  exact ⟨es[i], found.get inside inside', List.getElem?_eq_getElem inside'⟩

omit [Discrim D] [DecidableEq D] in
theorem cells_differ (apart : (es.map (·.2)).Nodup) {i j : Nat} {e e' : D × Nat} (before : i < j)
    (at_i : es[i]? = some e) (at_j : es[j]? = some e') : e.2 ≠ e'.2 := by
  intro same
  have inside := (List.getElem?_eq_some_iff.mp at_j).1
  refine List.nodup_iff_getElem?_ne_getElem?.mp apart i j before (by rwa [List.length_map]) ?_
  rw [List.getElem?_map, List.getElem?_map, at_i, at_j, Option.map_some, Option.map_some, same]

omit [Discrim D] [DecidableEq D] in
include found in
/-- Keys of different storages are different. -/
theorem keys_once (apart : (es.map (·.2)).Nodup) : keys.Nodup := by
  rw [List.nodup_iff_getElem?_ne_getElem?]
  intro i j before inside same
  obtain ⟨e', here', at_j⟩ := entry_at_key found (List.getElem?_eq_getElem inside)
  obtain ⟨e, here, at_i⟩ := entry_at_key found (same.trans (List.getElem?_eq_getElem inside))
  cases here.symm.trans here'
  exact cells_differ apart before at_i at_j rfl

omit [Discrim D] [DecidableEq D] in
include found in
theorem partial_returns (apart : (es.map (·.2)).Nodup) :
    ∃ out vec, (partialStorages D).getStorageMany keys storages = .ok (out, vec) := by
  refine splitMutArray_returns pairs_sees pairs_writes (keys_once found apart) ?_ ?_
  · intro i k at_i
    obtain ⟨e, here, -⟩ := entry_at_key found at_i
    exact ⟨e, _, here, rfl⟩
  · intro i j k k' old old' r r' before at_i at_j here here' run run'
    cases run
    cases run'
    obtain ⟨e, at_k, at_es⟩ := entry_at_key found at_i
    obtain ⟨e', at_k', at_es'⟩ := entry_at_key found at_j
    cases at_k.symm.trans here
    cases at_k'.symm.trans here'
    exact cells_differ apart before at_es at_es'

omit [Discrim D] [DecidableEq D] in
include found in
/-- A call that returns gives the storages at the keys, and changes nothing. -/
theorem partial_results {out : List Nat} {vec : List (D × Nat)}
    (run : (partialStorages D).getStorageMany keys storages = .ok (out, vec)) :
    out = es.map (·.2) ∧ vec = storages := by
  have parted := splitMutArray_parted pairs_sees pairs_writes run
  constructor
  · apply List.ext_getElem?
    intro i
    rw [List.getElem?_map]
    by_cases inside : i < keys.length
    · obtain ⟨e, at_k, at_es⟩ := entry_at_key found (List.getElem?_eq_getElem inside)
      obtain ⟨old, r, here, called, at_out, -⟩ := parted.given i _ (List.getElem?_eq_getElem inside)
      cases called
      cases at_k.symm.trans here
      rw [at_out, at_es]
      rfl
    · rw [List.getElem?_eq_none (by rw [parted.filled]; omega),
        List.getElem?_eq_none (by rw [← found.length_eq]; omega)]
      rfl
  · refine splitMutArray_same pairs_sees pairs_writes ?_ (fun _ _ _ => FullMap.set_of_getElem?) run
    intro i k e r called
    cases called
    rfl

omit [Discrim D] [DecidableEq D] in
include found in
/-- The call returns if the storages are different. -/
theorem partial_many :
    (partialStorages D).getStorageMany keys storages = .ok (es.map (·.2), storages) ↔
      (es.map (·.2)).Nodup := by
  constructor
  · intro run
    have apart := (splitMutArray_parted pairs_sees pairs_writes run).apart
    rwa [List.map_id] at apart
  · intro apart
    obtain ⟨out, vec, run⟩ := partial_returns found apart
    obtain ⟨rfl, rfl⟩ := partial_results found run
    exact run

end Many

omit [Discrim D] [DecidableEq D] in
theorem partial_pointwise (tagged : Tagged storages) (supported : ∀ k ∈ keys, k < storages.length) :
    Pointwise (partialStorages D) keys storages ↔
      (keys.filterMap (Pairs.getDiscrim storages)).Nodup := by
  have each : ∀ k ∈ keys, ∃ e, storages[k]? = some e := fun k member =>
    ⟨_, List.getElem?_eq_getElem (supported k member)⟩
  obtain ⟨es, found⟩ := exists_forall₂ each
  have cells : List.Forall₂ (fun k cell => Pairs.getBy storages k = some cell) keys (es.map (·.2)) := by
    refine List.forall₂_map_right_iff.mpr (found.imp fun k e here => ?_)
    rw [Pairs.getBy, here]
    rfl
  have discrims : keys.filterMap (Pairs.getDiscrim storages) = es.map (·.1) := by
    refine filterMap_of_forall₂ (List.forall₂_map_right_iff.mpr (found.imp fun k e here => ?_))
    rw [Pairs.getDiscrim, here]
    rfl
  have members : ∀ e ∈ es, e ∈ storages := by
    intro e member
    rw [← filterMap_of_forall₂ found, List.mem_filterMap] at member
    obtain ⟨k, -, here⟩ := member
    exact List.mem_of_getElem? here
  rw [pointwise_iff (partial_sequential cells), partial_many found, discrims,
    List.nodup_iff_pairwise_ne, List.nodup_iff_pairwise_ne, List.pairwise_map, List.pairwise_map]
  refine List.Pairwise.iff_of_mem fun {e e'} member member' => not_congr ?_
  exact tagged e.1 e'.1 e.2 e'.2 (members e member) (members e' member')

end Partial

section Full

variable {initial : S} {self : Storages D S}

/-- What one `get_storage` does. -/
structure Fetched (initial : S) (d : D) (old new : Storages D S) (slot cell : Nat) : Prop where
  inserted : old.accessorStorages.getByOrInsert d (MapInner.getOrCreate initial d) old.fullMap =
    .ok (slot, new.accessorStorages, new.fullMap)
  fetched : (fullStorages initial).getStorage d old = .ok (cell, new)
  valid : new.Valid
  here : new.accessorStorages.getBy d = some cell
  supports : ∀ d', new.accessorStorages.Supports d' ↔ old.accessorStorages.Supports d'
  kept : ∀ d' cell', old.accessorStorages.getBy d' = some cell' →
    new.accessorStorages.getBy d' = some cell'

theorem full_getStorage (initial : S) (valid : self.Valid) {d : D}
    (supports : self.accessorStorages.Supports d) :
    ∃ self' slot cell, Fetched initial d self self' slot cell := by
  obtain ⟨slot, m, run, obtained⟩ := FullMap.getByOrInsert_spec valid.wellFormed supports
    (MapInner.getOrCreate initial d) self.fullMap
  have known : (self.accessorStorages.getBy d).getD (self.fullMap.getOrCreate initial d).1 =
        (self.fullMap.getOrCreate initial d).1 ∧
      (if (self.accessorStorages.getBy d).isSome then self.fullMap
        else (self.fullMap.getOrCreate initial d).2) = (self.fullMap.getOrCreate initial d).2 := by
    cases found : self.accessorStorages.getBy d with
    | none => exact ⟨rfl, rfl⟩
    | some cell =>
      rw [MapInner.getOrCreate, valid.known d cell found]
      exact ⟨rfl, rfl⟩
  rw [known.1] at obtained
  rw [known.2] at run
  have value := (FullMap.valueAt_iff obtained.wellFormed).mpr ⟨d, obtained.here⟩
  refine ⟨⟨(self.fullMap.getOrCreate initial d).2, m⟩, slot, (self.fullMap.getOrCreate initial d).1, ?_⟩
  constructor
  case inserted => exact run
  case fetched =>
    simp only [fullStorages, run, ok_bind, value, expect_some]
    rfl
  case valid =>
    refine ⟨obtained.wellFormed, valid.sound.getOrCreate initial d, fun d' cell here => ?_⟩
    rw [obtained.getBy] at here
    by_cases same : d' = d
    · rw [same, Function.update_self] at here
      simp only [getOrCreate_lookup]
      rw [if_pos same]
      exact here
    · rw [Function.update_of_ne same] at here
      exact getOrCreate_kept (valid.known d' cell here) initial d
  case here => rw [obtained.getBy, Function.update_self]
  case supports => exact obtained.supports
  case kept =>
    intro d' cell' here
    by_cases same : d' = d
    · subst same
      rw [obtained.getBy, Function.update_self, MapInner.getOrCreate, valid.known d' cell' here]
    · rw [obtained.getBy, Function.update_of_ne same]
      exact here

/-- `get_storage` for each key. -/
theorem full_sequential (initial : S) (valid : self.Valid) {keys : List D}
    (supports : ∀ d ∈ keys, self.accessorStorages.Supports d) : ∃ cells indices self',
    mapAccum (fun self key => (fullStorages initial).getStorage key self) self keys =
      .ok (cells, self') ∧
    self.accessorStorages.getEachOrInsert keys (MapInner.getOrCreate initial) self.fullMap =
      .ok (indices, self'.accessorStorages, self'.fullMap) ∧
    self'.Valid ∧
    (∀ d cell, self.accessorStorages.getBy d = some cell → self'.accessorStorages.getBy d = some cell) ∧
    List.Forall₂ (fun d cell => self'.accessorStorages.getBy d = some cell) keys cells := by
  induction keys generalizing self with
  | nil => exact ⟨[], [], self, rfl, rfl, valid, fun _ _ here => here, .nil⟩
  | cons d rest ih =>
    obtain ⟨here, supports⟩ := List.forall_mem_cons.mp supports
    obtain ⟨self₁, slot, cell, fetched⟩ := full_getStorage initial valid here
    obtain ⟨cells, indices, self', sequential, inserted, valid', kept, found⟩ := ih fetched.valid
      fun d' member => (fetched.supports d').mpr (supports d' member)
    refine ⟨cell :: cells, slot :: indices, self', ?_, ?_, valid', ?_, ?_⟩
    · exact mapAccum_cons fetched.fetched sequential
    · exact mapAccum_cons fetched.inserted inserted
    · exact fun d' cell' known => kept d' cell' (fetched.kept d' cell' known)
    · exact .cons (kept d cell fetched.here) found

/-- Different slots have different cells. -/
theorem Storages.Valid.slot_inj (valid : self.Valid) {slot slot' cell : Nat}
    (here : self.accessorStorages.valueAt slot = some cell)
    (here' : self.accessorStorages.valueAt slot' = some cell) : slot = slot' := by
  obtain ⟨d, holds⟩ := (FullMap.valueAt_iff valid.wellFormed).mp here
  obtain ⟨d', holds'⟩ := (FullMap.valueAt_iff valid.wellFormed).mp here'
  have known := valid.known d cell ((FullMap.getBy_iff valid.wellFormed).mpr ⟨slot, holds⟩)
  have known' := valid.known d' cell ((FullMap.getBy_iff valid.wellFormed).mpr ⟨slot', holds'⟩)
  cases valid.sound.apart d d' cell known known'
  exact holds.slot_inj valid.wellFormed holds'

theorem Storages.Valid.derived (valid : self.Valid) :
    FullMap.Derived self.accessorStorages.valueAt (fun (_ : D) _ storage => (storage, storage)) id := by
  intro d d' slot slot' v v' here here' same
  cases same
  exact valid.slot_inj here here'

theorem placed_values {m : FullMap D Nat} (wf : m.WellFormed) {keys : List D} {slots cells : List Nat}
    (placed : Placed m.getMutBy keys slots)
    (found : List.Forall₂ (fun d cell => m.getBy d = some cell) keys cells) :
    List.Forall₂ (fun slot cell => m.valueAt slot = some cell) slots cells := by
  induction placed generalizing cells with
  | nil =>
    cases found
    exact .nil
  | @cons d slot keys slots here _ ih =>
    cases found with
    | @cons _ cell _ cells looked found =>
      refine .cons ?_ (ih found)
      have value := FullMap.getMutBy_valueAt wf d
      rw [here, looked, Option.map_some, Option.map_some] at value
      exact Option.some.inj value

omit [Discrim D] [DecidableEq D] in
theorem handed_values {look look' : Nat → Option Nat} {slots out : List Nat} {told : List D}
    (handed : Handed look look' slots (told.map fun _ _ storage => (storage, storage)) out) :
    List.Forall₂ (fun slot cell => look slot = some cell) slots out := by
  refine List.forall₂_iff_get.mpr ⟨handed.filled.symm, fun i inside inside' => ?_⟩
  have long := handed.called
  obtain ⟨v, found, at_out, -⟩ := handed.given i slots[i] _ (List.getElem?_eq_getElem inside)
    (List.getElem?_eq_getElem (by rw [long]; exact inside))
  rw [List.getElem_map] at at_out
  rw [List.getElem?_eq_getElem inside'] at at_out
  rw [List.get_eq_getElem, List.get_eq_getElem, found, Option.some.inj at_out]

/-- What is known when `get_storage_many` has returned. -/
theorem full_many_ok {keys : List D} {indices out : List Nat} {self' new : Storages D S}
    (inserted : self.accessorStorages.getEachOrInsert keys (MapInner.getOrCreate initial) self.fullMap =
      .ok (indices, self'.accessorStorages, self'.fullMap))
    (many : (fullStorages initial).getStorageMany keys self = .ok (out, new)) :
    out.Nodup ∧ new = self' := by
  obtain ⟨⟨out, m, fullMap⟩, run, same⟩ := bind_eq_ok.mp many
  cases same
  rw [FullMap.getByOrInsertArray_eq, inserted, ok_bind] at run
  obtain ⟨r, split, same⟩ := bind_eq_ok.mp run
  cases same
  have apart := FullMap.splitEntries_apart split
  rw [List.map_id] at apart
  have kept := FullMap.splitEntries_same (fun _ _ _ => rfl) split
  refine ⟨apart, ?_⟩
  rw [kept]

theorem full_pointwise (initial : S) (valid : self.Valid) {keys : List D}
    (supports : ∀ d ∈ keys, self.accessorStorages.Supports d) :
    Pointwise (fullStorages initial) keys self ↔
      keys.Nodup ∧ FullMap.EntriesCurrent self.accessorStorages keys := by
  obtain ⟨cells, indices, self', sequential, inserted, valid', -, found⟩ :=
    full_sequential initial valid supports
  rw [pointwise_iff sequential]
  have distinct : keys.Nodup ↔ cells.Nodup := by
    refine List.rel_nodup ⟨fun d d' cell here here' => ?_, fun d cell cell' here here' => ?_⟩ found
    · exact valid'.sound.apart d d' cell (valid'.known d cell here) (valid'.known d' cell here')
    · exact Option.some.inj (here.symm.trans here')
  rw [FullMap.entriesCurrent_iff]
  constructor
  · intro many
    have once := distinct.mpr (full_many_ok inserted many).1
    obtain ⟨r, run, same⟩ := bind_eq_ok.mp many
    cases same
    obtain ⟨m₁, s₁, slots, indices', called⟩ := FullMap.exists_called valid.wellFormed once supports
      (MapInner.getOrCreate initial) self.fullMap
    obtain ⟨_, run'⟩ := called.sequential.run
    cases inserted.symm.trans run'
    obtain ⟨⟨-, -, supported⟩, -, -, told, -, handed⟩ :=
      (called.exactly Nat Nat _ id valid'.derived).of_ok run
    have values := placed_values valid'.wellFormed called.sequential.placed found
    have current : indices' = slots := by
      refine List.left_unique_forall₂' ?_ (handed_values handed) values
      intro slot slot' cell here here'
      exact valid'.slot_inj here here'
    rw [called.sequential.placed.length_eq, ← current]
    exact ⟨once, called.current.mp current, supported⟩
  · rintro ⟨once, rising, supported⟩
    obtain ⟨m₁, s₁, slots, indices', called⟩ := FullMap.exists_called valid.wellFormed once supports
      (MapInner.getOrCreate initial) self.fullMap
    obtain ⟨_, run'⟩ := called.sequential.run
    cases inserted.symm.trans run'
    have current := called.current.mpr rising
    subst current
    rw [called.sequential.placed.length_eq] at supported
    obtain ⟨r, run, -, -, told, -, handed⟩ :=
      (called.exactly Nat Nat _ id valid'.derived).returns ⟨called.once, called.present, supported⟩
    have many : (fullStorages initial).getStorageMany keys self = .ok (r.1, ⟨r.2.2, r.2.1⟩) := by
      simp only [fullStorages, run, ok_bind]
      rfl
    have values := placed_values valid'.wellFormed called.sequential.placed found
    have results : r.1 = cells := by
      refine List.right_unique_forall₂' ?_ (handed_values handed) values
      intro slot cell cell' here here'
      exact Option.some.inj (here.symm.trans here')
    rw [many, results, (full_many_ok inserted many).2]

/-- Another accessor creates a cell of the component. -/
theorem Storages.Valid.shared (valid : self.Valid) (other : S) (d : D) :
    Storages.Valid ⟨(self.fullMap.getOrCreate other d).2, self.accessorStorages⟩ := by
  constructor
  · exact valid.wellFormed
  · exact valid.sound.getOrCreate other d
  · intro d' cell here
    exact getOrCreate_kept (valid.known d' cell here) other d

/-- The states of a full accessor: it is made, and then used. Between its calls
other accessors that read the component create cells that it has not seen. -/
inductive Reached (initial : S) : Storages D S → Prop
  | opened {ty : MapType} {order : IterOrder (Sigma fun _ : D => Nat)} {fullMap : MapInner D S}
      {self : Storages D S} (sound : fullMap.Sound)
      (accepts : FullMap.Accepts ((order.arrange fullMap.map.entries).map fun e => (e.1, e.2)) ty)
      (run : openFull ty order fullMap = .ok self) : Reached initial self
  | getStorage {self self' : Storages D S} {d : D} {cell : Nat} (reached : Reached initial self)
      (supports : self.accessorStorages.Supports d)
      (run : (fullStorages initial).getStorage d self = .ok (cell, self')) : Reached initial self'
  | getStorageMany {self self' : Storages D S} {keys : List D} {cells : List Nat}
      (reached : Reached initial self) (supports : ∀ d ∈ keys, self.accessorStorages.Supports d)
      (run : (fullStorages initial).getStorageMany keys self = .ok (cells, self')) :
      Reached initial self'
  | shared {self : Storages D S} (other : S) (d : D) (reached : Reached initial self) :
      Reached initial ⟨(self.fullMap.getOrCreate other d).2, self.accessorStorages⟩

theorem Reached.valid (reached : Reached initial self) : self.Valid := by
  induction reached with
  | opened sound accepts run => exact openFull_valid sound run accepts
  | getStorage _ supports run ih =>
    obtain ⟨self', slot, cell, fetched⟩ := full_getStorage initial ih supports
    cases run.symm.trans fetched.fetched
    exact fetched.valid
  | getStorageMany _ supports run ih =>
    obtain ⟨cells, indices, self', -, inserted, valid, -⟩ := full_sequential initial ih supports
    rw [(full_many_ok inserted run).2]
    exact valid
  | shared other d _ ih => exact ih.shared other d

end Full

/-- **Many storages are one by one.** `get_storage_many` returns what
`get_storage` returns for each key in turn, in the same state, exactly as long as
no two keys of a partial accessor have one discriminant. For a full accessor the
keys are different, and its map gives each of them its own entry. -/
theorem storages_pointwise (initial : S) :
    (∀ (fullMap fullMap' : MapInner D S) (discrims : List D) (storages : List (D × Nat)),
      fullMap.Sound → openPartial initial discrims fullMap = .ok (storages, fullMap') →
      ∀ keys : List Nat, (∀ k ∈ keys, k < storages.length) →
        (Pointwise (readPartial D) keys storages ↔
          (keys.filterMap (Pairs.getDiscrim storages)).Nodup) ∧
        (Pointwise (writePartial D) keys storages ↔
          (keys.filterMap (Pairs.getDiscrim storages)).Nodup)) ∧
    ∀ self : Storages D S, Reached initial self →
      ∀ keys : List D, (∀ d ∈ keys, self.accessorStorages.Supports d) →
        (Pointwise (readFull initial) keys self ↔
          keys.Nodup ∧ FullMap.EntriesCurrent self.accessorStorages keys) ∧
        (Pointwise (writeFull initial) keys self ↔
          keys.Nodup ∧ FullMap.EntriesCurrent self.accessorStorages keys) := by
  constructor
  · intro fullMap fullMap' discrims storages sound run keys supported
    have pointwise := partial_pointwise (openPartial_tagged sound run) supported
    exact ⟨pointwise, pointwise⟩
  · intro self reached keys supports
    have pointwise := full_pointwise initial reached.valid supports
    exact ⟨pointwise, pointwise⟩

/-- A partial accessor of two discriminants, and a full accessor that asks for
one that another accessor created meanwhile and for a new one. -/
theorem storages_pointwise_two :
    Pointwise (readPartial FullMap.Gap) [1, 0] [(.low, 0), (.high, 1)] ∧
    Pointwise (readFull ()) [.high, .low]
      (⟨⟨AList.singleton .low 0, [()]⟩, .linear ⟨[]⟩⟩ : Storages FullMap.Gap Unit) := by
  have sound : (⟨∅, []⟩ : MapInner FullMap.Gap Unit).Sound := ⟨nofun, nofun⟩
  constructor
  · have run : openPartial () [FullMap.Gap.low, .high] ⟨∅, []⟩ = .ok ([(.low, 0), (.high, 1)], _) :=
      rfl
    exact ((storages_pointwise ()).1 _ _ _ _ sound run [1, 0] (by simp)).1.mpr (by decide)
  · have run : openFull .linear (.insertion _) (⟨∅, []⟩ : MapInner FullMap.Gap Unit) =
        .ok ⟨⟨∅, []⟩, .linear ⟨[]⟩⟩ := rfl
    have opened : Reached () _ := .opened sound (by trivial) run
    have pointwise := ((storages_pointwise ()).2 _ (opened.shared () .low) [.high, .low]
      fun _ _ => trivial).1
    exact pointwise.mpr ⟨by decide, trivial⟩

theorem storages_pointwise_repeated :
    (readPartial FullMap.Gap).getStorageMany [0, 0] [(.low, 0), (.high, 1)] = .error .duplicateKey ∧
    mapAccum (fun self key => (readPartial FullMap.Gap).getStorage key self) [(.low, 0), (.high, 1)]
      [0, 0] = .ok ([0, 0], [(.low, 0), (.high, 1)]) ∧
    ¬ Pointwise (readPartial FullMap.Gap) [0, 0] [(.low, 0), (.high, 1)] := by
  refine ⟨rfl, rfl, fun pointwise => ?_⟩
  obtain ⟨storages, self', -, many, -⟩ := pointwise
  cases many

end Dynec.System
