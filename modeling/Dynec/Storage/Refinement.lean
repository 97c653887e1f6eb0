import Dynec.Lib.SortedMap
import Dynec.Storage.Vec

/-!
# The vector storage is a finite map

The presence bits, the data slots and the cardinality are resized and updated
separately. Together they represent a map from entity IDs to components, on
which every operation does what it does on the storage.
-/

namespace Dynec.Storage

open Fallible

variable {C : Type}

/-! ## The bits -/

theorem getElem?_rightpad {α : Type} (l : List α) (n : Nat) (a : α) (i : Nat) :
    (l.rightpad n a)[i]? = if i < l.length then l[i]? else if i < n then some a else none := by
  rw [List.rightpad, List.getElem?_append]
  split
  · rfl
  · rw [List.getElem?_replicate]
    congr 1
    simp only [eq_iff_iff]
    omega

theorem mem_iterOnes {bits : List Bool} {i : Nat} : i ∈ iterOnes bits ↔ bits[i]? = some true := by
  rw [iterOnes, List.mem_filter, List.mem_range]
  constructor
  · rintro ⟨below, one⟩
    rw [List.getElem?_eq_getElem below] at one ⊢
    exact congrArg some one
  · intro one
    exact ⟨(List.getElem?_eq_some_iff.mp one).1, by simp [one]⟩

theorem sorted_iterOnes (bits : List Bool) : (iterOnes bits).Pairwise (· < ·) :=
  List.pairwise_lt_range.filter _

theorem eq_of_sorted {l l' : List Nat} (sorted : l.Pairwise (· < ·)) (sorted' : l'.Pairwise (· < ·))
    (h : ∀ i, i ∈ l ↔ i ∈ l') : l = l' := by
  have perm : l.Perm l' := by
    refine (List.perm_ext_iff_of_nodup ?_ ?_).mpr h
    · exact sorted.imp fun less => Nat.ne_of_lt less
    · exact sorted'.imp fun less => Nat.ne_of_lt less
  exact perm.eq_of_pairwise (fun _ _ _ _ less less' => absurd less less'.asymm) sorted sorted'

theorem count_eq_length_iterOnes (bits : List Bool) : bits.count true = (iterOnes bits).length := by
  have listed : (List.range bits.length).map (fun i => bits[i]?.getD false) = bits := by
    apply List.ext_getElem
    · simp
    · intro i below below'
      simp [below']
  conv_lhs => rw [← listed]
  rw [List.count, List.countP_map, List.countP_eq_length_filter, iterOnes]
  congr 2
  funext i
  simp

namespace VecStorage

theorem bit_eq (s : VecStorage C) (i : Nat) : s.bit i = true ↔ s.bits[i]? = some true := by
  unfold bit
  split
  · rename_i b found
    simp [found]
  · rename_i none
    simp [none]

theorem setBit_ok (s : VecStorage C) (index : Nat) (bit : Bool)
    (counted : s.cardinality = s.bits.count true) :
    ∃ s', s.setBit index bit = .ok s' ∧ s'.data = s.data ∧
      (∀ i, s'.bit i = if i = index then bit else s.bit i) ∧
      s'.cardinality = s'.bits.count true ∧
      s'.bits.length = max s.bits.length (index + 1) := by
  obtain ⟨bits, padded⟩ : ∃ bits, (if s.bits.length ≤ index then
      s.bits.rightpad (index + 1) false else s.bits) = bits := ⟨_, rfl⟩
  have length : bits.length = max s.bits.length (index + 1) := by
    subst padded
    split
    · simp [List.rightpad]
      omega
    · omega
  have count : bits.count true = s.bits.count true := by
    subst padded
    split
    · simp [List.rightpad, List.count_replicate]
    · rfl
  have below : index < bits.length := by omega
  have kept : ∀ i, bits[i]?.getD false = s.bit i := by
    intro i
    subst padded
    unfold VecStorage.bit
    split
    · rw [getElem?_rightpad]
      by_cases inside : i < s.bits.length
      · simp [inside]
      · rw [if_neg inside, List.getElem?_eq_none (by omega)]
        split <;> rfl
    · cases s.bits[i]? <;> rfl
  have counts := List.count_set (a := bit) (b := true) below
  have one : bits[index] = true → 1 ≤ bits.count true := fun set =>
    List.one_le_count_iff.mpr (set ▸ List.getElem_mem below)
  refine ⟨⟨s.cardinality - (if bits[index] then 1 else 0) + (if bit then 1 else 0),
    bits.set index bit, s.data⟩, ?_, rfl, fun i => ?_, ?_, ?_⟩
  · simp only [setBit, padded, List.getElem?_eq_getElem below, expect_some, ok_bind]
    rw [if_neg]
    · rfl
    · split
      · rename_i set
        have := one set
        omega
      · omega
  · unfold VecStorage.bit
    simp only [List.getElem?_set]
    by_cases same : i = index
    · subst same
      simp [below]
    · rw [if_neg (Ne.symm same), if_neg same]
      have := kept i
      unfold VecStorage.bit at this
      rw [← this]
      cases bits[i]? <;> rfl
  · simp only [counts, counted, ← count]
    cases bits[index] <;> cases bit <;> simp
  · simp [length]

end VecStorage

/-! ## The map -/

/-- The map that a storage represents. -/
structure Represents (s : VecStorage C) (m : SortedMap Nat C) : Prop where
  present : ∀ i, s.bit i = true → ∃ value, s.data[i]? = some (some value) ∧ m.get i = some value
  absent : ∀ i, s.bit i = false → m.get i = none
  counted : s.cardinality = s.bits.count true
  within : s.data.length ≤ s.bits.length

section

variable {s : VecStorage C} {m : SortedMap Nat C}

theorem represents_default : Represents (C := C) .default .empty :=
  ⟨fun i one => by simp [VecStorage.default, VecStorage.bit] at one, fun _ _ => rfl, rfl,
    Nat.le_refl _⟩

theorem Represents.bit_iff (h : Represents s m) (i : Nat) :
    s.bit i = true ↔ (m.get i).isSome = true := by
  constructor
  · intro one
    obtain ⟨value, -, found⟩ := h.present i one
    simp [found]
  · intro found
    by_contra zero
    rw [h.absent i (by simpa using zero)] at found
    cases found

/-- A component of the map is in its slot. -/
theorem Represents.slot (h : Represents s m) {i : Nat} {value : C} (found : m.get i = some value) :
    s.bit i = true ∧ s.data[i]? = some (some value) := by
  have one : s.bit i = true := (h.bit_iff i).mpr (by simp [found])
  obtain ⟨value', stored, found'⟩ := h.present i one
  rw [found] at found'
  cases found'
  exact ⟨one, stored⟩

theorem Represents.slotMut (h : Represents s m) {i : Nat} {value : C}
    (found : m.get i = some value) : slotMut 0 s.data i = .ok ⟨i, value⟩ := by
  simp [Storage.slotMut, assumeInit, (h.slot found).2]

theorem Represents.keys (h : Represents s m) : iterOnes s.bits = m.entries.map Prod.fst := by
  apply eq_of_sorted (sorted_iterOnes s.bits) (List.pairwise_map.mpr m.sorted)
  intro i
  rw [mem_iterOnes, ← s.bit_eq, h.bit_iff, Option.isSome_iff_exists]
  simp [SortedMap.mem_entries]

/-! ## Reading -/

theorem Represents.cardinality (h : Represents s m) : s.cardinality = m.size := by
  rw [h.counted, count_eq_length_iterOnes, h.keys, List.length_map]
  rfl

theorem Represents.get (h : Represents s m) (id : Nat) : s.get id = .ok (m.get id) := by
  unfold VecStorage.get
  cases found : m.get id with
  | none =>
    have zero : s.bit id = false := by
      rw [← Bool.not_eq_true, h.bit_iff, found]
      simp
    simp [zero]
  | some value =>
    obtain ⟨one, stored⟩ := h.slot found
    simp [one, stored, assumeInit]

theorem Represents.getMut (h : Represents s m) (id : Nat) :
    s.getMut id = .ok ((m.get id).map fun value => ⟨id, value⟩) := by
  unfold VecStorage.getMut
  cases found : m.get id with
  | none =>
    have zero : s.bit id = false := by
      rw [← Bool.not_eq_true, h.bit_iff, found]
      simp
    simp [zero]
  | some value =>
    simp [(h.slot found).1, h.slotMut found]

theorem Represents.iter (h : Represents s m) : s.iter = .ok m.entries := by
  have entries : m.entries = m.entries.map id := (List.map_id _).symm
  rw [VecStorage.iter, h.keys, List.mapM_map, entries, List.map_id]
  refine (mapM_ok fun e member => ?_).trans (congrArg _ entries.symm)
  simp [(h.slot (SortedMap.mem_entries.mp member)).2, assumeInit]

/-- A component of the map, as it is handed out. -/
def compMut (e : Nat × C) : Nat × CompMut C := (e.1, ⟨e.1, e.2⟩)

theorem Represents.iterMut (h : Represents s m) : s.iterMut = .ok (m.entries.map compMut) := by
  rw [VecStorage.iterMut, Storage.iterMut, h.keys, List.mapM_map]
  apply mapM_ok
  intro e member
  simp [h.slotMut (SortedMap.mem_entries.mp member), compMut]

/-- The requested components of the map, in order. -/
def manyMut (m : SortedMap Nat C) (entities : List Nat) : List (CompMut C) :=
  entities.filterMap fun id => (m.get id).map fun value => ⟨id, value⟩

/-- The map has every requested component, and none is requested twice. -/
def Requestable (m : SortedMap Nat C) (entities : List Nat) : Prop :=
  (∀ id ∈ entities, (m.get id).isSome = true) ∧ entities.Nodup

instance (m : SortedMap Nat C) (entities : List Nat) : Decidable (Requestable m entities) :=
  inferInstanceAs (Decidable (_ ∧ _))

/-- References to components that are all present. -/
theorem manyMut_mapM {f : Nat → Except Panic (CompMut C)} {entities : List Nat}
    (each : ∀ id ∈ entities, ∃ value, m.get id = some value ∧ f id = .ok ⟨id, value⟩) :
    entities.mapM f = .ok (manyMut m entities) := by
  induction entities with
  | nil => rfl
  | cons id entities ih =>
    obtain ⟨⟨value, found, step⟩, each⟩ := List.forall_mem_cons.mp each
    rw [List.mapM_cons, step, ok_bind, ih each]
    simp [manyMut, found]

theorem manyMut_value (m : SortedMap Nat C) (entities : List Nat) :
    (manyMut m entities).map (·.value) = entities.filterMap m.get := by
  rw [manyMut, List.map_filterMap]
  congr 1
  funext id
  cases m.get id <;> rfl

theorem manyMut_slot {entities : List Nat} (all : ∀ id ∈ entities, (m.get id).isSome = true) :
    (manyMut m entities).map (·.slot) = entities := by
  induction entities with
  | nil => rfl
  | cons id entities ih =>
    obtain ⟨here, all⟩ := List.forall_mem_cons.mp all
    obtain ⟨value, found⟩ := Option.isSome_iff_exists.mp here
    simp only [manyMut, List.filterMap_cons, found, Option.map_some, List.map_cons]
    exact congrArg _ (ih all)

theorem mem_manyMut {entities : List Nat} {ref : CompMut C} (member : ref ∈ manyMut m entities) :
    m.get ref.slot = some ref.value := by
  obtain ⟨id, -, handed⟩ := List.mem_filterMap.mp member
  obtain ⟨value, found, rfl⟩ := Option.map_eq_some_iff.mp handed
  exact found

theorem Represents.getManyMut (h : Represents s m) (entities : List Nat) :
    s.getManyMut entities =
      .ok (if Requestable m entities then some (manyMut m entities) else none) := by
  unfold VecStorage.getManyMut
  by_cases all : ∀ id ∈ entities, (m.get id).isSome = true
  · have bits : entities.all s.bit = true := by
      rw [List.all_eq_true]
      exact fun id member => (h.bit_iff id).mpr (all id member)
    have stored : ∀ id ∈ entities, ∃ value, m.get id = some value ∧
        Storage.slotMut 0 s.data id = .ok ⟨id, value⟩ := by
      intro id member
      obtain ⟨value, found⟩ := Option.isSome_iff_exists.mp (all id member)
      exact ⟨value, found, h.slotMut found⟩
    have inside : ∀ id ∈ entities, id < s.data.length := by
      intro id member
      obtain ⟨value, found⟩ := Option.isSome_iff_exists.mp (all id member)
      exact (List.getElem?_eq_some_iff.mp (h.slot found).2).1
    rw [if_pos bits, sliceGetManyMut]
    by_cases nodup : entities.Nodup
    · rw [if_pos ⟨inside, nodup⟩, if_pos ⟨all, nodup⟩]
      change (do let values ← entities.mapM (Storage.slotMut 0 s.data); return some values) = _
      rw [manyMut_mapM stored]
      rfl
    · rw [if_neg fun both => nodup both.2, if_neg fun both => nodup both.2]
      rfl
  · rw [if_neg, if_neg fun both : Requestable m entities => all both.1]
    · rfl
    · rw [List.all_eq_true]
      exact fun bits => all fun id member => (h.bit_iff id).mp (bits id member)

/-! ## Writing -/

/-- Writing through a reference replaces the component. -/
theorem Represents.write (h : Represents s m) {slot : Nat} {old : C} (found : m.get slot = some old)
    (value : C) : Represents (s.write slot value) (m.set slot (some value)) := by
  have stored := (h.slot found).2
  refine ⟨fun i one => ?_, fun i zero => ?_, h.counted, ?_⟩
  · simp only [VecStorage.write, List.getElem?_set, SortedMap.get_set]
    by_cases same : i = slot
    · subst same
      exact ⟨value, by simp [(List.getElem?_eq_some_iff.mp stored).1], by simp⟩
    · rw [if_neg (Ne.symm same), if_neg same]
      exact h.present i one
  · have differ : i ≠ slot := by
      rintro rfl
      have one := (h.slot found).1
      change s.bit i = false at zero
      rw [one] at zero
      cases zero
    rw [SortedMap.get_set, if_neg differ]
    exact h.absent i zero
  · simpa [VecStorage.write] using h.within

theorem Represents.take (h : Represents s m) (id : Nat) :
    ∃ s', s.take id = .ok (m.get id, s') ∧ s'.bits = s.bits ∧ s'.cardinality = s.cardinality ∧
      s'.data.length = s.data.length ∧ ∀ i, i ≠ id → s'.data[i]? = s.data[i]? := by
  unfold VecStorage.take
  cases found : m.get id with
  | none =>
    have zero : s.bit id = false := by
      rw [← Bool.not_eq_true, h.bit_iff, found]
      simp
    exact ⟨s, by simp [zero], rfl, rfl, rfl, fun _ _ => rfl⟩
  | some value =>
    obtain ⟨one, stored⟩ := h.slot found
    refine ⟨⟨s.cardinality, s.bits, s.data.set id none⟩, by simp [one, stored, assumeInit], rfl, rfl,
      by simp, fun i other => ?_⟩
    simp [Ne.symm other]

/-- A storage in which one component was replaced. -/
theorem Represents.replaced (h : Represents s m) {id : Nat} {new : Option C} {t : VecStorage C}
    (bit : ∀ i, t.bit i = if i = id then new.isSome else s.bit i)
    (slot : ∀ value, new = some value → t.data[id]? = some (some value))
    (data : ∀ i, i ≠ id → s.bit i = true → t.data[i]? = s.data[i]?)
    (counted : t.cardinality = t.bits.count true) (within : t.data.length ≤ t.bits.length) :
    Represents t (m.set id new) := by
  refine ⟨fun i one => ?_, fun i zero => ?_, counted, within⟩
  · rw [SortedMap.get_set]
    rw [bit] at one
    by_cases same : i = id
    · subst same
      rw [if_pos rfl] at one
      obtain ⟨value, rfl⟩ := Option.isSome_iff_exists.mp one
      exact ⟨value, slot value rfl, by simp⟩
    · rw [if_neg same] at one ⊢
      rw [data i same one]
      exact h.present i one
  · rw [SortedMap.get_set]
    rw [bit] at zero
    by_cases same : i = id
    · rw [if_pos same] at zero ⊢
      simpa using zero
    · rw [if_neg same] at zero ⊢
      exact h.absent i zero

/-- `set` returns the previous value. -/
theorem Represents.set (h : Represents s m) (id : Nat) (new : Option C) :
    ∃ s', s.set id new = .ok (m.get id, s') ∧ Represents s' (m.set id new) := by
  obtain ⟨t, took, bits, cardinality, length, data⟩ := h.take id
  obtain ⟨u, marked, slots, one, counted, size⟩ := t.setBit_ok id new.isSome (by
    rw [cardinality, bits]
    exact h.counted)
  have bit : ∀ i, u.bit i = if i = id then new.isSome else s.bit i := by
    intro i
    rw [one, VecStorage.bit, VecStorage.bit, bits]
  have within : u.data.length ≤ u.bits.length := by
    rw [slots, length, size, bits]
    have := h.within
    omega
  cases new with
  | none =>
    refine ⟨u, ?_, h.replaced bit nofun (fun i other _ => ?_) counted within⟩
    · simp only [VecStorage.set, took, ok_bind]
      simp only [Option.isSome_none] at marked
      rw [marked]
      rfl
    · rw [slots, data i other]
  | some value =>
    obtain ⟨padded, pad⟩ : ∃ padded, (if u.data.length ≤ id then u.data.rightpad (id + 1) none
        else u.data) = padded := ⟨_, rfl⟩
    have long : padded.length = max u.data.length (id + 1) := by
      subst pad
      split
      · simp [List.rightpad]
        omega
      · omega
    have below : id < padded.length := by omega
    refine ⟨⟨u.cardinality, u.bits, padded.set id (some value)⟩, ?_,
      h.replaced bit ?_ (fun i other one => ?_) counted ?_⟩
    · simp only [VecStorage.set, took, ok_bind]
      simp only [Option.isSome_some] at marked
      simp only [marked, ok_bind, pad, List.getElem?_eq_getElem below, expect_some]
      rfl
    · rintro _ ⟨⟩
      simp [below]
    · obtain ⟨old, stored, -⟩ := h.present i one
      have inside : i < u.data.length := by
        rw [slots, length]
        exact (List.getElem?_eq_some_iff.mp stored).1
      have kept : padded[i]? = u.data[i]? := by
        subst pad
        split
        · rw [getElem?_rightpad, if_pos inside]
        · rfl
      simp only [List.getElem?_set_ne (Ne.symm other)]
      rw [kept, slots, data i other]
    · simp only [List.length_set, long]
      rw [size] at within ⊢
      omega

/-! ## Sequences of operations -/

/-- The operations of a storage. What is written through the references handed
out may depend on the entity and the old value. -/
inductive Op (C : Type) where
  | set (id : Nat) (value : Option C)
  | getMut (id : Nat) (f : C → C)
  | getManyMut (entities : List Nat) (f : Nat → C → C)
  | iterMut (f : Nat → C → C)

/-- What an operation returns. -/
inductive Seen (C : Type) where
  | value (value : Option C)
  | values (values : Option (List C))
  | entries (entries : List (Nat × C))
  deriving DecidableEq, Repr

/-- Write through each of the references. -/
def VecStorage.writeAll (self : VecStorage C) (refs : List (CompMut C)) (f : Nat → C → C) :
    VecStorage C :=
  refs.foldl (fun self ref => self.write ref.slot (f ref.slot ref.value)) self

def VecStorage.perform (self : VecStorage C) : Op C → Except Panic (Seen C × VecStorage C)
  | .set id value => do
    let (old, self) ← self.set id value
    return (.value old, self)
  | .getMut id f => do
    let ref ← self.getMut id
    return (.value (ref.map (·.value)), self.writeAll ref.toList fun _ => f)
  | .getManyMut entities f => do
    let refs ← self.getManyMut entities
    return (.values (refs.map fun refs => refs.map (·.value)), self.writeAll (refs.getD []) f)
  | .iterMut f => do
    let refs ← self.iterMut
    return (.entries (refs.map fun ref => (ref.1, ref.2.value)), self.writeAll (refs.map (·.2)) f)

/-- Perform the operations one after the other. -/
def VecStorage.performAll (self : VecStorage C) :
    List (Op C) → Except Panic (List (Seen C) × VecStorage C)
  | [] => return ([], self)
  | op :: ops => do
    let (seen, self) ← self.perform op
    let (rest, self) ← self.performAll ops
    return (seen :: rest, self)

/-- Write to some keys of a map. -/
def writeKeys (m : SortedMap Nat C) (keys : List Nat) (f : Nat → C → C) : SortedMap Nat C :=
  m.mapValues fun key value => if key ∈ keys then f key value else value

/-- The same operation on a finite map. -/
def performMap (m : SortedMap Nat C) : Op C → Seen C × SortedMap Nat C
  | .set id value => (.value (m.get id), m.set id value)
  | .getMut id f => (.value (m.get id), writeKeys m [id] fun _ => f)
  | .getManyMut entities f =>
    if Requestable m entities then
      (.values (some (entities.filterMap m.get)), writeKeys m entities f)
    else
      (.values none, m)
  | .iterMut f => (.entries m.entries, m.mapValues f)

def performAllMap (m : SortedMap Nat C) : List (Op C) → List (Seen C) × SortedMap Nat C
  | [] => ([], m)
  | op :: ops =>
    let (seen, m) := performMap m op
    let (rest, m) := performAllMap m ops
    (seen :: rest, m)

/-- Writing through references to different components. -/
theorem Represents.writeAll (h : Represents s m) {refs : List (CompMut C)}
    (valid : ∀ ref ∈ refs, m.get ref.slot = some ref.value) (nodup : (refs.map (·.slot)).Nodup)
    (f : Nat → C → C) :
    Represents (s.writeAll refs f) (writeKeys m (refs.map (·.slot)) f) := by
  induction refs generalizing s m with
  | nil =>
    have same : writeKeys m [] f = m := SortedMap.ext fun k => by simp [writeKeys]
    rw [List.map_nil, same]
    exact h
  | cons ref refs ih =>
    obtain ⟨found, valid⟩ := List.forall_mem_cons.mp valid
    rw [List.map_cons] at nodup
    obtain ⟨fresh, nodup⟩ := List.nodup_cons.mp nodup
    have rest := ih (h.write found (f ref.slot ref.value)) (fun other member => ?_) nodup
    · have same : writeKeys m ((ref :: refs).map (·.slot)) f =
          writeKeys (m.set ref.slot (some (f ref.slot ref.value))) (refs.map (·.slot)) f := by
        apply SortedMap.ext
        intro k
        simp only [writeKeys, SortedMap.get_mapValues, SortedMap.get_set, List.map_cons,
          List.mem_cons]
        by_cases here : k = ref.slot
        · subst here
          simp [found, fresh]
        · simp [here]
      rw [same]
      exact rest
    · rw [SortedMap.get_set, if_neg]
      · exact valid other member
      · intro same
        exact fresh (same ▸ List.mem_map_of_mem member)

/-- One operation. -/
theorem Represents.perform (h : Represents s m) (op : Op C) :
    ∃ s', s.perform op = .ok ((performMap m op).1, s') ∧ Represents s' (performMap m op).2 := by
  cases op with
  | set id value =>
    obtain ⟨s', run, next⟩ := h.set id value
    exact ⟨s', by simp [VecStorage.perform, run, performMap], next⟩
  | getMut id f =>
    cases found : m.get id with
    | none =>
      have same : writeKeys m [id] (fun _ => f) = m := by
        apply SortedMap.ext
        intro k
        rw [writeKeys, SortedMap.get_mapValues]
        by_cases here : k = id
        · simp [here, found]
        · simp [here]
      refine ⟨s, ?_, ?_⟩
      · simp [VecStorage.perform, h.getMut, found, performMap, VecStorage.writeAll]
      · simp only [performMap, same]
        exact h
    | some value =>
      refine ⟨s.writeAll [⟨id, value⟩] fun _ => f, ?_, ?_⟩
      · simp [VecStorage.perform, h.getMut, found, performMap]
      · exact h.writeAll (by simpa using found) (by simp) _
  | getManyMut entities f =>
    by_cases requestable : Requestable m entities
    · refine ⟨s.writeAll (manyMut m entities) f, ?_, ?_⟩
      · simp [VecStorage.perform, h.getManyMut, requestable, performMap, manyMut_value]
      · simp only [performMap, if_pos requestable]
        have slots := manyMut_slot requestable.1
        have next := h.writeAll (fun ref => mem_manyMut) (slots.symm ▸ requestable.2) f
        rw [slots] at next
        exact next
    · refine ⟨s, ?_, ?_⟩
      · simp [VecStorage.perform, h.getManyMut, requestable, performMap, VecStorage.writeAll]
      · simp only [performMap, if_neg requestable]
        exact h
  | iterMut f =>
    have slots : ((m.entries.map compMut).map (·.2)).map (·.slot) = m.entries.map Prod.fst := by
      simp [compMut, Function.comp_def]
    have valid : ∀ ref ∈ (m.entries.map compMut).map (·.2), m.get ref.slot = some ref.value := by
      intro ref member
      simp only [List.map_map, List.mem_map] at member
      obtain ⟨e, member, rfl⟩ := member
      exact SortedMap.mem_entries.mp member
    have nodup : (m.entries.map Prod.fst).Nodup :=
      (List.pairwise_map.mpr m.sorted).imp fun less => Nat.ne_of_lt less
    have same : writeKeys m (m.entries.map Prod.fst) f = m.mapValues f := by
      apply SortedMap.ext
      intro k
      rw [writeKeys, SortedMap.get_mapValues, SortedMap.get_mapValues]
      cases found : m.get k with
      | none => rfl
      | some value =>
        have listed : k ∈ m.entries.map Prod.fst :=
          List.mem_map_of_mem (SortedMap.mem_entries.mpr found)
        simp [listed]
    have next := h.writeAll valid (slots ▸ nodup) f
    rw [slots, same] at next
    refine ⟨_, ?_, next⟩
    simp [VecStorage.perform, h.iterMut, performMap, compMut, Function.comp_def]

theorem Represents.performAll (h : Represents s m) (ops : List (Op C)) :
    ∃ s', s.performAll ops = .ok ((performAllMap m ops).1, s') ∧
      Represents s' (performAllMap m ops).2 := by
  induction ops generalizing s m with
  | nil => exact ⟨s, rfl, h⟩
  | cons op ops ih =>
    obtain ⟨t, run, next⟩ := h.perform op
    obtain ⟨u, rest, last⟩ := ih next
    exact ⟨u, by simp [VecStorage.performAll, run, rest, performAllMap], last⟩

end

/-- What can be seen of a storage is what can be seen of a map. -/
structure Observes (s : VecStorage C) (m : SortedMap Nat C) : Prop where
  get : ∀ id, s.get id = .ok (m.get id)
  getMut : ∀ id, s.getMut id = .ok ((m.get id).map fun value => ⟨id, value⟩)
  cardinality : s.cardinality = m.size
  iter : s.iter = .ok m.entries
  iterMut : s.iterMut = .ok (m.entries.map compMut)
  getManyMut : ∀ entities, s.getManyMut entities =
    .ok (if Requestable m entities then some (manyMut m entities) else none)
  backed : ∀ i : Nat, s.bits[i]? = some true → ∃ value, s.data[i]? = some (some value)

theorem Represents.observes {s : VecStorage C} {m : SortedMap Nat C} (h : Represents s m) :
    Observes s m := by
  refine ⟨h.get, h.getMut, h.cardinality, h.iter, h.iterMut, h.getManyMut, fun i one => ?_⟩
  obtain ⟨value, stored, -⟩ := h.present i ((s.bit_eq i).mpr one)
  exact ⟨value, stored⟩

/-- **The vector storage is a finite map.** Every sequence of operations runs
without a panic, returns what it returns on a map, and leaves a storage that
cannot be told from the map. -/
theorem vec_refines_map (ops : List (Op C)) :
    ∃ s, VecStorage.default.performAll ops = .ok ((performAllMap .empty ops).1, s) ∧
      Observes s (performAllMap .empty ops).2 := by
  obtain ⟨s, run, represents⟩ := represents_default.performAll ops
  exact ⟨s, run, represents.observes⟩

end Dynec.Storage
