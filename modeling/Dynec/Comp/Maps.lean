import Dynec.Lib.Search
import Dynec.Comp.Slots

/-!
# The maps are partial maps

A slot of a map holds one value of one discriminant. The lookups of every map find the
slot that holds the discriminant, and an insertion makes one for a discriminant that no
slot holds.
-/

namespace Dynec.Comp

open Fallible

variable {D V U σ : Type} [Discrim D]

theorem intoUsize_inj {d d' : D} (same : Discrim.intoUsize d = Discrim.intoUsize d') : d = d' := by
  have left := (Discrim.inverse (Discrim.intoUsize d) d).mpr rfl
  have right := (Discrim.inverse (Discrim.intoUsize d) d').mpr same.symm
  rw [left] at right
  cases right
  rfl

theorem fromUsize_eq_ok {u : Nat} {d : D} :
    fromUsize D u = .ok d ↔ Discrim.intoUsize d = u := by
  rw [fromUsize, expect_eq_ok, Discrim.inverse]

/-- The entries are in ascending order of the integers of their discriminants. -/
def Ascending (vec : List (D × V)) : Prop :=
  vec.Pairwise fun e e' => Discrim.intoUsize e.1 < Discrim.intoUsize e'.1

theorem Ascending.distinct {vec : List (D × V)} (ascending : Ascending vec) :
    (vec.map (·.1)).Nodup := by
  rw [List.nodup_iff_pairwise_ne, List.pairwise_map]
  refine ascending.imp fun less same => ?_
  rw [same] at less
  omega

theorem ascending_iff {vec : List (D × V)} : Ascending vec ↔
    (vec.map (·.1)).Pairwise fun d d' => Discrim.intoUsize d < Discrim.intoUsize d' := by
  rw [List.pairwise_map, Ascending]

omit [Discrim D] in
/-- A value that is written has the same discriminant. -/
theorem modify_keys (vec : List (D × V)) (slot : Nat) (v : V) :
    (vec.modify slot fun e => (e.1, v)).map (·.1) = vec.map (·.1) := by
  apply List.ext_getElem?
  intro i
  rw [List.getElem?_map, List.getElem?_map, List.getElem?_modify]
  cases vec[i]? with
  | none => rfl
  | some e => split <;> rfl

/-! ## Binary search -/

namespace SortedVecMap

variable {map : SortedVecMap D V} (ascending : Ascending map.vec) {d : D}

include ascending in
theorem search_found {i : Nat} {v : V} (at_i : map.vec[i]? = some (d, v)) :
    map.search d = .ok i := by
  have index := Search.countP_eq ascending at_i
  simp only at index
  rw [search, binarySearchByKey, List.countP_map]
  simp only [Function.comp_def, index, List.getElem?_map, at_i, Option.map_some, if_true]

include ascending in
theorem search_missing (missing : ∀ v, (d, v) ∉ map.vec) :
    ∃ below above, map.vec = below ++ above ∧ map.search d = .error below.length ∧
      (∀ e ∈ below, Discrim.intoUsize e.1 < Discrim.intoUsize d) ∧
      ∀ e ∈ above, Discrim.intoUsize d < Discrim.intoUsize e.1 := by
  obtain ⟨below, above, split, count, smaller, larger⟩ :=
    Search.split_at ascending (Discrim.intoUsize d)
  have other : ∀ e ∈ map.vec, Discrim.intoUsize e.1 ≠ Discrim.intoUsize d := by
    intro e member same
    apply missing e.2
    rw [← intoUsize_inj same]
    exact member
  refine ⟨below, above, split, ?_, smaller, fun e member => ?_⟩
  · rw [search, binarySearchByKey, List.countP_map]
    simp only [Function.comp_def, count]
    rw [if_neg]
    intro found
    rw [List.getElem?_map, Option.map_eq_some_iff] at found
    obtain ⟨e, at_index, same⟩ := found
    exact other e (List.mem_of_getElem? at_index) same
  · have := larger e member
    have := other e (by rw [split]; exact List.mem_append_right _ member)
    omega

include ascending in
theorem search_ok_iff {i : Nat} : map.search d = .ok i ↔ ∃ v, map.vec[i]? = some (d, v) := by
  constructor
  · intro found
    by_cases missing : ∀ v, (d, v) ∉ map.vec
    · obtain ⟨_, _, _, failed, _⟩ := search_missing ascending missing
      rw [failed] at found
      cases found
    · rw [not_forall_not] at missing
      obtain ⟨v, member⟩ := missing
      obtain ⟨j, at_j⟩ := List.mem_iff_getElem?.mp member
      rw [search_found ascending at_j] at found
      cases found
      exact ⟨v, at_j⟩
  · rintro ⟨v, at_i⟩
    exact search_found ascending at_i

end SortedVecMap

/-! ## Slots -/

/-- Each slot with a value is that of a discriminant. -/
def Indexed (D : Type) [Discrim D] (slots : List (Option V)) : Prop :=
  ∀ slot v, occupied slots slot = some v → ∃ d : D, slot = Discrim.intoUsize d

theorem Indexed.set {slots : List (Option V)} {slot : Nat} {d : D} {v : V} (indexed : Indexed D slots)
    (at_d : slot = Discrim.intoUsize d) (inside : slot < slots.length) :
    Indexed D (slots.set slot (some v)) := by
  intro slot' w found
  rw [occupied_set inside] at found
  split at found
  · rename_i same
    exact ⟨d, same.trans at_d⟩
  · exact indexed slot' w found

theorem slot_write {slots : List (Option V)} {slot slot' : Nat} {d d' : D} {v v' w : V}
    (at_d : slot = Discrim.intoUsize d) (found : occupied slots slot = some v) :
    (slot' = Discrim.intoUsize d' ∧ occupied (slots.set slot (some v')) slot' = some w) ↔
      if slot' = slot then d' = d ∧ w = v'
      else slot' = Discrim.intoUsize d' ∧ occupied slots slot' = some w := by
  rw [occupied_set (lt_of_occupied found)]
  by_cases same : slot' = slot
  · subst same
    simp only [if_true, Option.some.injEq]
    refine and_congr ⟨fun at_d' => ?_, ?_⟩ eq_comm
    · exact intoUsize_inj (at_d'.symm.trans at_d)
    · rintro rfl
      exact at_d
  · rw [if_neg same, if_neg same]

theorem BoundedVecMap.resize_eq (vec : List (Option V)) (d : D) :
    ∃ n, resize vec (Discrim.intoUsize d) = .ok (vec ++ List.replicate n none) ∧
      Discrim.intoUsize d < (vec ++ List.replicate n none).length := by
  refine ⟨Discrim.intoUsize d + 1 - vec.length, ?_, ?_⟩
  · rw [resize, nextLen, if_pos (Discrim.small d)]
    rfl
  · rw [List.length_append, List.length_replicate]
    omega

namespace FullMap

/-- The slot has the value of the discriminant. -/
def Holds : FullMap D V → Nat → D → V → Prop
  | .linear map, slot, d, v => map.vec[slot]? = some (d, v)
  | .sorted map, slot, d, v => map.vec[slot]? = some (d, v)
  | .bounded map, slot, d, v => slot = Discrim.intoUsize d ∧ occupied map.vec slot = some v
  | .array map, slot, d, v => slot = Discrim.intoUsize d ∧ occupied map.array slot = some v

/-- The value that a reference points to. -/
def valueAt : FullMap D V → Nat → Option V
  | .linear map, slot => map.vec[slot]?.map (·.2)
  | .sorted map, slot => map.vec[slot]?.map (·.2)
  | .bounded map, slot => occupied map.vec slot
  | .array map, slot => occupied map.array slot

/-- No discriminant has two slots, and the entries that are searched are sorted. -/
def WellFormed : FullMap D V → Prop
  | .linear map => (map.vec.map (·.1)).Nodup
  | .sorted map => Ascending map.vec
  | .bounded map => Indexed D map.vec
  | .array map => Indexed D map.array

variable {m : FullMap D V} {slot slot' : Nat} {d d' : D} {v v' : V}

theorem Holds.inj (here : m.Holds slot d v) (here' : m.Holds slot d' v') : d = d' ∧ v = v' := by
  cases m with
  | linear map | sorted map =>
    have same := here.symm.trans here'
    simp only [Option.some.injEq, Prod.mk.injEq] at same
    exact same
  | bounded map | array map =>
    have same := here.2.symm.trans here'.2
    exact ⟨intoUsize_inj (here.1.symm.trans here'.1), Option.some.inj same⟩

theorem Holds.slot_inj (wf : m.WellFormed) (here : m.Holds slot d v) (here' : m.Holds slot' d v') :
    slot = slot' := by
  cases m with
  | linear map => exact Search.index_inj wf here here'
  | sorted map => exact Search.index_inj (Ascending.distinct wf) here here'
  | bounded map | array map => exact here.1.trans here'.1.symm

theorem valueAt_iff (wf : m.WellFormed) : m.valueAt slot = some v ↔ ∃ d, m.Holds slot d v := by
  cases m with
  | linear map | sorted map => simp [valueAt, Holds]
  | bounded map | array map =>
    refine ⟨fun found => ?_, fun ⟨_, here⟩ => here.2⟩
    obtain ⟨d, same⟩ := wf slot v found
    exact ⟨d, same, found⟩

/-! ## Writing and mapping -/

theorem holds_write (here : m.Holds slot d v) {w : V} :
    (m.write slot v').Holds slot' d' w ↔
      if slot' = slot then d' = d ∧ w = v' else m.Holds slot' d' w := by
  cases m with
  | linear map | sorted map =>
    have at_slot : map.vec[slot]? = some (d, v) := here
    simp only [Holds, write, List.getElem?_modify]
    by_cases same : slot' = slot
    · subst same
      simp [at_slot, eq_comm]
    · simp [same, Ne.symm same]
  | bounded map | array map => exact slot_write here.1 here.2

theorem write_wellFormed (wf : m.WellFormed) (here : m.Holds slot d v) :
    (m.write slot v').WellFormed := by
  cases m with
  | linear map =>
    simp only [WellFormed, write, modify_keys]
    exact wf
  | sorted map =>
    simp only [WellFormed, write]
    rw [ascending_iff, modify_keys, ← ascending_iff]
    exact wf
  | bounded map | array map => exact Indexed.set wf here.1 (lt_of_occupied here.2)

theorem holds_mapRef {f : V → U} {u : U} :
    (m.mapRef f).Holds slot d u ↔ ∃ v, m.Holds slot d v ∧ f v = u := by
  cases m with
  | linear map | sorted map =>
    simp only [Holds, mapRef, LinearVecMap.mapRef, SortedVecMap.mapRef, List.getElem?_map,
      Option.map_eq_some_iff, Prod.mk.injEq]
    constructor
    · rintro ⟨e, at_slot, rfl, rfl⟩
      exact ⟨e.2, at_slot, rfl⟩
    · rintro ⟨v, at_slot, rfl⟩
      exact ⟨(d, v), at_slot, rfl, rfl⟩
  | bounded map | array map =>
    simp only [Holds, mapRef, BoundedVecMap.mapRef, ArrayMap.mapRef, occupied_map,
      Option.map_eq_some_iff]
    constructor
    · rintro ⟨at_d, v, found, rfl⟩
      exact ⟨v, ⟨at_d, found⟩, rfl⟩
    · rintro ⟨v, ⟨at_d, found⟩, rfl⟩
      exact ⟨at_d, v, found, rfl⟩

theorem mapRef_wellFormed (wf : m.WellFormed) (f : V → U) : (m.mapRef f).WellFormed := by
  cases m with
  | linear map =>
    simp only [WellFormed, mapRef, LinearVecMap.mapRef, List.map_map, Function.comp_def]
    exact wf
  | sorted map =>
    simp only [WellFormed, mapRef, SortedVecMap.mapRef, Ascending, List.pairwise_map]
    exact wf
  | bounded map | array map =>
    intro slot u found
    simp only [BoundedVecMap.mapRef, ArrayMap.mapRef, occupied_map, Option.map_eq_some_iff] at found
    obtain ⟨v, found, -⟩ := found
    exact wf slot v found

variable [DecidableEq D]

theorem getMutBy_iff (wf : m.WellFormed) : m.getMutBy d = some slot ↔ ∃ v, m.Holds slot d v := by
  cases m with
  | linear map => exact Search.findIdx?_eq_some_iff wf
  | sorted map =>
    refine Iff.trans ?_ (SortedVecMap.search_ok_iff wf)
    simp only [getMutBy, SortedVecMap.getMutBy]
    cases map.search d <;> simp [Except.toOption]
  | bounded map | array map =>
    simp only [getMutBy, BoundedVecMap.getMutBy, ArrayMap.getMutBy, Option.map_eq_some_iff, Holds]
    constructor
    · rintro ⟨v, found, rfl⟩
      exact ⟨v, rfl, found⟩
    · rintro ⟨v, rfl, found⟩
      exact ⟨v, found, rfl⟩

theorem getBy_iff (wf : m.WellFormed) : m.getBy d = some v ↔ ∃ slot, m.Holds slot d v := by
  cases m with
  | linear map =>
    refine (Search.find?_eq_some_iff wf).trans ?_
    exact List.mem_iff_getElem?
  | sorted map =>
    rw [getBy, SortedVecMap.getBy]
    constructor
    · intro found
      split at found
      · rename_i index searched
        obtain ⟨v', here⟩ := (SortedVecMap.search_ok_iff wf).mp searched
        rw [here] at found
        cases found
        exact ⟨index, here⟩
      · cases found
    · rintro ⟨slot, here⟩
      have at_slot : map.vec[slot]? = some (d, v) := here
      simp only [SortedVecMap.search_found wf at_slot, at_slot, Option.map_some]
  | bounded map | array map =>
    simp only [getBy, BoundedVecMap.getBy, ArrayMap.getBy, Holds, exists_eq_left]

theorem getBy_eq_none_iff (wf : m.WellFormed) :
    m.getBy d = none ↔ ∀ slot v, ¬ m.Holds slot d v := by
  rw [Option.eq_none_iff_forall_ne_some]
  constructor
  · intro missing slot v here
    exact missing v ((getBy_iff wf).mpr ⟨slot, here⟩)
  · intro missing v found
    obtain ⟨slot, here⟩ := (getBy_iff wf).mp found
    exact missing slot v here

/-! ## Insertion -/

/-- The discriminants that a map is made for. -/
def Supports : FullMap D V → D → Prop
  | .linear _, _ => True
  | .sorted _, _ => True
  | .bounded _, _ => True
  | @FullMap.array _ _ N _, d => Discrim.intoUsize d < N

theorem getByOrInsert_found (wf : m.WellFormed) (here : m.Holds slot d v) (inserter : σ → V × σ)
    (s : σ) : m.getByOrInsert d inserter s = .ok (slot, m, s) := by
  cases m with
  | linear map =>
    have found : map.position d = some slot := (Search.findIdx?_eq_some_iff wf).mpr ⟨v, here⟩
    simp only [getByOrInsert, LinearVecMap.getByOrInsert, found]
    rfl
  | sorted map =>
    have found : map.search d = .ok slot := SortedVecMap.search_found wf here
    simp only [getByOrInsert, SortedVecMap.getByOrInsert, found]
    rfl
  | bounded map =>
    obtain ⟨rfl, found⟩ := here
    have grown : BoundedVecMap.resize map.vec (Discrim.intoUsize d) = .ok map.vec := by
      have inside := lt_of_occupied found
      rw [BoundedVecMap.resize, nextLen, if_pos (Discrim.small d), ok_bind,
        Nat.sub_eq_zero_of_le inside]
      simp
    simp only [getByOrInsert, BoundedVecMap.getByOrInsert, grown, ok_bind, found]
    rfl
  | array map =>
    obtain ⟨rfl, found⟩ := here
    rw [occupied_eq_some] at found
    simp only [getByOrInsert, ArrayMap.getByOrInsert, found]
    rfl

/-- Where the entry of a discriminant is: searched for from the start, searched for in a
sorted vector, or at its own index. -/
inductive Layout where
  | linear
  | sorted
  | indexed
  deriving DecidableEq

def layout : FullMap D V → Layout
  | .linear _ => .linear
  | .sorted _ => .sorted
  | .bounded _ => .indexed
  | .array _ => .indexed

/-- How far the entry of `d'` moves when `d` is inserted. -/
def shift (m : FullMap D V) (d d' : D) : Nat :=
  if m.layout = .sorted ∧ Discrim.intoUsize d < Discrim.intoUsize d' then 1 else 0

/-- The map has one entry more. -/
structure Inserted (m m' : FullMap D V) (slot : Nat) (d : D) (v : V) : Prop where
  wellFormed : m'.WellFormed
  layout : m'.layout = m.layout
  supports : ∀ d', m'.Supports d' ↔ m.Supports d'
  here : m'.Holds slot d v
  others : ∀ d' v', d' ≠ d → ((∃ slot', m'.Holds slot' d' v') ↔ ∃ slot', m.Holds slot' d' v')
  moved : ∀ slot' d' v', m.Holds slot' d' v' → m'.Holds (slot' + m.shift d d') d' v'

omit [Discrim D] [DecidableEq D] in
theorem entry_insert (below above : List (D × V)) {w : V} (other : d' ≠ d) :
    (∃ slot' : Nat, (below ++ (d, v) :: above)[slot']? = some (d', w)) ↔
      ∃ slot' : Nat, (below ++ above)[slot']? = some (d', w) := by
  rw [← List.mem_iff_getElem?, ← List.mem_iff_getElem?]
  simp [other]

omit [DecidableEq D] in
theorem slot_fill {slots : List (Option V)} (inside : Discrim.intoUsize d < slots.length)
    {w : V} (other : d' ≠ d) :
    (∃ slot', slot' = Discrim.intoUsize d' ∧
      occupied (slots.set (Discrim.intoUsize d) (some v)) slot' = some w) ↔
    ∃ slot', slot' = Discrim.intoUsize d' ∧ occupied slots slot' = some w := by
  have apart : Discrim.intoUsize d' ≠ Discrim.intoUsize d := fun same => other (intoUsize_inj same)
  simp only [exists_eq_left, occupied_set inside, if_neg apart]

theorem linear_missing {map : LinearVecMap D V} (wf : (linear map).WellFormed)
    (missing : ∀ slot v, ¬ (linear map).Holds slot d v) (inserter : σ → V × σ) (s : σ) :
    ∃ slot m', (linear map).getByOrInsert d inserter s = .ok (slot, m', (inserter s).2) ∧
      Inserted (linear map) m' slot d (inserter s).1 := by
  have absent : map.position d = none := by
    rw [Option.eq_none_iff_forall_ne_some]
    intro slot found
    obtain ⟨v, here⟩ := (Search.findIdx?_eq_some_iff wf).mp found
    exact missing slot v here
  simp only [getByOrInsert, LinearVecMap.getByOrInsert, absent]
  refine ⟨_, _, rfl, ?_⟩
  constructor
  case wellFormed =>
    have fresh : d ∉ map.vec.map (·.1) := by
      intro member
      obtain ⟨e, entry, rfl⟩ := List.mem_map.mp member
      obtain ⟨slot, at_slot⟩ := List.mem_iff_getElem?.mp entry
      exact missing slot e.2 at_slot
    simp only [WellFormed, List.map_append, List.map_cons, List.map_nil]
    exact List.nodup_append.mpr ⟨wf, List.nodup_singleton d, by grind⟩
  case layout => rfl
  case supports => exact fun _ => Iff.rfl
  case here => exact List.getElem?_concat_length
  case others =>
    intro d' v' other
    have := entry_insert map.vec [] (v := (inserter s).1) (w := v') other
    rw [List.append_nil] at this
    exact this
  case moved =>
    intro slot' d' v' here
    have at_slot : map.vec[slot']? = some (d', v') := here
    have inside := (List.getElem?_eq_some_iff.mp at_slot).1
    exact (List.getElem?_append_left inside).trans at_slot

theorem sorted_missing {map : SortedVecMap D V} (wf : (sorted map).WellFormed)
    (missing : ∀ slot v, ¬ (sorted map).Holds slot d v) (inserter : σ → V × σ) (s : σ) :
    ∃ slot m', (sorted map).getByOrInsert d inserter s = .ok (slot, m', (inserter s).2) ∧
      Inserted (sorted map) m' slot d (inserter s).1 := by
  have absent : ∀ v, (d, v) ∉ map.vec := by
    intro v member
    obtain ⟨slot, at_slot⟩ := List.mem_iff_getElem?.mp member
    exact missing slot v at_slot
  obtain ⟨below, above, split, searched, smaller, larger⟩ :=
    SortedVecMap.search_missing wf absent
  simp only [getByOrInsert, SortedVecMap.getByOrInsert, searched]
  refine ⟨_, _, rfl, ?_⟩
  have inserted : map.vec.insertIdx below.length (d, (inserter s).1) =
      below ++ (d, (inserter s).1) :: above := by
    rw [split, Search.insertIdx_length_append]
  simp only [inserted]
  constructor
  case wellFormed =>
    have before : Ascending (below ++ above) := by
      rw [← split]
      exact wf
    simp only [WellFormed, Ascending, List.pairwise_append, List.pairwise_cons,
      List.forall_mem_cons] at before ⊢
    refine ⟨before.1, ⟨larger, before.2.1⟩, fun e member => ⟨smaller e member, ?_⟩⟩
    exact before.2.2 e member
  case layout => rfl
  case supports => exact fun _ => Iff.rfl
  case here => simp [Holds]
  case others =>
    intro d' v' other
    refine (entry_insert below above other).trans ?_
    rw [← split]
    exact Iff.rfl
  case moved =>
    intro slot' d' v' here
    have at_slot : (below ++ above)[slot']? = some (d', v') := by
      rw [← split]
      exact here
    change (below ++ (d, (inserter s).1) :: above)[slot' + _]? = some (d', v')
    by_cases first : slot' < below.length
    · rw [List.getElem?_append_left first] at at_slot
      have less : Discrim.intoUsize d' < Discrim.intoUsize d :=
        smaller _ (List.mem_of_getElem? at_slot)
      have same : (sorted map).shift d d' = 0 := if_neg fun both => by
        have := both.2
        omega
      rw [same, Nat.add_zero, List.getElem?_append_left first, at_slot]
    · rw [List.getElem?_append_right (by omega)] at at_slot
      have more := larger _ (List.mem_of_getElem? at_slot)
      have next : (sorted map).shift d d' = 1 := if_pos ⟨rfl, more⟩
      rw [next, List.getElem?_append_right (by omega), Nat.sub_add_comm (by omega),
        List.getElem?_cons_succ, at_slot]

theorem bounded_missing {map : BoundedVecMap D V} (wf : (bounded map).WellFormed)
    (missing : ∀ slot v, ¬ (bounded map).Holds slot d v) (inserter : σ → V × σ) (s : σ) :
    ∃ slot m', (bounded map).getByOrInsert d inserter s = .ok (slot, m', (inserter s).2) ∧
      Inserted (bounded map) m' slot d (inserter s).1 := by
  have absent : occupied map.vec (Discrim.intoUsize d) = none := by
    rw [Option.eq_none_iff_forall_ne_some]
    exact fun v found => missing _ v ⟨rfl, found⟩
  obtain ⟨n, grown, inside⟩ := BoundedVecMap.resize_eq map.vec d
  simp only [getByOrInsert, BoundedVecMap.getByOrInsert, grown, ok_bind, occupied_grow, absent]
  refine ⟨_, _, rfl, ?_⟩
  constructor
  case wellFormed =>
    have indexed : Indexed D (map.vec ++ List.replicate n none) := by
      intro slot v found
      rw [occupied_grow] at found
      exact wf slot v found
    exact indexed.set rfl inside
  case layout => rfl
  case supports => exact fun _ => Iff.rfl
  case here => exact ⟨rfl, (occupied_set inside).trans (if_pos rfl)⟩
  case others =>
    intro d' v' other
    refine (slot_fill inside other).trans ?_
    simp only [occupied_grow]
    exact Iff.rfl
  case moved =>
    intro slot' d' v' here
    have other : slot' ≠ Discrim.intoUsize d := by
      rintro rfl
      exact missing _ v' ⟨rfl, here.2⟩
    have kept : occupied ((map.vec ++ List.replicate n none).set (Discrim.intoUsize d)
        (some (inserter s).1)) slot' = some v' := by
      rw [occupied_set inside, if_neg other, occupied_grow]
      exact here.2
    exact ⟨here.1, kept⟩

theorem array_missing {N : Nat} {map : ArrayMap D V N} (wf : (array map).WellFormed)
    (supports : Discrim.intoUsize d < N) (missing : ∀ slot v, ¬ (array map).Holds slot d v)
    (inserter : σ → V × σ) (s : σ) :
    ∃ slot m', (array map).getByOrInsert d inserter s = .ok (slot, m', (inserter s).2) ∧
      Inserted (array map) m' slot d (inserter s).1 := by
  have inside : Discrim.intoUsize d < map.array.length := by
    rw [map.size]
    exact supports
  have absent : map.array[Discrim.intoUsize d]? = some none := by
    rw [List.getElem?_eq_getElem inside]
    cases value : map.array[Discrim.intoUsize d] with
    | none => rfl
    | some v =>
      have found : occupied map.array (Discrim.intoUsize d) = some v := by
        rw [occupied_eq_some, List.getElem?_eq_getElem inside, value]
      exact absurd ⟨rfl, found⟩ (missing _ v)
  simp only [getByOrInsert, ArrayMap.getByOrInsert, absent]
  refine ⟨_, _, rfl, ?_⟩
  constructor
  case wellFormed => exact Indexed.set wf rfl inside
  case layout => rfl
  case supports => exact fun _ => Iff.rfl
  case here => exact ⟨rfl, (occupied_set inside).trans (if_pos rfl)⟩
  case others =>
    intro d' v' other
    exact slot_fill inside other
  case moved =>
    intro slot' d' v' here
    have other : slot' ≠ Discrim.intoUsize d := by
      rintro rfl
      exact missing _ v' ⟨rfl, here.2⟩
    have kept : occupied (map.array.set (Discrim.intoUsize d) (some (inserter s).1)) slot' =
        some v' := by
      rw [occupied_set inside, if_neg other]
      exact here.2
    exact ⟨here.1, kept⟩

theorem getByOrInsert_missing (wf : m.WellFormed) (supports : m.Supports d)
    (missing : ∀ slot v, ¬ m.Holds slot d v) (inserter : σ → V × σ) (s : σ) :
    ∃ slot m', m.getByOrInsert d inserter s = .ok (slot, m', (inserter s).2) ∧
      Inserted m m' slot d (inserter s).1 := by
  cases m with
  | linear map => exact linear_missing wf missing inserter s
  | sorted map => exact sorted_missing wf missing inserter s
  | bounded map => exact bounded_missing wf missing inserter s
  | array map => exact array_missing wf supports missing inserter s

/-! ## Collecting the entries -/

omit [DecidableEq D] in
theorem slot_collect {slots : List (Option V)} {past : List (D × V)}
    (inside : Discrim.intoUsize d < slots.length) (fresh : ∀ w, (d, w) ∉ past)
    (collected : ∀ d' w, occupied slots (Discrim.intoUsize d') = some w ↔ (d', w) ∈ past) :
    ∀ d' w, occupied (slots.set (Discrim.intoUsize d) (some v)) (Discrim.intoUsize d') = some w ↔
      (d', w) ∈ past ++ [(d, v)] := by
  intro d' w
  rw [occupied_set inside, List.mem_append, List.mem_singleton, Prod.mk.injEq]
  by_cases same : d' = d
  · subst same
    rw [if_pos rfl, Option.some.injEq]
    constructor
    · rintro rfl
      exact .inr ⟨rfl, rfl⟩
    · rintro (again | ⟨-, rfl⟩)
      · exact absurd again (fresh w)
      · rfl
  · rw [if_neg fun at_d => same (intoUsize_inj at_d), collected]
    simp [same]

omit [DecidableEq D] in
/-- The slots have the values of the entries. -/
structure Collected (past : List (D × V)) (slots : List (Option V)) : Prop where
  indexed : Indexed D slots
  entries : ∀ d v, occupied slots (Discrim.intoUsize d) = some v ↔ (d, v) ∈ past

omit [DecidableEq D] in
theorem collected_empty (n : Nat) : Collected ([] : List (D × V)) (List.replicate n none) := by
  constructor
  · intro slot v found
    rw [occupied_empty] at found
    cases found
  · intro d v
    rw [occupied_empty]
    simp

omit [DecidableEq D] in
theorem Collected.set {past : List (D × V)} {slots : List (Option V)} (collected : Collected past slots)
    (inside : Discrim.intoUsize d < slots.length) (fresh : ∀ w, (d, w) ∉ past) :
    Collected (past ++ [(d, v)]) (slots.set (Discrim.intoUsize d) (some v)) :=
  ⟨collected.indexed.set rfl inside, slot_collect inside fresh collected.entries⟩

omit [DecidableEq D] in
theorem Collected.grow {past : List (D × V)} {slots : List (Option V)} (collected : Collected past slots)
    (n : Nat) : Collected past (slots ++ List.replicate n none) := by
  constructor
  · intro slot v found
    rw [occupied_grow] at found
    exact collected.indexed slot v found
  · intro d v
    rw [occupied_grow]
    exact collected.entries d v

omit [Discrim D] [DecidableEq D] in
theorem fresh_of_distinct {entries past rest : List (D × V)} {e : D × V}
    (distinct : (entries.map (·.1)).Nodup) (split : entries = past ++ e :: rest) (w : V) :
    (e.1, w) ∉ past := by
  intro member
  rw [split, List.map_append, List.map_cons, List.nodup_append] at distinct
  exact distinct.2.2 e.1 (List.mem_map.mpr ⟨_, member, rfl⟩) e.1 (List.mem_cons_self ..) rfl

omit [DecidableEq D] in
theorem bounded_fromIter {entries : List (D × V)} (distinct : (entries.map (·.1)).Nodup) (n : Nat) :
    ∃ map, BoundedVecMap.fromIter n entries = .ok map ∧ Collected entries map.vec := by
  rw [BoundedVecMap.fromIter, BoundedVecMap.extend]
  refine (foldlM_cases (fun past (map : BoundedVecMap D V) => Collected past map.vec)
    (fun _ _ => False) (collected_empty n) fun past e rest map split collected => ?_).resolve_left ?_
  · right
    obtain ⟨d, value⟩ := e
    obtain ⟨n, grown, inside⟩ := BoundedVecMap.resize_eq map.vec d
    refine ⟨⟨(map.vec ++ List.replicate n none).set (Discrim.intoUsize d) (some value)⟩, ?_, ?_⟩
    · simp only [grown, ok_bind]
      rfl
    exact (collected.grow n).set inside (fresh_of_distinct distinct split)
  · rintro ⟨-, -, -, -, never⟩
    exact never

omit [DecidableEq D] in
theorem array_fromIter {entries : List (D × V)} (distinct : (entries.map (·.1)).Nodup) {N : Nat}
    (small : ∀ e ∈ entries, Discrim.intoUsize e.1 < N) :
    ∃ map : ArrayMap D V N, ArrayMap.fromIter N entries = .ok map ∧ Collected entries map.array := by
  rw [ArrayMap.fromIter]
  refine (foldlM_cases (fun past (map : ArrayMap D V N) => Collected past map.array)
    (fun _ _ => False) (collected_empty N) fun past e rest map split collected => ?_).resolve_left ?_
  · right
    have inside : Discrim.intoUsize e.1 < map.array.length := by
      rw [map.size]
      exact small e (by rw [split]; simp)
    have fresh := fresh_of_distinct distinct split
    have empty : map.array[Discrim.intoUsize e.1]? = some none := by
      rw [List.getElem?_eq_getElem inside]
      cases value : map.array[Discrim.intoUsize e.1] with
      | none => rfl
      | some w =>
        refine absurd ((collected.entries e.1 w).mp ?_) (fresh w)
        rw [occupied_eq_some, List.getElem?_eq_getElem inside, value]
    refine ⟨map.set (Discrim.intoUsize e.1) (some e.2), ?_, collected.set inside fresh⟩
    simp only [empty]
  · rintro ⟨-, -, -, -, never⟩
    exact never

/-- The maps can have the entries. -/
def Accepts (entries : List (D × V)) : MapType → Prop
  | .array N => ∀ e ∈ entries, Discrim.intoUsize e.1 < N
  | _ => True

omit [DecidableEq D] in
theorem fromIter_returns {entries : List (D × V)} (distinct : (entries.map (·.1)).Nodup)
    {ty : MapType} (accepts : Accepts entries ty) :
    ∃ m, fromIter entries ty = .ok m ∧ m.WellFormed ∧
      ∀ d v, (∃ slot, m.Holds slot d v) ↔ (d, v) ∈ entries := by
  cases ty with
  | linear =>
    exact ⟨_, rfl, distinct, fun d v => List.mem_iff_getElem?.symm⟩
  | sorted =>
    refine ⟨_, rfl, ?_, fun d v => ?_⟩
    · have perm := List.perm_insertionSort
        (fun e e' : D × V => Discrim.intoUsize e.1 ≤ Discrim.intoUsize e'.1) entries
      have apart := List.pairwise_map.mp (List.nodup_iff_pairwise_ne.mp
        ((perm.map (·.1)).nodup_iff.mpr distinct))
      have ordered := List.pairwise_insertionSort
        (fun e e' : D × V => Discrim.intoUsize e.1 ≤ Discrim.intoUsize e'.1) entries
      refine (ordered.and apart).imp fun both => ?_
      exact lt_of_le_of_ne both.1 fun same => both.2 (intoUsize_inj same)
    · refine List.mem_iff_getElem?.symm.trans ?_
      exact List.mem_insertionSort _
  | bounded n =>
    obtain ⟨map, run, collected⟩ := bounded_fromIter distinct n
    refine ⟨.bounded map, by rw [fromIter, run]; rfl, collected.indexed, fun d v => ?_⟩
    simp only [Holds, exists_eq_left]
    exact collected.entries d v
  | array N =>
    obtain ⟨map, run, collected⟩ := array_fromIter distinct accepts
    refine ⟨.array map, by rw [fromIter, run]; rfl, collected.indexed, fun d v => ?_⟩
    simp only [Holds, exists_eq_left]
    exact collected.entries d v

/-! ## Iteration -/

/-- Every index has a discriminant. -/
def Dense : FullMap D V → Prop
  | .linear _ => True
  | .sorted _ => True
  | .bounded map => ∀ index < map.vec.length, ∃ d : D, Discrim.intoUsize d = index
  | @FullMap.array _ _ N _ => ∀ index < N, ∃ d : D, Discrim.intoUsize d = index

/-- What a slot gives to the iterator. -/
def Given (e : Option V × Nat) (r : Option (D × Nat × V)) : Prop :=
  ∃ d : D, Discrim.intoUsize d = e.2 ∧ r = e.1.map fun value => (d, e.2, value)

omit [DecidableEq D] in
theorem given_mem {slots : List (Option V)} {n : Nat} {rs : List (Option (D × Nat × V))}
    (given : List.Forall₂ Given (slots.zipIdx n) rs) :
    (rs.filterMap id).Pairwise (fun r r' => r.2.1 < r'.2.1) ∧
    ∀ d slot v, (d, slot, v) ∈ rs.filterMap id ↔
      slot = Discrim.intoUsize d ∧ n ≤ slot ∧ occupied slots (slot - n) = some v := by
  induction slots generalizing n rs with
  | nil =>
    cases given
    simp [occupied]
  | cons value slots ih =>
    cases given with
    | @cons _ r _ rs here given =>
      obtain ⟨ascending, members⟩ := ih given
      obtain ⟨d, at_n, rfl⟩ := here
      have split : ∀ slot v, n ≤ slot ∧ occupied (value :: slots) (slot - n) = some v ↔
          (slot = n ∧ value = some v) ∨
            n + 1 ≤ slot ∧ occupied slots (slot - (n + 1)) = some v := by
        intro slot v
        rcases Nat.lt_trichotomy slot n with before | rfl | after
        · constructor
          · rintro ⟨bound, -⟩
            omega
          · rintro (⟨same, -⟩ | ⟨bound, -⟩) <;> omega
        · rw [occupied_eq_some]
          simp
        · rw [occupied, occupied, show slot - n = slot - (n + 1) + 1 by omega,
            List.getElem?_cons_succ]
          constructor
          · rintro ⟨-, found⟩
            exact .inr ⟨after, found⟩
          · rintro (⟨same, -⟩ | ⟨-, found⟩)
            · omega
            · exact ⟨by omega, found⟩
      simp only [split]
      cases value with
      | none =>
        refine ⟨ascending, fun d' slot v => ?_⟩
        simpa using members d' slot v
      | some w =>
        have first : List.filterMap id (some (d, n, w) :: rs) = (d, n, w) :: rs.filterMap id := rfl
        simp only [Option.map_some, first, List.pairwise_cons, List.mem_cons]
        refine ⟨⟨fun r member => ?_, ascending⟩, fun d' slot v => ?_⟩
        · have := ((members r.1 r.2.1 r.2.2).mp member).2.1
          omega
        · rw [members, Prod.mk.injEq, Prod.mk.injEq]
          constructor
          · rintro (⟨rfl, rfl, rfl⟩ | ⟨at_d, later⟩)
            · exact ⟨at_n.symm, .inl ⟨rfl, rfl⟩⟩
            · exact ⟨at_d, .inr later⟩
          · rintro ⟨at_d, ⟨rfl, same⟩ | later⟩
            · exact .inl ⟨intoUsize_inj (at_d.symm.trans at_n.symm), rfl, (Option.some.inj same).symm⟩
            · exact .inr ⟨at_d, later⟩

omit [DecidableEq D] in
theorem filterSlots_exactly (slots : List (Option V)) :
    Exactly (∀ index < slots.length, ∃ d : D, Discrim.intoUsize d = index) (filterSlots D slots)
      fun items => (items.map (·.1)).Nodup ∧ ∀ d slot v, (d, slot, v) ∈ items ↔
        slot = Discrim.intoUsize d ∧ occupied slots slot = some v := by
  have each : ∀ e ∈ slots.zipIdx, ∀ e', e = e' →
      Exactly (∃ d : D, Discrim.intoUsize d = e.2)
        (do
          let discrim ← fromUsize D e'.2
          return e'.1.map fun value => (discrim, e'.2, value)) (Given e) := by
    rintro e - _ rfl
    refine Exactly.bind_pure (Q := fun d => Discrim.intoUsize d = e.2) ⟨?_, ?_⟩ ?_
    · rintro ⟨d, at_e⟩
      exact ⟨d, fromUsize_eq_ok.mpr at_e, at_e⟩
    · intro unsupported
      cases run : fromUsize D e.2 with
      | error p => exact ⟨p, rfl⟩
      | ok d => exact absurd ⟨d, fromUsize_eq_ok.mp run⟩ unsupported
    · intro d at_e
      exact ⟨d, at_e, rfl⟩
  have all := Exactly.mapM (List.forall₂_same.mpr fun _ _ => rfl) each
  rw [filterSlots]
  refine (all.bind_pure fun rs given => ?_).mono ?_ fun _ last => last
  · obtain ⟨ascending, members⟩ := given_mem given
    simp only [Nat.zero_le, Nat.sub_zero, true_and] at members
    refine ⟨?_, members⟩
    rw [List.nodup_iff_pairwise_ne, List.pairwise_map]
    refine ascending.imp_of_mem fun {r r'} member member' less same => ?_
    have at_r := ((members r.1 r.2.1 r.2.2).mp member).1
    have at_r' := ((members r'.1 r'.2.1 r'.2.2).mp member').1
    rw [at_r, at_r', same] at less
    omega
  · constructor
    · intro supported index inside
      exact supported (slots[index], index) (List.mk_mem_zipIdx_iff_getElem?.mpr (by simp [inside]))
    · intro supported e member
      exact supported e.2 (List.snd_lt_of_mem_zipIdx member)

/-- The iterations give every entry once. -/
structure Yields (m : FullMap D V) (p : D → Option V) : Prop where
  iterMapped : ∃ items, m.iterMapped = .ok items ∧ (items.map (·.2.1)).Nodup ∧
    ∀ key d v, (key, d, v) ∈ items ↔ key = d ∧ p d = some v
  iterMappedMut : ∃ items, m.iterMappedMut = .ok items ∧ (items.map (·.1)).Nodup ∧
    ∀ d slot, (d, slot) ∈ items ↔ m.getMutBy d = some slot
  intoIterMapped : ∃ items, m.intoIterMapped = .ok items ∧ (items.map (·.1)).Nodup ∧
    ∀ d v, (d, v) ∈ items ↔ p d = some v

theorem yields_pairs {vec : List (D × V)} (distinct : (vec.map (·.1)).Nodup)
    (getBy : ∀ d v, m.getBy d = some v ↔ (d, v) ∈ vec)
    (getMutBy : ∀ d slot, m.getMutBy d = some slot ↔ ∃ v, vec[slot]? = some (d, v))
    (iter : m.iterMapped = .ok (vec.map fun e => (e.1, e.1, e.2)))
    (iterMut : m.iterMappedMut = .ok (vec.zipIdx.map fun e => (e.1.1, e.2)))
    (intoIter : m.intoIterMapped = .ok vec) : Yields m m.getBy := by
  constructor
  case iterMapped =>
    refine ⟨_, iter, by simpa [Function.comp_def] using distinct, fun key d v => ?_⟩
    rw [getBy]
    simp only [List.mem_map, Prod.mk.injEq, Prod.exists]
    constructor
    · rintro ⟨d, v, member, rfl, rfl, rfl⟩
      exact ⟨rfl, member⟩
    · rintro ⟨rfl, member⟩
      exact ⟨key, v, member, rfl, rfl, rfl⟩
  case iterMappedMut =>
    refine ⟨_, iterMut, ?_, fun d slot => ?_⟩
    · have keys : (vec.zipIdx.map fun e => (e.1.1, e.2)).map (·.1) =
          (vec.zipIdx.map Prod.fst).map (·.1) := by
        rw [List.map_map, List.map_map]
        rfl
      rw [keys, List.zipIdx_map_fst]
      exact distinct
    · rw [getMutBy]
      simp only [List.mem_map, List.mem_zipIdx_iff_getElem?, Prod.mk.injEq, Prod.exists]
      constructor
      · rintro ⟨_, v, _, at_slot, rfl, rfl⟩
        exact ⟨v, at_slot⟩
      · rintro ⟨v, at_slot⟩
        exact ⟨d, v, slot, at_slot, rfl, rfl⟩
  case intoIterMapped => exact ⟨_, intoIter, distinct, fun d v => (getBy d v).symm⟩

theorem yields_slots {slots : List (Option V)}
    (getBy : ∀ d v, m.getBy d = some v ↔ occupied slots (Discrim.intoUsize d) = some v)
    (getMutBy : ∀ d slot, m.getMutBy d = some slot ↔
      ∃ v, slot = Discrim.intoUsize d ∧ occupied slots slot = some v)
    (iter : m.iterMapped = do
      return (← filterSlots D slots).map fun (discrim, _, value) => (discrim, discrim, value))
    (iterMut : m.iterMappedMut = do
      return (← filterSlots D slots).map fun (discrim, index, _) => (discrim, index))
    (intoIter : m.intoIterMapped = do
      return (← filterSlots D slots).map fun (discrim, _, value) => (discrim, value)) :
    Yields m m.getBy ↔ ∀ index < slots.length, ∃ d : D, Discrim.intoUsize d = index := by
  have iterates := filterSlots_exactly (D := D) slots
  constructor
  · intro yields
    obtain ⟨items, run, -⟩ := yields.intoIterMapped
    rw [intoIter] at run
    obtain ⟨given, run, -⟩ := bind_eq_ok.mp run
    exact (iterates.of_ok run).1
  · intro dense
    obtain ⟨items, run, distinct, members⟩ := iterates.returns dense
    rw [run, ok_bind] at iter iterMut intoIter
    constructor
    case iterMapped =>
      refine ⟨_, iter, by simpa [Function.comp_def] using distinct, fun key d v => ?_⟩
      rw [getBy]
      simp only [List.mem_map, Prod.mk.injEq, Prod.exists, members]
      constructor
      · rintro ⟨d, _, v, ⟨rfl, found⟩, rfl, rfl, rfl⟩
        exact ⟨rfl, found⟩
      · rintro ⟨rfl, found⟩
        exact ⟨key, _, v, ⟨rfl, found⟩, rfl, rfl, rfl⟩
    case iterMappedMut =>
      refine ⟨_, iterMut, by simpa [Function.comp_def] using distinct, fun d slot => ?_⟩
      rw [getMutBy]
      simp only [List.mem_map, Prod.mk.injEq, Prod.exists, members]
      constructor
      · rintro ⟨d, slot, v, here, rfl, rfl⟩
        exact ⟨v, here⟩
      · rintro ⟨v, here⟩
        exact ⟨d, slot, v, here, rfl, rfl⟩
    case intoIterMapped =>
      refine ⟨_, intoIter, by simpa [Function.comp_def] using distinct, fun d v => ?_⟩
      rw [getBy]
      simp only [List.mem_map, Prod.mk.injEq, Prod.exists, members]
      constructor
      · rintro ⟨d, _, v, ⟨rfl, found⟩, rfl, rfl⟩
        exact found
      · intro found
        exact ⟨d, _, v, ⟨rfl, found⟩, rfl, rfl⟩

theorem yields_iff (wf : m.WellFormed) : Yields m m.getBy ↔ m.Dense := by
  have looked : ∀ d v, m.getBy d = some v ↔ ∃ slot, m.Holds slot d v := fun _ _ => getBy_iff wf
  have placed : ∀ d slot, m.getMutBy d = some slot ↔ ∃ v, m.Holds slot d v :=
    fun _ _ => getMutBy_iff wf
  cases m with
  | linear map =>
    refine iff_of_true (yields_pairs wf (fun d v => ?_) placed rfl rfl rfl) trivial
    exact (looked d v).trans List.mem_iff_getElem?.symm
  | sorted map =>
    refine iff_of_true (yields_pairs (Ascending.distinct wf) (fun d v => ?_) placed rfl rfl rfl) trivial
    exact (looked d v).trans List.mem_iff_getElem?.symm
  | bounded map =>
    refine yields_slots (fun d v => ?_) placed rfl rfl rfl
    simpa only [Holds, exists_eq_left] using looked d v
  | array map =>
    refine (yields_slots (fun d v => ?_) placed rfl rfl rfl).trans ?_
    · simpa only [Holds, exists_eq_left] using looked d v
    · rw [map.size]
      exact Iff.rfl

/-! ## Whole histories -/

/-- A map after any sequence of operations, with the partial map that it stands for. -/
inductive Built : {V : Type} → FullMap D V → (D → Option V) → Prop
  | fromIter {V : Type} {entries : List (D × V)} {ty : MapType} {m : FullMap D V}
      {p : D → Option V} (distinct : (entries.map (·.1)).Nodup) (accepts : Accepts entries ty)
      (entry : ∀ d v, p d = some v ↔ (d, v) ∈ entries) (run : fromIter entries ty = .ok m) :
      Built m p
  | write {V : Type} {m : FullMap D V} {p : D → Option V} {d : D} {slot : Nat} (v : V)
      (built : Built m p) (found : m.getMutBy d = some slot) :
      Built (m.write slot v) (Function.update p d (some v))
  | insert {V σ : Type} {m m' : FullMap D V} {p : D → Option V} {d : D} {inserter : σ → V × σ}
      {s s' : σ} {slot : Nat} (built : Built m p) (supports : m.Supports d)
      (run : m.getByOrInsert d inserter s = .ok (slot, m', s')) :
      Built m' (Function.update p d (some ((p d).getD (inserter s).1)))
  | mapRef {V U : Type} {m : FullMap D V} {p : D → Option V} (f : V → U) (built : Built m p) :
      Built (m.mapRef f) fun d => (p d).map f

/-- The map answers as the partial map does. -/
structure Answers (m : FullMap D V) (p : D → Option V) : Prop where
  getBy : ∀ d, m.getBy d = p d
  getMutBy : ∀ d, (m.getMutBy d).map m.valueAt = (p d).map some
  getByOrInsert : ∀ d, m.Supports d → ∀ (σ : Type) (inserter : σ → V × σ) (s : σ), ∃ slot m',
    m.getByOrInsert d inserter s = .ok (slot, m', if (p d).isSome then s else (inserter s).2) ∧
      m'.valueAt slot = some ((p d).getD (inserter s).1)
  ascending : ∀ map, m = .sorted map → Ascending map.vec

/-- The map cannot be told from the partial map. -/
structure Agrees (m : FullMap D V) (p : D → Option V) : Prop extends Answers m p where
  yields : Yields m p

theorem getBy_write (wf : m.WellFormed) (here : m.Holds slot d v) (d' : D) :
    (m.write slot v').getBy d' = Function.update m.getBy d (some v') d' := by
  apply Option.ext
  intro w
  rw [getBy_iff (write_wellFormed wf here)]
  simp only [holds_write here]
  by_cases same : d' = d
  · subst same
    rw [Function.update_self, Option.some.injEq]
    constructor
    · rintro ⟨slot', here'⟩
      split at here'
      · exact here'.2.symm
      · rename_i other
        exact absurd (Holds.slot_inj wf here' here) other
    · rintro rfl
      exact ⟨slot, by simp⟩
  · rw [Function.update_of_ne same, getBy_iff wf]
    constructor
    · rintro ⟨slot', here'⟩
      split at here'
      · exact absurd here'.1 same
      · exact ⟨slot', here'⟩
    · rintro ⟨slot', here'⟩
      refine ⟨slot', ?_⟩
      rw [if_neg]
      · exact here'
      · rintro rfl
        exact same (here'.inj here).1

theorem getBy_mapRef (wf : m.WellFormed) (f : V → U) (d : D) :
    (m.mapRef f).getBy d = (m.getBy d).map f := by
  apply Option.ext
  intro u
  rw [getBy_iff (mapRef_wellFormed wf f), Option.map_eq_some_iff]
  simp only [holds_mapRef, getBy_iff wf]
  constructor
  · rintro ⟨slot, v, here, rfl⟩
    exact ⟨v, ⟨slot, here⟩, rfl⟩
  · rintro ⟨v, ⟨slot, here⟩, rfl⟩
    exact ⟨slot, v, here, rfl⟩

theorem Inserted.getBy {m' : FullMap D V} (wf : m.WellFormed) (inserted : Inserted m m' slot d v)
    (d' : D) : m'.getBy d' = Function.update m.getBy d (some v) d' := by
  apply Option.ext
  intro w
  rw [getBy_iff inserted.wellFormed]
  by_cases same : d' = d
  · subst same
    rw [Function.update_self, Option.some.injEq]
    constructor
    · rintro ⟨slot', here'⟩
      have at_slot := Holds.slot_inj inserted.wellFormed here' inserted.here
      subst at_slot
      exact (inserted.here.inj here').2
    · rintro rfl
      exact ⟨slot, inserted.here⟩
  · rw [Function.update_of_ne same, getBy_iff wf]
    exact inserted.others d' w same

/-- The map has the entry of the discriminant, which is `v`. -/
structure Obtained (m m' : FullMap D V) (slot : Nat) (d : D) (v : V) : Prop where
  wellFormed : m'.WellFormed
  layout : m'.layout = m.layout
  supports : ∀ d', m'.Supports d' ↔ m.Supports d'
  here : m'.Holds slot d v
  getBy : m'.getBy = Function.update m.getBy d (some v)
  moved : ∀ slot' d' v', m.Holds slot' d' v' →
    m'.Holds (slot' + if (m.getBy d).isSome then 0 else m.shift d d') d' v'

theorem getByOrInsert_spec (wf : m.WellFormed) (supports : m.Supports d) (inserter : σ → V × σ)
    (s : σ) : ∃ slot m',
    m.getByOrInsert d inserter s =
      .ok (slot, m', if (m.getBy d).isSome then s else (inserter s).2) ∧
    Obtained m m' slot d ((m.getBy d).getD (inserter s).1) := by
  cases found : m.getBy d with
  | some v =>
    obtain ⟨slot, here⟩ := (getBy_iff wf).mp found
    refine ⟨slot, m, getByOrInsert_found wf here inserter s, wf, rfl, fun _ => Iff.rfl, here, ?_, ?_⟩
    · rw [Option.getD_some, ← found, Function.update_eq_self]
    · intro slot' d' v' here'
      rw [found]
      exact here'
  | none =>
    have missing := (getBy_eq_none_iff wf).mp found
    obtain ⟨slot, m', run, inserted⟩ := getByOrInsert_missing wf supports missing inserter s
    refine ⟨slot, m', run, inserted.wellFormed, inserted.layout, inserted.supports, inserted.here,
      funext (inserted.getBy wf), ?_⟩
    rw [found]
    exact inserted.moved

theorem Built.represents {p : D → Option V} (built : Built m p) : m.WellFormed ∧ m.getBy = p := by
  induction built with
  | @fromIter _ entries ty m p distinct accepts entry run =>
    obtain ⟨m', run', wf, entries⟩ := fromIter_returns distinct accepts
    cases run.symm.trans run'
    refine ⟨wf, funext fun d => Option.ext fun v => ?_⟩
    rw [getBy_iff wf, entries, entry]
  | @write _ m p d slot v _ found ih =>
    obtain ⟨wf, rfl⟩ := ih
    obtain ⟨old, here⟩ := (getMutBy_iff wf).mp found
    exact ⟨write_wellFormed wf here, funext (getBy_write wf here)⟩
  | @insert _ _ m m' p d inserter s s' slot _ supports run ih =>
    obtain ⟨wf, rfl⟩ := ih
    obtain ⟨slot', m'', run', obtained⟩ := getByOrInsert_spec wf supports inserter s
    cases run.symm.trans run'
    exact ⟨obtained.wellFormed, obtained.getBy⟩
  | @mapRef _ _ m p f _ ih =>
    obtain ⟨wf, rfl⟩ := ih
    exact ⟨mapRef_wellFormed wf f, funext (getBy_mapRef wf f)⟩

theorem getMutBy_valueAt (wf : m.WellFormed) (d : D) :
    (m.getMutBy d).map m.valueAt = (m.getBy d).map some := by
  cases found : m.getBy d with
  | some v =>
    obtain ⟨slot, here⟩ := (getBy_iff wf).mp found
    rw [(getMutBy_iff wf).mpr ⟨v, here⟩, Option.map_some, Option.map_some,
      (valueAt_iff wf).mpr ⟨d, here⟩]
  | none =>
    have missing := (getBy_eq_none_iff wf).mp found
    have absent : m.getMutBy d = none := by
      rw [Option.eq_none_iff_forall_ne_some]
      intro slot placed
      obtain ⟨v, here⟩ := (getMutBy_iff wf).mp placed
      exact missing slot v here
    rw [absent, Option.map_none, Option.map_none]

theorem answers (wf : m.WellFormed) : Answers m m.getBy := by
  constructor
  case getBy => exact fun _ => rfl
  case getMutBy => exact getMutBy_valueAt wf
  case getByOrInsert =>
    intro d supports σ inserter s
    obtain ⟨slot, m', run, obtained⟩ := getByOrInsert_spec wf supports inserter s
    exact ⟨slot, m', run, (valueAt_iff obtained.wellFormed).mpr ⟨d, obtained.here⟩⟩
  case ascending =>
    rintro map rfl
    exact wf

/-- **The maps are interchangeable.** Every map that its operations can make
answers as the partial map that it stands for, and it iterates as that one does
exactly when each slot is that of a discriminant. -/
theorem maps_agree : (∀ (V : Type) (entries : List (D × V)) (ty : MapType),
      (entries.map (·.1)).Nodup → Accepts entries ty → ∃ m, fromIter entries ty = .ok m) ∧
    ∀ (V : Type) (m : FullMap D V) (p : D → Option V), Built m p →
      Answers m p ∧ (Agrees m p ↔ m.Dense) := by
  constructor
  · intro V entries ty distinct accepts
    obtain ⟨m, run, -⟩ := fromIter_returns distinct accepts
    exact ⟨m, run⟩
  · intro V m p built
    obtain ⟨wf, rfl⟩ := built.represents
    refine ⟨answers wf, fun agrees => (yields_iff wf).mp agrees.yields, fun dense => ?_⟩
    exact ⟨answers wf, (yields_iff wf).mpr dense⟩

/-- Two discriminants with an integer between them that is not one. -/
inductive Gap where
  | low
  | high
  deriving DecidableEq

instance : Discrim Gap where
  intoUsize
    | .low => 0
    | .high => 2
  fromUsize
    | 0 => some .low
    | 2 => some .high
    | _ => none
  inverse u d := by
    match u with
    | 0 | 1 | 2 => cases d <;> decide
    | u + 3 => cases d <;> simp
  small d := by cases d <;> decide

/-- Three discriminants whose integers have no gap. -/
inductive Layer where
  | ground
  | wall
  | roof
  deriving DecidableEq

instance : Discrim Layer where
  intoUsize
    | .ground => 0
    | .wall => 1
    | .roof => 2
  fromUsize
    | 0 => some .ground
    | 1 => some .wall
    | 2 => some .roof
    | _ => none
  inverse u d := by
    match u with
    | 0 | 1 | 2 => cases d <;> decide
    | u + 3 => cases d <;> simp
  small d := by cases d <;> decide

/-- A map of two entries, to which a third one is added before one is written. -/
theorem maps_agree_insert :
    (∃ m, fromIter [(Layer.roof, 7), (.ground, 5)] (.bounded 1) = .ok m) ∧
    Agrees (.bounded ⟨[some 6, some 8, some 7]⟩ : FullMap Layer Nat)
      fun d => if d = .ground then some 6 else if d = .wall then some 8 else some 7 := by
  refine ⟨maps_agree.1 Nat _ _ (by decide) trivial, ?_⟩
  have start : Built (.bounded ⟨[some 5, none, some 7]⟩ : FullMap Layer Nat)
      fun d => if d = .ground then some 5 else if d = .wall then none else some 7 := by
    refine @Built.fromIter Layer _ _ Nat [(.roof, 7), (.ground, 5)] (.bounded 1) _ _ (by decide)
      trivial ?_ rfl
    intro d v
    cases d <;> simp [eq_comm]
  have inserted : (.bounded ⟨[some 5, none, some 7]⟩ : FullMap Layer Nat).getByOrInsert .wall
      (fun s => (s, s + 1)) 8 = .ok (1, .bounded ⟨[some 5, some 8, some 7]⟩, 9) := rfl
  have found : (.bounded ⟨[some 5, some 8, some 7]⟩ : FullMap Layer Nat).getMutBy .ground = some 0 :=
    rfl
  have built := (start.insert trivial inserted).write 6 found
  have dense : (.bounded ⟨[some 6, some 8, some 7]⟩ : FullMap Layer Nat).Dense := by
    intro index inside
    obtain rfl | rfl | rfl : index = 0 ∨ index = 1 ∨ index = 2 := by
      simp only [List.length_cons, List.length_nil] at inside
      omega
    · exact ⟨.ground, rfl⟩
    · exact ⟨.wall, rfl⟩
    · exact ⟨.roof, rfl⟩
  have agrees : Agrees (.bounded ⟨[some 6, some 8, some 7]⟩ : FullMap Layer Nat) _ :=
    (maps_agree.2 Nat _ _ built).2.mpr dense
  convert agrees using 1
  funext d
  cases d <;> rfl

theorem maps_agree_gap : Built (.bounded ⟨[none, none, some 7]⟩ : FullMap Gap Nat)
      (fun d => if d = .high then some 7 else none) ∧
    ¬ Agrees (.bounded ⟨[none, none, some 7]⟩ : FullMap Gap Nat)
      (fun d => if d = .high then some 7 else none) := by
  constructor
  · refine @Built.fromIter Gap _ _ Nat [(.high, 7)] (.bounded 1) _ _ (by decide) trivial ?_ rfl
    intro d v
    cases d <;> simp [eq_comm]
  · intro agrees
    obtain ⟨items, run, -⟩ := agrees.yields.iterMapped
    cases run

end FullMap

end Dynec.Comp
