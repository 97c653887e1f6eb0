import Dynec.Comp.Maps

/-!
# Arrays of mutable references

The methods that give out several references at a time give each position of the array
the slot of its key, and leave all other slots as they are.
-/

namespace Dynec.Comp

open Fallible

variable {D V U P σ : Type}

/-- Each callback was given the value of its slot, and the other slots are as they were. -/
structure Handed (look look' : Nat → Option V) (slots : List Nat)
    (calls : List (Nat → V → U × V)) (out : List U) : Prop where
  filled : out.length = slots.length
  called : calls.length = slots.length
  given : ∀ (i slot : Nat) call, slots[i]? = some slot → calls[i]? = some call → ∃ v,
    look slot = some v ∧ out[i]? = some (call slot v).1 ∧ look' slot = some (call slot v).2
  kept : ∀ slot, slot ∉ slots → look' slot = look slot

/-! ## Pairs -/

section Pairs

variable {vec vec' : List (D × V)} {slots : List Nat}
  {transform : D → Nat → V → U × V} {onMissing : Nat → Panic} {asPtr : U → P} {out : List U}

theorem pairs_sees (l : List (D × V)) (k : Nat) (old : D × V) :
    (.ok l[k]? : Except Panic (Option (D × V))) = .ok (some old) ↔ l[k]? = some old := by
  rw [Except.ok.injEq]

theorem pairs_writes (l : List (D × V)) (k : Nat) (t : D × V) (k' : Nat) (found : l[k]? ≠ none) :
    (l.set k t)[k']? = if k' = k then some t else l[k']? := by
  have inside : k < l.length := by
    by_contra outside
    exact found (List.getElem?_eq_none (by omega))
  rw [List.getElem?_set]
  by_cases here : k = k'
  · subst here
    rw [if_pos rfl, if_pos inside, if_pos rfl]
  · rw [if_neg here, if_neg (Ne.symm here)]

/-- The callback of `split_mut_array` on pairs. -/
def onPair (transform : D → Nat → V → U × V) (slot : Nat) (e : D × V) : U × (D × V) :=
  ((transform e.1 slot e.2).1, (e.1, (transform e.1 slot e.2).2))

theorem Parted.keys_eq
    (parted : Parted (fun (l : List (D × V)) k => l[k]?) (fun _ slot e => .ok (onPair transform slot e))
      asPtr slots vec vec' out) : vec'.map (·.1) = vec.map (·.1) := by
  apply List.ext_getElem?
  intro slot
  rw [List.getElem?_map, List.getElem?_map]
  by_cases member : slot ∈ slots
  · obtain ⟨i, at_i⟩ := List.mem_iff_getElem?.mp member
    obtain ⟨old, r, found, run, -, last⟩ := parted.given i slot at_i
    cases run
    rw [found, last]
    rfl
  · rw [parted.kept slot member]

theorem Parted.handed
    (parted : Parted (fun (l : List (D × V)) k => l[k]?) (fun _ slot e => .ok (onPair transform slot e))
      asPtr slots vec vec' out) {discrims : List D}
    (told : List.Forall₂ (fun slot d => Pairs.getDiscrim vec slot = some d) slots discrims) :
    Handed (Pairs.getBy vec) (Pairs.getBy vec') slots (discrims.map transform) out := by
  constructor
  case filled => exact parted.filled
  case called =>
    rw [List.length_map]
    exact told.length_eq.symm
  case given =>
    intro i slot call at_i at_call
    obtain ⟨old, r, found, run, at_out, last⟩ := parted.given i slot at_i
    cases run
    rw [List.getElem?_map, Option.map_eq_some_iff] at at_call
    obtain ⟨d, at_d, rfl⟩ := at_call
    obtain ⟨inside, rfl⟩ := List.getElem?_eq_some_iff.mp at_i
    obtain ⟨inside', rfl⟩ := List.getElem?_eq_some_iff.mp at_d
    have same := told.get inside inside'
    rw [List.get_eq_getElem, List.get_eq_getElem, Pairs.getDiscrim, found] at same
    have same' : old.1 = discrims[i] := Option.some.inj same
    rw [← same']
    exact ⟨old.2, by rw [Pairs.getBy, found]; rfl, at_out, by rw [Pairs.getBy, last]; rfl⟩
  case kept =>
    intro slot outside
    rw [Pairs.getBy, Pairs.getBy, parted.kept slot outside]

theorem splitPairs_exactly [DecidableEq P] :
    Exactly (slots.Nodup ∧ (∀ slot ∈ slots, slot < vec.length) ∧
        Apart asPtr (fun slot => vec[slot]?.map fun e => (transform e.1 slot e.2).1) slots)
      (splitPairs vec slots transform onMissing asPtr)
      fun r => Parted (fun (l : List (D × V)) k => l[k]?)
        (fun _ slot e => .ok (onPair transform slot e)) asPtr slots vec r.2 r.1 := by
  have whole : Exactly (slots.Nodup ∧ (∀ slot ∈ slots, vec[slot]? ≠ none) ∧
        Apart asPtr (fun slot => vec[slot]?.map fun e => (onPair transform slot e).1) slots)
      (splitPairs vec slots transform onMissing asPtr) _ :=
    splitMutArray_exactly pairs_sees pairs_writes fun _ _ _ => rfl
  refine whole.mono ?_ fun _ parted => parted
  simp only [ne_eq, List.getElem?_eq_none_iff, not_le]
  exact Iff.rfl

end Pairs

/-! ## Slots -/

section Slots

variable {C : Type} {look : C → Nat → Option V} {slots : List Nat} {c c' : C} {out : List U}
  {calls : List (Nat → V → U × V)}

theorem Parted.handed_slots {transform : Nat → Nat → V → Except Panic (U × V)} {asPtr : U → P}
    (parted : Parted look transform asPtr slots c c' out) (called : calls.length = slots.length)
    (each : ∀ i slot v r call, calls[i]? = some call → transform i slot v = .ok r → r = call slot v) :
    Handed (look c) (look c') slots calls out := by
  constructor
  case filled => exact parted.filled
  case called => exact called
  case given =>
    intro i slot call at_i at_call
    obtain ⟨v, r, found, run, at_out, last⟩ := parted.given i slot at_i
    have same := each i slot v r call at_call run
    subst same
    exact ⟨v, found, at_out, last⟩
  case kept => exact parted.kept

/-- No slot is filled or emptied. -/
theorem Handed.isSome_eq {look look' : Nat → Option V} (handed : Handed look look' slots calls out)
    (slot : Nat) : (look' slot).isSome = (look slot).isSome := by
  by_cases member : slot ∈ slots
  · obtain ⟨i, at_i⟩ := List.mem_iff_getElem?.mp member
    obtain ⟨inside, -⟩ := List.getElem?_eq_some_iff.mp at_i
    rw [← handed.called] at inside
    obtain ⟨v, found, -, last⟩ :=
      handed.given i slot calls[i] at_i (List.getElem?_eq_getElem inside)
    rw [found, last]
    rfl
  · rw [handed.kept slot member]

end Slots

/-! ## Keys and their slots -/

section Keys

variable {K : Type} {find : K → Option Nat} {keys : List K} {slots : List Nat}

/-- The slots of the keys. -/
def Placed (find : K → Option Nat) (keys : List K) (slots : List Nat) : Prop :=
  List.Forall₂ (fun k slot => find k = some slot) keys slots

theorem filterMap_of_forall₂ {α β : Type} {f : α → Option β} {l : List α} {l' : List β}
    (all : List.Forall₂ (fun a b => f a = some b) l l') : l.filterMap f = l' := by
  induction all with
  | nil => rfl
  | @cons a b l l' here _ ih => rw [List.filterMap_cons_some here, ih]

theorem Placed.filterMap_eq (placed : Placed find keys slots) : keys.filterMap find = slots :=
  filterMap_of_forall₂ placed

theorem Placed.nodup_iff (placed : Placed find keys slots)
    (apart : ∀ k k' slot, find k = some slot → find k' = some slot → k = k') :
    keys.Nodup ↔ slots.Nodup := by
  refine List.rel_nodup ⟨fun k k' slot => apart k k' slot, fun k slot slot' here here' => ?_⟩ placed
  rw [here] at here'
  exact Option.some.inj here'

theorem placed_exactly (onMissing : K → Panic) :
    Exactly (∀ k ∈ keys, (find k).isSome) (keys.mapM fun k => expect (onMissing k) (find k))
      (Placed find keys) := by
  refine Exactly.mapM (R := Eq) (List.forall₂_same.mpr fun _ _ => rfl) ?_
  rintro k - _ rfl
  cases found : find k with
  | none => exact .error (by simp)
  | some slot => exact .ok rfl rfl

end Keys

/-! ## get_mut_array_by -/

section GetMutArray

variable [Discrim D] [DecidableEq P] {transform : Nat → V → U × V} {asPtr : U → P}

omit [Discrim D] in
theorem searched_exactly {vec : List (D × V)} {find : D → Option Nat}
    (found : ∀ d slot, find d = some slot ↔ ∃ v, vec[slot]? = some (d, v)) {keys : List D}
    (onMissing : D → Panic) (unreachable : Nat → Panic) :
    Exactly (keys.Nodup ∧ (∀ k ∈ keys, (find k).isSome) ∧
        Apart asPtr (fun slot => vec[slot]?.map fun e => (transform slot e.2).1) (keys.filterMap find))
      (do
        let indices ← keys.mapM fun key => expect (onMissing key) (find key)
        splitPairs vec indices (fun _ => transform) unreachable asPtr)
      fun r => ∃ slots, Placed find keys slots ∧ Parted (fun (l : List (D × V)) k => l[k]?)
        (fun _ slot e => .ok (onPair (fun _ => transform) slot e)) asPtr slots vec r.2 r.1 := by
  have apart : ∀ k k' slot, find k = some slot → find k' = some slot → k = k' := by
    intro k k' slot here here'
    obtain ⟨v, at_slot⟩ := (found k slot).mp here
    obtain ⟨v', at_slot'⟩ := (found k' slot).mp here'
    cases at_slot.symm.trans at_slot'
    rfl
  refine ((placed_exactly onMissing).bind fun slots placed => ?_).mono and_left_comm fun _ last => last
  refine splitPairs_exactly.mono ?_ fun r parted => ⟨slots, placed, parted⟩
  rw [placed.filterMap_eq, placed.nodup_iff apart]
  refine and_congr_right fun _ => and_iff_right fun slot member => ?_
  rw [← placed.filterMap_eq, List.mem_filterMap] at member
  obtain ⟨k, -, here⟩ := member
  obtain ⟨v, at_slot⟩ := (found k slot).mp here
  exact (List.getElem?_eq_some_iff.mp at_slot).1

theorem indexed_exactly {C : Type} {look : C → Nat → Option V} {put : C → Nat → V → C}
    (writes : ∀ c k t k', look c k ≠ none →
      look (put c k t) k' = if k' = k then some t else look c k')
    {c : C} {keys : List D} (onMissing : Nat → Panic) :
    Exactly (keys.Nodup ∧ (∀ k ∈ keys, ((look c (Discrim.intoUsize k)).map
          fun _ => Discrim.intoUsize k).isSome) ∧
        Apart asPtr (fun slot => (look c slot).map fun v => (transform slot v).1)
          (keys.filterMap fun k => (look c (Discrim.intoUsize k)).map fun _ => Discrim.intoUsize k))
      (splitMutArray c (fun c index => .ok (look c index)) put (keys.map Discrim.intoUsize)
        (fun _ slot value => .ok (transform slot value)) onMissing asPtr)
      fun r => Parted look (fun _ slot v => .ok (transform slot v)) asPtr
        (keys.map Discrim.intoUsize) c r.2 r.1 := by
  have whole : Exactly ((keys.map Discrim.intoUsize).Nodup ∧
        (∀ slot ∈ keys.map Discrim.intoUsize, look c slot ≠ none) ∧
        Apart asPtr (fun slot => (look c slot).map fun v => (transform slot v).1)
          (keys.map Discrim.intoUsize))
      (splitMutArray c (fun c index => .ok (look c index)) put (keys.map Discrim.intoUsize)
        (fun _ slot value => .ok (transform slot value)) onMissing asPtr) _ :=
    splitMutArray_exactly (fun _ _ _ => by rw [Except.ok.injEq]) writes fun _ _ _ => rfl
  refine whole.mono ?_ fun _ parted => parted
  rw [List.nodup_map_iff fun d d' => intoUsize_inj]
  apply and_congr_right
  intro _
  simp only [List.forall_mem_map, Option.isSome_map, Option.isSome_iff_ne_none]
  apply and_congr_right
  intro present
  have places : (keys.filterMap fun k => (look c (Discrim.intoUsize k)).map fun _ =>
      Discrim.intoUsize k) = keys.map Discrim.intoUsize := by
    rw [← List.filterMap_eq_map]
    apply List.filterMap_congr
    intro k member
    obtain ⟨v, found⟩ := Option.ne_none_iff_exists'.mp (present k member)
    rw [found]
    rfl
  rw [places]

omit [Discrim D] [DecidableEq P] in
theorem slots_writes (slots : List (Option V)) (k : Nat) (t : V) (k' : Nat)
    (found : occupied slots k ≠ none) :
    occupied (slots.set k (some t)) k' = if k' = k then some t else occupied slots k' := by
  obtain ⟨v, found⟩ := Option.ne_none_iff_exists'.mp found
  rw [occupied_set (lt_of_occupied found)]

omit [Discrim D] [DecidableEq P] in
theorem array_writes {N : Nat} (map : ArrayMap D V N) (k : Nat) (t : V) (k' : Nat)
    (found : occupied map.array k ≠ none) :
    occupied (map.set k (some t)).array k' = if k' = k then some t else occupied map.array k' :=
  slots_writes map.array k t k' found

variable [DecidableEq D] {m : FullMap D V}

/-- Each key is given its slot. -/
def FullMap.References (m : FullMap D V) (keys : List D) (transform : Nat → V → U × V)
    (out : List U) (m' : FullMap D V) : Prop :=
  ∃ slots, Placed m.getMutBy keys slots ∧ slots.Nodup ∧ m'.getMutBy = m.getMutBy ∧
    Handed m.valueAt m'.valueAt slots (List.replicate slots.length transform) out

namespace FullMap

omit [DecidableEq P] in
/-- The search looks at the discriminants only. -/
theorem linear_keys {vec vec' : List (D × V)} (same : vec'.map (·.1) = vec.map (·.1)) :
    (linear ⟨vec'⟩).getMutBy = (linear ⟨vec⟩).getMutBy := by
  funext k
  have keyed : ∀ vec : List (D × V), (vec.findIdx? fun e => e.1 = k) =
      (vec.map (·.1)).findIdx? fun d => d = k := by
    intro vec
    rw [List.findIdx?_map]
    rfl
  simp only [getMutBy, LinearVecMap.getMutBy, LinearVecMap.position]
  rw [keyed, same, ← keyed]

omit [DecidableEq P] in
theorem sorted_keys {vec vec' : List (D × V)} (same : vec'.map (·.1) = vec.map (·.1)) :
    (sorted ⟨vec'⟩).getMutBy = (sorted ⟨vec⟩).getMutBy := by
  funext k
  have keyed : ∀ vec : List (D × V), (vec.map fun e => Discrim.intoUsize e.1) =
      (vec.map (·.1)).map Discrim.intoUsize := by
    intro vec
    rw [List.map_map]
    rfl
  simp only [getMutBy, SortedVecMap.getMutBy, SortedVecMap.search]
  rw [keyed, same, ← keyed]

omit [Discrim D] [DecidableEq P] [DecidableEq D] in
theorem map_const_eq {o o' : Option V} (same : o'.isSome = o.isSome) (slot : Nat) :
    o'.map (fun _ => slot) = o.map fun _ => slot := by
  cases o with
  | none =>
    rw [Option.isSome_none, Option.isSome_eq_false_iff, Option.isNone_iff_eq_none] at same
    rw [same]
  | some v =>
    obtain ⟨v', rfl⟩ := Option.isSome_iff_exists.mp same
    rfl

omit [DecidableEq P] in
theorem references_pairs {m' : FullMap D V} {vec vec' : List (D × V)} {keys : List D}
    {slots : List Nat} {out : List U} (wf : m.WellFormed)
    (holds : ∀ slot d v, m.Holds slot d v ↔ vec[slot]? = some (d, v))
    (values : m.valueAt = Pairs.getBy vec) (values' : m'.valueAt = Pairs.getBy vec')
    (searched : vec'.map (·.1) = vec.map (·.1) → m'.getMutBy = m.getMutBy)
    (placed : Placed m.getMutBy keys slots)
    (parted : Parted (fun (l : List (D × V)) k => l[k]?)
      (fun _ slot e => .ok (onPair (fun _ => transform) slot e)) asPtr slots vec vec' out) :
    m.References keys transform out m' := by
  have told : List.Forall₂ (fun slot d => Pairs.getDiscrim vec slot = some d) slots keys := by
    apply placed.flip.imp
    intro slot d here
    obtain ⟨v, here⟩ := (getMutBy_iff wf).mp here
    rw [Pairs.getDiscrim, (holds slot d v).mp here]
    rfl
  have handed := parted.handed told
  rw [List.map_const', placed.length_eq] at handed
  refine ⟨slots, placed, parted.once, searched parted.keys_eq, ?_⟩
  rw [values, values']
  exact handed

omit [DecidableEq P] in
theorem references_slots {m' : FullMap D V} {C : Type} {look : C → Nat → Option V} {c c' : C}
    {keys : List D} {out : List U}
    (parted : Parted look (fun _ slot v => .ok (transform slot v)) asPtr
      (keys.map Discrim.intoUsize) c c' out)
    (values : m.valueAt = look c) (values' : m'.valueAt = look c')
    (found : ∀ k, m.getMutBy k = (look c (Discrim.intoUsize k)).map fun _ => Discrim.intoUsize k)
    (found' : ∀ k, m'.getMutBy k =
      (look c' (Discrim.intoUsize k)).map fun _ => Discrim.intoUsize k) :
    m.References keys transform out m' := by
  have handed : Handed (look c) (look c') (keys.map Discrim.intoUsize)
      (List.replicate (keys.map Discrim.intoUsize).length transform) out := by
    apply parted.handed_slots (List.length_replicate ..)
    intro i slot v r call at_call run
    obtain ⟨-, rfl⟩ := List.mem_replicate.mp (List.mem_of_getElem? at_call)
    cases run
    rfl
  refine ⟨_, ?_, parted.once, funext fun k => ?_, ?_⟩
  · refine List.forall₂_map_right_iff.mpr (List.forall₂_same.mpr fun k member => ?_)
    obtain ⟨i, at_i⟩ := List.mem_iff_getElem?.mp (List.mem_map_of_mem (f := Discrim.intoUsize) member)
    obtain ⟨old, -, here, -⟩ := parted.given i _ at_i
    rw [found, here]
    rfl
  · rw [found, found']
    exact map_const_eq (handed.isSome_eq (Discrim.intoUsize k)) _
  · rw [values, values']
    exact handed

theorem getMutArrayBy_exactly (wf : m.WellFormed) (keys : List D) (onMissing : D → Panic) :
    Exactly (keys.Nodup ∧ (∀ k ∈ keys, (m.getMutBy k).isSome) ∧
        Apart asPtr (fun slot => (m.valueAt slot).map fun v => (transform slot v).1)
          (keys.filterMap m.getMutBy))
      (m.getMutArrayBy keys transform onMissing asPtr)
      fun r => m.References keys transform r.1 r.2 := by
  cases m with
  | linear map =>
    have found : ∀ d slot, map.position d = some slot ↔ ∃ v, map.vec[slot]? = some (d, v) :=
      fun _ _ => getMutBy_iff wf
    have shape : (linear map).getMutArrayBy keys transform onMissing asPtr = (do
        let r ← (do
          let indices ← keys.mapM fun key => expect (onMissing key) (map.position key)
          splitPairs map.vec indices (fun _ => transform) (fun _ => .unreachable) asPtr)
        return (r.1, .linear ⟨r.2⟩)) := by
      simp only [getMutArrayBy, LinearVecMap.getMutArrayBy, map_bind, bind_assoc]
      rfl
    rw [shape]
    refine ((searched_exactly found onMissing _).bind_pure ?_).mono ?_ fun _ last => last
    · rintro r ⟨slots, placed, parted⟩
      exact references_pairs wf (fun _ _ _ => Iff.rfl) rfl rfl linear_keys placed parted
    · simp only [valueAt, Option.map_map]
      exact Iff.rfl
  | sorted map =>
    have found : ∀ d slot, (map.search d).toOption = some slot ↔ ∃ v, map.vec[slot]? = some (d, v) :=
      fun _ _ => getMutBy_iff wf
    have shape : (sorted map).getMutArrayBy keys transform onMissing asPtr = (do
        let r ← (do
          let indices ← keys.mapM fun key => expect (onMissing key) (map.search key).toOption
          splitPairs map.vec indices (fun _ => transform) (fun _ => .unreachable) asPtr)
        return (r.1, .sorted ⟨r.2⟩)) := by
      simp only [getMutArrayBy, SortedVecMap.getMutArrayBy, map_bind, bind_assoc]
      rfl
    rw [shape]
    refine ((searched_exactly found onMissing _).bind_pure ?_).mono ?_ fun _ last => last
    · rintro r ⟨slots, placed, parted⟩
      exact references_pairs wf (fun _ _ _ => Iff.rfl) rfl rfl sorted_keys placed parted
    · simp only [valueAt, Option.map_map]
      exact Iff.rfl
  | bounded map =>
    have shape : (bounded map).getMutArrayBy keys transform onMissing asPtr = (do
        let r ← splitMutArray map.vec (fun vec index => .ok (occupied vec index))
          (fun slots index value => slots.set index (some value)) (keys.map Discrim.intoUsize)
          (fun _ slot value => .ok (transform slot value))
          (fun i => (keys[i]?.map onMissing).getD .unreachable) asPtr
        return (r.1, .bounded ⟨r.2⟩)) := by
      simp only [getMutArrayBy, BoundedVecMap.getMutArrayBy, map_bind]
      rfl
    rw [shape]
    refine ((indexed_exactly slots_writes _).bind_pure ?_).mono Iff.rfl fun _ last => last
    intro r parted
    exact references_slots parted rfl rfl (fun _ => rfl) fun _ => rfl
  | @array N map =>
    have shape : (array map).getMutArrayBy keys transform onMissing asPtr = (do
        let r ← splitMutArray map (fun self index => .ok (occupied self.array index))
          (fun self index value => self.set index (some value)) (keys.map Discrim.intoUsize)
          (fun _ slot value => .ok (transform slot value))
          (fun i => (keys[i]?.map onMissing).getD .unreachable) asPtr
        return (r.1, .array r.2)) := by
      simp only [getMutArrayBy, ArrayMap.getMutArrayBy]
      rfl
    rw [shape]
    refine ((indexed_exactly array_writes _).bind_pure ?_).mono Iff.rfl fun _ last => last
    intro r parted
    exact references_slots parted rfl rfl (fun _ => rfl) fun _ => rfl

end FullMap

omit [Discrim D] [DecidableEq D] in
theorem Pairs.getMutArrayBy_exactly (vec : List (D × V)) (keys : List Nat)
    (onMissing : Nat → Panic) :
    Exactly (keys.Nodup ∧ (∀ k ∈ keys, (getMutBy vec k).isSome) ∧
        Apart asPtr (fun slot => (getBy vec slot).map fun v => (transform slot v).1) keys)
      (getMutArrayBy vec keys transform onMissing asPtr)
      fun r => r.2.map (·.1) = vec.map (·.1) ∧
        Handed (getBy vec) (getBy r.2) keys (List.replicate keys.length transform) r.1 := by
  refine splitPairs_exactly.mono ?_ fun r parted => ⟨parted.keys_eq, ?_⟩
  · have inside : ∀ k, (getMutBy vec k).isSome = true ↔ k < vec.length := by
      intro k
      simp [getMutBy]
    have results : (fun slot => (getBy vec slot).map fun v => (transform slot v).1) =
        fun slot => vec[slot]?.map fun e => (transform slot e.2).1 := by
      funext slot
      rw [getBy, Option.map_map]
      rfl
    simp only [inside, results]
  · have each : ∀ slot ∈ keys, ∃ d, getDiscrim vec slot = some d := by
      intro slot member
      obtain ⟨i, at_i⟩ := List.mem_iff_getElem?.mp member
      obtain ⟨old, -, found, -⟩ := parted.given i slot at_i
      exact ⟨old.1, by rw [getDiscrim, found]; rfl⟩
    obtain ⟨discrims, told⟩ := exists_forall₂ each
    have handed := parted.handed told
    rw [List.map_const', ← told.length_eq] at handed
    exact handed

/-- **References are apart.** For an array of pairs and for every map, the call
returns exactly when the keys are different and known and the references that the
callback makes are different. It then gives each key its own entry. -/
theorem references_apart (transform : Nat → V → U × V) (asPtr : U → P) :
    (∀ (vec : List (D × V)) (keys : List Nat) (onMissing : Nat → Panic),
      Exactly (keys.Nodup ∧ (∀ k ∈ keys, (Pairs.getMutBy vec k).isSome) ∧
          Apart asPtr (fun slot => (Pairs.getBy vec slot).map fun v => (transform slot v).1) keys)
        (Pairs.getMutArrayBy vec keys transform onMissing asPtr)
        fun (out, vec') => vec'.map (·.1) = vec.map (·.1) ∧
          Handed (Pairs.getBy vec) (Pairs.getBy vec') keys (List.replicate keys.length transform) out) ∧
    ∀ m : FullMap D V, m.WellFormed → ∀ (keys : List D) (onMissing : D → Panic),
      Exactly (keys.Nodup ∧ (∀ k ∈ keys, (m.getMutBy k).isSome) ∧
          Apart asPtr (fun slot => (m.valueAt slot).map fun v => (transform slot v).1)
            (keys.filterMap m.getMutBy))
        (m.getMutArrayBy keys transform onMissing asPtr)
        fun (out, m') => ∃ slots, Placed m.getMutBy keys slots ∧ slots.Nodup ∧
          m'.getMutBy = m.getMutBy ∧
          Handed m.valueAt m'.valueAt slots (List.replicate slots.length transform) out :=
  ⟨Pairs.getMutArrayBy_exactly, fun _ wf => FullMap.getMutArrayBy_exactly wf⟩

end GetMutArray

/-- A map of two entries with an empty slot. -/
def twoEntries : FullMap FullMap.Gap Nat := .bounded ⟨[some 5, none, some 6]⟩

theorem twoEntries_wellFormed : twoEntries.WellFormed := by
  intro slot v found
  match slot with
  | 0 => exact ⟨.low, rfl⟩
  | 1 => cases found
  | 2 => exact ⟨.high, rfl⟩
  | _ + 3 => cases found

theorem references_apart_two : ∃ r, twoEntries.getMutArrayBy [.high, .low]
    (fun slot v => (slot, v + 1)) (fun _ => .indexOutOfBounds) id = .ok r := by
  have apart : Apart (P := Nat) id
      (fun slot => (twoEntries.valueAt slot).map fun v => ((slot, v + 1) : Nat × Nat).1) [2, 0] := by
    refine .cons (fun slot member u u' here here' => ?_) (.cons nofun .nil)
    rw [List.mem_singleton] at member
    subst member
    cases here
    cases here'
    decide
  obtain ⟨r, run, -⟩ := ((references_apart (fun slot v => (slot, v + 1)) id).2 twoEntries
    twoEntries_wellFormed [.high, .low] fun _ => .indexOutOfBounds).returns
      ⟨by decide, by decide, apart⟩
  exact ⟨r, run⟩

theorem references_apart_static : Pairs.getMutArrayBy [(FullMap.Gap.low, 5), (.high, 6)] [0, 1]
      (fun _ v => (100, v)) (fun _ => .indexOutOfBounds) id = .error .duplicateKey ∧
    [0, 1].Nodup ∧ ∀ k ∈ [0, 1], (Pairs.getMutBy [(FullMap.Gap.low, 5), (.high, 6)] k).isSome :=
  ⟨rfl, by decide, by decide⟩

end Dynec.Comp
