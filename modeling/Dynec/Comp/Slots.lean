import Dynec.Comp.Discrim

/-!
# Disjoint mutable references

`split_mut_array` returns if and only if the keys are distinct, each of them has a value,
and no two results point to the same place. Each value is then visited once.
-/

namespace Dynec.Comp

open Fallible

theorem exists_forall₂ {α β : Type} {R : α → β → Prop} {l : List α} (each : ∀ a ∈ l, ∃ b, R a b) :
    ∃ bs, List.Forall₂ R l bs := by
  induction l with
  | nil => exact ⟨[], .nil⟩
  | cons a l ih =>
    obtain ⟨⟨b, first⟩, later⟩ := List.forall_mem_cons.mp each
    obtain ⟨bs, rest⟩ := ih later
    exact ⟨b :: bs, .cons first rest⟩

/-- No two results point to the same place. -/
def Apart {U P : Type} (asPtr : U → P) (result : Nat → Option U) (slots : List Nat) : Prop :=
  slots.Pairwise fun slot slot' => ∀ u u', result slot = some u → result slot' = some u' →
    asPtr u ≠ asPtr u'

theorem apart_iff {U P : Type} {asPtr : U → P} {result : Nat → Option U} {slots : List Nat} :
    Apart asPtr result slots ↔ ∀ (i j slot slot' : Nat) u u', i < j → slots[i]? = some slot →
      slots[j]? = some slot' → result slot = some u → result slot' = some u' →
      asPtr u ≠ asPtr u' := by
  rw [Apart, List.pairwise_iff_getElem]
  constructor
  · intro apart i j slot slot' u u' before at_i at_j
    obtain ⟨inside, rfl⟩ := List.getElem?_eq_some_iff.mp at_i
    obtain ⟨inside', rfl⟩ := List.getElem?_eq_some_iff.mp at_j
    exact apart i j inside inside' before u u'
  · intro apart i j inside inside' before u u'
    exact apart i j _ _ u u' before (List.getElem?_eq_getElem inside)
      (List.getElem?_eq_getElem inside')

section Split

variable {C T U P : Type} [DecidableEq P] {getter : C → Nat → Except Panic (Option T)}
  {put : C → Nat → T → C} {look : C → Nat → Option T}
  {transform : Nat → Nat → T → Except Panic (U × T)} {onMissing : Nat → Panic} {asPtr : U → P}

/-- The callback is given the value of the key at the given position of the array. -/
def Visited (look : C → Nat → Option T) (transform : Nat → Nat → T → Except Panic (U × T)) (c : C)
    (e : Nat × Nat) (r : U × T) : Prop :=
  ∃ old, look c e.1 = some old ∧ transform e.2 e.1 old = .ok r

/-- The container with the new values of the slots. -/
def puts (put : C → Nat → T → C) (c : C) (keys : List Nat) (rs : List (U × T)) : C :=
  (keys.zip rs).foldl (fun c e => put c e.1 e.2.2) c

variable (sees : ∀ c k old, getter c k = .ok (some old) ↔ look c k = some old)
  (writes : ∀ c k t k', look c k ≠ none →
    look (put c k t) k' = if k' = k then some t else look c k')

include sees in
/-- One round of the loop. -/
theorem splitLoop_cons {key : Nat} {rest past : List Nat} {array out : List U} {c c' : C} :
    splitLoop getter put transform onMissing asPtr (key :: rest) past array c = .ok (out, c') ↔
    key ∉ past ∧ ∃ r, Visited look transform c (key, past.length) r ∧
      asPtr r.1 ∉ array.map asPtr ∧
      splitLoop getter put transform onMissing asPtr rest (past ++ [key]) (array ++ [r.1])
        (put c key r.2) = .ok (out, c') := by
  rw [splitLoop]
  by_cases again : key ∈ past
  · simp [again]
  rw [if_neg again]
  constructor
  · intro run
    obtain ⟨found, get, run⟩ := bind_eq_ok.mp run
    cases found with
    | none => cases run
    | some old =>
      obtain ⟨⟨value, new⟩, visit, run⟩ := bind_eq_ok.mp run
      simp only at run
      split at run
      · cases run
      · rename_i fresh
        exact ⟨again, (value, new), ⟨old, (sees c key old).mp get, visit⟩, fresh, run⟩
  · rintro ⟨-, r, ⟨old, found, visit⟩, fresh, run⟩
    rw [(sees c key old).mpr found, ok_bind]
    simp only [visit, ok_bind]
    rw [if_neg fresh, run]

include writes in
theorem visited_put {key : Nat} {t : T} {c : C} {rest : List Nat} {n : Nat} {rs : List (U × T)}
    (found : look c key ≠ none) (fresh : key ∉ rest) :
    List.Forall₂ (Visited look transform (put c key t)) (rest.zipIdx n) rs ↔
      List.Forall₂ (Visited look transform c) (rest.zipIdx n) rs := by
  have same : ∀ e ∈ rest.zipIdx n, ∀ r, Visited look transform (put c key t) e r ↔
      Visited look transform c e r := by
    intro e member r
    have other : e.1 ≠ key := by
      rintro rfl
      exact fresh (List.fst_mem_of_mem_zipIdx member)
    rw [Visited, Visited, writes c key t e.1 found, if_neg other]
  generalize rest.zipIdx n = items at same ⊢
  induction items generalizing rs with
  | nil => simp
  | cons e items ih =>
    obtain ⟨here, later⟩ := List.forall_mem_cons.mp same
    cases rs with
    | nil => simp
    | cons r rs =>
      rw [List.forall₂_cons, List.forall₂_cons]
      exact and_congr (here r) (ih later)

include sees writes in
theorem splitLoop_ok_iff {keys past : List Nat} {array out : List U} {c c' : C} :
    splitLoop getter put transform onMissing asPtr keys past array c = .ok (out, c') ↔
    keys.Nodup ∧ (∀ k ∈ keys, k ∉ past) ∧ ∃ rs,
      List.Forall₂ (Visited look transform c) (keys.zipIdx past.length) rs ∧
      (rs.map fun r => asPtr r.1).Nodup ∧ (∀ r ∈ rs, asPtr r.1 ∉ array.map asPtr) ∧
      out = array ++ rs.map (·.1) ∧ c' = puts put c keys rs := by
  induction keys generalizing past array c with
  | nil =>
    simp only [splitLoop, Except.ok.injEq, Prod.mk.injEq, List.nodup_nil, List.zipIdx_nil,
      List.not_mem_nil, false_implies, implies_true, true_and]
    constructor
    · rintro ⟨rfl, rfl⟩
      exact ⟨[], .nil, by simp [puts]⟩
    · rintro ⟨rs, visited, -, -, rfl, rfl⟩
      cases visited
      simp
  | cons key rest ih =>
    rw [splitLoop_cons sees]
    simp only [ih, List.nodup_cons, List.forall_mem_cons, List.zipIdx_cons]
    constructor
    · rintro ⟨fresh, r, visit, apart, nodup, outside, rs, visited, distinct, others, rfl, rfl⟩
      have once : key ∉ rest := fun again => outside key again (by simp)
      have found : look c key ≠ none := by
        obtain ⟨old, found, -⟩ := visit
        rw [found]
        simp
      rw [List.length_append, List.length_singleton, visited_put writes found once] at visited
      refine ⟨⟨once, nodup⟩, ⟨fresh, fun k member => ?_⟩, r :: rs, .cons visit visited, ?_, ?_, ?_, rfl⟩
      · exact fun again => outside k member (List.mem_append_left _ again)
      · rw [List.map_cons, List.nodup_cons]
        refine ⟨fun again => ?_, distinct⟩
        obtain ⟨r', member, same⟩ := List.mem_map.mp again
        exact others r' member (by rw [same]; simp)
      · refine List.forall_mem_cons.mpr ⟨apart, fun r' member again => ?_⟩
        exact others r' member (by rw [List.map_append]; exact List.mem_append_left _ again)
      · simp
    · rintro ⟨⟨once, nodup⟩, ⟨fresh, outside⟩, rs, visited, distinct, others, rfl, rfl⟩
      cases visited with
      | @cons _ r _ rs visit visited =>
        rw [List.map_cons, List.nodup_cons] at distinct
        obtain ⟨apart, others⟩ := List.forall_mem_cons.mp others
        obtain ⟨old, found, run⟩ := visit
        refine ⟨fresh, r, ⟨old, found, run⟩, apart, nodup, fun k member => ?_, rs, ?_, distinct.2,
          fun r' member => ?_, ?_, rfl⟩
        · rw [List.mem_append, List.mem_singleton]
          rintro (again | rfl)
          · exact outside k member again
          · exact once member
        · rw [List.length_append, List.length_singleton,
            visited_put writes (by rw [found]; simp) once]
          exact visited
        · rw [List.map_append, List.mem_append]
          rintro (again | again)
          · exact others r' member again
          · simp only [List.map_cons, List.map_nil, List.mem_singleton] at again
            exact distinct.1 (List.mem_map.mpr ⟨r', member, again⟩)
        · simp

include sees writes in
theorem splitMutArray_ok_iff {keys : List Nat} {out : List U} {c c' : C} :
    splitMutArray c getter put keys transform onMissing asPtr = .ok (out, c') ↔
    keys.Nodup ∧ ∃ rs, List.Forall₂ (Visited look transform c) keys.zipIdx rs ∧
      (rs.map fun r => asPtr r.1).Nodup ∧ out = rs.map (·.1) ∧ c' = puts put c keys rs := by
  rw [splitMutArray, splitLoop_ok_iff sees writes]
  simp

include writes in
/-- A slot that was not visited is as it was. -/
theorem look_puts_of_notMem {keys : List Nat} {n : Nat} {rs : List (U × T)} {c : C}
    (visited : List.Forall₂ (Visited look transform c) (keys.zipIdx n) rs) (nodup : keys.Nodup)
    {k : Nat} (outside : k ∉ keys) : look (puts put c keys rs) k = look c k := by
  induction keys generalizing n rs c with
  | nil => rfl
  | cons key rest ih =>
    obtain ⟨once, nodup⟩ := List.nodup_cons.mp nodup
    rw [List.mem_cons, not_or] at outside
    cases visited with
    | @cons _ r _ rs visit visited =>
      obtain ⟨old, found, -⟩ := visit
      have occupied : look c key ≠ none := by
        rw [found]
        simp
      have later := ih ((visited_put (t := r.2) writes occupied once).mpr visited) nodup outside.2
      rw [writes c key r.2 k occupied, if_neg outside.1] at later
      exact later

include writes in
/-- A slot that was visited has its new value. -/
theorem look_puts {keys : List Nat} {n : Nat} {rs : List (U × T)} {c : C}
    (visited : List.Forall₂ (Visited look transform c) (keys.zipIdx n) rs) (nodup : keys.Nodup)
    {i k : Nat} (at_i : keys[i]? = some k) :
    ∃ old r, look c k = some old ∧ transform (n + i) k old = .ok r ∧ rs[i]? = some r ∧
      look (puts put c keys rs) k = some r.2 := by
  induction keys generalizing n rs c i with
  | nil => simp at at_i
  | cons key rest ih =>
    obtain ⟨once, nodup⟩ := List.nodup_cons.mp nodup
    cases visited with
    | @cons _ r _ rs visit visited =>
      obtain ⟨old, found, run⟩ := visit
      have occupied : look c key ≠ none := by
        rw [found]
        simp
      have visited' := (visited_put (t := r.2) writes occupied once).mpr visited
      cases i with
      | zero =>
        simp only [List.getElem?_cons_zero, Option.some.injEq] at at_i
        subst at_i
        refine ⟨old, r, found, run, rfl, ?_⟩
        have later := look_puts_of_notMem writes visited' nodup once
        rw [writes c key r.2 key occupied, if_pos rfl] at later
        exact later
      | succ i =>
        rw [List.getElem?_cons_succ] at at_i
        obtain ⟨old', r', found', run', at_rs, last⟩ := ih visited' nodup at_i
        have other : k ≠ key := by
          rintro rfl
          exact once (List.mem_of_getElem? at_i)
        rw [writes c key r.2 k occupied, if_neg other] at found'
        rw [Nat.add_assoc, Nat.add_comm 1] at run'
        exact ⟨old', r', found', run', at_rs, last⟩

/-- What `split_mut_array` has done when it returns. -/
structure Parted (look : C → Nat → Option T) (transform : Nat → Nat → T → Except Panic (U × T))
    (asPtr : U → P) (keys : List Nat) (c c' : C) (out : List U) : Prop where
  once : keys.Nodup
  filled : out.length = keys.length
  given : ∀ i k, keys[i]? = some k → ∃ old r, look c k = some old ∧ transform i k old = .ok r ∧
    out[i]? = some r.1 ∧ look c' k = some r.2
  kept : ∀ k, k ∉ keys → look c' k = look c k
  apart : (out.map asPtr).Nodup

include sees writes in
theorem splitMutArray_parted {keys : List Nat} {out : List U} {c c' : C}
    (run : splitMutArray c getter put keys transform onMissing asPtr = .ok (out, c')) :
    Parted look transform asPtr keys c c' out := by
  obtain ⟨once, rs, visited, apart, rfl, rfl⟩ := (splitMutArray_ok_iff sees writes).mp run
  constructor
  case once => exact once
  case filled =>
    have same := visited.length_eq
    rw [List.length_zipIdx] at same
    rw [List.length_map, same]
  case given =>
    intro i k at_i
    obtain ⟨old, r, found, run, at_rs, last⟩ := look_puts writes visited once at_i
    rw [Nat.zero_add] at run
    exact ⟨old, r, found, run, by rw [List.getElem?_map, at_rs]; rfl, last⟩
  case kept =>
    intro k outside
    exact look_puts_of_notMem writes visited once outside
  case apart =>
    rw [List.map_map]
    exact apart

include sees writes in
theorem splitMutArray_returns {keys : List Nat} {c : C} (once : keys.Nodup)
    (each : ∀ i k, keys[i]? = some k → ∃ old r, look c k = some old ∧ transform i k old = .ok r)
    (apart : ∀ i j k k' old old' r r', i < j → keys[i]? = some k → keys[j]? = some k' →
      look c k = some old → look c k' = some old' → transform i k old = .ok r →
      transform j k' old' = .ok r' → asPtr r.1 ≠ asPtr r'.1) :
    ∃ out c', splitMutArray c getter put keys transform onMissing asPtr = .ok (out, c') := by
  have each' : ∀ e ∈ keys.zipIdx, ∃ r, Visited look transform c e r := by
    intro e member
    obtain ⟨old, r, found, run⟩ := each e.2 e.1 (List.mem_zipIdx_iff_getElem?.mp member)
    exact ⟨r, old, found, run⟩
  obtain ⟨rs, visited⟩ := exists_forall₂ each'
  have spread : ∀ i r, rs[i]? = some r → ∃ k old, keys[i]? = some k ∧ look c k = some old ∧
      transform i k old = .ok r := by
    intro i r at_i
    obtain ⟨inside, rfl⟩ := List.getElem?_eq_some_iff.mp at_i
    obtain ⟨same, visits⟩ := List.forall₂_iff_get.mp visited
    rw [List.length_zipIdx] at same
    obtain ⟨old, found, run⟩ := visits i (by rw [List.length_zipIdx, same]; exact inside) inside
    simp only [List.get_eq_getElem, List.getElem_zipIdx, Nat.zero_add] at found run
    exact ⟨keys[i], old, List.getElem?_eq_getElem _, found, run⟩
  have distinct : (rs.map fun r => asPtr r.1).Nodup := by
    rw [List.nodup_iff_getElem?_ne_getElem?]
    intro i j before inside
    rw [List.length_map] at inside
    obtain ⟨k, old, at_k, found, run⟩ := spread i rs[i] (List.getElem?_eq_getElem (by omega))
    obtain ⟨k', old', at_k', found', run'⟩ := spread j rs[j] (List.getElem?_eq_getElem inside)
    have := apart i j k k' old old' _ _ before at_k at_k' found found' run run'
    rw [List.getElem?_map, List.getElem?_map, List.getElem?_eq_getElem (by omega),
      List.getElem?_eq_getElem inside]
    simpa using this
  exact ⟨_, _, (splitMutArray_ok_iff sees writes).mpr ⟨once, rs, visited, distinct, rfl, rfl⟩⟩

include sees writes in
/-- When `split_mut_array` returns, where the callback always does and is not told the
position. -/
theorem splitMutArray_exactly {call : Nat → T → U × T}
    (calls : ∀ i k old, transform i k old = .ok (call k old)) {keys : List Nat} {c : C} :
    Exactly (keys.Nodup ∧ (∀ k ∈ keys, look c k ≠ none) ∧
        Apart asPtr (fun k => (look c k).map fun old => (call k old).1) keys)
      (splitMutArray c getter put keys transform onMissing asPtr)
      fun r => Parted look transform asPtr keys c r.2 r.1 := by
  constructor
  · rintro ⟨once, found, apart⟩
    rw [apart_iff] at apart
    have returns : ∃ out c', splitMutArray c getter put keys transform onMissing asPtr =
        .ok (out, c') := by
      refine splitMutArray_returns sees writes once ?_ ?_
      · intro i k at_i
        obtain ⟨old, here⟩ := Option.ne_none_iff_exists'.mp (found k (List.mem_of_getElem? at_i))
        exact ⟨old, _, here, calls i k old⟩
      · intro i j k k' old old' r r' before at_i at_j here here' run run'
        rw [calls] at run run'
        cases run
        cases run'
        exact apart i j k k' _ _ before at_i at_j (by rw [here]; rfl) (by rw [here']; rfl)
    obtain ⟨out, c', run⟩ := returns
    exact ⟨(out, c'), run, splitMutArray_parted sees writes run⟩
  · intro fails
    cases run : splitMutArray c getter put keys transform onMissing asPtr with
    | error e => exact ⟨e, rfl⟩
    | ok r =>
      have parted := splitMutArray_parted sees writes run
      refine absurd ⟨parted.once, fun k member => ?_, apart_iff.mpr ?_⟩ fails
      · obtain ⟨i, at_i⟩ := List.mem_iff_getElem?.mp member
        obtain ⟨old, _, here, -⟩ := parted.given i k at_i
        rw [here]
        simp
      · intro i j k k' u u' before at_i at_j result result'
        obtain ⟨old, r₁, here, called, at_out, -⟩ := parted.given i k at_i
        obtain ⟨old', r₂, here', called', at_out', -⟩ := parted.given j k' at_j
        rw [calls] at called called'
        cases called
        cases called'
        rw [here] at result
        rw [here'] at result'
        cases result
        cases result'
        have distinct := List.nodup_iff_getElem?_ne_getElem?.mp parted.apart i j before (by
          rw [List.length_map, parted.filled]
          exact (List.getElem?_eq_some_iff.mp at_j).1)
        rw [List.getElem?_map, List.getElem?_map, at_out, at_out'] at distinct
        simpa using distinct

include sees writes in
/-- Callbacks that only look leave the container as it is. -/
theorem splitMutArray_same {keys : List Nat} {out : List U} {c c' : C}
    (looks : ∀ i k old r, transform i k old = .ok r → r.2 = old)
    (puts_old : ∀ c k old, look c k = some old → put c k old = c)
    (run : splitMutArray c getter put keys transform onMissing asPtr = .ok (out, c')) : c' = c := by
  obtain ⟨-, rs, visited, -, -, rfl⟩ := (splitMutArray_ok_iff sees writes).mp run
  clear run
  generalize 0 = n at visited
  induction keys generalizing n rs with
  | nil => rfl
  | cons key rest ih =>
    cases visited with
    | @cons _ r _ rs visit visited =>
      obtain ⟨old, found, called⟩ := visit
      have same := looks n key old r called
      have next : put c key r.2 = c := by
        rw [same]
        exact puts_old c key old found
      rw [puts, List.zip_cons_cons, List.foldl_cons, next]
      exact ih rs (n + 1) visited

end Split

/-! ## Slots that may be empty -/

section Occupied

variable {V U : Type} {slots : List (Option V)} {i j : Nat} {v : V}

theorem occupied_eq_some : occupied slots i = some v ↔ slots[i]? = some (some v) := by
  rw [occupied, Option.join_eq_some_iff]

theorem lt_of_occupied (found : occupied slots i = some v) : i < slots.length := by
  rw [occupied_eq_some] at found
  exact (List.getElem?_eq_some_iff.mp found).1

theorem occupied_set (inside : i < slots.length) :
    occupied (slots.set i (some v)) j = if j = i then some v else occupied slots j := by
  rw [occupied, List.getElem?_set, occupied]
  by_cases here : i = j
  · subst here
    rw [if_pos rfl, if_pos inside, if_pos rfl]
    rfl
  · rw [if_neg here, if_neg (Ne.symm here)]

@[simp] theorem occupied_grow (n : Nat) :
    occupied (slots ++ List.replicate n none) i = occupied slots i := by
  rw [occupied, occupied, List.getElem?_append]
  split
  · rfl
  · rename_i outside
    rw [List.getElem?_replicate, List.getElem?_eq_none (l := slots) (by omega)]
    split <;> rfl

@[simp] theorem occupied_map (f : V → U) :
    occupied (slots.map (Option.map f)) i = (occupied slots i).map f := by
  rw [occupied, occupied, List.getElem?_map]
  cases slots[i]? with
  | none => rfl
  | some value => rfl

@[simp] theorem occupied_empty (n : Nat) : occupied (List.replicate n (none : Option V)) i = none := by
  rw [occupied, List.getElem?_replicate]
  split <;> rfl

end Occupied

end Dynec.Comp
