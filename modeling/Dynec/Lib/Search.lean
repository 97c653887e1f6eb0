import Mathlib.Data.List.Nodup
import Mathlib.Data.List.InsertIdx

/-!
# Search in a list of entries

Linear search finds the entry with the key where the keys are distinct. In an ascending
list the number of smaller keys is the index of the key, or where it is to be inserted.
-/

namespace Search

variable {α β : Type*}

/-! ## Distinct keys -/

section Linear

variable {l : List (α × β)} (distinct : (l.map (·.1)).Nodup)

include distinct in
theorem index_inj {i j : Nat} {a : α} {b b' : β} (at_i : l[i]? = some (a, b))
    (at_j : l[j]? = some (a, b')) : i = j := by
  obtain ⟨inside, -⟩ := List.getElem?_eq_some_iff.mp at_i
  refine (List.getElem?_inj (l := l.map (·.1)) ?_ distinct).mp ?_
  · rw [List.length_map]
    exact inside
  · rw [List.getElem?_map, List.getElem?_map, at_i, at_j]
    rfl

include distinct in
theorem value_inj {a : α} {b b' : β} (member : (a, b) ∈ l) (member' : (a, b') ∈ l) : b = b' := by
  obtain ⟨i, at_i⟩ := List.mem_iff_getElem?.mp member
  obtain ⟨j, at_j⟩ := List.mem_iff_getElem?.mp member'
  have same := index_inj distinct at_i at_j
  subst same
  rw [at_i] at at_j
  cases at_j
  rfl

variable [DecidableEq α]

include distinct in
theorem findIdx?_eq_some_iff {a : α} {i : Nat} :
    (l.findIdx? fun e => e.1 = a) = some i ↔ ∃ b, l[i]? = some (a, b) := by
  rw [List.findIdx?_eq_some_iff_getElem]
  constructor
  · rintro ⟨inside, here, -⟩
    refine ⟨l[i].2, ?_⟩
    rw [List.getElem?_eq_getElem inside, ← of_decide_eq_true here]
  · rintro ⟨b, at_i⟩
    obtain ⟨inside, here⟩ := List.getElem?_eq_some_iff.mp at_i
    refine ⟨inside, by simp [here], fun j before again => ?_⟩
    have at_j : l[j]? = some (a, l[j].2) := by
      rw [List.getElem?_eq_getElem (by omega), ← of_decide_eq_true again]
    have same := index_inj distinct at_i at_j
    omega

include distinct in
theorem find?_eq_some_iff {a : α} {b : β} :
    (l.find? fun e => e.1 = a).map (·.2) = some b ↔ (a, b) ∈ l := by
  constructor
  · intro found
    obtain ⟨e, first, rfl⟩ := Option.map_eq_some_iff.mp found
    have here : e.1 = a := by simpa using List.find?_some first
    rw [← here]
    exact List.mem_of_find?_eq_some first
  · intro member
    cases found : l.find? fun e => e.1 = a with
    | none =>
      have missing := List.find?_eq_none.mp found (a, b) member
      simp at missing
    | some e =>
      have here : e.1 = a := by simpa using List.find?_some found
      have member' : (a, e.2) ∈ l := by
        rw [← here]
        exact List.mem_of_find?_eq_some found
      rw [Option.map_some, value_inj distinct member member']

end Linear

/-! ## Ascending keys -/

section Binary

variable {f : α → Nat} {l : List α} (sorted : l.Pairwise fun a b => f a < f b)

include sorted in
/-- The smaller ones come first. -/
theorem split_at (k : Nat) : ∃ below above, l = below ++ above ∧
    l.countP (fun a => f a < k) = below.length ∧ (∀ a ∈ below, f a < k) ∧ ∀ a ∈ above, k ≤ f a := by
  induction l with
  | nil => exact ⟨[], [], rfl, rfl, nofun, nofun⟩
  | cons a l ih =>
    obtain ⟨first, rest⟩ := List.pairwise_cons.mp sorted
    by_cases less : f a < k
    · obtain ⟨below, above, rfl, count, smaller, larger⟩ := ih rest
      refine ⟨a :: below, above, rfl, ?_, List.forall_mem_cons.mpr ⟨less, smaller⟩, larger⟩
      rw [List.countP_cons_of_pos (by simpa using less), count, List.length_cons]
    · have larger : ∀ b ∈ a :: l, k ≤ f b := by
        intro b member
        rcases List.mem_cons.mp member with rfl | later
        · omega
        · have := first b later
          omega
      refine ⟨[], a :: l, rfl, ?_, nofun, larger⟩
      rw [List.length_nil, List.countP_eq_zero]
      intro b member
      have := larger b member
      simp only [decide_eq_true_eq]
      omega

include sorted in
/-- The number of smaller ones is the index. -/
theorem countP_eq {i : Nat} {a : α} (at_i : l[i]? = some a) :
    l.countP (fun b => f b < f a) = i := by
  induction l generalizing i with
  | nil => simp at at_i
  | cons b l ih =>
    obtain ⟨first, rest⟩ := List.pairwise_cons.mp sorted
    cases i with
    | zero =>
      simp only [List.getElem?_cons_zero, Option.some.injEq] at at_i
      subst at_i
      rw [List.countP_eq_zero]
      intro c member
      simp only [decide_eq_true_eq]
      rcases List.mem_cons.mp member with rfl | later
      · omega
      · have := first c later
        omega
    | succ i =>
      rw [List.getElem?_cons_succ] at at_i
      have less := first a (List.mem_of_getElem? at_i)
      rw [List.countP_cons_of_pos (by simpa using less), ih rest at_i]

theorem insertIdx_length_append (below above : List α) (a : α) :
    (below ++ above).insertIdx below.length a = below ++ a :: above := by
  induction below with
  | nil => rfl
  | cons b below ih => simp [ih]

end Binary

end Search
