import Mathlib.Order.Lattice
import Mathlib.Data.List.Nodup

/-!
# Maps kept as ascending lists

A finite map from a linear order, stored as its list of entries in ascending
order of the keys, the way an ordered tree map iterates. Two of them that find
the same value at every key are equal.
-/

structure SortedMap (α β : Type*) [LinearOrder α] where
  entries : List (α × β)
  sorted : entries.Pairwise fun a b => a.1 < b.1

namespace SortedMap

variable {α β : Type*} [LinearOrder α]

def empty : SortedMap α β := ⟨[], .nil⟩

def get (m : SortedMap α β) (k : α) : Option β := (m.entries.find? (·.1 = k)).map Prod.snd

def size (m : SortedMap α β) : Nat := m.entries.length

theorem find?_eq_some {l : List (α × β)} (sorted : l.Pairwise fun a b => a.1 < b.1) {k : α} {v : β} :
    (l.find? (·.1 = k)).map Prod.snd = some v ↔ (k, v) ∈ l := by
  induction l with
  | nil => simp
  | cons e l ih =>
    obtain ⟨less, sorted⟩ := List.pairwise_cons.mp sorted
    rw [List.find?_cons]
    by_cases here : e.1 = k
    · subst here
      simp only [decide_true, Option.map_some, Option.some.injEq, List.mem_cons]
      constructor
      · rintro rfl
        exact .inl rfl
      · rintro (same | later)
        · rw [← same]
        · exact absurd rfl (ne_of_lt (less (e.1, v) later))
    · simp only [here, decide_false, ih sorted, List.mem_cons]
      refine ⟨.inr, fun found => found.resolve_left ?_⟩
      rintro rfl
      exact here rfl

theorem mem_entries {m : SortedMap α β} {k : α} {v : β} :
    (k, v) ∈ m.entries ↔ m.get k = some v := (find?_eq_some m.sorted).symm

/-- An ascending list is determined by its members. -/
theorem eq_of_mem {l l' : List (α × β)} (sorted : l.Pairwise fun a b => a.1 < b.1)
    (sorted' : l'.Pairwise fun a b => a.1 < b.1) (h : ∀ e, e ∈ l ↔ e ∈ l') : l = l' := by
  have nodup : ∀ {l : List (α × β)}, (l.Pairwise fun a b => a.1 < b.1) → l.Nodup := fun sorted =>
    sorted.imp fun less same => absurd (congrArg Prod.fst same) (ne_of_lt less)
  have perm : l.Perm l' := (List.perm_ext_iff_of_nodup (nodup sorted) (nodup sorted')).mpr h
  exact perm.eq_of_pairwise (fun _ _ _ _ less less' => absurd less less'.asymm) sorted sorted'

/-- The entries are determined by the values found. -/
theorem ext {m m' : SortedMap α β} (h : ∀ k, m.get k = m'.get k) : m = m' := by
  have same : m.entries = m'.entries := eq_of_mem m.sorted m'.sorted fun ⟨k, v⟩ => by
    rw [mem_entries, mem_entries, h]
  cases m
  cases m'
  cases same
  rfl

@[simp] theorem get_empty (k : α) : (empty : SortedMap α β).get k = none := rfl

/-- Put an entry before the first larger key, in the place of its own key. -/
def insertList (k : α) (v : β) : List (α × β) → List (α × β)
  | [] => [(k, v)]
  | e :: l =>
    if k < e.1 then (k, v) :: e :: l else if k = e.1 then (k, v) :: l else e :: insertList k v l

theorem mem_insertList {k : α} {v : β} {e : α × β} {l : List (α × β)}
    (sorted : l.Pairwise fun a b => a.1 < b.1) :
    e ∈ insertList k v l ↔ e = (k, v) ∨ e.1 ≠ k ∧ e ∈ l := by
  induction l with
  | nil => simp [insertList]
  | cons a l ih =>
    obtain ⟨less, sorted⟩ := List.pairwise_cons.mp sorted
    simp only [insertList]
    split
    · rename_i lt
      rw [List.mem_cons]
      refine or_congr_right ⟨fun member => ⟨?_, member⟩, And.right⟩
      rcases List.mem_cons.mp member with rfl | later
      · exact (ne_of_lt lt).symm
      · exact (ne_of_lt (lt.trans (less e later))).symm
    · split
      · rename_i same
        subst same
        rw [List.mem_cons]
        refine or_congr_right ⟨fun later => ?_, fun ⟨other, member⟩ => ?_⟩
        · exact ⟨(ne_of_lt (less e later)).symm, .tail _ later⟩
        · rcases List.mem_cons.mp member with rfl | later
          · exact absurd rfl other
          · exact later
      · rename_i other
        rw [List.mem_cons, List.mem_cons, ih sorted]
        constructor
        · rintro (rfl | rfl | ⟨differ, member⟩)
          · exact .inr ⟨Ne.symm other, .inl rfl⟩
          · exact .inl rfl
          · exact .inr ⟨differ, .inr member⟩
        · rintro (rfl | ⟨differ, rfl | member⟩)
          · exact .inr (.inl rfl)
          · exact .inl rfl
          · exact .inr (.inr ⟨differ, member⟩)

theorem sorted_insertList {k : α} {v : β} {l : List (α × β)}
    (sorted : l.Pairwise fun a b => a.1 < b.1) :
    (insertList k v l).Pairwise fun a b => a.1 < b.1 := by
  induction l with
  | nil => exact List.pairwise_singleton _ _
  | cons a l ih =>
    obtain ⟨less, rest⟩ := List.pairwise_cons.mp sorted
    simp only [insertList]
    split
    · rename_i lt
      refine List.pairwise_cons.mpr ⟨fun e member => ?_, sorted⟩
      rcases List.mem_cons.mp member with rfl | later
      · exact lt
      · exact lt.trans (less e later)
    · split
      · rename_i same
        subst same
        exact List.pairwise_cons.mpr ⟨less, rest⟩
      · rename_i below other
        refine List.pairwise_cons.mpr ⟨fun e member => ?_, ih rest⟩
        rcases (mem_insertList rest).mp member with rfl | ⟨-, later⟩
        · exact lt_of_le_of_ne (not_lt.mp below) (Ne.symm other)
        · exact less e later

def insert (m : SortedMap α β) (k : α) (v : β) : SortedMap α β :=
  ⟨insertList k v m.entries, sorted_insertList m.sorted⟩

def erase (m : SortedMap α β) (k : α) : SortedMap α β :=
  ⟨m.entries.filter (·.1 ≠ k), m.sorted.filter _⟩

/-- Put the value at a key, or take it away. -/
def set (m : SortedMap α β) (k : α) : Option β → SortedMap α β
  | some v => m.insert k v
  | none => m.erase k

@[simp] theorem get_set (m : SortedMap α β) (k k' : α) (v : Option β) :
    (m.set k v).get k' = if k' = k then v else m.get k' := by
  apply Option.ext
  intro v'
  rw [← mem_entries]
  cases v with
  | none =>
    change (k', v') ∈ m.entries.filter _ ↔ _
    rw [List.mem_filter, mem_entries]
    by_cases same : k' = k
    · simp [same]
    · simp [same]
  | some v =>
    change (k', v') ∈ insertList k v m.entries ↔ _
    rw [mem_insertList m.sorted, mem_entries]
    by_cases same : k' = k
    · simp [same, eq_comm]
    · simp [same]

/-- Replace every value. -/
def mapValues (m : SortedMap α β) (f : α → β → β) : SortedMap α β :=
  ⟨m.entries.map fun e => (e.1, f e.1 e.2), List.pairwise_map.mpr m.sorted⟩

@[simp] theorem get_mapValues (m : SortedMap α β) (f : α → β → β) (k : α) :
    (m.mapValues f).get k = (m.get k).map (f k) := by
  apply Option.ext
  intro v
  rw [← mem_entries, Option.map_eq_some_iff]
  change (k, v) ∈ m.entries.map _ ↔ _
  rw [List.mem_map]
  constructor
  · rintro ⟨⟨k', v'⟩, member, same⟩
    cases same
    exact ⟨v', mem_entries.mp member, rfl⟩
  · rintro ⟨v', found, rfl⟩
    exact ⟨(k, v'), mem_entries.mpr found, rfl⟩

/-- The entries with keys between two optional bounds. -/
def range (m : SortedMap α β) (lower upper : Option α) : List (α × β) :=
  m.entries.filter fun e => (lower.all (· ≤ e.1)) && upper.all (e.1 < ·)

end SortedMap
