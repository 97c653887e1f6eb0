import Mathlib.Order.Basic
import Mathlib.Data.List.Basic
import Mathlib.Data.List.Nodup
import Mathlib.Data.Finset.Card

/-!
# Sets kept as ascending lists

A finite set of a linear order, stored as its strictly ascending list, the way
an ordered tree set iterates. The list is a field's proof away from being the
set: two of them with the same members are equal.
-/

structure SortedSet (α : Type*) [LinearOrder α] where
  toList : List α
  sorted : toList.Pairwise (· < ·)
  deriving Repr

namespace SortedSet

variable {α : Type*} [LinearOrder α]

instance : DecidableEq (SortedSet α) := fun s t =>
  decidable_of_iff (s.toList = t.toList)
    ⟨fun h => by cases s; cases t; cases h; rfl, fun h => by rw [h]⟩

instance : Membership α (SortedSet α) := ⟨fun s a => a ∈ s.toList⟩

instance (a : α) (s : SortedSet α) : Decidable (a ∈ s) :=
  inferInstanceAs (Decidable (a ∈ s.toList))

@[simp] theorem mem_toList {a : α} {s : SortedSet α} : a ∈ s.toList ↔ a ∈ s := Iff.rfl

theorem nodup (s : SortedSet α) : s.toList.Nodup := s.sorted.imp fun h => h.ne

/-- The list is determined by its members. -/
theorem ext {s t : SortedSet α} (h : ∀ a, a ∈ s ↔ a ∈ t) : s = t := by
  have hp : s.toList.Perm t.toList := (List.perm_ext_iff_of_nodup s.nodup t.nodup).mpr h
  have he : s.toList = t.toList :=
    hp.eq_of_pairwise (fun a b _ _ hab hba => absurd hab hba.asymm) s.sorted t.sorted
  cases s; cases t; cases he; rfl

def empty : SortedSet α := ⟨[], .nil⟩

instance : Inhabited (SortedSet α) := ⟨empty⟩

@[simp] theorem not_mem_empty (a : α) : a ∉ (empty : SortedSet α) := List.not_mem_nil

/-- Put `a` before the first larger element, unless it is there already. -/
def insertList (a : α) : List α → List α
  | [] => [a]
  | b :: l => if a < b then a :: b :: l else if a = b then b :: l else b :: insertList a l

theorem mem_insertList {a x : α} {l : List α} : x ∈ insertList a l ↔ x = a ∨ x ∈ l := by
  induction l with
  | nil => simp [insertList]
  | cons b l ih =>
    simp only [insertList]
    split
    · simp
    · split
      · rename_i e; subst e; simp
      · simp only [List.mem_cons, ih]; tauto

theorem sorted_insertList {a : α} {l : List α} (h : l.Pairwise (· < ·)) :
    (insertList a l).Pairwise (· < ·) := by
  induction l with
  | nil => simp [insertList]
  | cons b l ih =>
    obtain ⟨hb, hl⟩ := List.pairwise_cons.mp h
    simp only [insertList]
    split
    · rename_i lt
      refine List.pairwise_cons.mpr ⟨fun x hx => ?_, h⟩
      rcases List.mem_cons.mp hx with rfl | hx
      · exact lt
      · exact lt.trans (hb x hx)
    · split
      · exact h
      · rename_i nlt ne
        refine List.pairwise_cons.mpr ⟨fun x hx => ?_, ih hl⟩
        rcases mem_insertList.mp hx with rfl | hx
        · exact lt_of_le_of_ne (not_lt.mp nlt) (Ne.symm ne)
        · exact hb x hx

def insert (s : SortedSet α) (a : α) : SortedSet α :=
  ⟨insertList a s.toList, sorted_insertList s.sorted⟩

@[simp] theorem mem_insert {s : SortedSet α} {a x : α} : x ∈ s.insert a ↔ x = a ∨ x ∈ s :=
  mem_insertList

def erase (s : SortedSet α) (a : α) : SortedSet α :=
  ⟨s.toList.filter (· ≠ a), s.sorted.filter _⟩

@[simp] theorem mem_erase {s : SortedSet α} {a x : α} : x ∈ s.erase a ↔ x ∈ s ∧ x ≠ a := by
  change x ∈ s.toList.filter _ ↔ _
  simp

/-- Insert every element of a list. -/
def extend (s : SortedSet α) (l : List α) : SortedSet α := l.foldl insert s

@[simp] theorem mem_extend {s : SortedSet α} {l : List α} {x : α} :
    x ∈ s.extend l ↔ x ∈ s ∨ x ∈ l := by
  induction l generalizing s with
  | nil => simp [extend]
  | cons a l ih =>
    change x ∈ (s.insert a).extend l ↔ _
    rw [ih, mem_insert, List.mem_cons]
    tauto

/-- Erase every element of a list. -/
def eraseAll (s : SortedSet α) (l : List α) : SortedSet α := l.foldl erase s

@[simp] theorem mem_eraseAll {s : SortedSet α} {l : List α} {x : α} :
    x ∈ s.eraseAll l ↔ x ∈ s ∧ x ∉ l := by
  induction l generalizing s with
  | nil => simp [eraseAll]
  | cons a l ih =>
    change x ∈ (s.erase a).eraseAll l ↔ _
    rw [ih, mem_erase, List.mem_cons]
    tauto

/-- The least element. -/
def first (s : SortedSet α) : Option α := s.toList.head?

theorem first_mem {s : SortedSet α} {a : α} (h : s.first = some a) : a ∈ s :=
  List.mem_of_mem_head? h

theorem first_none {s : SortedSet α} (h : s.first = none) (a : α) : a ∉ s := by
  have : s.toList = [] := List.head?_eq_none_iff.mp h
  change a ∉ s.toList
  simp [this]

/-- The least element and the rest. -/
def popFirst (s : SortedSet α) : Option (α × SortedSet α) := s.first.map fun a => (a, s.erase a)

/-- The greatest element below `x`. -/
def below (s : SortedSet α) (x : α) : Option α := (s.toList.filter (· < x)).getLast?

/-- The least element not below `x`. -/
def atLeast (s : SortedSet α) (x : α) : Option α := (s.toList.filter (x ≤ ·)).head?

theorem below_mem {s : SortedSet α} {x a : α} (h : s.below x = some a) : a ∈ s := by
  have := List.mem_of_getLast? h
  exact (List.mem_filter.mp this).1

theorem atLeast_mem {s : SortedSet α} {x a : α} (h : s.atLeast x = some a) : a ∈ s := by
  have := List.mem_of_mem_head? h
  exact (List.mem_filter.mp this).1

/-- An element is found on one side of any point, unless the set is empty. -/
theorem eq_empty_of_sides {s : SortedSet α} {x : α} (hb : s.below x = none)
    (ha : s.atLeast x = none) (a : α) : a ∉ s := by
  intro h
  rcases lt_or_ge a x with lt | ge
  · have hn : s.toList.filter (· < x) = [] := List.getLast?_eq_none_iff.mp hb
    have : a ∈ s.toList.filter (· < x) := by simp [h, lt]
    simp [hn] at this
  · have hn : s.toList.filter (x ≤ ·) = [] := List.head?_eq_none_iff.mp ha
    have : a ∈ s.toList.filter (x ≤ ·) := by simp [h, ge]
    simp [hn] at this

/-- The elements from `a` on and below `b`. -/
def range (s : SortedSet α) (a b : α) : List α := s.toList.filter fun x => a ≤ x ∧ x < b

@[simp] theorem mem_range {s : SortedSet α} {a b x : α} : x ∈ s.range a b ↔ x ∈ s ∧ a ≤ x ∧ x < b := by
  simp [range]

theorem first_le {s : SortedSet α} {a : α} (h : s.first = some a) : ∀ x ∈ s, a ≤ x := by
  intro x member
  have sorted := s.sorted
  obtain ⟨rest, split⟩ := List.head?_eq_some_iff.mp h
  rw [split] at sorted
  change x ∈ s.toList at member
  rw [split] at member
  rcases List.mem_cons.mp member with rfl | later
  · exact le_refl _
  · exact le_of_lt ((List.pairwise_cons.mp sorted).1 x later)

def size (s : SortedSet α) : Nat := s.toList.length

end SortedSet
