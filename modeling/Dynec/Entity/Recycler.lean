import Dynec.Panic
import Dynec.Lib.SortedSet

/-! Recyclers: the containers of free entity IDs that shards allocate from. -/

namespace Dynec.Entity

open Fallible

/-- A data structure that recycles entity IDs. `contents` lists what it holds;
the laws are what an allocator relies on. -/
class Recycler (T : Type) (Hint : outParam Type) where
  default : T
  len : T → Nat
  poll : T → Hint → Except Panic (Option Nat × T)
  extend : T → List Nat → T
  contents : T → List Nat
  contents_default : contents default = []
  len_eq : ∀ t, len t = (contents t).length
  poll_eq : ∀ t hint, (∃ t', poll t hint = .ok (none, t') ∧ t' = t ∧ contents t = []) ∨
    ∃ id t', poll t hint = .ok (some id, t') ∧ (contents t).Perm (id :: contents t')
  mem_extend : ∀ t l id, id ∈ contents (extend t l) ↔ id ∈ contents t ∨ id ∈ l
  extend_perm : ∀ t l, (contents t ++ l).Nodup → (contents (extend t l)).Perm (contents t ++ l)

/-- A minimal allocator implemented through a FILO stack. -/
def pollVec (self : List Nat) (_ : Unit) : Except Panic (Option Nat × List Nat) :=
  match self.getLast? with
  | none => .ok (none, self)
  | some id => .ok (some id, self.dropLast)

instance : Recycler (List Nat) Unit where
  default := []
  len := List.length
  poll := pollVec
  extend self ids := self ++ ids
  contents := id
  contents_default := rfl
  len_eq _ := rfl
  poll_eq t hint := by
    cases last : t.getLast? with
    | none =>
      exact .inl ⟨t, by simp [pollVec, last], rfl, List.getLast?_eq_none_iff.mp last⟩
    | some a =>
      obtain ⟨rest, rfl⟩ := List.getLast?_eq_some_iff.mp last
      refine .inr ⟨a, rest, ?_, ?_⟩
      · rw [pollVec, last, List.dropLast_concat]
      · exact List.perm_append_singleton a rest
  mem_extend t l a := List.mem_append
  extend_perm t l _ := .refl _

/-- Additional configuration for allocating entities from a `BTreeSet`. -/
structure BTreeHint where
  near : Option Nat
  deriving DecidableEq, Repr

/-- The element selected for a hint: the nearest one, the left one of two. -/
def selectNear (self : SortedSet Nat) (near : Nat) : Option Nat :=
  match self.below near, self.atLeast near with
  | some left, some right => some (if near - left ≤ right - near then left else right)
  | some left, none => some left
  | none, some right => some right
  | none, none => none

def pollBTree (self : SortedSet Nat) (hint : BTreeHint) :
    Except Panic (Option Nat × SortedSet Nat) :=
  match hint.near with
  | some near =>
    match selectNear self near with
    | some selected =>
      if selected ∈ self then .ok (some selected, self.erase selected)
      else .error .rangeItemMissing
    | none => .ok (none, self)
  | none =>
    match self.popFirst with
    | some (id, rest) => .ok (some id, rest)
    | none => .ok (none, self)

theorem selectNear_mem {s : SortedSet Nat} {near a : Nat} (h : selectNear s near = some a) :
    a ∈ s := by
  unfold selectNear at h
  split at h
  · rename_i left right hl hr
    split at h
    · cases h; exact SortedSet.below_mem hl
    · cases h; exact SortedSet.atLeast_mem hr
  · rename_i left hl _
    cases h; exact SortedSet.below_mem hl
  · rename_i right _ hr
    cases h; exact SortedSet.atLeast_mem hr
  · cases h

theorem selectNear_none {s : SortedSet Nat} {near : Nat} (h : selectNear s near = none) (a : Nat) :
    a ∉ s := by
  unfold selectNear at h
  split at h
  · cases h
  · cases h
  · cases h
  · rename_i hl hr
    exact SortedSet.eq_empty_of_sides hl hr a

/-- Taking a member out leaves the others. -/
theorem perm_erase {s : SortedSet Nat} {a : Nat} (h : a ∈ s) :
    s.toList.Perm (a :: (s.erase a).toList) := by
  apply (List.perm_ext_iff_of_nodup s.nodup _).mpr
  · intro x
    change x ∈ s ↔ _
    rw [List.mem_cons]
    change x ∈ s ↔ x = a ∨ x ∈ s.erase a
    rw [SortedSet.mem_erase]
    by_cases same : x = a
    · simp [same, h]
    · simp [same]
  · refine List.nodup_cons.mpr ⟨?_, (s.erase a).nodup⟩
    change a ∉ s.erase a
    simp

theorem toList_eq_nil {s : SortedSet Nat} (h : ∀ a, a ∉ s) : s.toList = [] :=
  List.eq_nil_iff_forall_not_mem.mpr h

instance : Recycler (SortedSet Nat) BTreeHint where
  default := SortedSet.empty
  len := SortedSet.size
  poll := pollBTree
  extend := SortedSet.extend
  contents := SortedSet.toList
  contents_default := rfl
  len_eq _ := rfl
  poll_eq t hint := by
    unfold pollBTree
    cases hint.near with
    | some near =>
      cases selected : selectNear t near with
      | some a =>
        have member := selectNear_mem selected
        exact .inr ⟨a, t.erase a, by simp [selected, member], perm_erase member⟩
      | none =>
        exact .inl ⟨t, by simp [selected], rfl, toList_eq_nil (selectNear_none selected)⟩
    | none =>
      cases first : t.first with
      | some a =>
        refine .inr ⟨a, t.erase a, ?_, perm_erase (SortedSet.first_mem first)⟩
        simp [SortedSet.popFirst, first]
      | none =>
        refine .inl ⟨t, ?_, rfl, toList_eq_nil (SortedSet.first_none first)⟩
        simp [SortedSet.popFirst, first]
  mem_extend t l a := SortedSet.mem_extend
  extend_perm t l nodup := by
    apply (List.perm_ext_iff_of_nodup (t.extend l).nodup nodup).mpr
    intro a
    rw [List.mem_append]
    exact SortedSet.mem_extend

end Dynec.Entity
