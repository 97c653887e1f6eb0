import Dynec.Lib.Fallible

/-!
# Nested tuples

A member of a tuple is a value or a tuple again, and a tuple has at least one
member. The shape is part of the type, so a nested tuple is determined by the
list of its values.
-/

open Fallible

/-- A member of a tuple, or the members from some position on. -/
inductive Level where
  | member
  | members

inductive Shape : Level → Type
  | leaf : Shape .member
  | tuple (members : Shape .members) : Shape .member
  | last (member : Shape .member) : Shape .members
  | more (member : Shape .member) (rest : Shape .members) : Shape .members

inductive Nested (α : Type) : {level : Level} → Shape level → Type
  | leaf (value : α) : Nested α .leaf
  | tuple {s : Shape .members} (members : Nested α s) : Nested α (.tuple s)
  | last {s : Shape .member} (member : Nested α s) : Nested α (.last s)
  | more {s : Shape .member} {t : Shape .members} (member : Nested α s) (rest : Nested α t) :
      Nested α (.more s t)

namespace Nested

variable {α β γ ε : Type} {level : Level} {s : Shape level}

/-- The values from left to right. -/
def leaves {level : Level} {s : Shape level} : Nested α s → List α
  | .leaf value => [value]
  | .tuple members => members.leaves
  | .last member => member.leaves
  | .more member rest => member.leaves ++ rest.leaves

def map (f : α → β) {level : Level} {s : Shape level} : Nested α s → Nested β s
  | .leaf value => .leaf (f value)
  | .tuple members => .tuple (members.map f)
  | .last member => .last (member.map f)
  | .more member rest => .more (member.map f) (rest.map f)

def mapM (f : α → Except ε β) {level : Level} {s : Shape level} :
    Nested α s → Except ε (Nested β s)
  | .leaf value => do return .leaf (← f value)
  | .tuple members => do return .tuple (← members.mapM f)
  | .last member => do return .last (← member.mapM f)
  | .more member rest => do
    let member ← member.mapM f
    let rest ← rest.mapM f
    return .more member rest

/-- The lists of a nested tuple, read side by side. -/
def zipAll {level : Level} {s : Shape level} : Nested (List α) s → List (Nested α s)
  | .leaf values => values.map .leaf
  | .tuple members => members.zipAll.map .tuple
  | .last member => member.zipAll.map .last
  | .more member rest => List.zipWith .more member.zipAll rest.zipAll

@[simp] theorem leaves_map (f : α → β) (nested : Nested α s) :
    (nested.map f).leaves = nested.leaves.map f := by
  induction nested with
  | leaf value => rfl
  | tuple members ih => exact ih
  | last member ih => exact ih
  | more member rest ihm ihr => rw [map, leaves, leaves, ihm, ihr, List.map_append]

/-- Running through a nested tuple is running through its values. -/
theorem mapM_leaves (f : α → Except ε β) (nested : Nested α s) :
    leaves <$> nested.mapM f = nested.leaves.mapM f := by
  induction nested with
  | leaf value =>
    rw [mapM, leaves, List.mapM_cons, List.mapM_nil]
    cases f value <;> rfl
  | tuple members ih =>
    rw [mapM, leaves, ← ih]
    cases members.mapM f <;> rfl
  | last member ih =>
    rw [mapM, leaves, ← ih]
    cases member.mapM f <;> rfl
  | more member rest ihm ihr =>
    rw [mapM, leaves, List.mapM_append, ← ihm, ← ihr]
    cases member.mapM f with
    | error => rfl
    | ok => cases rest.mapM f <;> rfl

theorem length_leaves (a : Nested α s) (b : Nested β s) : a.leaves.length = b.leaves.length := by
  induction a with
  | leaf value =>
    cases b
    rfl
  | tuple members ih =>
    cases b with
    | tuple members' => exact ih members'
  | last member ih =>
    cases b with
    | last member' => exact ih member'
  | more member rest ihm ihr =>
    cases b with
    | more member' rest' => rw [leaves, leaves, List.length_append, List.length_append, ihm, ihr]

/-- Nothing but the values tells two nested tuples of a shape apart. -/
theorem leaves_injective : Function.Injective (leaves : Nested α s → List α) := by
  intro a b same
  induction a with
  | leaf value =>
    cases b
    cases same
    rfl
  | tuple members ih =>
    cases b with
    | tuple members' => rw [ih same]
  | last member ih =>
    cases b with
    | last member' => rw [ih same]
  | more member rest ihm ihr =>
    cases b with
    | more member' rest' =>
      obtain ⟨front, back⟩ := List.append_inj same (length_leaves member member')
      rw [ihm front, ihr back]

/-- Lists that are indexed alike are read side by side index by index. -/
theorem zipAll_map {ι : Type} (f : α → ι → β) (indices : List ι) (nested : Nested α s) :
    (nested.map fun a => indices.map (f a)).zipAll =
      indices.map fun i => nested.map fun a => f a i := by
  induction nested with
  | leaf value =>
    rw [map, zipAll, List.map_map]
    rfl
  | tuple members ih =>
    rw [map, zipAll, ih, List.map_map]
    rfl
  | last member ih =>
    rw [map, zipAll, ih, List.map_map]
    rfl
  | more member rest ihm ihr =>
    rw [map, zipAll, ihm, ihr, List.zipWith_map, List.zipWith_self]
    rfl

end Nested
