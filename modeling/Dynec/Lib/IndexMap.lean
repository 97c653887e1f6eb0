import Dynec.Lib.HashMap

/-!
# Maps that remember insertion order

The keys are listed in the order in which they first appeared, and replacing
the value of a key keeps its place.
-/

structure IndexMap (K V : Type*) [DecidableEq K] where
  order : List K
  table : HashMap K V
  nodup : order.Nodup
  known : ∀ k, k ∈ order ↔ (table.lookup k).isSome

namespace IndexMap

variable {K V : Type*} [DecidableEq K]

def empty : IndexMap K V := ⟨[], ∅, .nil, fun k => by simp⟩

def get (m : IndexMap K V) (k : K) : Option V := m.table.lookup k

def insert (m : IndexMap K V) (k : K) (v : V) : IndexMap K V where
  order := if k ∈ m.order then m.order else m.order ++ [k]
  table := AList.insert k v m.table
  nodup := by
    split
    · exact m.nodup
    · rename_i fresh
      exact List.nodup_append.mpr ⟨m.nodup, List.nodup_singleton k,
        fun a ha b hb => by cases List.mem_singleton.mp hb; rintro rfl; exact fresh ha⟩
  known k' := by
    rw [HashMap.lookup_insert_ite]
    by_cases same : k' = k
    · subst same
      split
      · rename_i old; simpa using old
      · simp
    · split
      · exact m.known k'
      · simp [same, m.known]

/-- Replace every value. -/
def mapValues (m : IndexMap K V) (f : V → V) : IndexMap K V where
  order := m.order
  table := HashMap.mapValues m.table f
  nodup := m.nodup
  known k := by rw [HashMap.lookup_mapValues, Option.isSome_map]; exact m.known k

/-- The place of a key in the insertion order. -/
def indexOf (m : IndexMap K V) (k : K) : Nat := m.order.idxOf k

theorem get_insert (m : IndexMap K V) (k k' : K) (v : V) :
    (m.insert k v).get k' = if k' = k then some v else m.get k' :=
  HashMap.lookup_insert_ite _ _ _ _

theorem get_mapValues (m : IndexMap K V) (f : V → V) (k : K) :
    (m.mapValues f).get k = (m.get k).map f := HashMap.lookup_mapValues _ _ _

theorem mem_order_insert (m : IndexMap K V) (k k' : K) (v : V) :
    k' ∈ (m.insert k v).order ↔ k' = k ∨ k' ∈ m.order := by
  change k' ∈ (if k ∈ m.order then m.order else m.order ++ [k]) ↔ _
  split
  · rename_i old
    constructor
    · exact .inr
    · rintro (rfl | h)
      · exact old
      · exact h
  · simp [or_comm]

theorem order_insert_of_mem (m : IndexMap K V) {k : K} (h : k ∈ m.order) (v : V) :
    (m.insert k v).order = m.order := if_pos h

theorem mem_order_iff (m : IndexMap K V) (k : K) : k ∈ m.order ↔ (m.get k).isSome := m.known k

end IndexMap
