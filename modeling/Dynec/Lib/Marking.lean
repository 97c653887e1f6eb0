import Mathlib.Data.List.Basic
import Mathlib.Logic.Relation

/-!
# Marking what is reachable

A depth-first traversal marks a node, then visits its successors, and passes
over the nodes that are marked. A marked node may still be under way, so its
successors need not be marked yet; but whatever a call has marked is explored
when it returns.
-/

namespace Marking

variable {α : Type*} (next : α → List α)

def Reaches : α → α → Prop := Relation.ReflTransGen fun a b => b ∈ next a

/-- What visiting the nodes of `l` does to the marks. -/
structure Visits (l seen seen' : List α) : Prop where
  grows : ∀ x ∈ seen, x ∈ seen'
  marked : ∀ a ∈ l, a ∈ seen'
  explored : ∀ x ∈ seen', x ∈ seen ∨
    (∃ a ∈ l, Reaches next a x) ∧ ∀ u ∈ next x, u ∈ seen'

/-- No marked node is under way. -/
def Closed (seen : List α) : Prop := ∀ x ∈ seen, ∀ u ∈ next x, u ∈ seen

section
variable {next} {l l' seen seen' seen'' : List α} {a x : α}

theorem Visits.nil (seen : List α) : Visits next [] seen seen :=
  ⟨fun _ member => member, nofun, fun _ => .inl⟩

/-- A marked node is passed over. -/
theorem Visits.again (member : a ∈ seen) : Visits next [a] seen seen :=
  ⟨fun _ member => member, fun _ here => List.mem_singleton.mp here ▸ member, fun _ => .inl⟩

theorem Visits.append (h : Visits next l seen seen') (h' : Visits next l' seen' seen'') :
    Visits next (l ++ l') seen seen'' := by
  refine ⟨fun x member => h'.grows x (h.grows x member), fun b member => ?_, fun x member => ?_⟩
  · rcases List.mem_append.mp member with first | second
    · exact h'.grows b (h.marked b first)
    · exact h'.marked b second
  · rcases h'.explored x member with earlier | ⟨⟨b, listed, path⟩, below⟩
    · rcases h.explored x earlier with before | ⟨⟨b, listed, path⟩, below⟩
      · exact .inl before
      · exact .inr ⟨⟨b, List.mem_append_left _ listed, path⟩,
          fun u edge => h'.grows u (below u edge)⟩
    · exact .inr ⟨⟨b, List.mem_append_right _ listed, path⟩, below⟩

/-- A node is marked before its successors are visited. -/
theorem Visits.enter (h : Visits next (next a) (a :: seen) seen') : Visits next [a] seen seen' := by
  refine ⟨fun x member => h.grows x (List.mem_cons_of_mem _ member), fun b here => ?_,
    fun x member => ?_⟩
  · cases List.mem_singleton.mp here
    exact h.grows a List.mem_cons_self
  · rcases h.explored x member with earlier | ⟨⟨b, listed, path⟩, below⟩
    · rcases List.mem_cons.mp earlier with rfl | before
      · exact .inr ⟨⟨x, List.mem_cons_self, .refl⟩, h.marked⟩
      · exact .inl before
    · exact .inr ⟨⟨a, List.mem_cons_self, .head listed path⟩, below⟩

theorem Closed.reaches (closed : Closed next seen) (member : a ∈ seen) (path : Reaches next a x) :
    x ∈ seen := by
  induction path with
  | refl => exact member
  | tail _ edge ih => exact closed _ ih _ edge

theorem Visits.closed (h : Visits next l seen seen') (closed : Closed next seen) :
    Closed next seen' := by
  intro x member u edge
  rcases h.explored x member with before | ⟨-, below⟩
  · exact h.grows u (closed x before u edge)
  · exact below u edge

/-- When no node is under way, a visit marks exactly what it reaches. -/
theorem Visits.mem_iff (h : Visits next l seen seen') (closed : Closed next seen) :
    x ∈ seen' ↔ x ∈ seen ∨ ∃ a ∈ l, Reaches next a x := by
  constructor
  · intro member
    exact (h.explored x member).imp_right (·.1)
  · rintro (before | ⟨a, listed, path⟩)
    · exact h.grows x before
    · exact (h.closed closed).reaches (h.marked a listed) path

end

/-! ## How deep a traversal goes -/

section
variable [DecidableEq α] {all seen seen' : List α}

/-- The nodes that are still to be marked. -/
def unmarked (all seen : List α) : Nat := all.countP (· ∉ seen)

theorem unmarked_le (grows : ∀ x ∈ seen, x ∈ seen') : unmarked all seen' ≤ unmarked all seen := by
  apply List.countP_mono_left
  intro x _ fresh
  simp only [decide_eq_true_eq] at fresh ⊢
  exact fun member => fresh (grows x member)

theorem unmarked_lt {a : α} (known : a ∈ all) (fresh : a ∉ seen) :
    unmarked all (a :: seen) < unmarked all seen := by
  induction all with
  | nil => cases known
  | cons b all ih =>
    have rest : unmarked all (a :: seen) ≤ unmarked all seen :=
      unmarked_le fun x => List.mem_cons_of_mem a
    by_cases here : b = a
    · subst here
      have lost : unmarked (b :: all) (b :: seen) = unmarked all (b :: seen) :=
        List.countP_cons_of_neg (by simp)
      have counted : unmarked (b :: all) seen = unmarked all seen + 1 :=
        List.countP_cons_of_pos (by simpa using fresh)
      omega
    · have less := ih ((List.mem_cons.mp known).resolve_left (Ne.symm here))
      by_cases seenBefore : b ∈ seen
      · have lost : unmarked (b :: all) (a :: seen) = unmarked all (a :: seen) :=
          List.countP_cons_of_neg (by simp [seenBefore])
        have skipped : unmarked (b :: all) seen = unmarked all seen :=
          List.countP_cons_of_neg (by simpa using seenBefore)
        omega
      · have kept : unmarked (b :: all) (a :: seen) = unmarked all (a :: seen) + 1 :=
          List.countP_cons_of_pos (by simp [here, seenBefore])
        have counted : unmarked (b :: all) seen = unmarked all seen + 1 :=
          List.countP_cons_of_pos (by simpa using seenBefore)
        omega

end

end Marking
