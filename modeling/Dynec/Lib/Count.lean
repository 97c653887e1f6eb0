import Mathlib.Algebra.GroupWithZero.Nat
import Mathlib.Data.List.Basic
import Mathlib.Data.List.Nodup
import Mathlib.Tactic.Common

/-!
# Counting in lists

How a count over a list changes when the counted property changes at one
point.
-/

namespace Count

variable {α : Type*}

/-- Counts add over a disjoint union. -/
theorem countP_or (l : List α) (p q r : α → Prop) [DecidablePred p] [DecidablePred q]
    [DecidablePred r] (split : ∀ a, r a ↔ p a ∨ q a) (apart : ∀ a, p a → ¬ q a) :
    l.countP (fun a => r a) = l.countP (fun a => p a) + l.countP (fun a => q a) := by
  induction l with
  | nil => rfl
  | cons a l ih =>
    have := split a
    have := apart a
    simp only [List.countP_cons, ih, decide_eq_true_eq]
    by_cases hp : p a <;> by_cases hq : q a <;> simp_all <;> omega

/-- A property that newly holds at `a` adds the occurrences of `a`. -/
theorem countP_gain [DecidableEq α] (l : List α) (p q : α → Prop) [DecidablePred p]
    [DecidablePred q] (a : α) (absent : ¬ p a) (gain : ∀ b, q b ↔ p b ∨ b = a) :
    l.countP (fun b => q b) = l.countP (fun b => p b) + l.count a := by
  have eq : l.count a = l.countP (fun b => decide (b = a)) := by
    rw [List.count_eq_countP]
    exact List.countP_congr fun b _ => by simp
  rw [eq]
  exact countP_or l p (· = a) q gain (by rintro b hb rfl; exact absent hb)

/-- A function that changes at one place changes a count by what it has there. -/
theorem countP_update [DecidableEq α] {β : Type*} {l : List α} (nodup : l.Nodup) (f : α → β)
    (p : β → Bool) {a : α} (ha : a ∈ l) (b : β) :
    l.countP (fun c => p (Function.update f a b c)) + (p (f a)).toNat =
      l.countP (fun c => p (f c)) + (p b).toNat := by
  induction l with
  | nil => simp at ha
  | cons c l ih =>
    obtain ⟨fresh, nodup⟩ := List.nodup_cons.mp nodup
    simp only [List.countP_cons]
    rcases List.mem_cons.mp ha with rfl | ha
    · have rest : l.countP (fun c => p (Function.update f a b c)) = l.countP (fun c => p (f c)) := by
        apply List.countP_congr
        intro c hc
        rw [Function.update_of_ne]
        rintro rfl
        exact fresh hc
      rw [rest, Function.update_self]
      cases p (f a) <;> cases p b <;> simp
    · have other : c ≠ a := by rintro rfl; exact fresh ha
      have := ih nodup ha
      rw [Function.update_of_ne other]
      omega

/-- A count is a sum of zeros and ones. -/
theorem countP_and (l : List α) (p q : α → Prop) [DecidablePred p] [DecidablePred q] :
    l.countP (fun a => p a ∧ q a) =
      ((l.filter fun a => p a).map fun a => if q a then 1 else 0).sum := by
  induction l with
  | nil => rfl
  | cons a l ih =>
    rw [List.countP_cons, ih]
    by_cases hp : p a
    · by_cases hq : q a <;> simp [hp, hq, Nat.add_comm]
    · simp [hp]

/-- A summand that drops to zero takes its old value off the sum. -/
theorem sum_map_drop (l : List α) (nodup : l.Nodup) (f g : α → Nat) {a : α} (ha : a ∈ l)
    (zero : g a = 0) (same : ∀ b ∈ l, b ≠ a → g b = f b) :
    (l.map g).sum + f a = (l.map f).sum := by
  induction l with
  | nil => simp at ha
  | cons b l ih =>
    obtain ⟨fresh, nodup⟩ := List.nodup_cons.mp nodup
    simp only [List.map_cons, List.sum_cons]
    rcases List.mem_cons.mp ha with rfl | ha
    · have rest : l.map g = l.map f :=
        List.map_congr_left fun c hc =>
          same c (List.mem_cons_of_mem _ hc) (by rintro rfl; exact fresh hc)
      rw [rest, zero]
      omega
    · have hb : g b = f b := same b List.mem_cons_self (by rintro rfl; exact fresh ha)
      have := ih nodup ha fun c hc => same c (List.mem_cons_of_mem _ hc)
      omega

/-- Replacing one item of a list changes a concatenation by what the item
contributes. -/
theorem count_flatMap_set {β : Type*} [DecidableEq β] (f : α → List β) {l : List α} {i : Nat}
    {old : α} (at_i : l[i]? = some old) (new : α) (b : β) :
    ((l.set i new).flatMap f).count b + (f old).count b =
      (l.flatMap f).count b + (f new).count b := by
  induction l generalizing i with
  | nil => simp at at_i
  | cons a l ih =>
    cases i with
    | zero =>
      simp only [List.getElem?_cons_zero, Option.some.injEq] at at_i
      subst at_i
      simp only [List.set_cons_zero, List.flatMap_cons, List.count_append]
      omega
    | succ i =>
      simp only [List.getElem?_cons_succ] at at_i
      have := ih at_i
      simp only [List.set_cons_succ, List.flatMap_cons, List.count_append]
      omega

/-- An item contributes at most what the whole concatenation has. -/
theorem count_le_flatMap {β : Type*} [DecidableEq β] (f : α → List β) {l : List α} {i : Nat}
    {a : α} (at_i : l[i]? = some a) (b : β) : (f a).count b ≤ (l.flatMap f).count b := by
  have change := count_flatMap_set f at_i a b
  have same : l.set i a = l := by
    obtain ⟨lt, eq⟩ := List.getElem?_eq_some_iff.mp at_i
    rw [← eq]
    exact List.set_getElem_self lt
  rw [same] at change
  induction l generalizing i with
  | nil => simp at at_i
  | cons c l ih =>
    cases i with
    | zero =>
      simp only [List.getElem?_cons_zero, Option.some.injEq] at at_i
      subst at_i
      simp
    | succ i =>
      simp only [List.getElem?_cons_succ] at at_i
      simp only [List.flatMap_cons, List.count_append]
      have := ih at_i rfl (by simpa using congrArg List.tail same)
      omega

end Count
