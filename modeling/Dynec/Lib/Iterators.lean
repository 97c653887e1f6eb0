import Dynec.Lib.Fallible

/-!
# Iterators that may fail

An iterator is a state and a function that yields the next item or nothing.
What it yields until then is a list, which does not depend on the number of
calls allowed for collecting it.
-/

namespace Iterators

open Fallible

variable {ε σ α : Type}

section

variable (next : σ → Except ε (Option α × σ))

/-- The iterator yields the items of a list, and then nothing. -/
inductive Yields : σ → List α → σ → Prop
  | done {s t : σ} (step : next s = .ok (none, t)) : Yields s [] t
  | item {s s' t : σ} {a : α} {l : List α} (step : next s = .ok (some a, s')) :
      Yields s' l t → Yields s (a :: l) t

/-- Call the iterator until it yields nothing, at most some number of times. -/
def collect (diverged : ε) : Nat → σ → Except ε (List α)
  | 0, _ => .error diverged
  | calls + 1, s => do
    match ← next s with
    | (none, _) => return []
    | (some a, s) =>
      let rest ← collect diverged calls s
      return a :: rest

/-- The next item that satisfies a predicate. -/
def find (p : α → Bool) (diverged : ε) : Nat → σ → Except ε (Option α × σ)
  | 0, _ => .error diverged
  | calls + 1, s => do
    match ← next s with
    | (none, s) => return (none, s)
    | (some a, s) => if p a then return (some a, s) else find p diverged calls s

end

variable {next : σ → Except ε (Option α × σ)} {s t : σ} {l : List α}

theorem Yields.collect (h : Yields next s l t) (diverged : ε) {calls : Nat}
    (enough : l.length < calls) : collect next diverged calls s = .ok l := by
  induction h generalizing calls with
  | done step =>
    obtain ⟨calls, rfl⟩ := Nat.exists_eq_add_one_of_ne_zero (Nat.ne_zero_of_lt enough)
    rw [Iterators.collect, step]
    rfl
  | item step _ ih =>
    obtain ⟨calls, rfl⟩ := Nat.exists_eq_add_one_of_ne_zero (Nat.ne_zero_of_lt enough)
    rw [Iterators.collect, step, ok_bind]
    dsimp only
    rw [ih (Nat.lt_of_succ_lt_succ enough)]
    rfl

/-- The first item that satisfies the predicate, and what is left. -/
theorem Yields.find (h : Yields next s l t) (p : α → Bool) (diverged : ε) {calls : Nat}
    (enough : l.length < calls) :
    (l.filter p = [] ∧ find next p diverged calls s = .ok (none, t)) ∨
      ∃ a rest s', l.filter p = a :: rest.filter p ∧ rest.length < l.length ∧
        find next p diverged calls s = .ok (some a, s') ∧ Yields next s' rest t := by
  induction h generalizing calls with
  | done step =>
    obtain ⟨calls, rfl⟩ := Nat.exists_eq_add_one_of_ne_zero (Nat.ne_zero_of_lt enough)
    refine .inl ⟨rfl, ?_⟩
    rw [Iterators.find, step]
    rfl
  | @item s s' t a l step later ih =>
    obtain ⟨calls, rfl⟩ := Nat.exists_eq_add_one_of_ne_zero (Nat.ne_zero_of_lt enough)
    rw [Iterators.find, step, ok_bind]
    dsimp only
    cases passes : p a with
    | true =>
      rw [List.filter_cons_of_pos passes]
      exact .inr ⟨a, l, s', rfl, Nat.lt_succ_self _, rfl, later⟩
    | false =>
      rw [List.filter_cons_of_neg (by simp [passes])]
      rcases ih (Nat.lt_of_succ_lt_succ enough) with none | ⟨b, rest, s'', same, fewer, found⟩
      · exact .inl none
      · exact .inr ⟨b, rest, s'', same, Nat.lt_succ_of_lt fewer, found⟩

/-- `Iterator::filter`, for an iterator with a bound on what it yields. -/
theorem Yields.filter {bound : σ → Nat}
    (enough : ∀ s l t, Yields next s l t → l.length < bound s) (h : Yields next s l t)
    (p : α → Bool) (diverged : ε) :
    Yields (fun s => Iterators.find next p diverged (bound s) s) s (l.filter p) t := by
  induction size : l.length using Nat.strongRecOn generalizing s l with
  | _ n ih =>
    rcases h.find p diverged (enough s l t h) with ⟨empty, step⟩ | ⟨a, rest, s', same, fewer, step, h'⟩
    · rw [empty]
      exact .done step
    · rw [same]
      exact .item step (ih _ (size ▸ fewer) h' rfl)

end Iterators
