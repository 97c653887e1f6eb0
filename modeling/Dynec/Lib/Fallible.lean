import Mathlib.Tactic.Common
import Mathlib.Data.List.Forall2

/-!
# Computations that may fail

Rules for computations in `Except`: a computation that returns has returned at
each of its steps, and a fold is followed item by item, either from a result
back to the start (`foldlM_ok`) or from an invariant to a result
(`foldlM_total`, `foldlM_returns`). `Exactly` says when a computation returns and with what
result. Two computations in `Lockstep` both return or both fail.
-/

namespace Fallible

universe u

variable {ε : Type*} {α : Type*} {σ τ : Type u}

theorem bind_eq_ok {x : Except ε σ} {f : σ → Except ε τ} {b : τ} :
    (x >>= f) = .ok b ↔ ∃ a, x = .ok a ∧ f a = .ok b := by
  cases x with
  | ok a =>
    constructor
    · intro h; exact ⟨a, rfl, h⟩
    · rintro ⟨a', ha, h⟩; cases ha; exact h
  | error e =>
    constructor
    · intro h; cases h
    · rintro ⟨_, h, _⟩; cases h

theorem map_eq_ok {x : Except ε σ} {f : σ → τ} {b : τ} :
    f <$> x = .ok b ↔ ∃ a, x = .ok a ∧ f a = b := by
  cases x with
  | ok a =>
    constructor
    · intro h; exact ⟨a, rfl, Except.ok.inj h⟩
    · rintro ⟨_, ha, rfl⟩; cases ha; rfl
  | error e =>
    constructor
    · intro h; cases h
    · rintro ⟨_, h, _⟩; cases h

@[simp] theorem pure_eq_ok (a : σ) : (pure a : Except ε σ) = .ok a := rfl

@[simp] theorem ok_bind (a : σ) (f : σ → Except ε τ) : (Except.ok a >>= f) = f a := rfl

@[simp] theorem error_bind (e : ε) (f : σ → Except ε τ) :
    ((Except.error e : Except ε σ) >>= f) = .error e := rfl

/-- A function that carries each step over carries the computation over. -/
theorem map_bind_of {σ' τ' : Type u} {x : Except ε σ} {x' : Except ε σ'} {f : σ → Except ε τ}
    {f' : σ' → Except ε τ'} {g : σ → σ'} {h : τ → τ'} (first : g <$> x = x')
    (next : ∀ a, h <$> f a = f' (g a)) : h <$> (x >>= f) = x' >>= f' := by
  subst first
  cases x with
  | ok a => exact next a
  | error e => rfl

theorem forM_ok {l : List α} {f : α → Except ε PUnit.{u + 1}} (h : l.forM f = .ok ⟨⟩) :
    ∀ a ∈ l, f a = .ok ⟨⟩ := by
  induction l with
  | nil => simp
  | cons a l ih =>
    change (f a >>= fun _ => l.forM f) = .ok ⟨⟩ at h
    obtain ⟨⟨⟩, ha, h⟩ := bind_eq_ok.mp h
    exact List.forall_mem_cons.mpr ⟨ha, ih h⟩

theorem mapM_ok {β : Type u} {f : α → Except ε β} {g : α → β} {l : List α}
    (h : ∀ a ∈ l, f a = .ok (g a)) : l.mapM f = .ok (l.map g) := by
  induction l with
  | nil => rfl
  | cons a l ih =>
    obtain ⟨ha, hl⟩ := List.forall_mem_cons.mp h
    rw [List.mapM_cons, ha, ok_bind, ih hl]
    rfl

theorem mem_of_mapM {β : Type u} {f : α → Except ε β} {l : List α} {r : List β}
    (h : l.mapM f = .ok r) : ∀ b ∈ r, ∃ a ∈ l, f a = .ok b := by
  induction l generalizing r with
  | nil =>
    cases h
    exact nofun
  | cons a l ih =>
    rw [List.mapM_cons] at h
    obtain ⟨b, hb, h⟩ := bind_eq_ok.mp h
    obtain ⟨rest, hr, h⟩ := bind_eq_ok.mp h
    cases h
    refine List.forall_mem_cons.mpr ⟨⟨a, .head _, hb⟩, fun c hc => ?_⟩
    obtain ⟨a', ha', run⟩ := ih hr c hc
    exact ⟨a', .tail _ ha', run⟩

/-- Follow a fold that returned. The invariant names the items done so far, and
a step knows where in the list it is. -/
theorem foldlM_ok_split {f : σ → α → Except ε σ} {l : List α} {s t : σ}
    (h : l.foldlM f s = .ok t) (motive : List α → σ → Prop) (start : motive [] s)
    (step : ∀ past a rest s s', l = past ++ a :: rest → motive past s → f s a = .ok s' →
      motive (past ++ [a]) s') : motive l t := by
  have run : ∀ rest past s, l = past ++ rest → motive past s →
      rest.foldlM f s = .ok t → motive (past ++ rest) t := by
    intro rest
    induction rest with
    | nil => intro past s _ hp h; cases h; simpa using hp
    | cons a rest ih =>
      intro past s split hp h
      rw [List.foldlM_cons] at h
      obtain ⟨s', hs, h⟩ := bind_eq_ok.mp h
      have next := step past a rest s s' split hp hs
      simpa using ih (past ++ [a]) s' (by simp [split]) next h
  exact run l [] s rfl start h

/-- Follow a fold that returned. The invariant names the items done so far. -/
theorem foldlM_ok {f : σ → α → Except ε σ} {l : List α} {s t : σ}
    (h : l.foldlM f s = .ok t) (motive : List α → σ → Prop) (start : motive [] s)
    (step : ∀ past a s s', a ∈ l → motive past s → f s a = .ok s' → motive (past ++ [a]) s') :
    motive l t := by
  apply foldlM_ok_split h motive start
  intro past a rest s s' split hp hs
  exact step past a s s' (by simp [split]) hp hs

/-- A fold whose invariant lets every step return returns. The invariant names
the items still to do. -/
theorem foldlM_total {f : σ → α → Except ε σ} {l : List α} {s : σ}
    (motive : List α → σ → Prop) (start : motive l s)
    (step : ∀ a rest s, motive (a :: rest) s → ∃ s', f s a = .ok s' ∧ motive rest s') :
    ∃ t, l.foldlM f s = .ok t ∧ motive [] t := by
  induction l generalizing s with
  | nil => exact ⟨s, rfl, start⟩
  | cons a l ih =>
    obtain ⟨s', hs, next⟩ := step a l s start
    obtain ⟨t, ht, last⟩ := ih next
    exact ⟨t, by rw [List.foldlM_cons, hs]; exact ht, last⟩

/-- A fold of steps that return and keep an invariant returns. -/
theorem foldlM_returns {f : σ → α → Except ε σ} {l : List α} {s : σ} (motive : σ → Prop)
    (start : motive s) (step : ∀ a ∈ l, ∀ s, motive s → ∃ s', f s a = .ok s' ∧ motive s') :
    ∃ t, l.foldlM f s = .ok t ∧ motive t := by
  obtain ⟨t, run, -, last⟩ := foldlM_total (f := f) (l := l) (s := s)
    (fun rest s => (∀ a ∈ rest, a ∈ l) ∧ motive s) ⟨fun _ member => member, start⟩ (by
      rintro a rest s ⟨inside, before⟩
      obtain ⟨here, later⟩ := List.forall_mem_cons.mp inside
      obtain ⟨s', run, after⟩ := step a here s before
      exact ⟨s', run, later, after⟩)
  exact ⟨t, run, last⟩

/-- A fold whose invariant tells at each item whether the step returns: it
returns, or it fails at one of its items. -/
theorem foldlM_cases {f : σ → α → Except ε σ} {l : List α} {s : σ} (motive : List α → σ → Prop)
    (fails : α → ε → Prop) (start : motive [] s)
    (step : ∀ past a rest s, l = past ++ a :: rest → motive past s →
      (∃ e, f s a = .error e ∧ fails a e) ∨ ∃ s', f s a = .ok s' ∧ motive (past ++ [a]) s') :
    (∃ e, l.foldlM f s = .error e ∧ ∃ a ∈ l, fails a e) ∨
      ∃ t, l.foldlM f s = .ok t ∧ motive l t := by
  have run : ∀ rest past s, l = past ++ rest → motive past s →
      (∃ e, rest.foldlM f s = .error e ∧ ∃ a ∈ rest, fails a e) ∨
        ∃ t, rest.foldlM f s = .ok t ∧ motive (past ++ rest) t := by
    intro rest
    induction rest with
    | nil => intro past s _ hp; exact .inr ⟨s, rfl, by simpa using hp⟩
    | cons a rest ih =>
      intro past s split hp
      rw [List.foldlM_cons]
      rcases step past a rest s split hp with ⟨e, failed, why⟩ | ⟨s', hs, next⟩
      · exact .inl ⟨e, by rw [failed]; rfl, a, .head _, why⟩
      · rw [hs]
        rcases ih (past ++ [a]) s' (by simp [split]) next with ⟨e, failed, b, member, why⟩ | ⟨t, ht, last⟩
        · exact .inl ⟨e, failed, b, .tail _ member, why⟩
        · exact .inr ⟨t, ht, by simpa using last⟩
  exact run l [] s rfl start

/-! ## When a computation returns -/

/-- The computation returns exactly if `p` holds, and then its result satisfies
`Q`. -/
structure Exactly (p : Prop) (x : Except ε σ) (Q : σ → Prop) : Prop where
  returns : p → ∃ a, x = .ok a ∧ Q a
  fails : ¬ p → ∃ e, x = .error e

namespace Exactly

variable {p q : Prop} {x : Except ε σ} {Q : σ → Prop}

theorem ok {a : σ} (holds : p) (result : Q a) : Exactly p (.ok a : Except ε σ) Q :=
  ⟨fun _ => ⟨a, rfl, result⟩, fun fails => absurd holds fails⟩

theorem error {e : ε} (fails : ¬ p) : Exactly p (.error e) Q :=
  ⟨fun holds => absurd holds fails, fun _ => ⟨e, rfl⟩⟩

theorem of_ok {a : σ} (h : Exactly p x Q) (returned : x = .ok a) : p ∧ Q a := by
  by_cases holds : p
  · obtain ⟨b, returned', result⟩ := h.returns holds
    cases returned.symm.trans returned'
    exact ⟨holds, result⟩
  · obtain ⟨e, failed⟩ := h.fails holds
    cases returned.symm.trans failed

theorem mono (h : Exactly p x Q) (condition : p ↔ q) {Q' : σ → Prop} (weaker : ∀ a, Q a → Q' a) :
    Exactly q x Q' := by
  refine ⟨fun holds => ?_, fun fails => h.fails fun holds => fails (condition.mp holds)⟩
  obtain ⟨a, returned, result⟩ := h.returns (condition.mpr holds)
  exact ⟨a, returned, weaker a result⟩

theorem bind {f : σ → Except ε τ} {S : τ → Prop} (h : Exactly p x Q)
    (next : ∀ a, Q a → Exactly q (f a) S) : Exactly (p ∧ q) (x >>= f) S := by
  by_cases holds : p
  · obtain ⟨a, returned, result⟩ := h.returns holds
    rw [returned, ok_bind]
    exact (next a result).mono (by simp [holds]) fun _ last => last
  · obtain ⟨e, failed⟩ := h.fails holds
    rw [failed, error_bind]
    exact .error fun both => holds both.1

/-- A computation that always returns. -/
theorem bind_pure {f : σ → τ} {S : τ → Prop} (h : Exactly p x Q) (next : ∀ a, Q a → S (f a)) :
    Exactly p (x >>= fun a => pure (f a)) S :=
  (h.bind fun a result => Exactly.ok trivial (next a result)).mono (and_iff_left trivial)
    fun _ last => last

theorem map {f : σ → τ} {S : τ → Prop} (h : Exactly p x Q) (next : ∀ a, Q a → S (f a)) :
    Exactly p (f <$> x) S := by
  rw [map_eq_pure_bind]
  exact h.bind_pure next

theorem mapM {α β : Type*} {γ : Type u} {R : α → β → Prop} {p : α → Prop}
    {f : β → Except ε γ} {Q : α → γ → Prop} {as : List α} {bs : List β}
    (related : List.Forall₂ R as bs)
    (step : ∀ a ∈ as, ∀ b, R a b → Exactly (p a) (f b) (Q a)) :
    Exactly (∀ a ∈ as, p a) (bs.mapM f) (List.Forall₂ Q as) := by
  induction related with
  | nil => exact .ok nofun .nil
  | @cons a b as bs here _ ih =>
    rw [List.mapM_cons]
    have first := step a (.head _) b here
    have rest := ih fun a' member => step a' (.tail _ member)
    refine (first.bind fun c result => rest.bind_pure fun cs results => ?_).mono
      List.forall_mem_cons.symm fun _ last => last
    exact .cons result results

end Exactly

/-! ## Two computations -/

variable {σ' τ' : Type u} {R : σ → σ' → Prop} {S : τ → τ' → Prop}

/-- Both computations return, with related results, or both fail. -/
inductive Lockstep (R : σ → σ' → Prop) : Except ε σ → Except ε σ' → Prop
  | ok {a b} (related : R a b) : Lockstep R (.ok a) (.ok b)
  | error (e e' : ε) : Lockstep R (.error e) (.error e')

theorem Lockstep.refl {R : σ → σ → Prop} (h : ∀ a, R a a) (x : Except ε σ) : Lockstep R x x := by
  cases x with
  | ok a => exact .ok (h a)
  | error e => exact .error e e

theorem Lockstep.bind {x : Except ε σ} {y : Except ε σ'} {f : σ → Except ε τ}
    {g : σ' → Except ε τ'} (h : Lockstep R x y)
    (next : ∀ a b, x = .ok a → R a b → Lockstep S (f a) (g b)) :
    Lockstep S (x >>= f) (y >>= g) := by
  cases h with
  | ok related => exact next _ _ rfl related
  | error e e' => exact .error e e'

theorem Lockstep.foldlM {f : σ → α → Except ε σ} {g : σ' → α → Except ε σ'} {l : List α} {s : σ}
    {t : σ'} (start : R s t) (step : ∀ a ∈ l, ∀ s t, R s t → Lockstep R (f s a) (g t a)) :
    Lockstep R (l.foldlM f s) (l.foldlM g t) := by
  induction l generalizing s t with
  | nil => exact .ok start
  | cons a l ih =>
    rw [List.foldlM_cons, List.foldlM_cons]
    apply (step a (.head _) s t start).bind
    intro s' t' _ related
    exact ih related fun b member => step b (.tail _ member)

theorem Lockstep.of_ok {x : Except ε σ} {y : Except ε σ'} {a : σ} (h : Lockstep R x y)
    (returned : x = .ok a) : ∃ b, y = .ok b ∧ R a b := by
  cases h with
  | ok related =>
    cases returned
    exact ⟨_, rfl, related⟩
  | error => cases returned

theorem Lockstep.to_ok {x : Except ε σ} {y : Except ε σ'} {b : σ'} (h : Lockstep R x y)
    (returned : y = .ok b) : ∃ a, x = .ok a ∧ R a b := by
  cases h with
  | ok related =>
    cases returned
    exact ⟨_, rfl, related⟩
  | error => cases returned

/-- Two computations with known results. -/
theorem Lockstep.iff_exactly {p q : Prop} {x : Except ε σ} {y : Except ε σ'} {P : σ → Prop}
    {Q : σ' → Prop} {r : Prop} (hx : Exactly p x P) (hy : Exactly q y Q)
    (results : ∀ a b, P a → Q b → (R a b ↔ r)) :
    Lockstep R x y ↔ (p ↔ q) ∧ (p → r) := by
  by_cases holds : p
  · obtain ⟨a, rfl, first⟩ := hx.returns holds
    by_cases holds' : q
    · obtain ⟨b, rfl, second⟩ := hy.returns holds'
      constructor
      · rintro ⟨same⟩
        exact ⟨iff_of_true holds holds', fun _ => (results a b first second).mp same⟩
      · rintro ⟨-, same⟩
        exact .ok ((results a b first second).mpr (same holds))
    · obtain ⟨e, rfl⟩ := hy.fails holds'
      refine ⟨nofun, fun both => absurd (both.1.mp holds) holds'⟩
  · obtain ⟨e, rfl⟩ := hx.fails holds
    by_cases holds' : q
    · obtain ⟨b, rfl, second⟩ := hy.returns holds'
      refine ⟨nofun, fun both => absurd (both.1.mpr holds') holds⟩
    · obtain ⟨e', rfl⟩ := hy.fails holds'
      exact ⟨fun _ => ⟨iff_of_false holds holds', fun yes => absurd yes holds⟩, fun _ => .error e e'⟩

end Fallible
