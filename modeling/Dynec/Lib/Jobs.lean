import Mathlib.Logic.Relation
import Mathlib.Logic.Function.Basic
import Mathlib.Order.WellFounded

/-!
# Jobs under precedence and exclusion

What a scheduler of one cycle is for, with no queue and no counter: every job
runs once, after the jobs it comes after, and never beside a job it clashes
with. A job marked `instant` has no running time; it passes as soon as the
jobs before it are done.

* `exclusive`: two jobs that clash never run together;
* `ordered`: a job that has left `waiting` has everything before it done;
* `exists_ready`: if the order is well founded, some job is ready whenever
  something is left and nothing runs.
-/

namespace Jobs

inductive Status where
  | waiting
  | running
  | done
  deriving DecidableEq, Repr

end Jobs

/-- The rules of a cycle over jobs `N`. -/
structure Jobs (N : Type*) where
  before : N → N → Prop
  clash : N → N → Prop
  instant : N → Prop

namespace Jobs

variable {N : Type*} [DecidableEq N] (J : Jobs N)

/-- Every job ordered before `n` is done. -/
def Ready (s : N → Status) (n : N) : Prop := ∀ m, J.before m n → s m = .done

inductive Step : (N → Status) → (N → Status) → Prop
  | start (s : N → Status) (n : N) (waits : s n = .waiting) (lasting : ¬ J.instant n)
      (ready : J.Ready s n) (free : ∀ m, J.clash m n → s m ≠ .running) :
      Step s (Function.update s n .running)
  | finish (s : N → Status) (n : N) (runs : s n = .running) :
      Step s (Function.update s n .done)
  | pass (s : N → Status) (n : N) (waits : s n = .waiting) (instant : J.instant n)
      (ready : J.Ready s n) : Step s (Function.update s n .done)

/-- At the start only instant jobs are done, each after jobs that are done. -/
structure Initial (s : N → Status) : Prop where
  idle : ∀ n, s n ≠ .running
  ready : ∀ n, s n = .done → J.Ready s n

inductive Reachable : (N → Status) → Prop
  | start {s} : J.Initial s → Reachable s
  | next {s t} : Reachable s → J.Step s t → Reachable t

/-- A job that has left `waiting` is ready, and clashing jobs do not overlap. -/
structure Valid (s : N → Status) : Prop where
  ready : ∀ n, s n ≠ .waiting → J.Ready s n
  apart : ∀ a b, J.clash a b → a ≠ b → s a = .running → s b ≠ .running

variable {J}

/-- Jobs only move forward, so what is done before a step is done after it. -/
theorem step_done {s t : N → Status} (h : J.Step s t) {m : N} (hm : s m = .done) :
    t m = .done := by
  cases h with
  | start n waits =>
    by_cases e : m = n
    · subst e; simp [hm] at waits
    · simpa [e] using hm
  | finish n | pass n =>
    by_cases e : m = n
    · subst e; simp
    · simpa [e] using hm

theorem step_valid (symm : ∀ a b, J.clash a b → J.clash b a) {s t : N → Status}
    (h : J.Step s t) (hv : J.Valid s) : J.Valid t := by
  have keep : ∀ n, J.Ready s n → J.Ready t n := fun n hn m hm => step_done h (hn m hm)
  cases h with
  | start n waits lasting ready free =>
    constructor
    · intro k hk
      by_cases e : k = n
      · subst e; exact keep _ ready
      · exact keep k (hv.ready k (by simpa [e] using hk))
    · intro a b hc hab ha hb
      by_cases ea : a = n
      · subst ea
        have hb' : s b = .running := by simpa [Ne.symm hab] using hb
        exact free b (symm _ _ hc) hb'
      · have ha' : s a = .running := by simpa [ea] using ha
        by_cases eb : b = n
        · subst eb; exact free a hc ha'
        · exact hv.apart a b hc hab ha' (by simpa [eb] using hb)
  | finish n runs =>
    constructor
    · intro k hk
      by_cases e : k = n
      · subst e; exact keep _ (hv.ready _ (by simp [runs]))
      · exact keep k (hv.ready k (by simpa [e] using hk))
    · intro a b hc hab ha hb
      have ea : a ≠ n := by rintro rfl; simp at ha
      have eb : b ≠ n := by rintro rfl; simp at hb
      exact hv.apart a b hc hab (by simpa [ea] using ha) (by simpa [eb] using hb)
  | pass n waits instant ready =>
    constructor
    · intro k hk
      by_cases e : k = n
      · subst e; exact keep _ ready
      · exact keep k (hv.ready k (by simpa [e] using hk))
    · intro a b hc hab ha hb
      have ea : a ≠ n := by rintro rfl; simp at ha
      have eb : b ≠ n := by rintro rfl; simp at hb
      exact hv.apart a b hc hab (by simpa [ea] using ha) (by simpa [eb] using hb)

theorem reachable_valid (symm : ∀ a b, J.clash a b → J.clash b a) {s : N → Status}
    (h : J.Reachable s) : J.Valid s := by
  induction h with
  | start hi =>
    refine ⟨fun n hn => hi.ready n ?_, fun a _ _ _ ha => absurd ha (hi.idle a)⟩
    rename_i s
    cases hs : s n with
    | waiting => exact absurd hs hn
    | running => exact absurd hs (hi.idle n)
    | done => rfl
  | next _ step ih => exact step_valid symm step ih

/-- Steps taken one after another keep a state reachable. -/
theorem reachable_steps {s t : N → Status} (h : J.Reachable s)
    (steps : Relation.ReflTransGen J.Step s t) : J.Reachable t := by
  induction steps with
  | refl => exact h
  | tail _ step ih => exact .next ih step

/-- **Exclusion.** Clashing jobs never run together. -/
theorem exclusive (symm : ∀ a b, J.clash a b → J.clash b a) {s : N → Status}
    (h : J.Reachable s) {a b : N} (hc : J.clash a b) (hab : a ≠ b) :
    ¬ (s a = .running ∧ s b = .running) :=
  fun ⟨ha, hb⟩ => (reachable_valid symm h).apart a b hc hab ha hb

/-- **Order.** Once a job runs, everything ordered before it, along any chain,
is done. -/
theorem ordered (symm : ∀ a b, J.clash a b → J.clash b a) {s : N → Status}
    (h : J.Reachable s) {m n : N} (chain : Relation.TransGen J.before m n)
    (hn : s n ≠ .waiting) : s m = .done := by
  have hv := reachable_valid symm h
  induction chain using Relation.TransGen.head_induction_on with
  | single hb => exact hv.ready _ hn _ hb
  | head hb _ ih => exact hv.ready _ (by simp [ih]) _ hb

omit [DecidableEq N] in
/-- **Progress.** In a well-founded order, if some job is left and none runs,
a job is waiting with everything before it done. -/
theorem exists_ready (wf : WellFounded J.before) {s : N → Status} {k : N}
    (left : s k ≠ .done) (idle : ∀ n, s n ≠ .running) :
    ∃ n, s n = .waiting ∧ J.Ready s n := by
  obtain ⟨n, hn, least⟩ := wf.has_min {n | s n ≠ .done} ⟨k, left⟩
  refine ⟨n, ?_, fun m hm => by_contra fun hd => least m hd hm⟩
  cases hs : s n with
  | waiting => rfl
  | running => exact absurd hs (idle n)
  | done => exact absurd hs hn

end Jobs
