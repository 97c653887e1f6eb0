import Mathlib.Data.List.Pairwise
import Mathlib.Data.List.Perm.Basic
import Mathlib.Logic.Relation

/-!
# Work on a shared store

Jobs `N` share one store. A job works in atomic steps, and the steps of several
jobs may come in any order. Jobs that are `Apart` do not notice each other, and
then what each job did can be told as if the jobs had worked one at a time.

* `Trail.serial`: interleaved work is serial work in the order of the starts;
* `serial_perm`: orders that differ only between jobs apart end in one store.
-/

/-- The next atomic step of each job, if it is not at its end. -/
structure Work (N S : Type*) where
  step : N → S → Option S

namespace Work

variable {N S : Type*} (W : Work N S)

/-- A step of `m` neither ends nor changes the next step of `n`. -/
def Apart (m n : N) : Prop := ∀ s t, W.step m s = some t →
  (W.step n s = none → W.step n t = none) ∧
  ∀ u, W.step n s = some u → ∃ v, W.step n t = some v ∧ W.step m u = some v

/-- Some steps of one job. -/
abbrev Works (n : N) : S → S → Prop := Relation.ReflTransGen fun s t => W.step n s = some t

/-- All steps of one job, to its end. -/
def Completes (n : N) (s t : S) : Prop := W.Works n s t ∧ W.step n t = none

/-- The jobs work one at a time, each to its end. -/
inductive Serial : List N → S → S → Prop
  | nil (s : S) : Serial [] s s
  | cons {n : N} {ns : List N} {s t u : S} :
      W.Completes n s t → Serial ns t u → Serial (n :: ns) s u

/-- The jobs work one at a time, the last one first in the list. Those that have
`ended` are at their ends. -/
inductive Trail (ended : N → Prop) : List N → S → S → Prop
  | nil (s : S) : Trail ended [] s s
  | cons {n : N} {ns : List N} {s t u : S} : Trail ended ns s t → W.Works n t u →
      (ended n → W.step n u = none) → Trail ended (n :: ns) s u

variable {W}

/-! ## Jobs apart -/

theorem Apart.step_none {m n : N} {s t : S} (apart : W.Apart m n) (step : W.step m s = some t) :
    W.step n t = none ↔ W.step n s = none := by
  constructor
  · intro ends
    cases next : W.step n s with
    | none => rfl
    | some u =>
      obtain ⟨v, after, -⟩ := (apart s t step).2 u next
      rw [after] at ends
      cases ends
  · exact (apart s t step).1

theorem Apart.works_none {m n : N} {s t : S} (apart : W.Apart m n) (works : W.Works m s t) :
    W.step n t = none ↔ W.step n s = none := by
  induction works with
  | refl => rfl
  | tail _ step ih => rw [apart.step_none step, ih]

/-- A step of `n` after one of `m` can come before it. -/
theorem Apart.swap_step {m n : N} {s t u : S} (apart : W.Apart m n) (first : W.step m s = some t)
    (second : W.step n t = some u) : ∃ v, W.step n s = some v ∧ W.step m v = some u := by
  cases next : W.step n s with
  | none => rw [(apart.step_none first).mpr next] at second; cases second
  | some v =>
    obtain ⟨w, after, same⟩ := (apart s t first).2 v next
    rw [after, Option.some.injEq] at second
    subst second
    exact ⟨v, rfl, same⟩

theorem Apart.swap_works_step {m n : N} {s t u : S} (apart : W.Apart m n) (works : W.Works m s t)
    (step : W.step n t = some u) : ∃ v, W.step n s = some v ∧ W.Works m v u := by
  induction works generalizing u with
  | refl => exact ⟨u, step, .refl⟩
  | tail _ last ih =>
    obtain ⟨v, earlier, same⟩ := apart.swap_step last step
    obtain ⟨w, first, rest⟩ := ih earlier
    exact ⟨w, first, rest.tail same⟩

theorem Apart.swap_works {m n : N} {s t u : S} (apart : W.Apart m n) (first : W.Works m s t)
    (second : W.Works n t u) : ∃ v, W.Works n s v ∧ W.Works m v u := by
  induction second with
  | refl => exact ⟨s, .refl, first⟩
  | tail _ step ih =>
    obtain ⟨v, before, after⟩ := ih
    obtain ⟨w, next, rest⟩ := apart.swap_works_step after step
    exact ⟨w, before.tail next, rest⟩

theorem Apart.swap_completes {m n : N} {s t u : S} (apart : W.Apart m n) (apart' : W.Apart n m)
    (first : W.Completes m s t) (second : W.Completes n t u) :
    ∃ v, W.Completes n s v ∧ W.Completes m v u := by
  obtain ⟨v, before, after⟩ := apart.swap_works first.1 second.1
  refine ⟨v, ⟨before, ?_⟩, after, ?_⟩
  · exact (apart.works_none after).mp second.2
  · exact (apart'.works_none second.1).mpr first.2

theorem completes_unique {n : N} {s t u : S} (first : W.Completes n s t)
    (second : W.Completes n s u) : t = u := by
  obtain ⟨works, ends⟩ := first
  induction works using Relation.ReflTransGen.head_induction_on with
  | refl =>
    rcases second.1.cases_head with same | ⟨v, step, -⟩
    · exact same
    · rw [ends] at step; cases step
  | head step _ ih =>
    rcases second.1.cases_head with same | ⟨v, step', rest⟩
    · rw [same, second.2] at step; cases step
    · rw [step, Option.some.injEq] at step'
      subst step'
      exact ih ⟨rest, second.2⟩

/-! ## From interleaved to serial -/

theorem serial_concat {n : N} {ns : List N} {s t u : S} (serial : W.Serial ns s t)
    (last : W.Completes n t u) : W.Serial (ns ++ [n]) s u := by
  induction serial with
  | nil s => exact .cons last (.nil _)
  | cons first _ ih => exact .cons first (ih last)

namespace Trail

variable {ended ended' : N → Prop} {ns : List N} {s t u : S} {n : N}

theorem start (trail : W.Trail ended ns s t) (n : N) (running : ¬ ended n) :
    W.Trail ended (n :: ns) s t :=
  .cons trail .refl fun gone => absurd gone running

/-- A step of a job joins the work of that job when the jobs that started after
it are apart from it. -/
theorem act (trail : W.Trail ended ns s t) (listed : n ∈ ns) (running : ¬ ended n)
    (apart : ns.Pairwise fun later earlier => earlier = n → W.Apart later n ∧ W.Apart n later)
    (step : W.step n t = some u) : W.Trail ended ns s u := by
  induction trail generalizing u with
  | nil => cases listed
  | @cons k ks s t u' before works ends ih =>
    obtain ⟨later, apart⟩ := List.pairwise_cons.mp apart
    by_cases same : k = n
    · subst same
      exact .cons before (works.tail step) fun gone => absurd gone running
    · have listed := (List.mem_cons.mp listed).resolve_left (Ne.symm same)
      obtain ⟨forth, back⟩ := later n listed rfl
      obtain ⟨v, earlier, rest⟩ := forth.swap_works_step works step
      exact .cons (ih listed apart earlier) rest
        fun gone => (back.step_none step).mpr (ends gone)

theorem mono (trail : W.Trail ended ns s t) (fewer : ∀ k ∈ ns, ended' k → ended k) :
    W.Trail ended' ns s t := by
  induction trail with
  | nil => exact .nil _
  | cons _ works ends ih =>
    apply Trail.cons (ih fun k listed => fewer k (List.mem_cons_of_mem _ listed)) works
    exact fun gone => ends (fewer _ List.mem_cons_self gone)

/-- A job with no step left had none left at the end of its own work. -/
theorem finish (trail : W.Trail ended ns s t)
    (apart : ns.Pairwise fun later earlier => earlier = n → W.Apart later n)
    (ends : W.step n t = none) : W.Trail (fun k => ended k ∨ k = n) ns s t := by
  induction trail with
  | nil => exact .nil _
  | @cons k ks s t u before works done ih =>
    obtain ⟨later, apart⟩ := List.pairwise_cons.mp apart
    have here : ended k ∨ k = n → W.step k u = none := by
      rintro (gone | rfl)
      · exact done gone
      · exact ends
    apply Trail.cons ?_ works here
    by_cases listed : n ∈ ks
    · exact ih apart (((later n listed rfl).works_none works).mp ends)
    · apply before.mono
      rintro j among (gone | rfl)
      · exact gone
      · exact absurd among listed

/-- When every job has ended, the work is serial in the order of the starts. -/
theorem serial (trail : W.Trail ended ns s t) (all : ∀ n ∈ ns, ended n) :
    W.Serial ns.reverse s t := by
  induction trail with
  | nil s => exact .nil s
  | cons _ works ends ih =>
    rw [List.reverse_cons]
    apply serial_concat (ih fun k listed => all k (List.mem_cons_of_mem _ listed))
    exact ⟨works, ends (all _ List.mem_cons_self)⟩

end Trail

/-! ## From one serial order to another -/

/-- A job comes to the front past the jobs apart from it. -/
theorem Serial.front {n : N} {before after : List N} {s u : S}
    (serial : W.Serial (before ++ n :: after) s u)
    (apart : ∀ m ∈ before, W.Apart m n ∧ W.Apart n m) :
    W.Serial (n :: (before ++ after)) s u := by
  induction before generalizing s with
  | nil => exact serial
  | cons m before ih =>
    cases serial with
    | cons first rest =>
      cases ih rest fun k listed => apart k (List.mem_cons_of_mem _ listed) with
      | cons second rest =>
        obtain ⟨forth, back⟩ := apart m List.mem_cons_self
        obtain ⟨v, second, first⟩ := forth.swap_completes back first second
        exact .cons second (.cons first rest)

/-- Two serial orders of the same jobs end in the same store if jobs that are
not apart come in the same order in both. -/
theorem serial_perm {before : N → N → Prop} {ms ns : List N} {s t u : S}
    (apart : ∀ m n, m ≠ n → W.Apart m n ∨ before m n ∨ before n m)
    (perm : ms.Perm ns) (nodup : ms.Nodup)
    (first : ms.Pairwise fun m n => ¬ before n m) (second : ns.Pairwise fun m n => ¬ before n m)
    (serial : W.Serial ms s t) (serial' : W.Serial ns s u) : t = u := by
  induction ms generalizing ns s with
  | nil =>
    rw [List.nil_perm.mp perm] at serial'
    cases serial
    cases serial'
    rfl
  | cons m ms ih =>
    obtain ⟨unlisted, nodup⟩ := List.nodup_cons.mp nodup
    obtain ⟨after, first⟩ := List.pairwise_cons.mp first
    obtain ⟨front, back, rfl⟩ := List.append_of_mem (perm.subset List.mem_cons_self)
    have rest := List.perm_cons m |>.mp (perm.trans List.perm_middle)
    have moved : W.Serial (m :: (front ++ back)) s u := by
      apply serial'.front
      intro k listed
      have among : k ∈ ms := rest.symm.subset (List.mem_append_left _ listed)
      have differ : k ≠ m := fun same => unlisted (same ▸ among)
      have late : ¬ before k m := after k among
      have early : ¬ before m k :=
        (List.pairwise_append.mp second).2.2 k listed m List.mem_cons_self
      constructor
      · exact (apart k m differ).resolve_right (not_or.mpr ⟨late, early⟩)
      · exact (apart m k differ.symm).resolve_right (not_or.mpr ⟨early, late⟩)
    cases serial with
    | cons done serial =>
      cases moved with
      | cons done' serial' =>
        rw [completes_unique done' done] at serial'
        apply ih rest nodup first ?_ serial serial'
        exact second.sublist (List.Sublist.append_left (List.sublist_cons_self _ _) _)

end Work
