import Dynec.Lib.Fallible
import Dynec.Lib.SortedMap

/-!
# Runs of a partial function

A run is a stretch of indices at which a partial function is defined, given by
its first index and its values. The maximal runs in ascending order determine
the function.
-/

namespace Runs

open Fallible

variable {β γ : Type}

/-- The runs of a function from an index on. The function is not defined right
after a run, and not before the first one. -/
inductive RunsFrom (f : Nat → Option β) : Nat → List (Nat × List β) → Prop
  | done {start : Nat} (rest : ∀ i, start ≤ i → f i = none) : RunsFrom f start []
  | run {start first : Nat} {values : List β} {runs : List (Nat × List β)} (le : start ≤ first)
      (gap : ∀ i, start ≤ i → i < first → f i = none) (nonempty : values ≠ [])
      (found : values.map some = (List.range' first values.length).map f)
      (ended : f (first + values.length) = none) :
      RunsFrom f (first + values.length + 1) runs → RunsFrom f start ((first, values) :: runs)

/-- All maximal runs of a function, in ascending order. -/
structure Maximal (f : Nat → Option β) (runs : List (Nat × List β)) : Prop where
  nonempty : ∀ run ∈ runs, run.2 ≠ []
  found : ∀ run ∈ runs, run.2.map some = (List.range' run.1 run.2.length).map f
  begun : ∀ run ∈ runs, run.1 = 0 ∨ f (run.1 - 1) = none
  ended : ∀ run ∈ runs, f (run.1 + run.2.length) = none
  ascending : runs.Pairwise fun a b => a.1 + a.2.length < b.1
  covering : ∀ i, (f i).isSome = true → ∃ run ∈ runs, run.1 ≤ i ∧ i < run.1 + run.2.length

/-- The indices and values of the runs, one by one. -/
def entries (runs : List (Nat × List β)) : List (Nat × β) :=
  runs.flatMap fun run => (List.range' run.1 run.2.length).zip run.2

theorem mem_run {f : Nat → Option β} {first : Nat} {values : List β}
    (found : values.map some = (List.range' first values.length).map f) {e : Nat × β} :
    e ∈ (List.range' first values.length).zip values ↔
      first ≤ e.1 ∧ e.1 < first + values.length ∧ f e.1 = some e.2 := by
  have value : ∀ i (inside : i < values.length), f (first + i) = some values[i] := by
    intro i inside
    have at' := congrArg (·[i]?) found
    simpa [List.getElem?_range' inside, inside] using at'.symm
  rw [List.mem_iff_getElem]
  constructor
  · rintro ⟨i, inside, rfl⟩
    have inside' : i < values.length := by simpa using inside
    have here := value i inside'
    simp only [List.getElem_zip, List.getElem_range', Nat.one_mul]
    exact ⟨by omega, by omega, here⟩
  · rintro ⟨above, below, here⟩
    have inside : e.1 - first < values.length := by omega
    have there := value _ inside
    rw [Nat.add_sub_cancel' above, here] at there
    refine ⟨e.1 - first, by simpa using inside, ?_⟩
    rw [List.getElem_zip, List.getElem_range', Nat.one_mul, Nat.add_sub_cancel' above,
      ← Option.some.inj there]

namespace RunsFrom

variable {f : Nat → Option β} {start : Nat} {runs : List (Nat × List β)}

/-- The function may be undefined for longer before the first run. -/
theorem lower {start' : Nat} (le : start ≤ start') (gap : ∀ i, start ≤ i → i < start' → f i = none)
    (h : RunsFrom f start' runs) : RunsFrom f start runs := by
  cases h with
  | done rest =>
    refine .done fun i above => ?_
    rcases Nat.lt_or_ge i start' with below | beyond
    · exact gap i above below
    · exact rest i beyond
  | run le' gap' nonempty found ended rest =>
    refine .run (Nat.le_trans le le') (fun i above below => ?_) nonempty found ended rest
    rcases Nat.lt_or_ge i start' with below' | beyond
    · exact gap i above below'
    · exact gap' i beyond below

theorem above (h : RunsFrom f start runs) : ∀ run ∈ runs, start ≤ run.1 := by
  induction h with
  | done rest => exact nofun
  | run le _ _ _ _ _ ih =>
    refine List.forall_mem_cons.mpr ⟨le, fun run member => ?_⟩
    have := ih run member
    omega

theorem begun (h : RunsFrom f start runs) :
    ∀ run ∈ runs, run.1 = start ∨ f (run.1 - 1) = none := by
  induction h with
  | done rest => exact nofun
  | @run start first values runs le gap _ _ ended rest ih =>
    refine List.forall_mem_cons.mpr ⟨?_, fun run member => ?_⟩
    · rcases Nat.eq_or_lt_of_le le with same | less
      · exact .inl same.symm
      · exact .inr (gap _ (Nat.le_sub_one_of_lt less) (Nat.sub_one_lt_of_lt less))
    · rcases ih run member with same | none
      · right
        rw [same]
        exact ended
      · exact .inr none

theorem mem_entries (h : RunsFrom f start runs) {e : Nat × β} :
    e ∈ entries runs ↔ start ≤ e.1 ∧ f e.1 = some e.2 := by
  induction h with
  | done rest =>
    refine ⟨nofun, fun ⟨above, found⟩ => ?_⟩
    rw [rest _ above] at found
    cases found
  | @run start first values runs le gap _ found ended _ ih =>
    rw [entries, List.flatMap_cons, List.mem_append, mem_run found]
    change _ ∨ e ∈ entries runs ↔ _
    rw [ih]
    constructor
    · rintro (⟨above, -, here⟩ | ⟨above, here⟩)
      · exact ⟨Nat.le_trans le above, here⟩
      · exact ⟨by omega, here⟩
    · rintro ⟨above, here⟩
      have inside : first ≤ e.1 := by
        by_contra below
        rw [gap _ above (Nat.lt_of_not_le below)] at here
        cases here
      have other : e.1 ≠ first + values.length := by
        intro same
        rw [same, ended] at here
        cases here
      rcases Nat.lt_or_ge e.1 (first + values.length) with below | beyond
      · exact .inl ⟨inside, below, here⟩
      · exact .inr ⟨by omega, here⟩

theorem entries_sorted (h : RunsFrom f start runs) :
    (entries runs).Pairwise fun a b => a.1 < b.1 := by
  induction h with
  | done rest => exact .nil
  | @run start first values runs le gap _ found ended rest ih =>
    rw [entries, List.flatMap_cons]
    refine List.pairwise_append.mpr ⟨?_, ih, fun a ha b hb => ?_⟩
    · rw [← List.pairwise_map (f := Prod.fst) (R := fun i j => i < j),
        List.map_fst_zip (by simp)]
      exact List.pairwise_lt_range'
    · have := (mem_run found).mp ha
      have := rest.mem_entries.mp hb
      omega

theorem each (h : RunsFrom f start runs) : ∀ run ∈ runs, run.2 ≠ [] ∧
    run.2.map some = (List.range' run.1 run.2.length).map f ∧ f (run.1 + run.2.length) = none := by
  induction h with
  | done rest => exact nofun
  | run _ _ nonempty found ended _ ih =>
    exact List.forall_mem_cons.mpr ⟨⟨nonempty, found, ended⟩, ih⟩

theorem ascending (h : RunsFrom f start runs) :
    runs.Pairwise fun a b => a.1 + a.2.length < b.1 := by
  induction h with
  | done rest => exact .nil
  | run _ _ _ _ _ rest ih =>
    exact List.pairwise_cons.mpr ⟨fun later member => rest.above later member, ih⟩

theorem covering (h : RunsFrom f start runs) {i : Nat} (above : start ≤ i)
    (found : (f i).isSome = true) : ∃ run ∈ runs, run.1 ≤ i ∧ i < run.1 + run.2.length := by
  obtain ⟨value, found⟩ := Option.isSome_iff_exists.mp found
  have listed : (i, value) ∈ entries runs := h.mem_entries.mpr ⟨above, found⟩
  obtain ⟨run, member, here⟩ := List.mem_flatMap.mp listed
  have inside := (List.of_mem_zip here).1
  rw [List.mem_range'_1] at inside
  exact ⟨run, member, inside⟩

theorem maximal (h : RunsFrom f 0 runs) : Maximal f runs where
  nonempty := fun run member => (h.each run member).1
  found := fun run member => (h.each run member).2.1
  begun := h.begun
  ended := fun run member => (h.each run member).2.2
  ascending := h.ascending
  covering := fun i => h.covering (Nat.zero_le i)

/-- The runs of a function, moved up. -/
theorem shift (h : RunsFrom f start runs) (offset : Nat) :
    RunsFrom (fun i => if offset ≤ i then f (i - offset) else none) (start + offset)
      (runs.map fun run => (run.1 + offset, run.2)) := by
  have moved : ∀ i, (if offset ≤ i + offset then f (i + offset - offset) else none) = f i := by
    intro i
    rw [if_pos (Nat.le_add_left ..), Nat.add_sub_cancel]
  have back : ∀ i, start + offset ≤ i → ∃ j, i = j + offset ∧ start ≤ j := fun i above =>
    ⟨i - offset, by omega, by omega⟩
  induction h with
  | done rest =>
    refine .done fun i above => ?_
    obtain ⟨j, rfl, low⟩ := back i above
    rw [moved]
    exact rest j low
  | @run start first values runs le gap nonempty found ended _ ih =>
    refine .run (Nat.add_le_add_right le offset) (fun i above below => ?_) nonempty ?_ ?_ ?_
    · obtain ⟨j, rfl, low⟩ := back i above
      rw [moved]
      exact gap j low (Nat.lt_of_add_lt_add_right below)
    · rw [found, Nat.add_comm first, ← List.map_add_range', List.map_map]
      apply List.map_congr_left
      intro i _
      rw [Function.comp_apply, Nat.add_comm offset]
      exact (moved i).symm
    · rw [Nat.add_right_comm, moved]
      exact ended
    · have later := ih fun i above => ⟨i - offset, by omega, by omega⟩
      simpa only [Nat.add_right_comm _ offset] using later

/-- Values that are read one by one. -/
theorem read {ε : Type} {g : Nat → Option γ} {read : β → Except ε γ}
    (value : ∀ i b, f i = some b → ∃ c, read b = .ok c ∧ g i = some c) {ids : List Nat}
    {values : List β} (found : values.map some = ids.map f) :
    ∃ values', values.mapM read = .ok values' ∧ values'.map some = ids.map g := by
  induction values generalizing ids with
  | nil =>
    cases ids with
    | nil => exact ⟨[], rfl, rfl⟩
    | cons i ids => cases found
  | cons b values ih =>
    cases ids with
    | nil => cases found
    | cons i ids =>
      obtain ⟨here, found⟩ := List.cons_eq_cons.mp found
      obtain ⟨c, run, there⟩ := value i b here.symm
      obtain ⟨values', rest, found'⟩ := ih found
      refine ⟨c :: values', ?_, ?_⟩
      · rw [List.mapM_cons, run, ok_bind, rest]
        rfl
      · rw [List.map_cons, List.map_cons, there, found']

/-- The runs of a function whose values are read one by one. -/
theorem mapM {ε : Type} {g : Nat → Option γ} {read : β → Except ε γ} (h : RunsFrom f start runs)
    (none : ∀ i, f i = none → g i = none)
    (value : ∀ i b, f i = some b → ∃ c, read b = .ok c ∧ g i = some c) :
    ∃ runs', (runs.mapM fun run => do
        let values ← run.2.mapM read
        return (run.1, values)) = .ok runs' ∧ RunsFrom g start runs' := by
  induction h with
  | done rest => exact ⟨[], rfl, .done fun i above => none i (rest i above)⟩
  | @run start first values runs le gap nonempty found ended _ ih =>
    obtain ⟨runs', rest, last⟩ := ih
    obtain ⟨values', run, found'⟩ := RunsFrom.read value found
    have length : values'.length = values.length := by
      simpa using congrArg List.length found'
    refine ⟨(first, values') :: runs', ?_, ?_⟩
    · rw [List.mapM_cons, run, ok_bind, pure_eq_ok, ok_bind, rest]
      rfl
    · rw [← length] at found' ended last
      refine .run le (fun i above below => none i (gap i above below)) ?_ found' (none _ ended) last
      exact fun empty => nonempty (List.eq_nil_of_length_eq_zero (by rw [← length, empty]; rfl))

end RunsFrom

end Runs
