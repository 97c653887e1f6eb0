import Dynec.World.References

/-!
# Weak references

A weak reference records the generation of its ID. It tells the entity from the
other entities with that ID if and only if the entity was initialized when the
reference was made.
-/

namespace Dynec.World

open Entity (Recycler)

variable {U V : Type} {w : DbgTypeId → Nat} {T Hint : DbgTypeId → Type}

/-- `StoreMap::resolve`. -/
def resolve (self : World w T V) (arch : DbgTypeId) : Option (List Nat) :=
  match self.generations arch with
  | [] => none
  | store => some store

/-- `Entity::weak`: the generation that a weak reference records. There is none
when the call panics. -/
def weak (self : World w T V) (arch : DbgTypeId) (id : Nat) : Option Nat :=
  (self.resolve arch).map fun store => generationOf store id

/-- `generation::StoreMap::get`. -/
def generation (self : World w T V) (arch : DbgTypeId) (id : Nat) : Nat :=
  generationOf (self.generations arch) id

variable [∀ arch, Recycler (T arch) (Hint arch)] {types : Types V} {first s t : Machine w T V}
  {label : Label Hint V} {arch : DbgTypeId} {id : Nat}
  {earlier trace : List (Machine.Transition w T Hint V)}

/-- A transition that initializes an ID of an archetype. -/
def Readies (arch : DbgTypeId) (id : Nat) (t : Machine.Transition w T Hint V) : Prop :=
  (t.after.roll arch).ready = id :: (t.before.roll arch).ready

instance (t : Machine.Transition w T Hint V) : Decidable (Readies arch id t) :=
  inferInstanceAs (Decidable (_ = _))

/-- The number of times that an ID was initialized. -/
def incarnations (arch : DbgTypeId) (id : Nat) (trace : List (Machine.Transition w T Hint V)) :
    Nat :=
  trace.countP fun t => decide (Readies arch id t)

theorem weak_eq (world : World w T V) (arch : DbgTypeId) (id g : Nat) :
    world.weak arch id = some g ↔ world.generations arch ≠ [] ∧ world.generation arch id = g := by
  rw [weak, resolve, generation]
  cases world.generations arch with
  | nil => simp
  | cons x store => simp

/-! ## Steps -/

omit [∀ arch, Recycler (T arch) (Hint arch)] in
theorem not_readies {tr : Machine.Transition w T Hint V}
    (same : (tr.after.roll arch).ready.length ≤ (tr.before.roll arch).ready.length) :
    ¬ Readies arch id tr := by
  intro readies
  rw [Readies] at readies
  rw [readies] at same
  exact Nat.not_succ_le_self _ same

omit [∀ arch, Recycler (T arch) (Hint arch)] in
theorem readies_iff {changed : DbgTypeId} {f : Roll → Roll} {id' : Nat}
    (roll : t.roll = s.enroll changed f) (grown : ∀ r, (f r).ready = id' :: r.ready) :
    Readies arch id (⟨s, label, t⟩ : Machine.Transition w T Hint V) ↔
      arch = changed ∧ id = id' := by
  rw [Readies, roll]
  by_cases here : arch = changed
  · subst here
    rw [enroll_same, grown]
    simp [eq_comm]
  · rw [enroll_other here]
    simp [here]

omit [∀ arch, Recycler (T arch) (Hint arch)] in
/-- A step initializes at most one ID of an archetype, and bumps its
generation. -/
theorem Counted.next (counted : Counted types s label t) (arch : DbgTypeId) :
    (∃ id, t.world.generations arch = nextGeneration (s.world.generations arch) id ∧
      ∀ i, Readies arch i ⟨s, label, t⟩ ↔ i = id) ∨
    t.world.generations arch = s.world.generations arch ∧
      ∀ i, ¬ Readies arch i ⟨s, label, t⟩ := by
  cases counted with
  | keep _ _ generations _ roll | clone _ _ _ _ generations _ roll
  | drop _ _ _ generations _ roll =>
    right
    rw [generations]
    refine ⟨rfl, fun i => not_readies ?_⟩
    rw [roll]
  | createOnline changed id' _ _ generations _ roll =>
    right
    rw [generations]
    refine ⟨rfl, fun i => not_readies ?_⟩
    by_cases here : arch = changed
    · subst here
      rw [roll, enroll_same]
      exact le_rfl
    · rw [roll, enroll_other here]
  | free changed id' _ _ generations _ roll =>
    right
    rw [generations]
    refine ⟨rfl, fun i => not_readies ?_⟩
    rw [roll]
    exact (enroll_free_ready id' arch).2
  | create changed id' _ _ generations _ roll | init changed id' _ _ _ generations _ roll =>
    have readies : ∀ i, Readies arch i ⟨s, label, t⟩ ↔ arch = changed ∧ i = id' :=
      fun i => readies_iff roll fun _ => rfl
    rw [generations]
    by_cases here : arch = changed
    · subst here
      exact .inl ⟨id', Function.update_self .., by simpa using readies⟩
    · exact .inr ⟨Function.update_of_ne here .., by simpa [here] using readies⟩

omit [∀ arch, Recycler (T arch) (Hint arch)] in
theorem Counted.generation (counted : Counted types s label t) (arch : DbgTypeId) (id : Nat) :
    t.world.generation arch id =
      if Readies arch id ⟨s, label, t⟩ then (s.world.generation arch id + 1) % 2 ^ 32
      else s.world.generation arch id := by
  unfold World.generation
  obtain ⟨id', generations, readies⟩ | ⟨generations, none⟩ := counted.next arch
  · rw [generations, generationOf_next]
    by_cases here : id = id'
    · subst here
      rw [if_pos rfl, if_pos ((readies id).mpr rfl)]
    · rw [if_neg here, if_neg fun h => here ((readies id).mp h)]
  · rw [generations, if_neg (none id)]

omit [∀ arch, Recycler (T arch) (Hint arch)] in
theorem Counted.resolved (counted : Counted types s label t) (arch : DbgTypeId) :
    t.world.generations arch ≠ [] ↔
      s.world.generations arch ≠ [] ∨ ∃ id, Readies arch id ⟨s, label, t⟩ := by
  obtain ⟨id', generations, readies⟩ | ⟨generations, none⟩ := counted.next arch
  · have grown : nextGeneration (s.world.generations arch) id' ≠ [] := by
      apply List.ne_nil_of_length_pos
      simp only [nextGeneration, resized, List.length_modify, List.length_append,
        List.length_replicate]
      omega
    rw [generations]
    exact iff_of_true grown (.inr ⟨id', (readies id').mpr rfl⟩)
  · rw [generations]
    simp [none]

/-- The initialized entities after a step. -/
theorem Counted.ready (counted : Counted types s label t) (books : Books s) (arch : DbgTypeId)
    (id : Nat) : id ∈ (t.roll arch).ready ↔
      Readies arch id ⟨s, label, t⟩ ∨ id ∈ (s.roll arch).ready ∧ ¬ Frees s t arch id := by
  have once := books.count_live_le arch id
  have accounted := books.accounted arch id
  cases counted with
  | keep _ _ _ _ roll | clone _ _ _ _ _ _ roll | drop _ _ _ _ _ roll =>
    have none : ¬ Readies arch id ⟨s, label, t⟩ := not_readies (by rw [roll])
    have kept : ¬ Frees s t arch id := not_frees (by rw [roll])
    rw [roll]
    simp [none, kept]
  | createOnline changed id' _ _ _ _ roll =>
    have same : (t.roll arch).ready = (s.roll arch).ready := by
      by_cases here : arch = changed
      · subst here
        rw [roll, enroll_same]
        rfl
      · rw [roll, enroll_other here]
    have none : ¬ Readies arch id ⟨s, label, t⟩ := not_readies (by rw [same])
    have kept : ¬ Frees s t arch id := not_frees (by rw [roll]; exact enroll_freed fun _ => rfl)
    rw [same]
    simp [none, kept]
  | create changed id' _ _ _ _ roll | init changed id' _ _ _ _ _ roll =>
    have kept : ¬ Frees s t arch id := not_frees (by rw [roll]; exact enroll_freed fun _ => rfl)
    have readies : Readies arch id ⟨s, label, t⟩ ↔ arch = changed ∧ id = id' :=
      readies_iff roll fun _ => rfl
    rw [readies, roll]
    by_cases here : arch = changed
    · subst here
      rw [enroll_same]
      simp [Roll.init, Roll.create, kept]
    · rw [enroll_other here]
      simp [here, kept]
  | free changed id' _ _ _ _ roll =>
    have none : ¬ Readies arch id ⟨s, label, t⟩ := by
      apply not_readies
      rw [roll]
      exact (enroll_free_ready id' arch).2
    have frees : Frees s t arch id ↔ arch = changed ∧ id = id' := by
      constructor
      · exact enroll_free roll
      · rintro ⟨rfl, rfl⟩
        rw [Frees, roll, enroll_same]
        rfl
    rw [frees, roll]
    by_cases here : arch = changed
    · subst here
      rw [enroll_same]
      simp only [Roll.free, none, false_or, true_and]
      by_cases own : id = id'
      · subst own
        simp only [not_true_eq_false, and_false, iff_false]
        intro member
        have pos := List.count_pos_iff.mpr member
        rw [List.count_erase_self] at pos
        omega
      · rw [List.mem_erase_of_ne own]
        simp [own]
    · rw [enroll_other here]
      simp [here, none]

/-- An initialized ID is not initialized again. -/
theorem Readies.fresh {tr : Machine.Transition w T Hint V} (readies : Readies arch id tr)
    (books : Books tr.after) : id ∉ (tr.before.roll arch).ready := by
  intro ready
  have once := books.count_live_le arch id
  have accounted := books.accounted arch id
  have pos := List.count_pos_iff.mpr ready
  rw [Readies] at readies
  rw [readies, List.count_cons_self] at accounted
  omega

/-! ## Runs -/

/-- Only initialized entities are freed. -/
def Orderly (trace : List (Machine.Transition w T Hint V)) : Prop :=
  ∀ t ∈ trace, ∀ arch id, Frees t.before t.after arch id → id ∈ (t.before.roll arch).ready

theorem orderly_books (width : ∀ arch, 0 < w arch) {b : Builder U V}
    (run : Machine.Run types (.start b) trace s) (orderly : Orderly trace) : Books s := by
  induction run with
  | start => exact books_start width b
  | next past step ih =>
    obtain ⟨here, orderly⟩ := List.forall_mem_cons.mp orderly
    exact books_step step (buffered_run past) here (ih orderly)

/-- With reference counting, every run is orderly. -/
theorem counted_orderly (rcs : types.entityRc = true) (width : ∀ arch, 0 < w arch)
    {b : Builder U V} (run : Machine.Run types (.start b) trace s) : Orderly trace := by
  induction run with
  | start => simp [Orderly]
  | next past step ih =>
    refine List.forall_mem_cons.mpr ⟨fun arch id frees => ?_, ih⟩
    obtain ⟨a, a', e, before, -, deleted⟩ := frees_deleted step frees
    obtain ⟨rc, found, -⟩ := deleted.counters rcs
    exact (counted_run rcs width past).2 arch a before id (by rw [found]; rfl)

theorem generation_run {b : Builder U V} (past : Machine.Run types (.start b) earlier s)
    (run : Machine.Run types s trace t) (arch : DbgTypeId) (id : Nat) :
    t.world.generation arch id % 2 ^ 32 =
      (s.world.generation arch id + incarnations arch id trace) % 2 ^ 32 := by
  induction run with
  | start => rfl
  | @next trace s' label t run step ih =>
    have counted := step_counted step (buffered_run (past.trans run))
    rw [counted.generation, incarnations, List.countP_cons]
    by_cases readies : Readies arch id ⟨s', label, t⟩
    · simp only [readies, if_true, decide_true]
      rw [← incarnations]
      omega
    · simp only [readies, if_false, decide_false, Bool.false_eq_true, Nat.add_zero]
      exact ih

theorem generations_start (b : Builder U V) (arch : DbgTypeId) :
    (Machine.start b : Machine w T V).world.generations arch = [] := by
  change World.generations (b.build : World w T V) arch = []
  rw [generations, build_lookup]
  cases b.archetypes.lookup arch <;> rfl

theorem generation_start (b : Builder U V) (arch : DbgTypeId) (id : Nat) :
    (Machine.start b : Machine w T V).world.generation arch id = 0 := by
  rw [generation, generations_start]
  rfl

theorem generation_lt {b : Builder U V} (run : Machine.Run types (.start b) trace s)
    (arch : DbgTypeId) (id : Nat) : s.world.generation arch id < 2 ^ 32 := by
  induction run with
  | start =>
    rw [generation_start]
    exact Nat.two_pow_pos 32
  | next past step ih =>
    rw [(step_counted step (buffered_run past)).generation]
    split
    · exact Nat.mod_lt _ (Nat.two_pow_pos 32)
    · exact ih

theorem resolved_run {b : Builder U V} (run : Machine.Run types (.start b) trace s)
    (arch : DbgTypeId) :
    s.world.generations arch ≠ [] ↔ ∃ tr ∈ trace, ∃ id, Readies arch id tr := by
  induction run with
  | start => simp [generations_start]
  | next past step ih =>
    rw [(step_counted step (buffered_run past)).resolved, ih]
    simp only [List.mem_cons, exists_eq_or_imp]
    exact or_comm

/-- **Generations count the entities of an ID.** In every run the generation of
an ID is the number of times that it was initialized, up to overflow, and taking
a weak reference panics if and only if no entity of the archetype has been
initialized yet. -/
theorem generations_counted {b : Builder U V} (run : Machine.Run types (.start b) trace s)
    (arch : DbgTypeId) (id : Nat) :
    s.world.generation arch id = incarnations arch id trace % 2 ^ 32 ∧
    (s.world.weak arch id = none ↔ ∀ tr ∈ trace, ∀ id, ¬ Readies arch id tr) := by
  constructor
  · have count := generation_run .start run arch id
    rw [Nat.mod_eq_of_lt (generation_lt run arch id), generation_start, Nat.zero_add] at count
    exact count
  · have resolved := resolved_run run arch
    have none : s.world.weak arch id = none ↔ s.world.generations arch = [] := by
      rw [weak, resolve]
      cases s.world.generations arch <;> simp
    rw [none, ← not_iff_not, ← ne_eq, resolved]
    simp

theorem generations_counted_reused : ∃ (trace : PlainTrace) (s : PlainMachine),
    Machine.Run plainTypes (.start creation) trace s ∧ (s.roll ⟨0⟩).freed = [1] ∧
    s.world.generation ⟨0⟩ 1 = 2 ∧ s.world.weak ⟨0⟩ 1 ≠ none := by
  obtain ⟨trace, s, run, freed, twice, readied⟩ : ∃ (trace : PlainTrace) (s : PlainMachine),
      Machine.Run plainTypes (.start creation) trace s ∧ (s.roll ⟨0⟩).freed = [1] ∧
      incarnations ⟨0⟩ 1 trace = 2 ∧ ∃ tr ∈ trace, Readies ⟨0⟩ 1 tr := by
    refine ⟨_, _, .next (.next (.next (.next (.next (.next (.next .start
      (.create ⟨0⟩ 0 () noComponents rfl rfl)) (.dropReference 0 trivial)) (.delete ⟨0⟩ 1 rfl rfl))
      (.execute inOrder rfl rfl rfl (by decide))) (.join rfl)) (.flush rfl rfl))
      (.create ⟨0⟩ 2 () noComponents rfl rfl), rfl, rfl, _, .head _, rfl⟩
  obtain ⟨generation, weak⟩ := generations_counted run ⟨0⟩ 1
  rw [twice] at generation
  refine ⟨trace, s, run, freed, generation, fun none => ?_⟩
  obtain ⟨tr, member, readies⟩ := readied
  exact weak.mp none tr member 1 readies

theorem ready_run (width : ∀ arch, 0 < w arch) {b : Builder U V}
    (past : Machine.Run types (.start b) earlier s) (run : Machine.Run types s trace t)
    (orderly : Orderly (trace ++ earlier)) :
    incarnations arch id trace = 0 ∧ id ∈ (t.roll arch).ready ↔
      id ∈ (s.roll arch).ready ∧ ∀ tr ∈ trace, ¬ Frees tr.before tr.after arch id := by
  induction run with
  | start => simp [incarnations]
  | @next trace s' label t run step ih =>
    have before := past.trans run
    obtain ⟨here, orderly'⟩ := List.forall_mem_cons.mp orderly
    have counted := step_counted step (buffered_run before)
    have ready := counted.ready (orderly_books width before orderly') arch id
    have fresh : Readies arch id ⟨s', label, t⟩ → id ∉ (s'.roll arch).ready :=
      fun readies => readies.fresh (orderly_books width (before.next step) orderly)
    have ih := ih orderly'
    rw [ready, incarnations, List.countP_cons, List.forall_mem_cons]
    rw [incarnations] at ih
    by_cases readies : Readies arch id ⟨s', label, t⟩
    · have gone := fresh readies
      simp only [readies, decide_true, if_true, Nat.add_eq_zero_iff, Nat.one_ne_zero, and_false,
        false_and, false_iff]
      rintro ⟨present, -, kept⟩
      exact gone (ih.mpr ⟨present, kept⟩).2
    · simp only [readies, decide_false, Bool.false_eq_true, if_false, Nat.add_zero, false_or]
      rw [← and_assoc, ih, and_assoc, and_comm (b := ¬ _)]

/-- **Weak references tell entities apart.** Take a weak reference to a live
entity, and look at its ID later when it is initialized, less than 2³²
initializations after. The generation is the recorded one if and only if the
entity was initialized when the reference was taken and was not freed since:
a reference taken from an entity that still waits for its initialization never
matches. -/
theorem weak_tells (width : ∀ arch, 0 < w arch) {b : Builder U V}
    (past : Machine.Run types (.start b) earlier s) (run : Machine.Run types s trace t)
    (orderly : Orderly (trace ++ earlier)) {g : Nat} (weak : s.world.weak arch id = some g)
    (ready : id ∈ (t.roll arch).ready) (few : incarnations arch id trace < 2 ^ 32) :
    t.world.generation arch id = g ↔
      id ∈ (s.roll arch).ready ∧ ∀ tr ∈ trace, ¬ Frees tr.before tr.after arch id := by
  have count := generation_run past run arch id
  have bound := generation_lt past arch id
  have bound' := generation_lt (past.trans run) arch id
  rw [← ready_run width past run orderly, ← ((weak_eq ..).mp weak).2]
  constructor
  · intro same
    rw [same] at count
    exact ⟨by omega, ready⟩
  · rintro ⟨none, -⟩
    rw [none] at count
    omega

/-- A worker takes a weak reference to the entity it has created, next to an
entity that is initialized already. -/
theorem weak_tells_waiting : ∃ (s t : PlainMachine) (trace : PlainTrace),
    Machine.Run plainTypes s trace t ∧ (∃ id g, s.world.weak ⟨0⟩ id = some g ∧
      id ∈ (s.roll ⟨0⟩).live ∧ id ∈ (t.roll ⟨0⟩).ready ∧ t.world.generation ⟨0⟩ id ≠ g) ∧
    ∃ id g, s.world.weak ⟨0⟩ id = some g ∧ id ∈ (s.roll ⟨0⟩).ready ∧
      t.world.generation ⟨0⟩ id = g := by
  obtain ⟨earlier, trace, s, t, past, run, old, new, ready, kept, live, waits, few, few'⟩ :
      ∃ (earlier trace : PlainTrace) (s t : PlainMachine),
      Machine.Run plainTypes (.start creation) earlier s ∧ Machine.Run plainTypes s trace t ∧
      s.world.weak ⟨0⟩ 1 = some 1 ∧ s.world.weak ⟨0⟩ 2 = some 0 ∧ (t.roll ⟨0⟩).ready = [2, 1] ∧
      (∀ tr ∈ trace, ¬ Frees tr.before tr.after ⟨0⟩ 1) ∧ (s.roll ⟨0⟩).live = [2, 1] ∧
      (s.roll ⟨0⟩).ready = [1] ∧ incarnations ⟨0⟩ 1 trace = 0 ∧
      incarnations ⟨0⟩ 2 trace = 1 := by
    refine ⟨_, _, _, _, .next (.next (.next .start (.create ⟨0⟩ 0 () noComponents rfl rfl))
      (.execute inOrder rfl rfl rfl (by decide))) (.createOnline 1 ⟨0⟩ () noComponents rfl rfl rfl),
      .next (.next .start (.join rfl)) (.drainCreate rfl rfl), rfl, rfl, rfl, ?_, rfl, rfl, rfl, rfl⟩
    simp only [List.forall_mem_cons]
    refine ⟨?_, ?_, nofun⟩
    · exact not_frees rfl
    · exact not_frees rfl
  have orderly : Orderly (trace ++ earlier) := counted_orderly rfl (fun _ => by decide) (past.trans run)
  have tells := weak_tells (fun _ => by decide) past run orderly new (by simp [ready])
    (by rw [few']; decide)
  have tells' := weak_tells (fun _ => by decide) past run orderly old (by simp [ready])
    (by rw [few]; decide)
  refine ⟨s, t, trace, run, ⟨2, 0, new, by simp [live], by simp [ready], fun same => ?_⟩,
    1, 1, old, by simp [waits], tells'.mpr ⟨by simp [waits], kept⟩⟩
  have here := (tells.mp same).1
  simp [waits] at here

end Dynec.World
