import Dynec.World.Counters

/-!
# References

A strong reference that the program holds keeps its entity: the entity is not
freed, and its ID is not allocated again. A weak reference records a generation,
which tells the entity from later ones with its ID.
-/

namespace Dynec.World

open Entity (Recycler)

variable {U V : Type} {w : DbgTypeId → Nat} {T Hint : DbgTypeId → Type}
  [∀ arch, Recycler (T arch) (Hint arch)] {types : Types V} {first s t : Machine w T V}
  {label : Label Hint V} {arch : DbgTypeId} {id rc : Nat}
  {earlier trace : List (Machine.Transition w T Hint V)}

theorem Machine.Run.trans {u : Machine w T V} (past : Run types first earlier s)
    (run : Run types s trace u) : Run types first (trace ++ earlier) u := by
  induction run with
  | start => exact past
  | next _ step ih => exact .next ih step

/-! ## Strong references -/

/-- The program holds strong references with a counter. -/
def Machine.Held (s : Machine w T V) (rc : Nat) : Prop :=
  0 < s.world.references[rc]?.getD 0

/-- The counter of the strong references to an entity. -/
def Machine.Owns (s : Machine w T V) (arch : DbgTypeId) (id rc : Nat) : Prop :=
  s.world.tracked arch id = some rc ∨ s.Waiting arch id rc

/-- A strong reference is cloned from one that the program holds, or made by
`MaybeStoreMap::to_strong` from the tracked one. -/
def Borrows (t : Machine.Transition w T Hint V) : Prop :=
  ∀ rc, t.label = .cloneReference rc →
    t.before.Held rc ∨ ∃ arch id, t.before.world.tracked arch id = some rc

/-- A step that allocates an ID of an archetype. -/
def Creates (s t : Machine w T V) (arch : DbgTypeId) (id : Nat) : Prop :=
  (t.roll arch).created = id :: (s.roll arch).created

omit [∀ arch, Recycler (T arch) (Hint arch)] in
theorem not_creates (same : (t.roll arch).created = (s.roll arch).created) :
    ¬ Creates s t arch id := by
  intro creates
  rw [Creates, same] at creates
  exact List.cons_ne_self id _ creates.symm

omit [∀ arch, Recycler (T arch) (Hint arch)] in
theorem enroll_kept {changed : DbgTypeId} {f : Roll → Roll}
    (same : ∀ r, (f r).created = r.created) :
    ((s.enroll changed f) arch).created = (s.roll arch).created := by
  by_cases here : arch = changed
  · subst here
    rw [enroll_same, same]
  · rw [enroll_other here]

omit [∀ arch, Recycler (T arch) (Hint arch)] in
theorem enroll_create {changed : DbgTypeId} {f : Roll → Roll} {id' : Nat}
    (roll : t.roll = s.enroll changed f) (grown : ∀ r, (f r).created = id' :: r.created)
    (creates : Creates s t arch id) : arch = changed ∧ id = id' := by
  by_cases here : arch = changed
  · subst here
    simp only [Creates, roll, enroll_same, grown, List.cons.injEq] at creates
    exact ⟨rfl, creates.1.symm⟩
  · exact absurd creates (not_creates (by rw [roll, enroll_other here]))

namespace Counted

omit [∀ arch, Recycler (T arch) (Hint arch)] in
/-- A new entity owns the next counter. -/
theorem creates_owns (counted : Counted types s label t) (rcs : types.entityRc = true)
    (creates : Creates s t arch id) : t.Owns arch id s.world.references.length ∧
      s.world.references.length < t.world.references.length := by
  cases counted with
  | keep _ _ _ _ roll | clone _ _ _ _ _ _ roll | drop _ _ _ _ _ roll =>
    exact absurd creates (not_creates (by rw [roll]))
  | init _ _ _ _ _ _ _ roll | free _ _ _ _ _ _ roll =>
    exact absurd creates (not_creates (by rw [roll]; exact enroll_kept fun _ => rfl))
  | create changed id' references tracked generations waiting roll =>
    obtain ⟨rfl, rfl⟩ := enroll_create roll (fun _ => rfl) creates
    constructor
    · left
      rw [tracked rcs, if_pos ⟨rfl, rfl⟩]
    · simp [references]
  | createOnline changed id' references tracked generations waiting roll =>
    obtain ⟨rfl, rfl⟩ := enroll_create roll (fun _ => rfl) creates
    constructor
    · right
      exact (waiting arch id _).mpr (.inl ⟨rfl, rfl, rfl⟩)
    · simp [references]

omit [∀ arch, Recycler (T arch) (Hint arch)] in
theorem creates_once (counted : Counted types s label t) {arch' : DbgTypeId} {id' : Nat}
    (creates : Creates s t arch id) (creates' : Creates s t arch' id') :
    arch = arch' ∧ id = id' := by
  cases counted with
  | keep _ _ _ _ roll | clone _ _ _ _ _ _ roll | drop _ _ _ _ _ roll =>
    exact absurd creates (World.not_creates (by rw [roll]))
  | init _ _ _ _ _ _ _ roll | free _ _ _ _ _ _ roll =>
    exact absurd creates (World.not_creates (by rw [roll]; exact enroll_kept fun _ => rfl))
  | create changed fresh _ _ _ _ roll | createOnline changed fresh _ _ _ _ roll =>
    obtain ⟨rfl, rfl⟩ := enroll_create roll (fun _ => rfl) creates
    obtain ⟨rfl, rfl⟩ := enroll_create roll (fun _ => rfl) creates'
    exact ⟨rfl, rfl⟩

/-- An ID is not allocated while it is live. -/
theorem not_creates (counted : Counted types s label t) (ledgers : Ledgers t)
    (live : id ∈ (s.roll arch).live) : ¬ Creates s t arch id := by
  intro creates
  have once := ledgers.count_live_le arch id
  have pos := List.count_pos_iff.mpr live
  cases counted with
  | keep _ _ _ _ roll | clone _ _ _ _ _ _ roll | drop _ _ _ _ _ roll =>
    exact World.not_creates (by rw [roll]) creates
  | init _ _ _ _ _ _ _ roll | free _ _ _ _ _ _ roll =>
    exact World.not_creates (by rw [roll]; exact enroll_kept fun _ => rfl) creates
  | create changed id' _ _ _ _ roll | createOnline changed id' _ _ _ _ roll =>
    obtain ⟨rfl, rfl⟩ := enroll_create roll (fun _ => rfl) creates
    rw [roll, enroll_same] at once
    simp only [Roll.init, Roll.create, List.count_cons_self] at once
    omega

omit [∀ arch, Recycler (T arch) (Hint arch)] in
theorem references_le (counted : Counted types s label t) :
    s.world.references.length ≤ t.world.references.length := by
  cases counted with
  | keep references | init _ _ _ references | free _ _ references => rw [references]
  | clone _ _ references | drop _ references => rw [references, List.length_modify]
  | create _ _ references | createOnline _ _ references => simp [references]

omit [∀ arch, Recycler (T arch) (Hint arch)] in
/-- A step gives counters to new entities only. -/
theorem owns_before (counted : Counted types s label t) (rcs : types.entityRc = true)
    (owns : t.Owns arch id rc) :
    s.Owns arch id rc ∨ Creates s t arch id ∧ rc = s.world.references.length := by
  cases counted with
  | keep _ tracked _ waiting | clone _ _ _ tracked _ waiting | drop _ _ tracked _ waiting =>
    left
    rw [Machine.Owns, tracked, waiting] at owns
    exact owns
  | create changed id' _ tracked _ waiting roll =>
    rw [Machine.Owns, tracked rcs, waiting] at owns
    by_cases here : arch = changed ∧ id = id'
    · obtain ⟨rfl, rfl⟩ := here
      rw [if_pos ⟨rfl, rfl⟩, Option.some.injEq] at owns
      rcases owns with rfl | waits
      · right
        rw [Creates, roll, enroll_same]
        exact ⟨rfl, rfl⟩
      · exact .inl (.inr waits)
    · rw [if_neg here] at owns
      exact .inl owns
  | createOnline changed id' _ tracked _ waiting roll =>
    rw [Machine.Owns, tracked, waiting] at owns
    rcases owns with tracked | ⟨rfl, rfl, rfl⟩ | waits
    · exact .inl (.inl tracked)
    · right
      rw [Creates, roll, enroll_same]
      exact ⟨rfl, rfl⟩
    · exact .inl (.inr waits)
  | init changed id' rc' _ tracked _ waiting _ =>
    left
    rw [Machine.Owns, tracked rcs] at owns
    by_cases here : arch = changed ∧ id = id'
    · obtain ⟨rfl, rfl⟩ := here
      rw [if_pos ⟨rfl, rfl⟩, Option.some.injEq] at owns
      rcases owns with rfl | waits
      · exact .inr ((waiting arch id rc').mpr (.inl ⟨rfl, rfl, rfl⟩))
      · exact .inr ((waiting arch id rc).mpr (.inr waits))
    · rw [if_neg here] at owns
      exact owns.imp_right fun waits => (waiting arch id rc).mpr (.inr waits)
  | free changed id' _ tracked _ waiting _ =>
    left
    obtain ⟨-, -, -, tracked⟩ := tracked rcs
    rw [Machine.Owns, tracked, waiting] at owns
    by_cases here : arch = changed ∧ id = id'
    · rw [if_pos here] at owns
      rcases owns with tracked | waits
      · cases tracked
      · exact .inr waits
    · rw [if_neg here] at owns
      exact owns

omit [∀ arch, Recycler (T arch) (Hint arch)] in
/-- A counter without references that no entity owns stays so. -/
theorem unheld (counted : Counted types s label t) (borrows : Borrows ⟨s, label, t⟩)
    (minted : rc < s.world.references.length) (unowned : ∀ arch id, ¬ s.Owns arch id rc)
    (unheld : ¬ s.Held rc) : ¬ t.Held rc := by
  intro held
  apply unheld
  unfold Machine.Held at held ⊢
  cases counted with
  | keep references | init _ _ _ references | free _ _ references =>
    rw [references] at held
    exact held
  | clone rc' cloned references =>
    by_cases same : rc' = rc
    · subst same
      obtain held | ⟨arch, id, tracked⟩ := borrows rc' cloned
      · exact held
      · exact absurd (.inl tracked) (unowned arch id)
    · simpa [references, List.getElem?_modify, same] using held
  | drop rc' references =>
    rw [references, List.getElem?_modify, List.getElem?_eq_getElem minted] at held
    rw [List.getElem?_eq_getElem minted]
    by_cases same : rc' = rc
    · simp only [same, if_true, Option.map_eq_map, Option.map_some, Option.getD_some] at held
      rw [Option.getD_some]
      omega
    · simpa [same] using held
  | create _ _ references | createOnline _ _ references =>
    rw [references, List.getElem?_append_left minted] at held
    exact held

end Counted

/-- An entity that owns a counter is live: it is initialized when the counter is
tracked. -/
theorem Machine.Owns.live (books : Books s)
    (ready : ∀ arch id, (s.world.tracked arch id).isSome = true → id ∈ (s.roll arch).ready)
    (owns : s.Owns arch id rc) : id ∈ (s.roll arch).live := by
  rcases owns with tracked | ⟨compMap, waiting⟩
  · exact books.live_of_ready (ready arch id (by rw [tracked]; rfl))
  · have accounted := books.accounted arch id
    have pos := List.count_pos_iff.mpr (mem_creates.mpr ⟨rc, compMap, waiting⟩)
    exact List.count_pos_iff.mp (by omega)

/-- An entity keeps its counter until it is freed, and then the counter has no
references. -/
theorem Counted.owns (counted : Counted types s label t) (rcs : types.entityRc = true)
    (books : Books s) (books' : Books t)
    (ready : ∀ arch id, (s.world.tracked arch id).isSome = true → id ∈ (s.roll arch).ready)
    (owns : s.Owns arch id rc) :
    t.Owns arch id rc ∧ ¬ Frees s t arch id ∨ ¬ t.Held rc ∧ ¬ t.Owns arch id rc := by
  have live := owns.live books ready
  have once := books.count_live_le arch id
  have accounted := books.accounted arch id
  cases counted with
  | keep _ tracked _ waiting roll | clone _ _ _ tracked _ waiting roll
  | drop _ _ tracked _ waiting roll =>
    left
    rw [Machine.Owns, tracked, waiting]
    exact ⟨owns, not_frees (by rw [roll])⟩
  | createOnline changed id' _ tracked _ waiting roll =>
    left
    rw [Machine.Owns, tracked, waiting]
    refine ⟨owns.imp_right .inr, not_frees ?_⟩
    rw [roll]
    exact enroll_freed fun _ => rfl
  | create changed id' _ tracked _ waiting roll =>
    left
    rw [Machine.Owns, tracked rcs, waiting]
    constructor
    · have other : ¬ (arch = changed ∧ id = id') := by
        rintro ⟨rfl, rfl⟩
        have twice := books'.count_live_le arch id
        have pos := List.count_pos_iff.mpr live
        rw [roll, enroll_same] at twice
        simp only [Roll.init, Roll.create, List.count_cons_self] at twice
        omega
      rw [if_neg other]
      exact owns
    · apply not_frees
      rw [roll]
      exact enroll_freed fun _ => rfl
  | init changed id' rc' _ tracked _ waiting roll =>
    left
    rw [Machine.Owns, tracked rcs]
    constructor
    · rcases owns with before | before
      · have other : ¬ (arch = changed ∧ id = id') := by
          rintro ⟨rfl, rfl⟩
          obtain ⟨compMap, member⟩ := (waiting arch id rc').mpr (.inl ⟨rfl, rfl, rfl⟩)
          have pos := List.count_pos_iff.mpr (mem_creates.mpr ⟨rc', compMap, member⟩)
          have pos' := List.count_pos_iff.mpr (ready arch id (by rw [before]; rfl))
          omega
        rw [if_neg other]
        exact .inl before
      · rcases (waiting arch id rc).mp before with ⟨rfl, rfl, rfl⟩ | after
        · simp
        · exact .inr after
    · apply not_frees
      rw [roll]
      exact enroll_freed fun _ => rfl
  | free changed id' references tracked _ waiting roll =>
    obtain ⟨rc', found, dropped, tracked⟩ := tracked rcs
    by_cases here : arch = changed ∧ id = id'
    · obtain ⟨rfl, rfl⟩ := here
      have idle : ¬ s.Waiting arch id rc := by
        rintro ⟨compMap, member⟩
        have pos := List.count_pos_iff.mpr (mem_creates.mpr ⟨rc, compMap, member⟩)
        have pos' := List.count_pos_iff.mpr (ready arch id (by rw [found]; rfl))
        omega
      have own := owns.resolve_right idle
      rw [found, Option.some.injEq] at own
      subst own
      right
      constructor
      · simp [Machine.Held, references, dropped]
      · rw [Machine.Owns, tracked, waiting, if_pos ⟨rfl, rfl⟩]
        rintro (tracked | waits)
        · cases tracked
        · exact idle waits
    · left
      rw [Machine.Owns, tracked, waiting, if_neg here]
      exact ⟨owns, fun frees => here (enroll_free roll frees)⟩

theorem counted_tracked (rcs : types.entityRc = true) (width : ∀ arch, 0 < w arch)
    {b : Builder U V} (run : Machine.Run types (.start b) trace s) : Books s ∧
      ∀ arch id, (s.world.tracked arch id).isSome = true → id ∈ (s.roll arch).ready := by
  obtain ⟨books, ready⟩ := counted_run rcs width run
  refine ⟨books, fun arch id some => ?_⟩
  cases found : s.world.archetypes.lookup arch with
  | none =>
    rw [World.tracked, found] at some
    cases some
  | some a =>
    rw [tracked_of_lookup found] at some
    exact ready arch a found id some

/-- No two entities own one counter. -/
structure Sole (s : Machine w T V) : Prop where
  minted : ∀ arch id rc, s.Owns arch id rc → rc < s.world.references.length
  apart : ∀ arch id arch' id' rc, s.Owns arch id rc → s.Owns arch' id' rc →
    arch = arch' ∧ id = id'

omit [∀ arch, Recycler (T arch) (Hint arch)] in
theorem Counted.sole (counted : Counted types s label t) (rcs : types.entityRc = true)
    (sole : Sole s) : Sole t := by
  constructor
  · intro arch id rc owns
    rcases counted.owns_before rcs owns with owns | ⟨creates, rfl⟩
    · exact (sole.minted arch id rc owns).trans_le counted.references_le
    · exact (counted.creates_owns rcs creates).2
  · intro arch id arch' id' rc owns owns'
    rcases counted.owns_before rcs owns with before | ⟨creates, rfl⟩
    · rcases counted.owns_before rcs owns' with before' | ⟨-, rfl⟩
      · exact sole.apart arch id arch' id' rc before before'
      · exact absurd (sole.minted arch id _ before) (Nat.lt_irrefl _)
    · rcases counted.owns_before rcs owns' with before' | ⟨creates', -⟩
      · exact absurd (sole.minted arch' id' _ before') (Nat.lt_irrefl _)
      · exact counted.creates_once creates creates'

theorem sole_run (rcs : types.entityRc = true) {b : Builder U V}
    (run : Machine.Run types (.start b) trace s) : Sole s := by
  induction run with
  | start =>
    have none : ∀ arch id rc, ¬ (Machine.start b : Machine w T V).Owns arch id rc := by
      rintro arch id rc (tracked | ⟨compMap, member⟩)
      · change World.tracked (b.build : World w T V) arch id = some rc at tracked
        rw [World.tracked, build_lookup] at tracked
        cases found : b.archetypes.lookup arch with
        | none => simp [found] at tracked
        | some typed => simp [found, rctrackGet] at tracked
      · change _ ∈ (b.build : World w T V).offlineBuffer.operations at member
        rw [build_operations] at member
        cases member
    exact ⟨fun arch id rc owns => absurd owns (none arch id rc),
      fun arch id _ _ rc owns => absurd owns (none arch id rc)⟩
  | next past step ih => exact (step_counted step (buffered_run past)).sole rcs ih

/-- After a state in which an entity owns a counter, it owns it and was not
freed, or the counter is out of use. -/
theorem owns_run (rcs : types.entityRc = true) (width : ∀ arch, 0 < w arch) {b : Builder U V}
    (past : Machine.Run types (.start b) earlier s) (owns : s.Owns arch id rc)
    (run : Machine.Run types s trace t) (borrows : ∀ tr ∈ trace, Borrows tr) :
    rc < t.world.references.length ∧
    ((t.Owns arch id rc ∧ ∀ tr ∈ trace,
        ¬ Frees tr.before tr.after arch id ∧ ¬ Creates tr.before tr.after arch id) ∨
      ¬ t.Held rc ∧ ∀ arch id, ¬ t.Owns arch id rc) := by
  induction run with
  | start => exact ⟨(sole_run rcs past).minted arch id rc owns, .inl ⟨owns, by simp⟩⟩
  | @next trace s' label t run step ih =>
    obtain ⟨here, borrows⟩ := List.forall_mem_cons.mp borrows
    obtain ⟨minted, ih⟩ := ih borrows
    have before := past.trans run
    obtain ⟨books, ready⟩ := counted_tracked rcs width before
    have after := (counted_tracked rcs width (before.next step)).1
    have counted := step_counted step (buffered_run before)
    refine ⟨minted.trans_le counted.references_le, ?_⟩
    rcases ih with ⟨owns, kept⟩ | ⟨unheld, unowned⟩
    · rcases counted.owns rcs books after ready owns with ⟨owns', free⟩ | ⟨unheld, gone⟩
      · have again := counted.not_creates after.toLedgers (owns.live books ready)
        exact .inl ⟨owns', List.forall_mem_cons.mpr ⟨⟨free, again⟩, kept⟩⟩
      · refine .inr ⟨unheld, fun arch' id' owns' => ?_⟩
        rcases counted.owns_before rcs owns' with old | ⟨-, rfl⟩
        · obtain ⟨rfl, rfl⟩ := (sole_run rcs before).apart arch id arch' id' rc owns old
          exact gone owns'
        · exact absurd minted (Nat.lt_irrefl _)
    · refine .inr ⟨counted.unheld here minted unowned unheld, fun arch' id' owns' => ?_⟩
      rcases counted.owns_before rcs owns' with old | ⟨-, rfl⟩
      · exact unowned arch' id' old
      · exact absurd minted (Nat.lt_irrefl _)

/-- **A strong reference keeps its entity.** With reference counting, whenever
the program holds a strong reference to an entity, the entity is live, the
counter is its own, and since its creation it was not freed and its ID not
allocated again, whatever happened in between and in any order. -/
theorem reference_keeps_entity (rcs : types.entityRc = true) (width : ∀ arch, 0 < w arch)
    {b : Builder U V} (past : Machine.Run types (.start b) earlier first)
    (step : first.Step types label s) (creates : Creates first s arch id)
    (run : Machine.Run types s trace t) (borrows : ∀ tr ∈ trace, Borrows tr)
    (held : t.Held first.world.references.length) :
    id ∈ (t.roll arch).live ∧ t.Owns arch id first.world.references.length ∧
    ∀ tr ∈ trace, ¬ Frees tr.before tr.after arch id ∧ ¬ Creates tr.before tr.after arch id := by
  have counted := step_counted step (buffered_run past)
  have owned := (counted.creates_owns rcs creates).1
  obtain ⟨owns, kept⟩ := (owns_run rcs width (past.next step) owned run borrows).2.resolve_right
    fun gone => gone.1 held
  obtain ⟨books, ready⟩ := counted_tracked rcs width ((past.next step).trans run)
  exact ⟨owns.live books ready, owns, kept⟩

theorem reference_keeps_entity_online : ∃ (first s t : PlainMachine) (trace : PlainTrace),
    Creates first s ⟨0⟩ 1 ∧ Machine.Run plainTypes s trace t ∧ t.phase = .host ∧
    (∃ tr ∈ trace, tr.label = .dropReference 0) ∧ 1 ∈ (t.roll ⟨0⟩).live ∧
    t.Owns ⟨0⟩ 1 0 ∧ ∀ tr ∈ trace, ¬ Frees tr.before tr.after ⟨0⟩ 1 := by
  obtain ⟨earlier, first, s, t, label, trace, past, step, creates, run, borrows, zero, held, host,
      dropped⟩ : ∃ (earlier : PlainTrace) (first s t : PlainMachine)
      (label : Label (fun _ => Unit) Nat) (trace : PlainTrace),
      Machine.Run plainTypes (.start creation) earlier first ∧ first.Step plainTypes label s ∧
      Creates first s ⟨0⟩ 1 ∧ Machine.Run plainTypes s trace t ∧ (∀ tr ∈ trace, Borrows tr) ∧
      first.world.references.length = 0 ∧ t.Held 0 ∧ t.phase = .host ∧
      ∃ tr ∈ trace, tr.label = .dropReference 0 := by
    refine ⟨_, _, _, _, _, _, .next .start (.execute inOrder rfl rfl rfl (by decide)),
      .createOnline 1 ⟨0⟩ () noComponents rfl rfl rfl, rfl,
      .next (.next (.next (.next (.next .start (.cloneReference 0 trivial)) (.join rfl))
        (.drainCreate rfl rfl)) (.flush rfl rfl)) (.dropReference 0 trivial), ?_, rfl, ?_, rfl,
      _, .head _, rfl⟩
    · simp only [List.forall_mem_cons]
      refine ⟨nofun, nofun, nofun, nofun, ?_, nofun⟩
      rintro rc ⟨⟩
      exact .inl Nat.zero_lt_one
    · exact Nat.zero_lt_one
  rw [← zero] at held
  obtain ⟨live, owns, kept⟩ :=
    reference_keeps_entity rfl (fun _ => by decide) past step creates run borrows held
  rw [zero] at owns
  exact ⟨first, s, t, trace, creates, run, host, dropped, live, owns, fun tr member =>
    (kept tr member).1⟩

end Dynec.World
