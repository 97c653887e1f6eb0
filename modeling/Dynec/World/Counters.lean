import Dynec.World.Deletion
import Dynec.World.Drain

/-!
# Counters of references and generations

What a step does to the counters that are tracked for entities, to those that
wait in the buffer, and to the generations.
-/

namespace Dynec.World

open Fallible
open Entity (Recycling Recycler Snapshot)

variable {U V : Type} {w : DbgTypeId → Nat} {T Hint : DbgTypeId → Type}

/-- The counter that is tracked for an entity. -/
def tracked (self : World w T V) (arch : DbgTypeId) (id : Nat) : Option Nat :=
  (self.archetypes.lookup arch).bind fun archetype => rctrackGet archetype.rctrack id

/-- The store of an archetype in `generation::StoreMap`, empty when there is
none. -/
def generations (self : World w T V) (arch : DbgTypeId) : List Nat :=
  match self.archetypes.lookup arch with
  | some archetype => archetype.generations
  | none => []

/-- An entity waits in the buffer for its initialization, with its counter. -/
def Machine.Waiting (s : Machine w T V) (arch : DbgTypeId) (id rc : Nat) : Prop :=
  ∃ compMap, .createEntity arch id rc compMap ∈ s.pending

variable [∀ arch, Recycler (T arch) (Hint arch)] {types : Types V} {s t : Machine w T V}
  {label : Label Hint V} {arch : DbgTypeId}

/-- What a step does to the counters. -/
inductive Counted (types : Types V) (s : Machine w T V) (label : Label Hint V)
    (t : Machine w T V) : Prop
  | keep (references : t.world.references = s.world.references) (tracked : t.world.tracked = s.world.tracked)
      (generations : t.world.generations = s.world.generations) (waiting : t.Waiting = s.Waiting)
      (roll : t.roll = s.roll)
  | clone (rc : Nat) (cloned : label = .cloneReference rc)
      (references : t.world.references = s.world.references.modify rc (· + 1))
      (tracked : t.world.tracked = s.world.tracked) (generations : t.world.generations = s.world.generations)
      (waiting : t.Waiting = s.Waiting) (roll : t.roll = s.roll)
  | drop (rc : Nat) (references : t.world.references = s.world.references.modify rc (· - 1))
      (tracked : t.world.tracked = s.world.tracked) (generations : t.world.generations = s.world.generations)
      (waiting : t.Waiting = s.Waiting) (roll : t.roll = s.roll)
  | create (arch : DbgTypeId) (id : Nat)
      (references : t.world.references = s.world.references ++ [1])
      (tracked : types.entityRc = true → ∀ a i, t.world.tracked a i =
        if a = arch ∧ i = id then some s.world.references.length else s.world.tracked a i)
      (generations : t.world.generations = Function.update s.world.generations arch
        (nextGeneration (s.world.generations arch) id))
      (waiting : t.Waiting = s.Waiting)
      (roll : t.roll = s.enroll arch fun r => (r.create id).init id)
  | createOnline (arch : DbgTypeId) (id : Nat)
      (references : t.world.references = s.world.references ++ [1])
      (tracked : t.world.tracked = s.world.tracked) (generations : t.world.generations = s.world.generations)
      (waiting : ∀ a i rc, t.Waiting a i rc ↔
        (a = arch ∧ i = id ∧ rc = s.world.references.length) ∨ s.Waiting a i rc)
      (roll : t.roll = s.enroll arch (·.create id))
  | init (arch : DbgTypeId) (id rc : Nat)
      (references : t.world.references = s.world.references)
      (tracked : types.entityRc = true → ∀ a i, t.world.tracked a i =
        if a = arch ∧ i = id then some rc else s.world.tracked a i)
      (generations : t.world.generations = Function.update s.world.generations arch
        (nextGeneration (s.world.generations arch) id))
      (waiting : ∀ a i rc', s.Waiting a i rc' ↔
        (a = arch ∧ i = id ∧ rc' = rc) ∨ t.Waiting a i rc')
      (roll : t.roll = s.enroll arch (·.init id))
  | free (arch : DbgTypeId) (id : Nat)
      (references : t.world.references = s.world.references)
      (tracked : types.entityRc = true → ∃ rc, s.world.tracked arch id = some rc ∧
        s.world.references[rc]?.getD 0 = 0 ∧
        ∀ a i, t.world.tracked a i = if a = arch ∧ i = id then none else s.world.tracked a i)
      (generations : t.world.generations = s.world.generations) (waiting : t.Waiting = s.Waiting)
      (roll : t.roll = s.enroll arch (·.free id))

/-! ## Entries -/

section Entries

variable {s world : World w T V}

/-- The counters of two entries are the same. -/
structure Uncounted (a a' : Archetype (w arch) (T arch) V) : Prop where
  rctrack : a'.rctrack = a.rctrack
  generations : a'.generations = a.generations

omit [∀ arch, Recycler (T arch) (Hint arch)] in
theorem tracked_of_lookup {a : Archetype (w arch) (T arch) V}
    (found : s.archetypes.lookup arch = some a) (id : Nat) :
    s.tracked arch id = rctrackGet a.rctrack id := by
  rw [World.tracked, found]
  rfl

omit [∀ arch, Recycler (T arch) (Hint arch)] in
theorem generations_of_lookup {a : Archetype (w arch) (T arch) V}
    (found : s.archetypes.lookup arch = some a) : s.generations arch = a.generations := by
  rw [World.generations, found]

section Touched

variable {changed : DbgTypeId} {id : Nat}
  {R : Archetype (w changed) (T changed) V → Archetype (w changed) (T changed) V → Prop}

omit [∀ arch, Recycler (T arch) (Hint arch)] in
theorem Touches.tracked (touches : Touches s world changed R) {rc : Option Nat}
    (here : ∀ a a', R a a' → ∀ i, rctrackGet a'.rctrack i =
      if i = id then rc else rctrackGet a.rctrack i) (arch : DbgTypeId) (i : Nat) :
    world.tracked arch i = if arch = changed ∧ i = id then rc else s.tracked arch i := by
  by_cases same : arch = changed
  · subst same
    obtain ⟨a, a', before, after, change⟩ := touches.here
    rw [tracked_of_lookup before, tracked_of_lookup after, here a a' change]
    simp
  · rw [World.tracked, touches.others arch same, if_neg fun h => same h.1]
    rfl

omit [∀ arch, Recycler (T arch) (Hint arch)] in
theorem Touches.generations (touches : Touches s world changed R)
    (here : ∀ a a', R a a' → a'.generations = nextGeneration a.generations id) :
    world.generations = Function.update s.generations changed
      (nextGeneration (s.generations changed) id) := by
  obtain ⟨a, a', before, after, change⟩ := touches.here
  funext arch
  by_cases own : arch = changed
  · subst own
    rw [Function.update_self, generations_of_lookup before, generations_of_lookup after,
      here a a' change]
  · rw [Function.update_of_ne own, World.generations, touches.others arch own]
    rfl

omit [∀ arch, Recycler (T arch) (Hint arch)] in
theorem Touches.generations_same (touches : Touches s world changed R)
    (here : ∀ a a', R a a' → a'.generations = a.generations) :
    world.generations = s.generations := by
  obtain ⟨a, a', before, after, change⟩ := touches.here
  funext arch
  by_cases own : arch = changed
  · subst own
    rw [generations_of_lookup before, generations_of_lookup after, here a a' change]
  · rw [World.generations, touches.others arch own]
    rfl

omit [∀ arch, Recycler (T arch) (Hint arch)] in
theorem Touches.uncounted (touches : Touches s world changed R)
    (here : ∀ a a', R a a' → Uncounted a a') :
    world.tracked = s.tracked ∧ world.generations = s.generations := by
  obtain ⟨a, a', before, after, change⟩ := touches.here
  have generations := touches.generations_same fun a a' change => (here a a' change).generations
  refine ⟨?_, generations⟩
  funext arch i
  by_cases own : arch = changed
  · subst own
    rw [tracked_of_lookup before, tracked_of_lookup after, (here a a' change).rctrack]
  · rw [World.tracked, touches.others arch own]
    rfl

end Touched

theorem forEalloc_uncounted
    {f : ∀ arch, Recycling (w arch) (T arch) → Except Panic (Recycling (w arch) (T arch))}
    (run : s.forEalloc f = .ok world) :
    world.tracked = s.tracked ∧ world.generations = s.generations := by
  have same : ∀ arch, (∃ a a', s.archetypes.lookup arch = some a ∧
      world.archetypes.lookup arch = some a' ∧ Uncounted a a') ∨
      s.archetypes.lookup arch = none ∧ world.archetypes.lookup arch = none := by
    intro arch
    obtain ⟨known, unknown⟩ := (forEalloc_ok run).1 arch
    cases before : s.archetypes.lookup arch with
    | none => exact .inr ⟨rfl, unknown before⟩
    | some a =>
      obtain ⟨a', after, change⟩ := known a before
      exact .inl ⟨a, a', rfl, after, change.rctrack, change.generations⟩
  constructor
  · funext arch i
    rcases same arch with ⟨a, a', before, after, alike⟩ | ⟨before, after⟩
    · rw [tracked_of_lookup before, tracked_of_lookup after, alike.rctrack]
    · rw [World.tracked, World.tracked, before, after]
  · funext arch
    rcases same arch with ⟨a, a', before, after, alike⟩ | ⟨before, after⟩
    · rw [generations_of_lookup before, generations_of_lookup after, alike.generations]
    · rw [World.generations, World.generations, before, after]

end Entries

/-! ## Waiting entities -/

omit [∀ arch, Recycler (T arch) (Hint arch)] in
theorem waiting_perm (perm : t.pending.Perm s.pending) : t.Waiting = s.Waiting := by
  funext arch id rc
  apply propext
  apply exists_congr
  intro compMap
  exact perm.mem_iff

omit [∀ arch, Recycler (T arch) (Hint arch)] in
theorem waiting_delete {id : Nat} (perm : t.pending.Perm (.deleteEntity arch id :: s.pending)) :
    t.Waiting = s.Waiting := by
  funext arch' id' rc
  apply propext
  apply exists_congr
  intro compMap
  rw [perm.mem_iff, List.mem_cons]
  simp

omit [∀ arch, Recycler (T arch) (Hint arch)] in
theorem waiting_create {id rc : Nat} {compMap : CompMap V}
    (perm : t.pending.Perm (.createEntity arch id rc compMap :: s.pending)) (a : DbgTypeId)
    (i rc' : Nat) :
    t.Waiting a i rc' ↔ (a = arch ∧ i = id ∧ rc' = rc) ∨ s.Waiting a i rc' := by
  simp only [Machine.Waiting, perm.mem_iff, List.mem_cons, Operation.createEntity.injEq]
  constructor
  · rintro ⟨compMap', ⟨same, own, counter, -⟩ | member⟩
    · exact .inl ⟨same, own, counter⟩
    · exact .inr ⟨compMap', member⟩
  · rintro (⟨same, own, counter⟩ | ⟨compMap', member⟩)
    · exact ⟨compMap, .inl ⟨same, own, counter, rfl⟩⟩
    · exact ⟨compMap', .inr member⟩

omit [∀ arch, Recycler (T arch) (Hint arch)] in
/-- Steps that neither create nor initialize an entity. -/
theorem Traffic.waiting (traffic : Traffic types s label t)
    (created : ∀ arch, (t.roll arch).created = (s.roll arch).created)
    (ready : ∀ arch, (t.roll arch).ready.length ≤ (s.roll arch).ready.length) :
    t.Waiting = s.Waiting := by
  cases traffic with
  | keep _ pending => exact waiting_perm pending
  | create arch id roll | createOnline arch id rc compMap roll =>
    have grown := created arch
    rw [roll, enroll_same] at grown
    exact absurd grown (List.cons_ne_self id _)
  | init arch id rc compMap roll =>
    have grown := ready arch
    rw [roll, enroll_same] at grown
    exact absurd grown (Nat.not_succ_le_self _)
  | request arch id _ pending => exact waiting_delete pending
  | free arch id _ _ completes =>
    rcases completes with ⟨-, pending⟩ | ⟨-, todo, newQueue, draining, pending⟩
    · exact waiting_perm (.of_eq pending)
    · have perm : s.pending.Perm (.deleteEntity arch id :: t.pending) := by
        rw [pending, pending_draining draining]
        exact .refl _
      exact (waiting_delete perm).symm

theorem enroll_free_ready (id : Nat) (arch' : DbgTypeId) :
    (s.enroll arch (·.free id) arch').created = (s.roll arch').created ∧
    (s.enroll arch (·.free id) arch').ready.length ≤ (s.roll arch').ready.length := by
  by_cases same : arch' = arch
  · subst same
    rw [enroll_same]
    exact ⟨rfl, List.length_erase_le⟩
  · rw [enroll_other same]
    exact ⟨rfl, le_rfl⟩

/-! ## Steps -/

theorem trackReference_get {store store' : Option (List (Option Nat))} {id rc : Nat}
    (counted : types.entityRc = true) (h : trackReference types store id rc = .ok store') (i : Nat) :
    rctrackGet store' i = if i = id then some rc else rctrackGet store i := by
  rw [trackReference, if_pos counted] at h
  exact rctrackGet_set h i

/-- A completed deletion has untracked a counter without references. -/
theorem Deleted.counters {references : List Nat} {id : Nat} {e : Recycling (w arch) (T arch)}
    {a a' : Archetype (w arch) (T arch) V} (counted : types.entityRc = true)
    (deleted : Deleted types references id { a with ealloc := e } a') :
    ∃ rc, rctrackGet a.rctrack id = some rc ∧ references[rc]?.getD 0 = 0 ∧
      ∀ i, rctrackGet a'.rctrack i = if i = id then none else rctrackGet a.rctrack i := by
  have untracked := deleted.rctrack
  rw [untrackReference, if_pos counted] at untracked
  obtain ⟨⟨rc, store⟩, removed, untracked⟩ := bind_eq_ok.mp untracked
  dsimp only at untracked
  split at untracked
  · rename_i last
    rw [pure_eq_ok, Except.ok.injEq] at untracked
    subst untracked
    exact ⟨rc, rctrackRemove_found removed, last, rctrackGet_remove removed⟩
  · cases untracked

theorem Touches.freed {changed : DbgTypeId} {id : Nat}
    {e : Archetype (w changed) (T changed) V → Recycling (w changed) (T changed)}
    (counted : types.entityRc = true)
    (touches : Touches s.world t.world changed fun a a' =>
      Deleted types s.world.references id { a with ealloc := e a } a') :
    ∃ rc, s.world.tracked changed id = some rc ∧ s.world.references[rc]?.getD 0 = 0 ∧
      ∀ arch i, t.world.tracked arch i =
        if arch = changed ∧ i = id then none else s.world.tracked arch i := by
  obtain ⟨a, a', before, after, deleted⟩ := touches.here
  obtain ⟨rc, found, last, -⟩ := deleted.counters counted
  refine ⟨rc, ?_, last, ?_⟩
  · rw [tracked_of_lookup before, found]
  · apply touches.tracked
    intro a a' deleted
    obtain ⟨-, -, -, removed⟩ := deleted.counters counted
    exact removed

theorem step_counted (step : s.Step types label t) (buffered : s.Buffered) :
    Counted types s label t := by
  have traffic := step_traffic step buffered
  cases step with
  | create changed shardId hint compMap host run =>
    obtain ⟨touches, buffer, references⟩ := createWithHint_ok run
    refine .create changed _ references ?_ ?_ ?_ rfl
    · intro counted
      apply touches.tracked
      rintro a a' ⟨e, -, init⟩
      exact trackReference_get counted init.rctrack
    · apply touches.generations
      rintro a a' ⟨e, -, init⟩
      exact init.generations
    · exact waiting_perm (.of_eq (Machine.pending_access buffer))
  | delete changed id host run =>
    obtain ⟨-, touches⟩ := delete_deleted run
    refine .free changed id (delete_ok run).2 ?_ ?_ ?_ rfl
    · exact fun counted => touches.freed counted
    · exact touches.generations_same fun a a' deleted => deleted.generations
    · exact traffic.waiting (fun arch => (enroll_free_ready id arch).1)
        fun arch => (enroll_free_ready id arch).2
  | deleteTerminating changed id host run =>
    obtain ⟨-, touches⟩ := delete_terminating run
    obtain ⟨tracked, generations⟩ := touches.uncounted fun a a' flagged =>
      ⟨flagged.rctrack, flagged.generations⟩
    exact .keep (delete_ok run).2 tracked generations
      (traffic.waiting (fun _ => rfl) fun _ => le_rfl) rfl
  | setSimple changed comp id value _ _ run =>
    obtain ⟨touches, -, references⟩ := setSimple_ok run
    obtain ⟨tracked, generations⟩ := touches.uncounted fun a a' h => ⟨h.rctrack, h.generations⟩
    exact .keep references tracked generations
      (traffic.waiting (fun _ => rfl) fun _ => le_rfl) rfl
  | openIsotope changed comp discrim _ _ run =>
    obtain ⟨touches, -, references⟩ := openIsotope_ok run
    obtain ⟨tracked, generations⟩ := touches.uncounted fun a a' h => ⟨h.rctrack, h.generations⟩
    exact .keep references tracked generations
      (traffic.waiting (fun _ => rfl) fun _ => le_rfl) rfl
  | setIsotope changed comp discrim id value _ run
  | getIsotope changed comp discrim id value _ _ run =>
    obtain ⟨touches, -, references⟩ := setIsotope_ok run
    obtain ⟨tracked, generations⟩ := touches.uncounted fun a a' h => ⟨h.rctrack, h.generations⟩
    exact .keep references tracked generations
      (traffic.waiting (fun _ => rfl) fun _ => le_rfl) rfl
  | cloneReference rc accessible =>
    exact .clone rc rfl rfl rfl rfl (traffic.waiting (fun _ => rfl) fun _ => le_rfl) rfl
  | dropReference rc accessible =>
    exact .drop rc rfl rfl rfl (traffic.waiting (fun _ => rfl) fun _ => le_rfl) rfl
  | execute assign host run | flush drained run =>
    obtain ⟨tracked, generations⟩ := forEalloc_uncounted run
    exact .keep (forEalloc_ok run).2.2 tracked generations
      (traffic.waiting (fun _ => rfl) fun _ => le_rfl) rfl
  | createOnline worker changed hint compMap online _ run =>
    obtain ⟨touches, ⟨items, found, buffer⟩, references⟩ := createEntityWithHintAndShard_ok run
    obtain ⟨tracked, generations⟩ := touches.uncounted fun a a' h => ⟨h.rctrack, h.generations⟩
    refine .createOnline changed _ references tracked generations ?_ rfl
    apply waiting_create
    simp only [Machine.pending, online, buffer]
    exact operations_push found _
  | deleteOnline worker changed id online run =>
    obtain ⟨items, -, rfl⟩ := pushOperation_ok run
    exact .keep rfl rfl rfl (traffic.waiting (fun _ => rfl) fun _ => le_rfl) rfl
  | join online =>
    exact .keep rfl rfl rfl (traffic.waiting (fun _ => rfl) fun _ => le_rfl) rfl
  | drainCreate draining run =>
    obtain ⟨touches, buffer, references⟩ := initEntity_ok run
    refine .init _ _ _ references (fun counted => touches.tracked fun a a' init =>
      trackReference_get counted init.rctrack) (touches.generations fun a a' init =>
      init.generations) ?_ rfl
    apply waiting_create
    exact .of_eq (pending_draining draining)
  | @drainDelete changed id todo newQueue world draining run =>
    have touches := flagDeleteEntity_deleted run
    refine .free changed id (flagDeleteEntity_ok run).2.2 ?_ ?_ ?_ rfl
    · exact fun counted => touches.freed (e := fun a => a.ealloc) counted
    · exact touches.generations_same fun a a' deleted => deleted.generations
    · exact traffic.waiting (fun arch => (enroll_free_ready id arch).1)
        fun arch => (enroll_free_ready id arch).2
  | drainRerun draining run =>
    have touches := flagDeleteEntity_terminating run
    obtain ⟨tracked, generations⟩ := touches.uncounted fun a a' flagged =>
      ⟨flagged.rctrack, flagged.generations⟩
    exact .keep (flagDeleteEntity_ok run).2.2 tracked generations
      (traffic.waiting (fun _ => rfl) fun _ => le_rfl) rfl

end Dynec.World
