import Dynec.World.Handover

/-!
# Two runs of one cycle

In both of them the same systems do the same things, but the system that queues
an entity for deletion is on another worker. The worlds before the drain differ
in the place of that one operation.
-/

namespace Dynec.World

open Entity Fallible
open Machine (Transition Run)

variable {V : Type} {w : DbgTypeId → Nat} {T Hint : DbgTypeId → Type}
  [∀ arch, Recycler (T arch) (Hint arch)] {types : Types V} {s t : Machine w T V}
  {label : Label Hint V} {arch : DbgTypeId}

/-! ## The buffer does not matter to systems -/

/-- The same world with another buffer. -/
def rebuffer (world : World w T V) (buffer : Buffer V) : World w T V :=
  { world with offlineBuffer := buffer }

/-- Pushing an operation to the shard of a worker. -/
def Buffer.pushed (buffer : Buffer V) (worker : Nat) (items : List (Operation V))
    (op : Operation V) : Buffer V :=
  { buffer with shards := buffer.shards.set worker (items ++ [op]) }

section Access
variable (world : World w T V) (buffer : Buffer V)

omit [∀ arch, Recycler (T arch) (Hint arch)] in
/-- A change of the entry of one archetype. -/
theorem update_rebuffer (arch : DbgTypeId)
    (f : Archetype (w arch) (T arch) V → Except Panic (Archetype (w arch) (T arch) V)) :
    (do
      let a ← (world.rebuffer buffer).archetype arch
      let a' ← f a
      return (world.rebuffer buffer).setArchetype arch a') =
    (do
      let a ← world.archetype arch
      let a' ← f a
      return world.setArchetype arch a' : Except Panic (World w T V)).map (·.rebuffer buffer) := by
  have same : (world.rebuffer buffer).archetype arch = world.archetype arch := rfl
  rw [same]
  cases world.archetype arch with
  | error e => rfl
  | ok a =>
    simp only [ok_bind]
    cases f a with
    | error e => rfl
    | ok a' => rfl

omit [∀ arch, Recycler (T arch) (Hint arch)] in
theorem setSimple_rebuffer (arch comp : DbgTypeId) (id : Nat) (value : Option V) :
    (world.rebuffer buffer).setSimple arch comp id value =
      (world.setSimple arch comp id value).map (·.rebuffer buffer) := by
  have update := update_rebuffer world buffer arch fun a => do
    let typed ← a.typed.setSimple (.unusedComponent comp) comp id value
    return { a with typed }
  simpa only [setSimple, bind_assoc, pure_bind] using update

omit [∀ arch, Recycler (T arch) (Hint arch)] in
theorem openIsotope_rebuffer (snapshot : Snapshot) (arch comp : DbgTypeId) (discrim : Discrim) :
    (world.rebuffer buffer).openIsotope types snapshot arch comp discrim =
      (world.openIsotope types snapshot arch comp discrim).map (·.rebuffer buffer) := by
  have update := update_rebuffer world buffer arch fun a => do
    let map ← expect (.unusedComponent comp) (a.typed.isotopeStorageMaps.lookup comp)
    let created ← map.getOrCreate (types.isotopeOf arch comp) discrim
      (allocatedIds (w arch) snapshot)
    return { a with typed := { a.typed with
      isotopeStorageMaps := a.typed.isotopeStorageMaps.insert comp created.2 } }
  simpa only [openIsotope, bind_assoc, pure_bind] using update

omit [∀ arch, Recycler (T arch) (Hint arch)] in
theorem setIsotope_rebuffer (arch comp : DbgTypeId) (discrim : Discrim) (id : Nat)
    (value : Option V) : (world.rebuffer buffer).setIsotope arch comp discrim id value =
      (world.setIsotope arch comp discrim id value).map (·.rebuffer buffer) := by
  have update := update_rebuffer world buffer arch fun a => do
    let map ← expect (.unusedComponent comp) (a.typed.isotopeStorageMaps.lookup comp)
    let storage ← expect .invalidKey (map.lookup discrim)
    return { a with typed := { a.typed with
      isotopeStorageMaps := a.typed.isotopeStorageMaps.insert comp
        (map.insert discrim (storage.set id value)) } }
  simpa only [setIsotope, bind_assoc, pure_bind] using update

theorem createEntityWithHintAndShard_rebuffer {worker shardId : Nat} {hint : Hint arch}
    {compMap : CompMap V} {id id' : Nat} {after after' : World w T V}
    (run : world.createEntityWithHintAndShard worker arch shardId hint compMap = .ok (id, after))
    (run' : (world.rebuffer buffer).createEntityWithHintAndShard worker arch shardId hint compMap =
      .ok (id', after')) : id' = id ∧ ∃ items items',
      world.offlineBuffer.shards[worker]? = some items ∧ buffer.shards[worker]? = some items' ∧
      after.offlineBuffer = world.offlineBuffer.pushed worker items
        (.createEntity arch id world.references.length compMap) ∧
      after' = after.rebuffer (buffer.pushed worker items'
        (.createEntity arch id world.references.length compMap)) := by
  obtain ⟨a, found, run⟩ := bind_eq_ok.mp run
  obtain ⟨_, allocated, run⟩ := bind_eq_ok.mp run
  obtain ⟨_, pushed, run⟩ := bind_eq_ok.mp run
  cases run
  obtain ⟨a', found', run'⟩ := bind_eq_ok.mp run'
  obtain ⟨_, allocated', run'⟩ := bind_eq_ok.mp run'
  obtain ⟨_, pushed', run'⟩ := bind_eq_ok.mp run'
  cases run'
  cases (found.symm.trans found')
  cases (allocated.symm.trans allocated')
  obtain ⟨items, listed, rfl⟩ := pushOperation_ok pushed
  obtain ⟨items', listed', rfl⟩ := pushOperation_ok pushed'
  exact ⟨rfl, items, items', listed, listed', rfl, rfl⟩

end Access

/-! ## Two buffers -/

/-- The second buffer has an operation in shard `i`, after the operations `y`,
that the first one has in shard `j`, after the operations `u`. -/
structure Moves (i j : Nat) (op : Operation V) (y u z v : List (Operation V))
    (buffer buffer' : Buffer V) : Prop where
  here : buffer.shards[i]? = some (y ++ z)
  there : buffer.shards[j]? = some (u ++ op :: v)
  rerunQueue : buffer'.rerunQueue = buffer.rerunQueue
  shards : ∀ k, buffer'.shards[k]? = if k = i then some (y ++ op :: z)
    else if k = j then some (u ++ v) else buffer.shards[k]?

theorem pushed_shards {buffer : Buffer V} {worker : Nat} {items : List (Operation V)}
    (found : buffer.shards[worker]? = some items) (op : Operation V) (k : Nat) :
    (buffer.pushed worker items op).shards[k]? =
      if k = worker then some (items ++ [op]) else buffer.shards[k]? := by
  obtain ⟨inside, -⟩ := List.getElem?_eq_some_iff.mp found
  simp only [Buffer.pushed, List.getElem?_set]
  by_cases same : k = worker
  · simp [same, inside]
  · simp [same, Ne.symm same]

variable {i j worker : Nat} {op new : Operation V} {y u z v items items' : List (Operation V)}
  {buffer buffer' : Buffer V}

theorem Moves.pushed (moves : Moves i j op y u z v buffer buffer') (apart : i ≠ j)
    (found : buffer.shards[worker]? = some items)
    (found' : buffer'.shards[worker]? = some items') : ∃ z' v',
    Moves i j op y u z' v' (buffer.pushed worker items new) (buffer'.pushed worker items' new) := by
  have shards := moves.shards
  have places := pushed_shards found new
  have places' := pushed_shards found' new
  rw [shards] at found'
  by_cases first : worker = i
  · subst first
    rw [if_pos rfl, Option.some.injEq] at found'
    cases moves.here.symm.trans found
    refine ⟨z ++ [new], v, ?_, ?_, moves.rerunQueue, fun k => ?_⟩
    · rw [places, if_pos rfl, List.append_assoc]
    · rw [places, if_neg apart.symm, moves.there]
    · rw [places, places', shards, ← found']
      by_cases at_worker : k = worker
      · simp [at_worker]
      · simp [at_worker]
  rw [if_neg first] at found'
  by_cases second : worker = j
  · subst second
    rw [if_pos rfl, Option.some.injEq] at found'
    cases moves.there.symm.trans found
    refine ⟨z, v ++ [new], ?_, ?_, moves.rerunQueue, fun k => ?_⟩
    · rw [places, if_neg apart, moves.here]
    · rw [places, if_pos rfl, List.append_assoc, List.cons_append]
    · rw [places, places', shards, ← found']
      by_cases at_worker : k = worker
      · simp [at_worker, first]
      · simp [at_worker]
  · rw [if_neg second] at found'
    cases found.symm.trans found'
    refine ⟨z, v, ?_, ?_, moves.rerunQueue, fun k => ?_⟩
    · rw [places, if_neg (Ne.symm first), moves.here]
    · rw [places, if_neg (Ne.symm second), moves.there]
    · rw [places, places', shards]
      by_cases at_worker : k = worker
      · simp [at_worker, first, second]
      · simp [at_worker]

/-! ## Replays -/

/-- The second machine has another buffer, and nothing else. -/
def Rebuffered (R : Buffer V → Buffer V → Prop) (s s' : Machine w T V) : Prop :=
  ∃ buffer, R s.world.offlineBuffer buffer ∧ s' = { s with world := s.world.rebuffer buffer }

section Replay
variable {R : Buffer V → Buffer V → Prop} {s' t' : Machine w T V}
  {assign : DbgTypeId → List Nat} {snapshots : HashMap DbgTypeId Snapshot}

/-- A step that does not touch the buffer. -/
theorem Rebuffered.access {x x' : Except Panic (World w T V)} {world world' : World w T V}
    (related : R s.world.offlineBuffer buffer') (same : x' = x.map (·.rebuffer buffer'))
    (run : x = .ok world) (run' : x' = .ok world')
    (kept : world.offlineBuffer = s.world.offlineBuffer) {phase : Phase V}
    {roll : DbgTypeId → Roll} :
    Rebuffered R ⟨world, phase, roll⟩ ⟨world', phase, roll⟩ := by
  rw [run] at same
  cases run'.symm.trans same
  exact ⟨buffer', kept ▸ related, rfl⟩

/-- The same step, with another buffer. -/
theorem step_replay (pushes : ∀ {b b' : Buffer V} {worker : Nat} {items items' : List (Operation V)}
      (new : Operation V), R b b' → b.shards[worker]? = some items →
      b'.shards[worker]? = some items' → R (b.pushed worker items new) (b'.pushed worker items' new))
    (step : s.Step types label t) (step' : s'.Step types label t')
    (online : s.phase = .online assign snapshots) (unjoined : label ≠ .join)
    (rebuffered : Rebuffered R s s') : Rebuffered R t t' := by
  obtain ⟨buffer', related, rfl⟩ := rebuffered
  cases step with
  | create _ _ _ _ host | delete _ _ host | deleteTerminating _ _ host
  | getIsotope _ _ _ _ _ host | execute _ host => cases host.symm.trans online
  | drainCreate draining | drainDelete draining | drainRerun draining | flush draining =>
    cases draining.symm.trans online
  | setSimple _ _ _ _ _ _ run =>
    cases step' with
    | setSimple _ _ _ _ _ _ run' =>
      exact .access related (setSimple_rebuffer _ _ _ _ _ _) run run' (setSimple_ok run).2.1
  | openIsotope _ _ _ online' taken run =>
    cases step' with
    | openIsotope _ _ _ online'' taken' run' =>
      cases online'.symm.trans online''
      cases taken.symm.trans taken'
      exact .access related (openIsotope_rebuffer _ _ _ _ _ _) run run' (openIsotope_ok run).2.1
  | setIsotope _ _ _ _ _ _ run =>
    cases step' with
    | setIsotope _ _ _ _ _ _ run' =>
      exact .access related (setIsotope_rebuffer _ _ _ _ _ _ _) run run' (setIsotope_ok run).2.1
    | getIsotope _ _ _ _ _ host => cases host.symm.trans online
  | cloneReference =>
    cases step' with
    | cloneReference => exact ⟨buffer', related, rfl⟩
  | dropReference =>
    cases step' with
    | dropReference => exact ⟨buffer', related, rfl⟩
  | createOnline worker changed hint compMap online' assigned run =>
    cases step' with
    | createOnline _ _ _ _ online'' assigned' run' =>
      cases online'.symm.trans online''
      cases assigned.symm.trans assigned'
      obtain ⟨rfl, items, items', found, found', buffer, rfl⟩ :=
        createEntityWithHintAndShard_rebuffer _ _ run run'
      refine ⟨_, ?_, rfl⟩
      rw [buffer]
      exact pushes _ related found found'
  | deleteOnline worker changed id _ run =>
    cases step' with
    | deleteOnline _ _ _ _ run' =>
      obtain ⟨items, found, rfl⟩ := pushOperation_ok run
      obtain ⟨items', found', rfl⟩ := pushOperation_ok run'
      exact ⟨_, pushes _ related found found', rfl⟩
  | join => exact absurd rfl unjoined

theorem run_replay (pushes : ∀ {b b' : Buffer V} {worker : Nat} {items items' : List (Operation V)}
      (new : Operation V), R b b' → b.shards[worker]? = some items →
      b'.shards[worker]? = some items' → R (b.pushed worker items new) (b'.pushed worker items' new))
    {trace trace' : List (Transition w T Hint V)} (run : Run types s trace t)
    (run' : Run types s' trace' t') (same : trace'.map (·.label) = trace.map (·.label))
    (online : s.phase = .online assign snapshots) (unjoined : ∀ t ∈ trace, t.label ≠ .join)
    (rebuffered : Rebuffered R s s') : Rebuffered R t t' := by
  induction run generalizing trace' t' with
  | start =>
    cases List.map_eq_nil_iff.mp same
    cases run'
    exact rebuffered
  | next past step ih =>
    obtain ⟨here, earlier⟩ := List.forall_mem_cons.mp unjoined
    cases run' with
    | start => cases same
    | next past' step' =>
      simp only [List.map_cons, List.cons.injEq] at same
      obtain ⟨rfl, same⟩ := same
      have before := ih past' same earlier
      exact step_replay pushes step step' ((online_run past online earlier).phase.trans online)
        here before

end Replay

/-! ## Operations of the two runs -/

section Places
variable {α : Type} {l l' : List α} {a b a' b' : α}

theorem place_split {k : Nat} (found : l[k]? = some a) :
    ∃ before after, before.length = k ∧ l = before ++ a :: after := by
  obtain ⟨inside, here⟩ := List.getElem?_eq_some_iff.mp found
  refine ⟨l.take k, l.drop (k + 1), by simp [Nat.le_of_lt inside], ?_⟩
  rw [← here, List.getElem_cons_drop, List.take_append_drop]

/-- A list and another one that differs from it in two places. -/
theorem places_split (lt : i < j) (first : l[i]? = some a) (second : l[j]? = some b)
    (places : ∀ k, l'[k]? = if k = i then some a' else if k = j then some b' else l[k]?) :
    ∃ before middle after, l = before ++ a :: (middle ++ b :: after) ∧
      l' = before ++ a' :: (middle ++ b' :: after) := by
  obtain ⟨before, rest, size, rfl⟩ := place_split first
  obtain ⟨step, rfl⟩ := Nat.exists_eq_add_of_lt lt
  rw [List.getElem?_append_right (by omega), size,
    show i + step + 1 - i = step + 1 by omega, List.getElem?_cons_succ] at second
  obtain ⟨middle, after, size', rfl⟩ := place_split second
  refine ⟨before, middle, after, rfl, List.ext_getElem? fun k => ?_⟩
  rw [places]
  subst size size'
  rcases Nat.lt_trichotomy k before.length with less | rfl | more
  · rw [if_neg (by omega), if_neg (by omega), List.getElem?_append_left less,
      List.getElem?_append_left less]
  · simp
  · obtain ⟨k, rfl⟩ := Nat.exists_eq_add_of_lt more
    rw [if_neg (by omega), List.getElem?_append_right (by omega),
      List.getElem?_append_right (by omega), show before.length + k + 1 - before.length = k + 1
      by omega, List.getElem?_cons_succ, List.getElem?_cons_succ]
    rcases Nat.lt_trichotomy k middle.length with less | rfl | more
    · rw [if_neg (by omega), List.getElem?_append_left less, List.getElem?_append_left less]
    · simp
    · obtain ⟨k, rfl⟩ := Nat.exists_eq_add_of_lt more
      rw [if_neg (by omega), List.getElem?_append_right (by omega),
        List.getElem?_append_right (by omega), show middle.length + k + 1 - middle.length = k + 1
        by omega, List.getElem?_cons_succ, List.getElem?_cons_succ]

end Places

variable {x : List (Operation V)} {creation : Operation V}

/-- The shard of the creation comes first: in the other buffer the deletion has
only moved ahead. -/
theorem Moves.ahead (moves : Moves i j op (x ++ creation :: y) u z v buffer buffer')
    (lt : i < j) : ∃ p q₁ q₂ r,
      buffer.operations = p ++ creation :: (q₁ ++ (q₂ ++ op :: r)) ∧
      buffer'.operations = p ++ creation :: (q₁ ++ op :: (q₂ ++ r)) := by
  obtain ⟨before, middle, after, whole, whole'⟩ :=
    places_split lt moves.here moves.there moves.shards
  refine ⟨buffer.rerunQueue ++ before.flatten ++ x, y, z ++ middle.flatten ++ u,
    v ++ after.flatten, ?_, ?_⟩
  · rw [Buffer.operations, whole]
    simp
  · rw [Buffer.operations, whole', moves.rerunQueue]
    simp

/-- The shard of the deletion comes first: in the other buffer it is after the
creation. -/
theorem Moves.behind (moves : Moves i j op (x ++ creation :: y) u z v buffer buffer')
    (lt : j < i) : ∃ p q r₁ r₂,
      buffer.operations = p ++ op :: (q ++ creation :: (r₁ ++ r₂)) ∧
      buffer'.operations = p ++ (q ++ creation :: (r₁ ++ op :: r₂)) := by
  have shards : ∀ k, buffer'.shards[k]? = if k = j then some (u ++ v)
      else if k = i then some (x ++ creation :: y ++ op :: z) else buffer.shards[k]? := by
    intro k
    rw [moves.shards]
    by_cases first : k = j
    · rw [if_neg (by omega), if_pos first, if_pos first]
    · simp [first]
  obtain ⟨before, middle, after, whole, whole'⟩ :=
    places_split lt moves.there moves.here shards
  refine ⟨buffer.rerunQueue ++ before.flatten ++ u, v ++ middle.flatten ++ x, y,
    z ++ after.flatten, ?_, ?_⟩
  · rw [Buffer.operations, whole]
    simp
  · rw [Buffer.operations, whole', moves.rerunQueue]
    simp

/-- In both runs worker `i` creates an entity. After that it is queued for
deletion, in the first run by worker `j` and in the second one by worker `i`.
Apart from this the same happens. The traces end before the cycle joins. -/
inductive Twins (i j : Nat) (arch : DbgTypeId) (id rc : Nat) (compMap : CompMap V) :
    List (Transition w T Hint V) → List (Transition w T Hint V) → Prop
  | mk {early mid late late' : List (Transition w T Hint V)} {c c' d d' e : Machine w T V}
      {hint : Hint arch} (created : (c'.roll arch).created = id :: (c.roll arch).created)
      (reference : rc = c.world.references.length)
      (unjoined : ∀ t ∈ late ++ mid, t.label ≠ .join)
      (same : late'.map (·.label) = late.map (·.label)) :
      Twins i j arch id rc compMap
        (late ++ ⟨d, .deleteOnline j arch id, d'⟩ ::
          (mid ++ ⟨c, .createOnline i arch hint compMap, c'⟩ :: early))
        (late' ++ ⟨d, .deleteOnline i arch id, e⟩ ::
          (mid ++ ⟨c, .createOnline i arch hint compMap, c'⟩ :: early))

variable {id rc : Nat} {compMap : CompMap V} {first s' : Machine w T V}
  {trace trace' : List (Transition w T Hint V)}

omit [∀ arch, Recycler (T arch) (Hint arch)] in
theorem Twins.handover (twins : Twins i j arch id rc compMap trace trace') :
    Handover i j arch id rc compMap trace := by
  obtain ⟨created, reference, unjoined, -⟩ := twins
  exact .mk created reference unjoined

/-- The second run ends in the same state but for the place of the deletion. -/
theorem Twins.moves (twins : Twins i j arch id rc compMap trace trace')
    (run : Run types first trace s) (run' : Run types first trace' s') :
    ∃ buffer, s' = { s with world := s.world.rebuffer buffer } ∧
      (i = j → buffer = s.world.offlineBuffer) ∧
      (i ≠ j → ∃ x y z u v, Moves i j (.deleteEntity arch id)
        (x ++ .createEntity arch id rc compMap :: y) u z v s.world.offlineBuffer buffer) := by
  obtain @⟨early, mid, late, late', c, c', d, d', e, hint, created, reference, unjoined, same⟩ :=
    twins
  obtain ⟨_, run, after⟩ := run_append run
  obtain ⟨_, run', after'⟩ := run_append run'
  cases run with
  | next run deletion =>
  cases run' with
  | next run' deletion' =>
  obtain ⟨⟨assign, snapshots, online⟩, x, y, pushed⟩ := creation_kept run created reference
    fun t member => unjoined t (List.mem_append_right _ member)
  have unjoined : ∀ t ∈ late, t.label ≠ .join :=
    fun t member => unjoined t (List.mem_append_left _ member)
  cases deletion with
  | deleteOnline _ _ _ _ ran =>
  cases deletion' with
  | deleteOnline _ _ _ _ ran' =>
  obtain ⟨u, found, rfl⟩ := pushOperation_ok ran
  obtain ⟨items, found', rfl⟩ := pushOperation_ok ran'
  cases pushed.symm.trans found'
  by_cases apart : i = j
  · subst apart
    cases found.symm.trans found'
    obtain ⟨buffer, rfl, alike⟩ := run_replay (R := fun b b' => b' = b)
      (fun {b b' worker items items'} new same found found' => by
        subst same
        cases found.symm.trans found'
        rfl)
      after after' same online unjoined ⟨_, rfl, rfl⟩
    exact ⟨_, alike, fun _ => rfl, fun differ => absurd rfl differ⟩
  · have start : Moves i j (.deleteEntity arch id) (x ++ .createEntity arch id rc compMap :: y) u
        [] [] (d.world.offlineBuffer.pushed j u (.deleteEntity arch id))
        (d.world.offlineBuffer.pushed i (x ++ .createEntity arch id rc compMap :: y)
          (.deleteEntity arch id)) := by
      refine ⟨?_, ?_, rfl, fun k => ?_⟩
      · rw [pushed_shards found, if_neg apart, found', List.append_nil]
      · rw [pushed_shards found, if_pos rfl]
      · rw [pushed_shards found, pushed_shards found', List.append_nil]
        by_cases second : k = j
        · rw [if_pos second, second, found]
        · rw [if_neg second, if_neg second]
    obtain ⟨buffer, ⟨z, v, moves⟩, alike⟩ := run_replay
      (R := fun b b' => ∃ z v, Moves i j (.deleteEntity arch id)
        (x ++ .createEntity arch id rc compMap :: y) u z v b b')
      (fun {b b' worker items items'} new moves found found' => by
        obtain ⟨z, v, moves⟩ := moves
        exact moves.pushed apart found found')
      after after' same online unjoined ⟨_, ⟨[], [], start⟩, rfl⟩
    exact ⟨buffer, alike, fun equal => absurd equal apart, fun _ => ⟨x, y, z, u, v, moves⟩⟩

end Dynec.World
