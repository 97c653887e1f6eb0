import Dynec.World.Drain

/-!
# An entity that is created and deleted in one cycle

Where the two operations are in the buffer when the cycle joins: the shard of
the worker that created the entity comes before that of the worker that deletes
it, or after it.
-/

namespace Dynec.World

open Entity Fallible
open Machine (Transition Run)

variable {U V : Type} {w : DbgTypeId → Nat} {T Hint : DbgTypeId → Type}
  [∀ arch, Recycler (T arch) (Hint arch)] {types : Types V} {s t : Machine w T V}
  {label : Label Hint V} {arch : DbgTypeId}

/-! ## The online part of a cycle -/

theorem run_append {first : Machine w T V} {late early : List (Transition w T Hint V)}
    (run : Run types first (late ++ early) s) :
    ∃ middle, Run types first early middle ∧ Run types middle late s := by
  induction late generalizing s with
  | nil => exact ⟨s, run, .start⟩
  | cons transition late ih =>
    cases run with
    | next past step =>
      obtain ⟨middle, before, after⟩ := ih past
      exact ⟨middle, before, .next after step⟩

/-- Systems append to the shards of the buffer. -/
structure Appends (s t : Machine w T V) : Prop where
  phase : t.phase = s.phase
  rerunQueue : t.world.offlineBuffer.rerunQueue = s.world.offlineBuffer.rerunQueue
  shards : ∀ (k : Nat) (items : List (Operation V)),
    s.world.offlineBuffer.shards[k]? = some items →
      ∃ more, t.world.offlineBuffer.shards[k]? = some (items ++ more)

theorem appends_same {t : Machine w T V} (phase : t.phase = s.phase)
    (buffer : t.world.offlineBuffer = s.world.offlineBuffer) : Appends s t :=
  ⟨phase, by rw [buffer], fun k items found => ⟨[], by rw [buffer, found, List.append_nil]⟩⟩

theorem appends_push {world : World w T V} (roll : DbgTypeId → Roll) {worker : Nat}
    {items : List (Operation V)} {op : Operation V}
    (found : s.world.offlineBuffer.shards[worker]? = some items)
    (buffer : world.offlineBuffer = { s.world.offlineBuffer with
      shards := s.world.offlineBuffer.shards.set worker (items ++ [op]) }) :
    Appends s ⟨world, s.phase, roll⟩ ∧
      world.offlineBuffer.shards[worker]? = some (items ++ [op]) := by
  obtain ⟨inside, -⟩ := List.getElem?_eq_some_iff.mp found
  refine ⟨⟨rfl, by rw [buffer], fun k items' found' => ?_⟩, ?_⟩
  · simp only [buffer]
    by_cases same : k = worker
    · subst same
      cases found.symm.trans found'
      exact ⟨[op], List.getElem?_set_self inside⟩
    · refine ⟨[], ?_⟩
      rw [List.getElem?_set_ne (Ne.symm same), found', List.append_nil]
  · rw [buffer]
    exact List.getElem?_set_self inside

theorem online_step {assign : DbgTypeId → List Nat} {snapshots : HashMap DbgTypeId Snapshot}
    (step : s.Step types label t) (online : s.phase = .online assign snapshots)
    (unjoined : label ≠ .join) : Appends s t := by
  cases step with
  | create _ _ _ _ host | delete _ _ host | deleteTerminating _ _ host
  | getIsotope _ _ _ _ _ host | execute _ host => cases host.symm.trans online
  | drainCreate draining | drainDelete draining | drainRerun draining | flush draining =>
    cases draining.symm.trans online
  | setSimple _ _ _ _ _ _ run => exact appends_same rfl (setSimple_ok run).2.1
  | openIsotope _ _ _ _ _ run => exact appends_same rfl (openIsotope_ok run).2.1
  | setIsotope _ _ _ _ _ _ run => exact appends_same rfl (setIsotope_ok run).2.1
  | cloneReference | dropReference => exact appends_same rfl rfl
  | createOnline worker changed hint compMap _ _ run =>
    obtain ⟨-, ⟨items, found, buffer⟩, -⟩ := createEntityWithHintAndShard_ok run
    exact (appends_push _ found buffer).1
  | deleteOnline worker changed id _ run =>
    obtain ⟨items, found, rfl⟩ := pushOperation_ok run
    exact (appends_push _ found rfl).1
  | join => exact absurd rfl unjoined

theorem Appends.trans {u : Machine w T V} (first : Appends s t) (second : Appends t u) :
    Appends s u := by
  refine ⟨second.phase.trans first.phase, second.rerunQueue.trans first.rerunQueue,
    fun k items found => ?_⟩
  obtain ⟨more, found'⟩ := first.shards k items found
  obtain ⟨rest, found''⟩ := second.shards k _ found'
  exact ⟨more ++ rest, by rw [found'', List.append_assoc]⟩

theorem online_run {assign : DbgTypeId → List Nat} {snapshots : HashMap DbgTypeId Snapshot}
    {trace : List (Transition w T Hint V)} (run : Run types s trace t)
    (online : s.phase = .online assign snapshots) (unjoined : ∀ t ∈ trace, t.label ≠ .join) :
    Appends s t := by
  induction run with
  | start => exact appends_same rfl rfl
  | next _ step ih =>
    obtain ⟨here, unjoined⟩ := List.forall_mem_cons.mp unjoined
    have past := ih unjoined
    exact past.trans (online_step step (past.phase.trans online) here)

/-! ## Entities that wait -/

/-- The entities created in a cycle are live and have different IDs. -/
def Waiting (s : Machine w T V) : Prop :=
  match s.phase with
  | .online _ _ => ∀ arch, (creates arch s.pending).Nodup ∧
      creates arch s.pending ⊆ (s.roll arch).live
  | _ => True

theorem Waiting.access {world : World w T V} (waiting : Waiting s)
    (buffer : world.offlineBuffer = s.world.offlineBuffer) : Waiting { s with world } := by
  unfold Waiting at waiting ⊢
  rw [Machine.pending_access buffer]
  exact waiting

theorem waiting_step (step : s.Step types label t) (buffered : s.Buffered) (ledgers : Ledgers s)
    (waiting : Waiting s) : Waiting t := by
  cases step with
  | create _ _ _ _ host | delete _ _ host | deleteTerminating _ _ host =>
    simp only [Waiting, host]
  | getIsotope _ _ _ _ _ host => simp only [Waiting, host]
  | drainCreate | drainDelete | drainRerun | flush | join => trivial
  | setSimple _ _ _ _ _ _ run => exact waiting.access (setSimple_ok run).2.1
  | openIsotope _ _ _ _ _ run => exact waiting.access (openIsotope_ok run).2.1
  | setIsotope _ _ _ _ _ _ run => exact waiting.access (setIsotope_ok run).2.1
  | cloneReference | dropReference => exact waiting.access rfl
  | execute assign host flushed =>
    intro arch
    have none : creates arch (World.offlineBuffer s.world).operations = [] := by
      simp only [Machine.Buffered, host] at buffered
      simp only [Buffer.operations, buffered.1, List.append_nil]
      exact buffered.2 arch
    simp only [Machine.pending, (forEalloc_ok flushed).2.1, none]
    exact ⟨.nil, List.nil_subset _⟩
  | @createOnline worker changed hint compMap assign snapshots shardId id world online _ run =>
    obtain ⟨touches, ⟨items, found, buffer⟩, -⟩ := createEntityWithHintAndShard_ok run
    obtain ⟨a, a', before, -, change⟩ := touches.here
    have fresh : id ∉ (s.roll changed).live :=
      (Ledger.inv_allocated (ledgers.ledger changed _ (ealloc_of_lookup before))
        (change.ealloc ▸ shardAllocate_allocated a.ealloc shardId hint)).1
    simp only [Waiting, Machine.pending, online, buffer] at waiting ⊢
    intro arch
    obtain ⟨nodup, live⟩ := waiting arch
    have perm := creates_perm arch (operations_push found
      (.createEntity changed id s.world.references.length compMap))
    by_cases same : arch = changed
    · subst same
      rw [enroll_same]
      simp only [creates, List.filterMap_cons, Operation.created, if_true] at perm
      refine ⟨perm.nodup_iff.mpr (List.nodup_cons.mpr ⟨fun waits => fresh (live waits), nodup⟩),
        fun x member => ?_⟩
      rcases List.mem_cons.mp (perm.mem_iff.mp member) with rfl | old
      · exact .head _
      · exact .tail _ (live old)
    · rw [enroll_other same]
      simp only [creates, List.filterMap_cons, Operation.created, if_neg (Ne.symm same)] at perm
      exact ⟨perm.nodup_iff.mpr nodup, fun x member => live (perm.mem_iff.mp member)⟩
  | @deleteOnline worker changed id assign snapshots world online run =>
    obtain ⟨items, found, rfl⟩ := pushOperation_ok run
    simp only [Waiting, Machine.pending, online] at waiting ⊢
    intro arch
    obtain ⟨nodup, live⟩ := waiting arch
    have perm := creates_perm arch (operations_push found (.deleteEntity changed id))
    simp only [creates, List.filterMap_cons, Operation.created] at perm
    exact ⟨perm.nodup_iff.mpr nodup, fun x member => live (perm.mem_iff.mp member)⟩

theorem waiting_run (width : ∀ arch, 0 < w arch) {b : Builder U V}
    (registered : b.AllRegistered types) {trace : List (Transition w T Hint V)}
    (run : Run types (.start b) trace s)
    (timely : ∀ t ∈ trace, Timely types t.before t.label) : Waiting s := by
  induction run with
  | start => trivial
  | next past step ih =>
    obtain ⟨-, timely⟩ := List.forall_mem_cons.mp timely
    exact waiting_step step (buffered_run past)
      (deletable_run width registered past timely).1.toLedgers (ih timely)

/-! ## The two operations -/

/-- In one cycle, worker `i` creates an entity and after that worker `j` queues
it for deletion. The trace ends before the cycle joins. -/
inductive Handover (i j : Nat) (arch : DbgTypeId) (id rc : Nat) (compMap : CompMap V) :
    List (Transition w T Hint V) → Prop
  | mk {early mid late : List (Transition w T Hint V)} {c c' d d' : Machine w T V}
      {hint : Hint arch} (created : (c'.roll arch).created = id :: (c.roll arch).created)
      (reference : rc = c.world.references.length)
      (unjoined : ∀ t ∈ late ++ mid, t.label ≠ .join) :
      Handover i j arch id rc compMap (late ++ ⟨d, .deleteOnline j arch id, d'⟩ ::
        (mid ++ ⟨c, .createOnline i arch hint compMap, c'⟩ :: early))

variable {i j id rc : Nat} {compMap : CompMap V} {first : Machine w T V}
  {trace : List (Transition w T Hint V)}

theorem mem_later {buffer : Buffer V} {k k' : Nat} {items' : List (Operation V)}
    (found' : buffer.shards[k']? = some items') (later : k < k') {op : Operation V} (member : op ∈ items') :
    op ∈ (buffer.shards.drop (k + 1)).flatten := by
  refine List.mem_flatten.mpr ⟨items', ?_, member⟩
  refine List.mem_of_getElem? (i := k' - (k + 1)) ?_
  rw [List.getElem?_drop, ← found']
  congr 1
  omega

/-- The creation stays in the shard of its worker. -/
theorem creation_kept {early mid : List (Transition w T Hint V)} {c c' : Machine w T V}
    {hint : Hint arch} (run : Run types first
      (mid ++ ⟨c, .createOnline i arch hint compMap, c'⟩ :: early) s)
    (created : (c'.roll arch).created = id :: (c.roll arch).created)
    (reference : rc = c.world.references.length) (unjoined : ∀ t ∈ mid, t.label ≠ .join) :
    (∃ assign snapshots, s.phase = .online assign snapshots) ∧
    ∃ x y, s.world.offlineBuffer.shards[i]? = some (x ++ .createEntity arch id rc compMap :: y) := by
  obtain ⟨_, run, between⟩ := run_append run
  cases run with
  | next run creation =>
  cases creation with
  | @createOnline _ _ _ _ assign snapshots shardId id' world online assigned ran =>
  obtain ⟨-, ⟨items, found, buffer⟩, -⟩ := createEntityWithHintAndShard_ok ran
  have same : id' = id := by
    simp only [enroll_same, Roll.create, List.cons.injEq, and_true] at created
    exact created
  subst same
  rw [← reference] at buffer
  have pushed := (appends_push c.roll found buffer).2
  have middle := online_run between online unjoined
  obtain ⟨more, pushed⟩ := middle.shards i _ pushed
  refine ⟨⟨assign, snapshots, middle.phase.trans online⟩, items, more, ?_⟩
  rw [pushed, List.append_assoc, List.singleton_append]

/-- The shards of the two workers. -/
theorem Handover.shards (handover : Handover i j arch id rc compMap trace)
    (run : Run types first trace s) : (∃ assign snapshots, s.phase = .online assign snapshots) ∧
    ∃ items items', s.world.offlineBuffer.shards[i]? = some items ∧
      s.world.offlineBuffer.shards[j]? = some items' ∧
      .createEntity arch id rc compMap ∈ items ∧ .deleteEntity arch id ∈ items' ∧
      (i = j → ∃ p q r, items =
        p ++ .createEntity arch id rc compMap :: (q ++ .deleteEntity arch id :: r)) := by
  obtain @⟨early, mid, late, c, c', d, d', hint, created, reference, unjoined⟩ := handover
  obtain ⟨_, run, after⟩ := run_append run
  cases run with
  | next run deletion =>
  obtain ⟨⟨assign, snapshots, online⟩, x, y, pushed⟩ := creation_kept run created reference
    fun t member => unjoined t (List.mem_append_right _ member)
  cases deletion with
  | deleteOnline _ _ _ _ ran =>
  obtain ⟨items', found', pushes⟩ := pushOperation_ok ran
  obtain ⟨appends, pushed'⟩ := appends_push d.roll found' (congrArg offlineBuffer pushes)
  have final := online_run after online fun t member => unjoined t (List.mem_append_left _ member)
  have last := appends.trans final
  refine ⟨⟨assign, snapshots, last.phase.trans online⟩, ?_⟩
  obtain ⟨rest, here⟩ := last.shards i _ pushed
  obtain ⟨rest', there⟩ := final.shards j _ pushed'
  refine ⟨_, _, here, there, by simp, by simp, fun same => ?_⟩
  subst same
  have whole := Option.some.inj (here.symm.trans there)
  rw [← Option.some.inj (pushed.symm.trans found')] at whole
  refine ⟨x, y, rest', ?_⟩
  rw [whole]
  simp

/-- The creation is drained before the deletion if its shard is not after that
of the deletion. -/
theorem Handover.operations (handover : Handover i j arch id rc compMap trace)
    (run : Run types first trace s) :
    (i ≤ j → ∃ p q r, s.world.offlineBuffer.operations =
      p ++ .createEntity arch id rc compMap :: (q ++ .deleteEntity arch id :: r)) ∧
    (j < i → ∃ p q r, s.world.offlineBuffer.operations =
      p ++ .deleteEntity arch id :: (q ++ .createEntity arch id rc compMap :: r)) := by
  obtain ⟨-, items, items', found, found', creation, deletion, same⟩ := handover.shards run
  constructor
  · intro le
    obtain ⟨pre, post, -, rest, whole, -⟩ := operations_split found
    rcases Nat.lt_or_eq_of_le le with later | here
    · obtain ⟨p, q, rfl⟩ := List.append_of_mem creation
      obtain ⟨p', q', later⟩ := List.append_of_mem (mem_later found' later deletion)
      refine ⟨s.world.offlineBuffer.rerunQueue ++ pre.flatten ++ p, q ++ p', q', ?_⟩
      rw [whole, rest, later]
      simp only [List.append_assoc, List.cons_append]
    · obtain ⟨p, q, r, rfl⟩ := same here
      refine ⟨s.world.offlineBuffer.rerunQueue ++ pre.flatten ++ p, q, r ++ post.flatten, ?_⟩
      rw [whole]
      simp only [List.append_assoc, List.cons_append]
  · intro later
    obtain ⟨pre, post, -, rest, whole, -⟩ := operations_split found'
    obtain ⟨p, q, rfl⟩ := List.append_of_mem deletion
    obtain ⟨p', q', later⟩ := List.append_of_mem (mem_later found later creation)
    refine ⟨s.world.offlineBuffer.rerunQueue ++ pre.flatten ++ p, q ++ p', q', ?_⟩
    rw [whole, rest, later]
    simp only [List.append_assoc, List.cons_append]

/-- No entity has two pending creations, or two pending deletions. -/
def Lone (arch : DbgTypeId) (ops : List (Operation V)) : Prop :=
  (creates arch ops).Nodup ∧ (deletes arch ops).Nodup

theorem mem_deletes {ops : List (Operation V)} :
    id ∈ deletes arch ops ↔ .deleteEntity arch id ∈ ops := by
  simp only [deletes, List.mem_filterMap]
  constructor
  · rintro ⟨op, member, deleted⟩
    cases op with
    | createEntity => cases deleted
    | deleteEntity arch' entity =>
      simp only at deleted
      split at deleted
      · rename_i same
        subst same
        cases deleted
        exact member
      · cases deleted
  · intro member
    exact ⟨_, member, by simp⟩

/-- The creation and the deletion are the only operations on an entity. -/
theorem Lone.others {p q r : List (Operation V)} {first second : Operation V}
    (lone : Lone arch (p ++ first :: (q ++ second :: r)))
    (two : first = .createEntity arch id rc compMap ∧ second = .deleteEntity arch id ∨
      first = .deleteEntity arch id ∧ second = .createEntity arch id rc compMap) :
    (∀ op ∈ p, ¬ op.On arch id) ∧ (∀ op ∈ q, ¬ op.On arch id) ∧ ∀ op ∈ r, ¬ op.On arch id := by
  have absent : ∀ op ∈ p ++ (q ++ r), ¬ op.On arch id := by
    have perm : (p ++ first :: (q ++ second :: r)).Perm (first :: second :: (p ++ (q ++ r))) := by
      refine List.perm_middle.trans (.cons _ ?_)
      rw [← List.append_assoc, ← List.append_assoc]
      exact List.perm_middle
    have nodups : (creates arch (first :: second :: (p ++ (q ++ r)))).Nodup ∧
        (deletes arch (first :: second :: (p ++ (q ++ r)))).Nodup :=
      ⟨(creates_perm arch perm).nodup_iff.mp lone.1, (perm.filterMap _).nodup_iff.mp lone.2⟩
    intro op member on
    have creation : id ∉ creates arch (p ++ (q ++ r)) := by
      rcases two with ⟨rfl, rfl⟩ | ⟨rfl, rfl⟩
      · simp only [creates, List.filterMap_cons, Operation.created, if_true] at nodups
        exact (List.nodup_cons.mp nodups.1).1
      · simp only [creates, List.filterMap_cons, Operation.created, if_true] at nodups
        exact (List.nodup_cons.mp nodups.1).1
    have deletion : id ∉ deletes arch (p ++ (q ++ r)) := by
      rcases two with ⟨rfl, rfl⟩ | ⟨rfl, rfl⟩
      · simp only [deletes, List.filterMap_cons, if_true] at nodups
        exact (List.nodup_cons.mp nodups.2).1
      · simp only [deletes, List.filterMap_cons, if_true] at nodups
        exact (List.nodup_cons.mp nodups.2).1
    cases op with
    | createEntity arch' entity rc' compMap' =>
      obtain ⟨rfl, rfl⟩ := on
      exact creation (mem_creates.mpr ⟨rc', compMap', member⟩)
    | deleteEntity arch' entity =>
      obtain ⟨rfl, rfl⟩ := on
      exact deletion (mem_deletes.mpr member)
  refine ⟨fun op member => absent op ?_, fun op member => absent op ?_,
    fun op member => absent op ?_⟩
  · exact List.mem_append_left _ member
  · exact List.mem_append_right _ (List.mem_append_left _ member)
  · exact List.mem_append_right _ (List.mem_append_right _ member)

end Dynec.World
