import Dynec.World.Effects
import Dynec.World.Values
import Dynec.Entity.FreeSet

/-!
# The books of a run

What steps do to the entities and to the buffered operations. As long as only
live entities are freed, every archetype keeps its ledger and each created
entity is live or was freed once. As long as only initialized ones are freed,
each live entity is either initialized or waits for its initialization.
-/

namespace Dynec.World

open Entity

variable {U V : Type} {w : DbgTypeId → Nat} {T Hint : DbgTypeId → Type}
  [∀ arch, Recycler (T arch) (Hint arch)] {types : Types V} {s t : Machine w T V}
  {label : Label Hint V} {arch : DbgTypeId}

/-! ## Buffered operations -/

/-- The entity of an archetype that an operation initializes. -/
def Operation.created (arch : DbgTypeId) : Operation V → Option Nat
  | .createEntity arch' entity _ _ => if arch' = arch then some entity else none
  | .deleteEntity _ _ => none

def creates (arch : DbgTypeId) (ops : List (Operation V)) : List Nat :=
  ops.filterMap (·.created arch)

theorem creates_append (arch : DbgTypeId) (ops ops' : List (Operation V)) :
    creates arch (ops ++ ops') = creates arch ops ++ creates arch ops' :=
  List.filterMap_append ..

theorem count_creates_cons (arch : DbgTypeId) (op : Operation V) (ops : List (Operation V))
    (id : Nat) : (creates arch (op :: ops)).count id =
      (creates arch [op]).count id + (creates arch ops).count id := by
  rw [← List.singleton_append, creates_append, List.count_append]

theorem count_creates_create (arch arch' : DbgTypeId) (entity rc : Nat) (compMap : CompMap V)
    (id : Nat) : (creates arch [.createEntity arch' entity rc compMap]).count id =
      if arch = arch' ∧ id = entity then 1 else 0 := by
  simp only [creates, Operation.created, List.filterMap_cons, List.filterMap_nil]
  by_cases same : arch' = arch
  · subst same
    by_cases here : id = entity
    · simp [here]
    · simp [here, Ne.symm here]
  · simp [same, Ne.symm same]

theorem count_creates_delete (arch arch' : DbgTypeId) (entity id : Nat) :
    (creates arch [(.deleteEntity arch' entity : Operation V)]).count id = 0 := rfl

/-- The operations that have not run yet, in the order in which they will. -/
def Machine.pending (s : Machine w T V) : List (Operation V) :=
  match s.phase with
  | .draining todo newQueue => todo ++ newQueue
  | _ => s.world.offlineBuffer.operations

/-- A shard of the buffer and what is drained before and after it. -/
theorem operations_split {buffer : Buffer V} {worker : Nat} {items : List (Operation V)}
    (found : buffer.shards[worker]? = some items) : ∃ pre post : List (List (Operation V)),
    pre = buffer.shards.take worker ∧ post = buffer.shards.drop (worker + 1) ∧
    buffer.operations = (buffer.rerunQueue ++ pre.flatten ++ items) ++ post.flatten ∧
    ∀ op, Buffer.operations { buffer with shards := buffer.shards.set worker (items ++ [op]) } =
      (buffer.rerunQueue ++ pre.flatten ++ items) ++ op :: post.flatten := by
  obtain ⟨inside, here⟩ := List.getElem?_eq_some_iff.mp found
  refine ⟨_, _, rfl, rfl, ?_, fun op => ?_⟩
  · have whole : buffer.shards =
        buffer.shards.take worker ++ items :: buffer.shards.drop (worker + 1) := by
      rw [← here, List.getElem_cons_drop, List.take_append_drop]
    have flat := congrArg List.flatten whole
    rw [List.flatten_append, List.flatten_cons] at flat
    rw [Buffer.operations, flat]
    simp only [List.append_assoc]
  · simp only [Buffer.operations, List.set_eq_take_append_cons_drop, if_pos inside,
      List.flatten_append, List.flatten_cons, List.append_assoc, List.singleton_append]

/-- Pushing an operation to a shard adds it to those of the buffer. -/
theorem operations_push {buffer : Buffer V} {worker : Nat} {items : List (Operation V)}
    (found : buffer.shards[worker]? = some items) (op : Operation V) :
    (Buffer.operations { buffer with
      shards := buffer.shards.set worker (items ++ [op]) }).Perm (op :: buffer.operations) := by
  obtain ⟨pre, post, -, -, before, after⟩ := operations_split found
  rw [before, after op]
  exact List.perm_middle

theorem creates_perm (arch : DbgTypeId) {ops ops' : List (Operation V)} (perm : ops.Perm ops') :
    (creates arch ops).Perm (creates arch ops') := perm.filterMap _

/-- Operations wait in the rerun queue between cycles and in the new queue while
the buffer is drained, and there only deletions do. -/
def Machine.Buffered (s : Machine w T V) : Prop :=
  match s.phase with
  | .host => s.world.offlineBuffer.shards.flatten = [] ∧
      ∀ arch, creates arch s.world.offlineBuffer.rerunQueue = []
  | .online _ _ => ∀ arch, creates arch s.world.offlineBuffer.rerunQueue = []
  | .draining _ newQueue => s.world.offlineBuffer.operations = [] ∧
      ∀ arch, creates arch newQueue = []

theorem Machine.Buffered.access (buffered : s.Buffered) {world : World w T V}
    {roll : DbgTypeId → Roll} (buffer : world.offlineBuffer = s.world.offlineBuffer) :
    (⟨world, s.phase, roll⟩ : Machine w T V).Buffered := by
  unfold Machine.Buffered at buffered ⊢
  rw [buffer]
  exact buffered

theorem buffered_step (step : s.Step types label t) (buffered : s.Buffered) : t.Buffered := by
  cases step with
  | create _ _ _ _ _ run => exact buffered.access (createWithHint_ok run).2.1
  | delete changed id host run =>
    obtain ⟨buffer, -⟩ := delete_deleted run
    exact buffered.access buffer
  | deleteTerminating changed id host run =>
    obtain ⟨buffer, -⟩ := delete_terminating run
    simp only [Machine.Buffered, host, buffer] at buffered ⊢
    refine ⟨buffered.1, fun arch => ?_⟩
    rw [creates_append, buffered.2 arch]
    rfl
  | setSimple _ _ _ _ _ _ run => exact buffered.access (setSimple_ok run).2.1
  | openIsotope _ _ _ _ _ run => exact buffered.access (openIsotope_ok run).2.1
  | setIsotope _ _ _ _ _ _ run => exact buffered.access (setIsotope_ok run).2.1
  | getIsotope _ _ _ _ _ _ _ run => exact buffered.access (setIsotope_ok run).2.1
  | cloneReference | dropReference => exact buffered.access rfl
  | execute assign host flushed =>
    simp only [Machine.Buffered, host, (forEalloc_ok flushed).2.1] at buffered ⊢
    exact buffered.2
  | createOnline worker changed hint compMap online _ run =>
    obtain ⟨-, ⟨items, -, buffer⟩, -⟩ := createEntityWithHintAndShard_ok run
    simpa only [Machine.Buffered, online, buffer] using buffered
  | deleteOnline worker changed id online run =>
    obtain ⟨items, -, rfl⟩ := pushOperation_ok run
    simpa only [Machine.Buffered, online] using buffered
  | join => exact ⟨by simp [Buffer.operations], fun _ => rfl⟩
  | drainCreate draining run =>
    simpa only [Machine.Buffered, draining, (initEntity_ok run).2.1] using buffered
  | drainDelete draining run =>
    simpa only [Machine.Buffered, draining, (flagDeleteEntity_ok run).2.1] using buffered
  | drainRerun draining run =>
    simp only [Machine.Buffered, draining, (flagDeleteEntity_ok run).2.1] at buffered ⊢
    refine ⟨buffered.1, fun arch => ?_⟩
    rw [creates_append, buffered.2 arch]
    rfl
  | flush drained run =>
    simp only [Machine.Buffered, drained, (forEalloc_ok run).2.1] at buffered ⊢
    exact ⟨(List.append_eq_nil_iff.mp buffered.1).2, buffered.2⟩

/-! ## Traffic -/

/-- Whether a finalizer of an entity is present. -/
def hasFinalizer (types : Types V) (self : World w T V) (arch : DbgTypeId) (entity : Nat) : Bool :=
  match self.archetypes.lookup arch with
  | some archetype => archetype.typed.hasFinalizer types arch entity
  | none => false

theorem hasFinalizer_lookup {world : World w T V} {a : Archetype (w arch) (T arch) V}
    (found : world.archetypes.lookup arch = some a) (id : Nat) :
    world.hasFinalizer types arch id = a.typed.hasFinalizer types arch id := by
  rw [hasFinalizer, found]

/-- An operation deletes an entity if it has no finalizers. -/
theorem Deleted.hasFinalizer {references : List Nat} {id : Nat} {e : Recycling (w arch) (T arch)}
    {world : World w T V} {a a' : Archetype (w arch) (T arch) V}
    (h : Deleted types references id { a with ealloc := e } a')
    (found : world.archetypes.lookup arch = some a) : world.hasFinalizer types arch id = false := by
  obtain ⟨flagged, -, flag, final⟩ := h.typed
  rw [hasFinalizer_lookup found, ← Typed.hasFinalizer_flag flag]
  exact final

omit [∀ arch, Recycler (T arch) (Hint arch)] in
/-- Deletions complete in a call of host code or in a drained operation. -/
def Completes (s : Machine w T V) (label : Label Hint V) (t : Machine w T V) (arch : DbgTypeId)
    (id : Nat) : Prop :=
  label = .delete arch id ∧ t.pending = s.pending ∨
  label = .drain ∧ ∃ todo newQueue,
    s.phase = .draining (.deleteEntity arch id :: todo) newQueue ∧ t.pending = todo ++ newQueue

/-- What a step does to the entities and to the buffered operations. -/
inductive Traffic (types : Types V) (s : Machine w T V) (label : Label Hint V)
    (t : Machine w T V) : Prop
  | keep (roll : t.roll = s.roll) (pending : t.pending.Perm s.pending)
  | create (arch : DbgTypeId) (id : Nat)
      (roll : t.roll = s.enroll arch fun r => (r.create id).init id)
      (pending : t.pending = s.pending)
  | createOnline (arch : DbgTypeId) (id rc : Nat) (compMap : CompMap V)
      (roll : t.roll = s.enroll arch (·.create id))
      (pending : t.pending.Perm (.createEntity arch id rc compMap :: s.pending))
  | init (arch : DbgTypeId) (id rc : Nat) (compMap : CompMap V)
      (roll : t.roll = s.enroll arch (·.init id))
      (pending : s.pending = .createEntity arch id rc compMap :: t.pending)
  | request (arch : DbgTypeId) (id : Nat) (roll : t.roll = s.roll)
      (pending : t.pending.Perm (.deleteEntity arch id :: s.pending))
      (asked : label = .delete arch id ∨ ∃ worker, label = .deleteOnline worker arch id)
  | free (arch : DbgTypeId) (id : Nat) (roll : t.roll = s.enroll arch (·.free id))
      (final : s.world.hasFinalizer types arch id = false) (completes : Completes s label t arch id)

theorem pending_draining {todo newQueue : List (Operation V)}
    (draining : s.phase = .draining todo newQueue) : s.pending = todo ++ newQueue := by
  rw [Machine.pending, draining]

theorem Machine.pending_access {world : World w T V} {roll : DbgTypeId → Roll}
    (buffer : world.offlineBuffer = s.world.offlineBuffer) :
    (⟨world, s.phase, roll⟩ : Machine w T V).pending = s.pending := by
  simp only [Machine.pending, buffer]

theorem step_traffic (step : s.Step types label t) (buffered : s.Buffered) :
    Traffic types s label t := by
  cases step with
  | create changed shardId hint compMap host run =>
    exact .create changed _ rfl (Machine.pending_access (createWithHint_ok run).2.1)
  | delete changed id host run =>
    obtain ⟨buffer, touches⟩ := delete_deleted run
    obtain ⟨a, a', before, -, deleted⟩ := touches.here
    exact .free changed id rfl (deleted.hasFinalizer before)
      (.inl ⟨rfl, Machine.pending_access buffer⟩)
  | @deleteTerminating changed id world host run =>
    obtain ⟨buffer, -⟩ := delete_terminating run
    refine .request changed id rfl ?_ (.inl rfl)
    have none := buffered
    simp only [Machine.Buffered, host] at none
    simp only [Machine.pending, host, buffer, Buffer.operations, none.1, List.append_nil]
    exact List.perm_append_singleton ..
  | setSimple _ _ _ _ _ _ run =>
    exact .keep rfl (.of_eq (Machine.pending_access (setSimple_ok run).2.1))
  | openIsotope _ _ _ _ _ run =>
    exact .keep rfl (.of_eq (Machine.pending_access (openIsotope_ok run).2.1))
  | setIsotope _ _ _ _ _ _ run =>
    exact .keep rfl (.of_eq (Machine.pending_access (setIsotope_ok run).2.1))
  | getIsotope _ _ _ _ _ _ _ run =>
    exact .keep rfl (.of_eq (Machine.pending_access (setIsotope_ok run).2.1))
  | cloneReference | dropReference => exact .keep rfl (.of_eq (Machine.pending_access rfl))
  | execute assign host flushed =>
    refine .keep rfl (.of_eq ?_)
    simp only [Machine.pending, host, (forEalloc_ok flushed).2.1]
  | createOnline worker changed hint compMap online _ run =>
    obtain ⟨-, ⟨items, found, buffer⟩, -⟩ := createEntityWithHintAndShard_ok run
    refine .createOnline changed _ s.world.references.length compMap rfl ?_
    simp only [Machine.pending, online, buffer]
    exact operations_push found _
  | deleteOnline worker changed id online run =>
    obtain ⟨items, found, rfl⟩ := pushOperation_ok run
    refine .request changed id rfl ?_ (.inr ⟨worker, rfl⟩)
    simp only [Machine.pending, online]
    exact operations_push found _
  | join online =>
    refine .keep rfl (.of_eq ?_)
    simp only [Machine.pending, online, List.append_nil]
  | @drainCreate changed id rc compMap todo newQueue world draining run =>
    exact .init changed id rc compMap rfl (pending_draining draining)
  | @drainDelete changed id todo newQueue world draining run =>
    have touches := flagDeleteEntity_deleted run
    obtain ⟨a, a', before, -, deleted⟩ := touches.here
    exact .free changed id rfl (deleted.hasFinalizer (e := a.ealloc) before)
      (.inr ⟨rfl, todo, newQueue, draining, rfl⟩)
  | @drainRerun changed id todo newQueue world draining run =>
    refine .keep rfl ?_
    simp only [Machine.pending, draining, List.cons_append, ← List.append_assoc]
    exact List.perm_append_singleton ..
  | flush drained run =>
    refine .keep rfl (.of_eq ?_)
    simp only [Machine.Buffered, drained] at buffered
    simp only [Machine.pending, drained, (forEalloc_ok run).2.1, Buffer.operations,
      (List.append_eq_nil_iff.mp buffered.1).2, List.nil_append, List.append_nil]

/-! ## The invariants -/

/-- The ledger of an archetype whose allocator is given. -/
def Machine.ledger (s : Machine w T V) (arch : DbgTypeId) (e : Recycling (w arch) (T arch)) :
    Ledger (w arch) (T arch) := ⟨e, (s.roll arch).live, false⟩

/-- Every archetype keeps its ledger, and each created entity is live or was
freed. -/
structure Ledgers (s : Machine w T V) : Prop where
  ledger : ∀ arch e, s.world.ealloc arch = some e → (s.ledger arch e).Inv
  unknown : ∀ arch, s.world.ealloc arch = none → (s.roll arch).live = []
  balance : ∀ arch id, (s.roll arch).created.count id =
    (s.roll arch).freed.count id + (s.roll arch).live.count id

structure Books (s : Machine w T V) : Prop extends Ledgers s where
  accounted : ∀ arch id, (s.roll arch).live.count id =
    (s.roll arch).ready.count id + (creates arch s.pending).count id

theorem enroll_same (f : Roll → Roll) : s.enroll arch f arch = f (s.roll arch) :=
  Function.update_self ..

theorem enroll_other {arch' : DbgTypeId} (other : arch' ≠ arch) (f : Roll → Roll) :
    s.enroll arch f arch' = s.roll arch' := Function.update_of_ne other ..

theorem Ledgers.count_live_le (ledgers : Ledgers s) (arch : DbgTypeId) (id : Nat) :
    (s.roll arch).live.count id ≤ 1 := by
  cases found : s.world.ealloc arch with
  | none => simp [ledgers.unknown arch found]
  | some e =>
    have := (ledgers.ledger arch e found).places_le id
    simp only [Ledger.places, Machine.ledger] at this
    omega

theorem Ledgers.live_nodup (ledgers : Ledgers s) (arch : DbgTypeId) : (s.roll arch).live.Nodup :=
  List.nodup_iff_count_le_one.mpr fun id => ledgers.count_live_le arch id

theorem Books.live_of_ready (books : Books s) {id : Nat} (ready : id ∈ (s.roll arch).ready) :
    id ∈ (s.roll arch).live := by
  have := books.accounted arch id
  have := List.count_pos_iff.mpr ready
  exact List.count_pos_iff.mp (by omega)

/-- Allocators that keep their ledgers. -/
def LedgersKept (s t : Machine w T V) : Prop :=
  ∀ arch, (∀ e', t.world.ealloc arch = some e' → ∃ e, s.world.ealloc arch = some e ∧
      ((s.ledger arch e).Inv → (s.ledger arch e').Inv)) ∧
    (t.world.ealloc arch = none → s.world.ealloc arch = none)

/-- The ledgers of a step that does not change the roll. -/
theorem Ledgers.kept (ledgers : Ledgers s) (roll : t.roll = s.roll) (kept : LedgersKept s t) :
    Ledgers t := by
  constructor
  · intro arch e' found
    obtain ⟨e, before, inv⟩ := (kept arch).1 e' found
    rw [Machine.ledger, roll]
    exact inv (ledgers.ledger arch e before)
  · intro arch none
    rw [roll]
    exact ledgers.unknown arch ((kept arch).2 none)
  · rw [roll]
    exact ledgers.balance

theorem Ledgers.same (ledgers : Ledgers s) (roll : t.roll = s.roll)
    (ealloc : ∀ arch, t.world.ealloc arch = s.world.ealloc arch) : Ledgers t :=
  ledgers.kept roll fun arch => ⟨fun e' found => ⟨e', ealloc arch ▸ found, fun inv => inv⟩,
    fun none => ealloc arch ▸ none⟩

/-- The ledgers of a step that changes one archetype. -/
theorem Ledgers.change (ledgers : Ledgers s) {changed : DbgTypeId} {f : Roll → Roll}
    {world : World w T V} {phase : Phase V}
    (others : ∀ arch, arch ≠ changed → world.ealloc arch = s.world.ealloc arch)
    {e e' : Recycling (w changed) (T changed)} (before : s.world.ealloc changed = some e)
    (after : world.ealloc changed = some e')
    (ledger : (s.ledger changed e).Inv → Ledger.Inv ⟨e', (f (s.roll changed)).live, false⟩)
    (balance : ∀ id, (f (s.roll changed)).created.count id =
      (f (s.roll changed)).freed.count id + (f (s.roll changed)).live.count id) :
    Ledgers { s with world, phase, roll := s.enroll changed f } := by
  constructor
  · intro arch found h
    by_cases same : arch = changed
    · subst same
      change world.ealloc arch = _ at h
      rw [after] at h
      cases h
      rw [Machine.ledger]
      simp only [enroll_same]
      exact ledger (ledgers.ledger arch e before)
    · rw [Machine.ledger]
      simp only [enroll_other same]
      exact ledgers.ledger arch found ((others arch same).symm.trans h)
  · intro arch none
    by_cases same : arch = changed
    · subst same
      change world.ealloc arch = _ at none
      rw [after] at none
      cases none
    · simp only [enroll_other same]
      exact ledgers.unknown arch ((others arch same).symm.trans none)
  · intro arch id
    by_cases same : arch = changed
    · subst same
      simp only [enroll_same]
      exact balance id
    · simp only [enroll_other same]
      exact ledgers.balance arch id

/-! ## Steps -/

/-- A step that frees an ID of an archetype. -/
def Frees (s t : Machine w T V) (arch : DbgTypeId) (id : Nat) : Prop :=
  (t.roll arch).freed = id :: (s.roll arch).freed

theorem frees_enroll {world : World w T V} {phase : Phase V} {changed : DbgTypeId} {id : Nat} :
    Frees s ⟨world, phase, s.enroll changed (·.free id)⟩ changed id := by
  simp [Frees, enroll_same, Roll.free]

theorem not_frees {id : Nat} (same : (t.roll arch).freed = (s.roll arch).freed) :
    ¬ Frees s t arch id := by
  intro frees
  rw [Frees, same] at frees
  exact List.cons_ne_self id _ frees.symm

theorem enroll_freed {changed : DbgTypeId} {f : Roll → Roll} (same : ∀ r, (f r).freed = r.freed) :
    ((s.enroll changed f) arch).freed = (s.roll arch).freed := by
  by_cases here : arch = changed
  · subst here
    rw [enroll_same, same]
  · rw [enroll_other here]

theorem enroll_free {changed : DbgTypeId} {id id' : Nat}
    (roll : t.roll = s.enroll changed (·.free id')) (frees : Frees s t arch id) :
    arch = changed ∧ id = id' := by
  by_cases here : arch = changed
  · subst here
    simp only [Frees, roll, enroll_same, Roll.free, List.cons.injEq] at frees
    exact ⟨rfl, frees.1.symm⟩
  · exact absurd frees (not_frees (by rw [roll, enroll_other here]))

/-- IDs are freed by completed deletions only. -/
theorem frees_deleted (step : s.Step types label t) {id : Nat} (frees : Frees s t arch id) :
    ∃ a a' e, s.world.archetypes.lookup arch = some a ∧ t.world.archetypes.lookup arch = some a' ∧
      Deleted types s.world.references id { a with ealloc := e } a' := by
  cases step with
  | delete changed id' host run =>
    obtain ⟨rfl, rfl⟩ := enroll_free rfl frees
    obtain ⟨-, touches⟩ := delete_deleted run
    obtain ⟨a, a', before, after, deleted⟩ := touches.here
    exact ⟨a, a', _, before, after, deleted⟩
  | drainDelete draining run =>
    obtain ⟨rfl, rfl⟩ := enroll_free rfl frees
    have touches := flagDeleteEntity_deleted run
    obtain ⟨a, a', before, after, deleted⟩ := touches.here
    exact ⟨a, a', a.ealloc, before, after, deleted⟩
  | create | createOnline | drainCreate =>
    exact absurd frees (not_frees (enroll_freed fun _ => rfl))
  | deleteTerminating | setSimple | openIsotope | setIsotope | getIsotope | cloneReference
  | dropReference | execute | deleteOnline | join | drainRerun | flush =>
    exact absurd frees (not_frees rfl)

theorem Ledgers.free_balance (ledgers : Ledgers s) {id : Nat} (live : id ∈ (s.roll arch).live)
    (x : Nat) : ((s.roll arch).free id).created.count x =
      ((s.roll arch).free id).freed.count x + ((s.roll arch).free id).live.count x := by
  have before := ledgers.balance arch x
  have pos := List.count_pos_iff.mpr live
  simp only [Roll.free, List.count_cons, List.count_erase, beq_iff_eq]
  by_cases here : id = x
  · subst here
    simp only [if_true]
    omega
  · simp only [here, if_false]
    omega

theorem Ledgers.create_balance (ledgers : Ledgers s) (id x : Nat) :
    ((s.roll arch).create id).created.count x =
      ((s.roll arch).create id).freed.count x + ((s.roll arch).create id).live.count x := by
  have before := ledgers.balance arch x
  simp only [Roll.create, List.count_cons]
  omega

theorem ledger_free {e : Recycling (w arch) (T arch)} (inv : (s.ledger arch e).Inv) {id : Nat}
    (live : id ∈ (s.roll arch).live) : Ledger.Inv
      (⟨e.queueDeallocate id, ((s.roll arch).free id).live, false⟩ : Ledger (w arch) (T arch)) :=
  Ledger.step_inv (.queueDeallocate id live) inv

/-- The mark of an allocator is not in its ledger. -/
theorem ledger_mark {e : Recycling (w arch) (T arch)} {live : List Nat}
    (inv : Ledger.Inv (⟨e, live, false⟩ : Ledger (w arch) (T arch))) :
    Ledger.Inv (⟨e.markNeedFlush, live, false⟩ : Ledger (w arch) (T arch)) :=
  ⟨inv.shards, inv.gauge, inv.once⟩

theorem ledgersKept_touched {changed : DbgTypeId}
    {R : Archetype (w changed) (T changed) V → Archetype (w changed) (T changed) V → Prop}
    (touches : Touches s.world t.world changed R)
    (ledger : ∀ a a', R a a' → (s.ledger changed a.ealloc).Inv → (s.ledger changed a'.ealloc).Inv) :
    LedgersKept s t := by
  intro arch
  by_cases same : arch = changed
  · subst same
    obtain ⟨a, a', before, after, change⟩ := touches.here
    rw [ealloc_of_lookup after]
    refine ⟨fun e' found => ?_, nofun⟩
    cases found
    exact ⟨a.ealloc, ealloc_of_lookup before, ledger a a' change⟩
  · rw [touches.ealloc_others same]
    exact ⟨fun e' found => ⟨e', found, id⟩, id⟩

theorem Ledgers.touched (ledgers : Ledgers s) {changed : DbgTypeId} {f : Roll → Roll}
    {world : World w T V} {phase : Phase V}
    {R : Archetype (w changed) (T changed) V → Archetype (w changed) (T changed) V → Prop}
    (touches : Touches s.world world changed R)
    (ledger : ∀ a a', R a a' → (s.ledger changed a.ealloc).Inv →
      Ledger.Inv ⟨a'.ealloc, (f (s.roll changed)).live, false⟩)
    (balance : ∀ id, (f (s.roll changed)).created.count id =
      (f (s.roll changed)).freed.count id + (f (s.roll changed)).live.count id) :
    Ledgers { s with world, phase, roll := s.enroll changed f } := by
  obtain ⟨a, a', before, after, change⟩ := touches.here
  exact ledgers.change (fun arch other => touches.ealloc_others other) (ealloc_of_lookup before)
    (ealloc_of_lookup after) (ledger a a' change) balance

theorem ledgers_step (step : s.Step types label t)
    (frees : ∀ arch id, Frees s t arch id → id ∈ (s.roll arch).live) (ledgers : Ledgers s) :
    Ledgers t := by
  cases step with
  | @create changed shardId hint compMap id world host run =>
    apply ledgers.touched (createWithHint_ok run).1 _ (ledgers.create_balance id)
    rintro a a' ⟨e, allocated, init⟩ inv
    rw [init.ealloc]
    exact (Ledger.inv_allocated inv (allocated ▸ allocate_allocated a.ealloc shardId hint)).2
  | @delete changed id world host run =>
    have live := frees changed id frees_enroll
    apply ledgers.touched (delete_deleted run).2 _ (ledgers.free_balance live)
    intro a a' deleted inv
    rw [deleted.ealloc]
    exact ledger_mark (ledger_free inv live)
  | @deleteTerminating changed id world host run =>
    refine ledgers.kept rfl (ledgersKept_touched (delete_terminating run).2 ?_)
    intro a a' flagged inv
    rw [flagged.ealloc]
    exact ledger_mark inv
  | setSimple _ _ _ _ _ _ run =>
    exact ledgers.same rfl ((setSimple_ok run).1.ealloc_same fun _ _ h => h.ealloc)
  | openIsotope _ _ _ _ _ run =>
    exact ledgers.same rfl ((openIsotope_ok run).1.ealloc_same fun _ _ h => h.ealloc)
  | setIsotope _ _ _ _ _ _ run =>
    exact ledgers.same rfl ((setIsotope_ok run).1.ealloc_same fun _ _ h => h.ealloc)
  | getIsotope _ _ _ _ _ _ _ run =>
    exact ledgers.same rfl ((setIsotope_ok run).1.ealloc_same fun _ _ h => h.ealloc)
  | cloneReference | dropReference | join => exact ledgers.same rfl fun _ => rfl
  | execute assign host flushed =>
    refine ledgers.kept rfl fun arch => ⟨fun e' found => ?_, forEalloc_none flushed⟩
    obtain ⟨e, before, run⟩ := forEalloc_ealloc flushed found
    refine ⟨e, before, fun inv => ?_⟩
    unfold Recycling.flushIfMarked at run
    split at run
    · exact flush_inv inv run
    · cases run
      exact inv
  | @createOnline worker changed hint compMap assign snapshots shardId id world online _ run =>
    apply ledgers.touched (createEntityWithHintAndShard_ok run).1 _ (ledgers.create_balance id)
    intro a a' change inv
    have allocated := change.ealloc ▸ shardAllocate_allocated a.ealloc shardId hint
    exact (Ledger.inv_allocated inv allocated).2
  | deleteOnline worker changed id online run =>
    obtain ⟨items, -, rfl⟩ := pushOperation_ok run
    exact ledgers.same rfl fun _ => rfl
  | @drainCreate changed id rc compMap todo newQueue world draining run =>
    apply ledgers.touched (initEntity_ok run).1 _ (ledgers.balance changed)
    intro a a' init inv
    rw [init.ealloc]
    exact inv
  | @drainDelete changed id todo newQueue world draining run =>
    have live := frees changed id frees_enroll
    apply ledgers.touched (flagDeleteEntity_deleted run) _ (ledgers.free_balance live)
    intro a a' deleted inv
    rw [deleted.ealloc]
    exact ledger_free inv live
  | drainRerun draining run =>
    have touches := flagDeleteEntity_terminating run
    exact ledgers.same rfl (touches.ealloc_same fun _ _ h => h.ealloc)
  | flush drained run =>
    refine ledgers.kept rfl fun arch => ⟨fun e' found => ?_, fun none => ?_⟩
    · obtain ⟨e, before, run⟩ := forEalloc_ealloc run found
      exact ⟨e, before, fun inv => flush_inv inv run⟩
    · have before := forEalloc_none run none
      exact before

theorem accounted_step (traffic : Traffic types s label t)
    (frees : ∀ arch id, Frees s t arch id → id ∈ (s.roll arch).ready) (books : Books s)
    (arch : DbgTypeId) (x : Nat) : (t.roll arch).live.count x =
      (t.roll arch).ready.count x + (creates arch t.pending).count x := by
  have before := books.accounted arch x
  cases traffic with
  | keep roll pending =>
    rw [roll, (creates_perm arch pending).count_eq]
    exact before
  | request changed id roll pending _ =>
    rw [roll, (creates_perm arch pending).count_eq, count_creates_cons, count_creates_delete]
    omega
  | create changed id roll pending =>
    rw [roll, pending]
    by_cases same : arch = changed
    · subst same
      simp only [enroll_same, Roll.init, Roll.create, List.count_cons]
      omega
    · simpa only [enroll_other same] using before
  | createOnline changed id rc compMap roll pending =>
    rw [roll, (creates_perm arch pending).count_eq, count_creates_cons, count_creates_create]
    by_cases same : arch = changed
    · subst same
      simp only [enroll_same, Roll.create, List.count_cons, beq_iff_eq, true_and, eq_comm (a := id)]
      omega
    · simp only [enroll_other same, same, false_and, if_false]
      omega
  | init changed id rc compMap roll pending =>
    rw [pending, count_creates_cons, count_creates_create] at before
    rw [roll]
    by_cases same : arch = changed
    · subst same
      simp only [enroll_same, Roll.init, List.count_cons, beq_iff_eq, true_and,
        eq_comm (a := id)] at before ⊢
      omega
    · simp only [enroll_other same, same, false_and, if_false] at before ⊢
      omega
  | free changed id roll final completes =>
    have ready := frees changed id (by rw [Frees, roll, enroll_same]; rfl)
    have same : (creates arch t.pending).count x = (creates arch s.pending).count x := by
      rcases completes with ⟨-, same⟩ | ⟨-, todo, newQueue, draining, same⟩
      · rw [same]
      · rw [same, pending_draining draining, List.cons_append, count_creates_cons,
          count_creates_delete, Nat.zero_add]
    rw [roll, same]
    by_cases same : arch = changed
    · subst same
      have pos := List.count_pos_iff.mpr ready
      simp only [enroll_same, Roll.free, List.count_erase, beq_iff_eq]
      by_cases here : id = x
      · subst here
        simp only [if_true]
        omega
      · simp only [here, if_false]
        omega
    · simpa only [enroll_other same] using before

theorem books_step (step : s.Step types label t) (buffered : s.Buffered)
    (frees : ∀ arch id, Frees s t arch id → id ∈ (s.roll arch).ready) (books : Books s) :
    Books t :=
  ⟨ledgers_step step (fun arch id h => books.live_of_ready (frees arch id h)) books.toLedgers,
    accounted_step (step_traffic step buffered) frees books⟩

/-! ## The start -/

theorem build_operations (b : Builder U V) :
    (b.build : World w T V).offlineBuffer.operations = [] := by
  simp [Builder.build, Buffer.operations]

theorem buffered_start (b : Builder U V) : (.start b : Machine w T V).Buffered :=
  ⟨(List.append_eq_nil_iff.mp (build_operations b)).2, fun _ => rfl⟩

theorem buffered_run {b : Builder U V} {trace : List (Machine.Transition w T Hint V)}
    (run : Machine.Run types (.start b) trace s) : s.Buffered := by
  induction run with
  | start => exact buffered_start b
  | next _ step ih => exact buffered_step step ih

theorem books_start (width : ∀ arch, 0 < w arch) (b : Builder U V) :
    Books (.start b : Machine w T V) := by
  refine ⟨⟨fun arch e found => ?_, fun _ _ => rfl, fun _ _ => rfl⟩, fun arch id => ?_⟩
  · change (b.build : World w T V).ealloc arch = _ at found
    rw [ealloc, build_lookup, Option.map_map] at found
    obtain ⟨typed, -, rfl⟩ := Option.map_eq_some_iff.mp found
    exact Ledger.reachable_inv (Nat.succ_pos _) (width arch) .start
  · change 0 = 0 + (creates arch (b.build : World w T V).offlineBuffer.operations).count id
    rw [build_operations]
    rfl

end Dynec.World
