import Dynec.World.Books
import Dynec.World.Values
import Dynec.World.Ordering
import Dynec.Entity.Edits

/-!
# Snapshots of host-side edits

The snapshot at the start of a cycle enumerates the entities that host code has
created and not deleted, unless an ID was reused since the last flush and the
allocator was not marked, or the ID was freed again.
-/

namespace Dynec.World

open Entity

variable {U V : Type} {w : DbgTypeId → Nat} {T Hint : DbgTypeId → Type}
  [∀ arch, Recycler (T arch) (Hint arch)] {types : Types V} {s t : Machine w T V}
  {label : Label Hint V} {arch : DbgTypeId}

/-- Host code deletes live entities without finalizers, and systems neither
create nor delete entities. -/
def HostEdit (types : Types V) (t : Machine.Transition w T Hint V) : Prop :=
  match t.label with
  | .createOnline _ _ _ _ | .deleteOnline _ _ _ => False
  | .delete arch id => id ∈ (t.before.roll arch).live ∧
      ∀ a, t.before.world.archetypes.lookup arch = some a →
        a.typed.hasFinalizer types arch id = false
  | _ => True

/-- The snapshot of a cycle enumerates the live entities of an archetype. -/
def SnapshotExact (arch : DbgTypeId) (s : Machine w T V) : Prop :=
  ∀ assign snapshots, s.phase = .online assign snapshots →
    ∀ snapshot, snapshots.lookup arch = some snapshot →
      ∃ chunks, snapshot.iterAllocatedChunks (w arch) = .ok chunks ∧
        (rangeIds chunks).Perm (s.roll arch).live

/-- No ID was both reused and freed since the last flush, and if any was reused,
the allocator is marked. -/
def Synced (arch : DbgTypeId) (s : Machine w T V) : Prop :=
  ∀ a, s.world.archetypes.lookup arch = some a →
    (∀ id ∈ a.ealloc.deallocQueue, id ∉ a.ealloc.reuseQueueShards.flatten) ∧
    (a.ealloc.flushMark = true ∨ a.ealloc.reuseQueueShards.flatten = [])

def Machine.isHost (s : Machine w T V) : Bool :=
  match s.phase with
  | .host => true
  | _ => false

/-- Nothing is buffered, and the ledger of the archetype is in order. -/
structure HostInv (arch : DbgTypeId) (s : Machine w T V) : Prop where
  quiet : s.world.offlineBuffer.operations = []
  drained : ∀ todo newQueue, s.phase = .draining todo newQueue → todo = [] ∧ newQueue = []
  edited : ∀ e, s.world.ealloc arch = some e → Edited (s.ledger arch e) s.isHost

def MirroredAt (arch : DbgTypeId) (s : Machine w T V) : Prop :=
  ∀ e, s.world.ealloc arch = some e → Mirrored (s.ledger arch e)

/-- Steps that leave the allocator, the roll, the phase and the buffer alone. -/
theorem HostInv.same (inv : HostInv arch s)
    (buffer : t.world.offlineBuffer = s.world.offlineBuffer) (phase : t.phase = s.phase)
    (live : (t.roll arch).live = (s.roll arch).live)
    (ealloc : t.world.ealloc arch = s.world.ealloc arch) :
    HostInv arch t ∧ (MirroredAt arch s → MirroredAt arch t) := by
  have host : t.isHost = s.isHost := by rw [Machine.isHost, Machine.isHost, phase]
  have ledger : t.ledger arch = s.ledger arch := by
    funext e
    rw [Machine.ledger, Machine.ledger, live]
  refine ⟨⟨buffer ▸ inv.quiet, phase ▸ inv.drained, ?_⟩, ?_⟩
  · rw [ealloc, host, ledger]
    exact inv.edited
  · intro mirrored
    rw [MirroredAt, ealloc, ledger]
    exact mirrored

/-- Steps of host code that change one allocator. -/
theorem HostInv.edit (inv : HostInv arch s) (host : s.phase = .host) {changed : DbgTypeId}
    {world : World w T V} (buffer : world.offlineBuffer = s.world.offlineBuffer)
    {f : Roll → Roll} (others : arch ≠ changed → world.ealloc arch = s.world.ealloc arch)
    (here : arch = changed → ∀ e', world.ealloc arch = some e' →
      ∃ e, s.world.ealloc arch = some e ∧ (Edited (s.ledger arch e) true →
        Edited ⟨e', (f (s.roll arch)).live, false⟩ true ∧
        (Mirrored (s.ledger arch e) → Mirrored ⟨e', (f (s.roll arch)).live, false⟩))) :
    HostInv arch { s with world, roll := s.enroll changed f } ∧
      (MirroredAt arch s → MirroredAt arch { s with world, roll := s.enroll changed f }) := by
  have isHost : s.isHost = true := by rw [Machine.isHost, host]
  by_cases same : arch = changed
  · subst same
    have ledger : ∀ e', Machine.ledger { s with world, roll := s.enroll arch f } arch e' =
        ⟨e', (f (s.roll arch)).live, false⟩ := by
      intro e'
      simp only [Machine.ledger, enroll_same]
    refine ⟨⟨by rw [buffer]; exact inv.quiet, inv.drained, ?_⟩, ?_⟩
    · intro e' after
      obtain ⟨e, before, change⟩ := here rfl e' after
      rw [ledger]
      change Edited _ s.isHost
      rw [isHost]
      exact (change (isHost ▸ inv.edited e before)).1
    · intro mirrored e' after
      obtain ⟨e, before, change⟩ := here rfl e' after
      rw [ledger]
      exact (change (isHost ▸ inv.edited e before)).2 (mirrored e before)
  · exact inv.same buffer rfl (congrArg Roll.live (enroll_other same f)) (others same)

/-- The start of a cycle. -/
theorem HostInv.execute (inv : HostInv arch s) (assign : DbgTypeId → List Nat)
    {world : World w T V} {snapshots : HashMap DbgTypeId Snapshot} (host : s.phase = .host)
    (flushed : s.world.flushIfMarked = .ok world) (shards : world.snapshots = .ok snapshots) :
    HostInv arch { s with world, phase := .online assign snapshots } ∧ (MirroredAt arch s →
      (SnapshotExact arch { s with world, phase := .online assign snapshots } ↔ Synced arch s) ∧
      (Synced arch s → MirroredAt arch { s with world, phase := .online assign snapshots })) := by
  have isHost : s.isHost = true := by rw [Machine.isHost, host]
  have buffer := (forEalloc_ok flushed).2.1
  have cycle : ∀ e', world.ealloc arch = some e' → ∃ e, s.world.ealloc arch = some e ∧
      e.flushIfMarked = .ok e' ∧ Edited (s.ledger arch e) true := by
    intro e' after
    obtain ⟨e, before, run⟩ := forEalloc_ealloc flushed after
    exact ⟨e, before, run, isHost ▸ inv.edited e before⟩
  refine ⟨⟨?_, nofun, ?_⟩, fun mirrored => ⟨?_, fun synced => ?_⟩⟩
  · change world.offlineBuffer.operations = []
    rw [buffer]
    exact inv.quiet
  · intro e' after
    obtain ⟨e, before, run, edited⟩ := cycle e' after
    exact edited_flushIfMarked edited run
  · constructor
    · intro exact a before
      obtain ⟨a', after, change⟩ := ((forEalloc_ok flushed).1 arch).1 a before
      obtain ⟨snapshot, taken, listed⟩ := snapshots_ok shards after
      have edited := isHost ▸ inv.edited _ (ealloc_of_lookup before)
      exact (edited_snapshot edited (mirrored _ (ealloc_of_lookup before)) change.ealloc taken).mp
        (exact _ _ rfl snapshot listed)
    · rintro synced _ _ ⟨⟩ snapshot listed
      obtain ⟨a', after, taken⟩ := snapshots_known shards listed
      obtain ⟨e, before, run⟩ := forEalloc_ealloc flushed (ealloc_of_lookup after)
      obtain ⟨a, found, rfl⟩ := Option.map_eq_some_iff.mp before
      have edited := isHost ▸ inv.edited _ before
      exact (edited_snapshot edited (mirrored _ before) run taken).mpr (synced a found)
  · intro e' after
    obtain ⟨e, before, run, edited⟩ := cycle e' after
    obtain ⟨a, found, rfl⟩ := Option.map_eq_some_iff.mp before
    exact mirrored_flushIfMarked edited (mirrored _ before) run (synced a found).1

/-- The end of a cycle. -/
theorem HostInv.flush (inv : HostInv arch s) {newQueue : List (Operation V)}
    {world : World w T V} (drained : s.phase = .draining [] newQueue)
    (run : World.flush { s.world with
      offlineBuffer := { s.world.offlineBuffer with rerunQueue := newQueue } } = .ok world) :
    HostInv arch { s with world, phase := .host } ∧
      (MirroredAt arch s → MirroredAt arch { s with world, phase := .host }) := by
  have isHost : s.isHost = false := by rw [Machine.isHost, drained]
  obtain ⟨-, rfl⟩ := inv.drained _ _ drained
  obtain ⟨-, buffer, -⟩ := forEalloc_ok run
  have flushed : ∀ e', world.ealloc arch = some e' → ∃ e, s.world.ealloc arch = some e ∧
      e.flush = .ok e' ∧ Edited (s.ledger arch e) false := by
    intro e' after
    obtain ⟨e, before, run⟩ := forEalloc_ealloc run after
    exact ⟨e, before, run, isHost ▸ inv.edited e before⟩
  refine ⟨⟨?_, nofun, ?_⟩, ?_⟩
  · have none := (List.append_eq_nil_iff.mp inv.quiet).2
    rw [Buffer.operations, buffer]
    exact none
  · intro e' after
    obtain ⟨e, before, run, edited⟩ := flushed e' after
    exact edited_flush edited run true
  · intro mirrored e' after
    obtain ⟨e, before, run, edited⟩ := flushed e' after
    apply flush_mirrored edited.tracked (mirrored e before) run
    have queue : e.deallocQueue = [] := edited.queue (.inr rfl)
    intro id queued
    change id ∈ e.deallocQueue at queued
    rw [queue] at queued
    cases queued

theorem host_step (step : s.Step types label t) (edit : HostEdit types ⟨s, label, t⟩)
    (inv : HostInv arch s) : HostInv arch t ∧ (MirroredAt arch s →
      (∀ assign, label = .execute assign → (SnapshotExact arch t ↔ Synced arch s)) ∧
      ((∀ assign, label = .execute assign → Synced arch s) → MirroredAt arch t)) := by
  have quiet : ∀ {P : Prop}, HostInv arch t ∧ (MirroredAt arch s → MirroredAt arch t) →
      (∀ assign, label = .execute assign → False) → HostInv arch t ∧ (MirroredAt arch s →
      (∀ assign, label = .execute assign → P) ∧
      ((∀ assign, label = .execute assign → Synced arch s) → MirroredAt arch t)) :=
    fun kept other => ⟨kept.1, fun mirrored =>
      ⟨fun assign h => (other assign h).elim, fun _ => kept.2 mirrored⟩⟩
  cases step with
  | create changed shardId hint compMap host run =>
    obtain ⟨touches, buffer, -⟩ := createWithHint_ok run
    apply quiet _ (by simp)
    apply inv.edit host buffer touches.ealloc_others
    rintro rfl e' after
    obtain ⟨a, a', before, found, e, allocated, init⟩ := touches.here
    rw [ealloc_of_lookup found, init.ealloc] at after
    cases after
    exact ⟨a.ealloc, ealloc_of_lookup before, fun edited => edited_allocate edited allocated⟩
  | delete changed id host run =>
    obtain ⟨buffer, touches⟩ := delete_deleted run
    apply quiet _ (by simp)
    apply inv.edit host buffer touches.ealloc_others
    rintro rfl e' after
    obtain ⟨a, a', before, found, deleted⟩ := touches.here
    rw [ealloc_of_lookup found, deleted.ealloc] at after
    cases after
    exact ⟨a.ealloc, ealloc_of_lookup before, fun edited =>
      ⟨edited_delete edited edit.1, fun mirrored => mirrored⟩⟩
  | deleteTerminating changed id host run =>
    obtain ⟨-, touches⟩ := delete_terminating run
    obtain ⟨a, a', before, found, flagged⟩ := touches.here
    have final := flagged.final
    rw [Typed.hasFinalizer_flag flagged.typed] at final
    have none := edit.2 a before
    change a.typed.hasFinalizer types changed id = true at final
    rw [none] at final
    cases final
  | setSimple changed comp id value _ _ run =>
    obtain ⟨touches, buffer, -⟩ := setSimple_ok run
    apply quiet _ (by simp)
    exact inv.same buffer rfl rfl (touches.ealloc_same (fun _ _ h => h.ealloc) arch)
  | openIsotope changed comp discrim _ _ run =>
    obtain ⟨touches, buffer, -⟩ := openIsotope_ok run
    apply quiet _ (by simp)
    exact inv.same buffer rfl rfl (touches.ealloc_same (fun _ _ h => h.ealloc) arch)
  | setIsotope changed comp discrim id value _ run
  | getIsotope changed comp discrim id value _ _ run =>
    obtain ⟨touches, buffer, -⟩ := setIsotope_ok run
    apply quiet _ (by simp)
    exact inv.same buffer rfl rfl (touches.ealloc_same (fun _ _ h => h.ealloc) arch)
  | cloneReference | dropReference => exact quiet (inv.same rfl rfl rfl rfl) (by simp)
  | execute assign host flushed shards _ =>
    obtain ⟨kept, exact⟩ := inv.execute assign host flushed shards
    refine ⟨kept, fun mirrored => ⟨fun _ _ => (exact mirrored).1, fun synced => ?_⟩⟩
    exact (exact mirrored).2 (synced assign rfl)
  | createOnline => exact edit.elim
  | deleteOnline => exact edit.elim
  | join online =>
    have isHost : s.isHost = false := by rw [Machine.isHost, online]
    refine quiet ⟨⟨?_, ?_, ?_⟩, fun mirrored => mirrored⟩ (by simp)
    · simp [Buffer.operations]
    · rintro _ _ ⟨⟩
      exact ⟨inv.quiet, rfl⟩
    · intro e before
      change Edited (s.ledger arch e) false
      exact isHost ▸ inv.edited e before
  | drainCreate draining => exact absurd (inv.drained _ _ draining).1 (by simp)
  | drainDelete draining => exact absurd (inv.drained _ _ draining).1 (by simp)
  | drainRerun draining => exact absurd (inv.drained _ _ draining).1 (by simp)
  | flush drained run => exact quiet (inv.flush drained run) (by simp)

theorem host_start (width : 0 < w arch) (b : Builder U V) :
    HostInv arch (.start b : Machine w T V) ∧ MirroredAt arch (.start b : Machine w T V) := by
  have ledger : ∀ e, (b.build : World w T V).ealloc arch = some e →
      e = .new (w arch) (b.scheduler.concurrency + 1) := by
    intro e found
    rw [ealloc, build_lookup, Option.map_map] at found
    obtain ⟨typed, -, rfl⟩ := Option.map_eq_some_iff.mp found
    rfl
  refine ⟨⟨?_, ?_, ?_⟩, ?_⟩
  · simp [Machine.start, Builder.build, Buffer.operations]
  · intro todo newQueue draining
    cases draining
  · intro e found
    cases ledger e found
    have tracked := (offline_exact width (Nat.succ_pos b.scheduler.concurrency)
      (Offline.start (w := w arch) (T := T arch))).1
    exact ⟨⟨tracked.ledger, tracked.reused⟩, by simp [Machine.ledger, Recycling.new],
      fun _ => rfl⟩
  · intro e found
    cases ledger e found
    exact (offline_exact width (Nat.succ_pos b.scheduler.concurrency)
      (Offline.start (w := w arch) (T := T arch))).2.2 (by simp)

theorem host_run (width : 0 < w arch) {b : Builder U V}
    {trace : List (Machine.Transition w T Hint V)} (run : Machine.Run types (.start b) trace s)
    (edits : ∀ t ∈ trace, HostEdit types t) : HostInv arch s ∧
    ((∀ t ∈ trace, ∀ assign, t.label = .execute assign → SnapshotExact arch t.after) ↔
      ∀ t ∈ trace, ∀ assign, t.label = .execute assign → Synced arch t.before) ∧
    ((∀ t ∈ trace, ∀ assign, t.label = .execute assign → Synced arch t.before) →
      MirroredAt arch s) := by
  induction run with
  | start => exact ⟨(host_start width b).1, by simp, fun _ => (host_start width b).2⟩
  | @next trace s label t _ step ih =>
    obtain ⟨edit, edits⟩ := List.forall_mem_cons.mp edits
    obtain ⟨inv, same, mirrored⟩ := ih edits
    obtain ⟨next, change⟩ := host_step step edit inv
    refine ⟨next, ?_, fun synced => ?_⟩
    · rw [List.forall_mem_cons, List.forall_mem_cons, same]
      apply and_congr_left
      intro synced
      apply forall_congr'
      intro assign
      apply imp_congr_right
      exact (change (mirrored synced)).1 assign
    · obtain ⟨here, synced⟩ := List.forall_mem_cons.mp synced
      exact (change (mirrored synced)).2 here

/-- **Host-side edits.** In every run in which only host code creates and
deletes entities, the snapshot at the start of each cycle enumerates exactly the
live entities of an archetype, if and only if every cycle started from an
allocator without an ID reused since the last flush, or with a mark and without
an ID both reused and freed. -/
theorem host_snapshots {b : Builder U V} {trace : List (Machine.Transition w T Hint V)}
    (run : Machine.Run types (.start b) trace s) (edits : ∀ t ∈ trace, HostEdit types t)
    (arch : DbgTypeId) (width : 0 < w arch) :
    (∀ t ∈ trace, ∀ assign, t.label = .execute assign → SnapshotExact arch t.after) ↔
      ∀ t ∈ trace, ∀ assign, t.label = .execute assign →
        ∀ a, t.before.world.archetypes.lookup arch = some a →
          (∀ id ∈ a.ealloc.deallocQueue, id ∉ a.ealloc.reuseQueueShards.flatten) ∧
          (a.ealloc.flushMark = true ∨ a.ealloc.reuseQueueShards.flatten = []) :=
  (host_run width run edits).2.1

/-- The worlds of the examples have 16-bit IDs and stacks as recyclers. -/
abbrev PlainMachine : Type := Machine (fun _ => 16) (fun _ => List Nat) Nat

abbrev PlainTrace : Type :=
  List (Machine.Transition (fun _ => 16) (fun _ => List Nat) (fun _ => Unit) Nat)

def noComponents : CompMap Nat := ⟨∅, ∅⟩

/-- Three shards, each handed to the worker of its number. -/
def inOrder : DbgTypeId → List Nat := fun _ => [0, 1, 2]

theorem host_snapshots_new : ∃ (trace : PlainTrace) (s : PlainMachine),
    Machine.Run plainTypes (.start creation) trace s ∧ (s.roll ⟨0⟩).live = [1] ∧
    trace.length = 2 ∧
    ∀ t ∈ trace, ∀ assign, t.label = .execute assign → SnapshotExact ⟨0⟩ t.after := by
  obtain ⟨trace, s, run, live, length, edits, synced⟩ : ∃ (trace : PlainTrace) (s : PlainMachine),
      Machine.Run plainTypes (.start creation) trace s ∧ (s.roll ⟨0⟩).live = [1] ∧
      trace.length = 2 ∧ (∀ t ∈ trace, HostEdit plainTypes t) ∧
      ∀ t ∈ trace, ∀ assign, t.label = .execute assign → Synced ⟨0⟩ t.before := by
    refine ⟨_, _, .next (.next .start (.create ⟨0⟩ 0 () noComponents rfl rfl))
      (.execute inOrder rfl rfl rfl (by decide)), rfl, rfl, ?_, ?_⟩
    · rintro t (_ | ⟨_, _ | ⟨_, ⟨⟩⟩⟩)
      · trivial
      · trivial
    · rintro t (_ | ⟨_, _ | ⟨_, ⟨⟩⟩⟩) assign label a found
      · obtain rfl := Option.some.inj (found.symm.trans rfl)
        decide
      · cases label
  exact ⟨trace, s, run, live, length,
    (host_snapshots run edits ⟨0⟩ (by decide)).mpr synced⟩

/-- An entity created on the ID of one deleted in an earlier cycle is missing
from the next snapshot. -/
theorem host_snapshots_reuse : ∃ (trace : PlainTrace) (s : PlainMachine),
    Machine.Run plainTypes (.start creation) trace s ∧ (∀ t ∈ trace, HostEdit plainTypes t) ∧
    (s.roll ⟨0⟩).live = [1] ∧ (∃ t ∈ trace, t.label = .execute inOrder ∧ t.after = s) ∧
    (∃ snapshots snapshot, s.phase = .online inOrder snapshots ∧
      snapshots.lookup ⟨0⟩ = some snapshot ∧
      (snapshot.iterAllocatedChunks 16).toOption = some []) ∧
    ¬ SnapshotExact ⟨0⟩ s := by
  refine ⟨_, _, .next (.next (.next (.next (.next (.next (.next (.next .start
    (.create ⟨0⟩ 0 () noComponents rfl rfl)) (.dropReference 0 trivial)) (.delete ⟨0⟩ 1 rfl rfl))
    (.execute inOrder rfl rfl rfl (by decide))) (.join rfl)) (.flush rfl rfl))
    (.create ⟨0⟩ 2 () noComponents rfl rfl)) (.execute inOrder rfl rfl rfl (by decide)),
    ?_, rfl, ⟨_, .head _, rfl, rfl⟩, ⟨_, _, rfl, rfl, by decide +kernel⟩, ?_⟩
  · rintro t (_ | ⟨_, _ | ⟨_, _ | ⟨_, _ | ⟨_, _ | ⟨_, _ | ⟨_, _ | ⟨_, _ | ⟨_, ⟨⟩⟩⟩⟩⟩⟩⟩⟩⟩)
    · trivial
    · trivial
    · trivial
    · trivial
    · trivial
    · refine ⟨.head _, fun a found => ?_⟩
      obtain rfl := Option.some.inj (found.symm.trans rfl)
      rfl
    · trivial
    · trivial
  · intro exact
    obtain ⟨chunks, run, same⟩ := exact _ _ rfl _ rfl
    have none : some chunks = some [] :=
      (congrArg Except.toOption run).symm.trans (by decide +kernel)
    cases none
    cases same.length_eq

end Dynec.World
