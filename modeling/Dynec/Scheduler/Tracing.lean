import Dynec.Scheduler.Safety

/-!
# What a cycle traces

`execute_full_cycle` replays the partitions without dependencies before the
threads start, and the planner traces every other partition as it completes it.
The tally of a partition, its events and one more while it is not completed, is
what no step changes.
-/

namespace Dynec.Scheduler

open Fallible

variable {P : Type} {t : Topology P}

def tracePartition (t : Topology P) (tracer : Tracer P) (index : PartitionIndex) :
    Except Panic (Tracer P) := do
  let partition ← expect .invalidNodeIndex t.partitions[index]?
  return tracer ++ [.partition (.partition index) partition]

/-- `execute_full_cycle`, up to the start of the threads. -/
def Topology.startCycle (t : Topology P) : Except Panic (Cycle P) := do
  let planner := t.initialPlanner
  let sends := planner.sendRunnable.toList.map fun index => .markRunnable (.sendSystem index)
  let unsends := planner.unsendRunnable.toList.map fun index => .markRunnable (.unsendSystem index)
  let tracer ← t.deplessPars.foldlM (tracePartition t) (sends ++ unsends)
  return ⟨planner, tracer, [], []⟩

/-- A cycle under way, with the states before it, latest first. -/
inductive Cycle.Run (t : Topology P) : List (Cycle P) → Cycle P → Prop
  | start {c : Cycle P} (begun : t.startCycle = .ok c) : Run t [] c
  | next {past : List (Cycle P)} {c c' : Cycle P} : Run t past c → c.Step t c' →
      Run t (c :: past) c'

def TraceEvent.isPartition (n : Node) : TraceEvent P → Bool
  | .partition node _ => node = n
  | _ => false

/-- The number of times a partition was traced. -/
def Tracer.passes (tracer : Tracer P) (n : Node) : Nat := tracer.countP (·.isPartition n)

/-- A partition is traced once, after everything before it has completed and
before anything after it has started. -/
structure Traced (orders : List Order) (past : List (Cycle P)) (c : Cycle P) (n : Node) : Prop where
  once : c.tracer.passes n = 1
  after : ∀ s ∈ c :: past, 0 < s.tracer.passes n →
    ∀ o ∈ orders, o.after = n → s.planner.state o.before = some .completed
  before : ∀ s ∈ c :: past, s.tracer.passes n = 0 →
    ∀ o ∈ orders, o.before = n → s.planner.status o.after = .waiting

/-! ## The tally of a partition -/

def tally (tracer : Tracer P) (p : Planner) (i : PartitionIndex) : Nat :=
  tracer.passes (.partition i) + if p.state (.partition i) = some .completed then 0 else 1

theorem passes_append (tracer more : Tracer P) (n : Node) :
    Tracer.passes (tracer ++ more) n = tracer.passes n + Tracer.passes more n :=
  List.countP_append

/-- Events of other kinds leave the tally alone, and so do changes between
states that are not completed. -/
theorem tally_eq {tracer more : Tracer P} {p p' : Planner} {i : PartitionIndex}
    (quiet : Tracer.passes more (.partition i) = 0)
    (same : p'.state (.partition i) = some .completed ↔ p.state (.partition i) = some .completed) :
    tally (tracer ++ more) p' i = tally tracer p i := by
  simp only [tally, passes_append, quiet, same, Nat.add_zero]

theorem tally_setState {p : Planner} {n : Node} {v w : WakeupState} (tracer : Tracer P)
    (old : p.state n = some v) (left : v ≠ .completed) (waits : w ≠ .completed)
    (i : PartitionIndex) : tally tracer (p.setState n w) i = tally tracer p i := by
  have same : (p.setState n w).state (.partition i) = some .completed ↔
      p.state (.partition i) = some .completed := by
    rw [state_setState]
    by_cases h : Node.partition i = n
    · subst h
      simp [old, left, waits]
    · rw [if_neg h]
  simp only [tally, same]

theorem tally_setPool (tracer : Tracer P) (p : Planner) (pool : Pool) (set : SortedSet Nat)
    (i : PartitionIndex) : tally tracer (p.setPool pool set) i = tally tracer p i := by
  simp only [tally, state_setPool]

theorem takeRunnable_tally {p p' : Planner} {pool : Pool} {index : Nat}
    (h : p.takeRunnable pool index = .ok p') (tracer : Tracer P) (i : PartitionIndex) :
    tally tracer p' i = tally tracer p i := by
  unfold Planner.takeRunnable at h
  split at h
  · cases h
    exact tally_setPool tracer p pool _ i
  · cases h

theorem insertRunnable_tally {p p' : Planner} {pool : Pool} {index : Nat}
    (h : p.insertRunnable pool index = .ok p') (tracer : Tracer P) (i : PartitionIndex) :
    tally tracer p' i = tally tracer p i := by
  unfold Planner.insertRunnable at h
  split at h
  · cases h
  · cases h
    exact tally_setPool tracer p pool _ i

theorem blockExclusion_tally {p p' : Planner} {tracer tracer' : Tracer P} {excl : Node}
    (h : Planner.blockExclusion (p, tracer) excl = .ok (p', tracer')) (i : PartitionIndex) :
    tally tracer' p' i = tally tracer p i := by
  unfold Planner.blockExclusion at h
  obtain ⟨w, found, h⟩ := bind_eq_ok.mp h
  have old : p.state excl = some w := expect_eq_ok.mp found
  cases w with
  | pending =>
    have blocked := tally_setState (w := .blocked 1) tracer old (by simp) (by simp) i
    cases excl with
    | sendSystem index =>
      obtain ⟨q, taken, h⟩ := bind_eq_ok.mp h
      cases h
      rw [tally_eq rfl Iff.rfl, takeRunnable_tally taken, blocked]
    | unsendSystem index =>
      obtain ⟨q, taken, h⟩ := bind_eq_ok.mp h
      cases h
      rw [tally_eq rfl Iff.rfl, takeRunnable_tally taken, blocked]
    | partition index => cases h
  | blocked count =>
    cases h
    exact tally_setState tracer old (by simp) (by simp) i
  | started => cases h
  | completed =>
    cases h
    rfl

theorem steal_tally {p p' : Planner} {tracer tracer' : Tracer P} {thread : Thread} {pool : Pool}
    {result : StealResult} (h : p.steal tracer thread t pool = .ok (result, p', tracer'))
    (i : PartitionIndex) : tally tracer' p' i = tally tracer p i := by
  unfold Planner.steal at h
  split at h
  · cases h
    exact tally_eq rfl Iff.rfl
  · dsimp only at h
    split at h
    · cases h
      exact tally_eq rfl Iff.rfl
    · rename_i index rest popped
      obtain ⟨w, found, h⟩ := bind_eq_ok.mp h
      have old : (p.setPool pool rest).state (pool.toNode index) = some w := expect_eq_ok.mp found
      cases w with
      | pending =>
        obtain ⟨q, begun, h⟩ := bind_eq_ok.mp h
        cases begun
        obtain ⟨exclusions, -, h⟩ := bind_eq_ok.mp h
        obtain ⟨⟨p₁, tracer₁⟩, blocked, h⟩ := bind_eq_ok.mp h
        cases h
        apply foldlM_ok blocked (fun _ s => tally s.2 s.1 i = tally tracer p i)
        · rw [tally_setState tracer old (by simp) (by simp), tally_setPool]
        · intro past excl s s' _ kept step
          rw [← kept]
          exact blockExclusion_tally step i
      | blocked count => cases h
      | started => cases h
      | completed => cases h

theorem removeOneBlock_tally {p p' : Planner} {tracer tracer' : Tracer P} {node : Node}
    {more : List Node}
    (h : p.removeOneBlockNoRecursion tracer node t = .ok (p', tracer', more))
    (i : PartitionIndex) : tally tracer' p' i = tally tracer p i := by
  unfold Planner.removeOneBlockNoRecursion at h
  obtain ⟨w, found, h⟩ := bind_eq_ok.mp h
  have old : p.state node = some w := expect_eq_ok.mp found
  cases w with
  | completed =>
    cases h
    rfl
  | pending => cases h
  | started => cases h
  | blocked count =>
    dsimp only at h
    split at h
    · cases h
      exact tally_setState tracer old (by simp) (by simp) i
    · have woken := tally_setState (w := .pending) tracer old (by simp) (by simp) i
      cases node with
      | sendSystem index =>
        obtain ⟨q, inserted, h⟩ := bind_eq_ok.mp h
        cases h
        rw [tally_eq rfl Iff.rfl, insertRunnable_tally inserted, woken]
      | unsendSystem index =>
        obtain ⟨q, inserted, h⟩ := bind_eq_ok.mp h
        cases h
        rw [tally_eq rfl Iff.rfl, insertRunnable_tally inserted, woken]
      | partition index =>
        obtain ⟨partition, -, h⟩ := bind_eq_ok.mp h
        obtain ⟨dependents, -, h⟩ := bind_eq_ok.mp h
        cases h
        -- the one step that completes a partition is the one that traces it
        simp only [tally, passes_append, state_setState]
        by_cases here : i = index
        · subst here
          simp [old, Tracer.passes, TraceEvent.isPartition]
        · simp [here, Ne.symm here, Tracer.passes, TraceEvent.isPartition]

theorem removeLoop_tally (n : Nat) {s s' : Planner × Tracer P} {queue : List Node}
    (h : Planner.removeLoop t n s queue = .ok s') (i : PartitionIndex) :
    tally s'.2 s'.1 i = tally s.2 s.1 i := by
  induction n generalizing s queue with
  | zero =>
    unfold Planner.removeLoop at h
    split at h
    · cases h
      rfl
    · cases h
  | succ n ih =>
    unfold Planner.removeLoop at h
    split at h
    · cases h
      rfl
    · obtain ⟨⟨p₁, tracer₁, more⟩, removed, h⟩ := bind_eq_ok.mp h
      rw [ih h]
      exact removeOneBlock_tally removed i

theorem complete_tally {p p' : Planner} {tracer tracer' : Tracer P} {node : Node}
    (system : node.isSystem = true) (h : p.complete tracer node t = .ok (p', tracer'))
    (i : PartitionIndex) : tally tracer' p' i = tally tracer p i := by
  have other : Node.partition i ≠ node := by
    rintro rfl
    cases system
  unfold Planner.complete at h
  obtain ⟨w, found, h⟩ := bind_eq_ok.mp h
  cases w with
  | started =>
    obtain ⟨q, marked, h⟩ := bind_eq_ok.mp h
    cases marked
    obtain ⟨dependents, -, h⟩ := bind_eq_ok.mp h
    obtain ⟨⟨p₁, tracer₁⟩, first, h⟩ := bind_eq_ok.mp h
    obtain ⟨exclusions, -, h⟩ := bind_eq_ok.mp h
    obtain ⟨⟨p₂, tracer₂⟩, second, h⟩ := bind_eq_ok.mp h
    dsimp only at h
    split at h
    · cases h
    · cases h
      have finished : tally tracer (p.setState node .completed) i = tally tracer p i := by
        simp only [tally, state_setState, if_neg other]
      have first : tally tracer₁ p₁ i = _ := removeLoop_tally _ first i
      have second : tally tracer₂ p₂ i = _ := removeLoop_tally _ second i
      rw [← finished, ← first, ← second]
      exact tally_eq rfl Iff.rfl
  | pending => cases h
  | blocked count => cases h
  | completed => cases h

section
variable {nodes : List Node} {orders : List Order} {clash : Node → Node → Prop}

theorem step_tally {c c' : Cycle P} (inv : c.Inv t nodes orders clash) (step : c.Step t c')
    (i : PartitionIndex) : tally c'.tracer c'.planner i = tally c.tracer c.planner i := by
  cases step with
  | poll thread pool run nothing => exact steal_tally run i
  | steal thread pool run => exact steal_tally run i
  | complete thread node holds run =>
    have system : node.isSystem = true := by
      cases node with
      | partition j => exact absurd (inv.held _ holds) (inv.balanced.lasting j).2
      | sendSystem j | unsendSystem j => rfl
    exact complete_tally system run i

end

/-! ## The runs of a cycle -/

/-- `build_initials` returns the worklist it has emptied. -/
theorem deplessPars_nil {b : Builder P} {it : HashOrders} (accepted : b.build it = .ok t) :
    t.deplessPars = [] := by
  simp only [Builder.build, Topology.init] at accepted
  obtain ⟨t', inner, accepted⟩ := bind_eq_ok.mp accepted
  obtain ⟨dependents, deps, inner⟩ := bind_eq_ok.mp inner
  obtain ⟨⟨⟩, -, inner⟩ := bind_eq_ok.mp inner
  obtain ⟨⟨planner, left⟩, initials, inner⟩ := bind_eq_ok.mp inner
  obtain ⟨exclusions, -, inner⟩ := bind_eq_ok.mp inner
  cases inner
  cases accepted
  unfold buildInitials at initials
  obtain ⟨counts, -, initials⟩ := bind_eq_ok.mp initials
  obtain ⟨⟨counts', left'⟩, trim, initials⟩ := bind_eq_ok.mp initials
  cases initials
  exact (trimLoop_trimmed (buildDependentsMap_ok deps) _ (.start b.orders _ _) trim).1

section
variable [DecidableEq P] {b : Builder P} {it : HashOrders}

/-- What holds of each state of a run. -/
structure Cycle.Tallied (t : Topology P) (b : Builder P) (c : Cycle P) : Prop where
  inv : c.Inv t b.nodes b.orders (Clash b.resources)
  tally : ∀ i, .partition i ∈ b.nodes → tally c.tracer c.planner i =
    if depless b.orders (.partition i) then 0 else 1

theorem initial_completed (built : Built b) (accepted : b.build it = .ok t) {i : PartitionIndex}
    (known : .partition i ∈ b.nodes) : t.initialPlanner.state (.partition i) = some .completed ↔
      depless b.orders (.partition i) = true := by
  obtain ⟨-, states, -, -⟩ := build_parts built accepted
  rw [Planner.state, states, if_pos known, Option.some.injEq, initialState_completed,
    untrimmed_partition built.valid.orders_system rfl]
  exact and_iff_left rfl

theorem startCycle_tallied (built : Built b) (accepted : b.build it = .ok t) {c : Cycle P}
    (begun : t.startCycle = .ok c) : c.Tallied t b := by
  unfold Topology.startCycle at begun
  rw [deplessPars_nil accepted] at begun
  cases begun
  have start := reachable_inv built accepted .start
  refine ⟨⟨start.balanced, start.remaining, start.jobs, start.held, start.apart, start.returned,
    start.once⟩, fun i known => ?_⟩
  have quiet : Tracer.passes (P := P)
      (t.initialPlanner.sendRunnable.toList.map (fun index => .markRunnable (.sendSystem index)) ++
        t.initialPlanner.unsendRunnable.toList.map
          fun index => .markRunnable (.unsendSystem index)) (.partition i) = 0 := by
    apply List.countP_eq_zero.mpr
    intro e member
    rcases List.mem_append.mp member with member | member
    · obtain ⟨index, -, rfl⟩ := List.mem_map.mp member
      exact Bool.false_ne_true
    · obtain ⟨index, -, rfl⟩ := List.mem_map.mp member
      exact Bool.false_ne_true
  simp only [tally, quiet, initial_completed built accepted known, Nat.zero_add]

theorem run_tallied (built : Built b) (accepted : b.build it = .ok t) {past : List (Cycle P)}
    {c : Cycle P} (run : Cycle.Run t past c) : ∀ s ∈ c :: past, s.Tallied t b := by
  have sound := (build_parts built accepted).1
  induction run with
  | start begun =>
    intro s member
    rw [List.mem_singleton] at member
    exact member ▸ startCycle_tallied built accepted begun
  | @next past c c' run step ih =>
    intro s member
    rcases List.mem_cons.mp member with rfl | member
    · have here := ih c List.mem_cons_self
      refine ⟨step_inv sound step here.inv, fun i known => ?_⟩
      rw [step_tally here.inv step i]
      exact here.tally i known
    · exact ih s member

omit [DecidableEq P] in
/-- What comes after a node that has not completed waits. -/
theorem after_waits {nodes : List Node} {orders : List Order} {clash : Node → Node → Prop}
    {c : Cycle P} (sound : t.Sound nodes orders clash) (inv : c.Inv t nodes orders clash) {o : Order}
    (listed : o ∈ orders) (left : c.planner.state o.before ≠ some .completed) :
    c.planner.status o.after = .waiting := by
  have blocked : 0 < need t orders c.planner o.after := by
    apply Nat.add_pos_left
    apply List.countP_pos_iff.mpr
    exact ⟨o, listed, by simp [left]⟩
  obtain ⟨w, here⟩ :=
    Option.isSome_iff_exists.mp ((inv.balanced.known o.after).mpr (sound.known o listed).2)
  rw [Planner.status, here]
  cases w with
  | blocked count => rfl
  | pending => rfl
  | completed => exact absurd (inv.balanced.finished _ here o listed rfl) left
  | started =>
    have count := inv.balanced.count _ _ here (by simp)
    simp only [WakeupState.count, List.count_nil] at count
    omega

/-- **Traced partitions.** In a cycle that has ended, a partition was traced
once and in order if and only if some system comes before it. -/
theorem partitions_traced (built : Built b) (accepted : b.build it = .ok t)
    {past : List (Cycle P)} {c : Cycle P} (run : Cycle.Run t past c)
    (ended : c.planner.remainingSystems = 0) {i : PartitionIndex}
    (known : .partition i ∈ b.nodes) :
    Traced b.orders past c (.partition i) ↔ ∃ o ∈ b.orders, o.after = .partition i := by
  have sound := (build_parts built accepted).1
  have tallied := run_tallied built accepted run
  have last := tallied c List.mem_cons_self
  have done := all_completed sound last.inv ended _ known
  have passes : c.tracer.passes (.partition i) = if depless b.orders (.partition i) then 0 else 1 := by
    rw [← last.tally i known]
    simp [tally, done]
  have preceded : depless b.orders (.partition i) = false ↔
      ∃ o ∈ b.orders, o.after = .partition i := by
    simp [depless, Node.isSystem]
  constructor
  · intro traced
    rw [← preceded]
    have once := traced.once
    rw [passes] at once
    simpa using once
  · intro before
    have loaded := preceded.mpr before
    refine ⟨by simp [passes, loaded], fun s member passed => ?_, fun s member none => ?_⟩
    · have here := tallied s member
      have total := here.tally i known
      have completed : s.planner.state (.partition i) = some .completed := by
        by_contra left
        simp [tally, left, loaded] at total
        omega
      exact here.inv.balanced.finished _ completed
    · have here := tallied s member
      have total := here.tally i known
      have left : s.planner.state (.partition i) ≠ some .completed := by
        intro completed
        simp [tally, completed, none, loaded] at total
      rintro o listed same
      apply after_waits sound here.inv listed
      rwa [same]

end

theorem partitions_traced_writers : ∃ t past c, writers.build .insertion = .ok t ∧
    Cycle.Run t past c ∧ c.planner.remainingSystems = 0 ∧
    Traced writers.orders past c (.partition 0) :=
  have accepted : writers.build .insertion = .ok _ := rfl
  have run : Cycle.Run _ _ _ :=
    .next (.next (.next (.next (.start rfl) (.steal .main .send rfl))
      (.complete .main (.sendSystem 0) (by decide) rfl)) (.steal (.worker 0) .send rfl))
      (.complete (.worker 0) (.sendSystem 1) (by decide) rfl)
  ⟨_, _, _, accepted, run, rfl,
    (partitions_traced writers_built accepted run rfl (by decide)).mpr
      ⟨⟨.sendSystem 0, .partition 0⟩, by decide, rfl⟩⟩

/-- A system after a partition that nothing is before. -/
def follower : Builder Nat :=
  ((Builder.new 0).pushSendSystem "a").2.addDependencies [.after 7] (.sendSystem 0)

theorem follower_built : Built follower :=
  .addDependencies (.pushSendSystem "a" (.new 0)) [.after 7] rfl (by decide)

theorem partition_untraced : Built follower ∧ ∃ t past c, follower.build .insertion = .ok t ∧
    Cycle.Run t past c ∧ c.planner.remainingSystems = 0 ∧ .partition 0 ∈ follower.nodes ∧
    c.tracer.passes (.partition 0) = 0 ∧ ¬ Traced follower.orders past c (.partition 0) :=
  have accepted : follower.build .insertion = .ok _ := rfl
  have run : Cycle.Run _ _ _ :=
    .next (.next (.start rfl) (.steal .main .send rfl))
      (.complete .main (.sendSystem 0) (by decide) rfl)
  ⟨follower_built, _, _, _, accepted, run, rfl, by decide, rfl, fun traced =>
    absurd traced.once (by decide)⟩

end Dynec.Scheduler
