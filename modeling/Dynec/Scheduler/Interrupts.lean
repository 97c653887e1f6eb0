import Dynec.Scheduler.Serialization

/-!
# Cycles in which a system panics

The guard around a system sets `had_panic` when the system panics. The thread
unwinds, for which it locks the mutex again and unlocks it, and is gone. Every
thread that wakes up after that leaves its loop. The node of the system is never
completed: for the planner, the thread runs it for ever.
-/

namespace Dynec.Scheduler

/-- What has become of a thread. -/
inductive Fate where
  | working
  -- the system it ran has panicked, and it has to lock the mutex to go on
  | unwinding
  -- it has unwound, or it has seen `had_panic` and returned
  | stopped
  deriving DecidableEq, Repr

/-- The threads at work on a cycle, and those that panics have stopped. -/
structure Interrupted (P : Type) where
  execution : Execution P
  hadPanic : Bool
  fate : Thread → Fate

namespace Interrupted

variable {P : Type}

def start (t : Topology P) (concurrency : Nat) : Interrupted P :=
  ⟨.start t concurrency, false, fun _ => .working⟩

/-- The thread was in `wait_for` and has been taken off the condition variable. -/
def Woken (e : Execution P) (thread : Thread) : Prop :=
  e.pc thread = .notified ∨ e.pc thread = .timedOut

inductive Step (t : Topology P) (concurrency : Nat) (x : Interrupted P) : Interrupted P → Prop
  | step (thread : Thread) {action : Execution.Action} {e' : Execution P}
      (works : x.fate thread = .working)
      (step : x.execution.Step t concurrency thread action e')
      (calm : action = .lock → Woken x.execution thread → x.hadPanic = false) :
      Step t concurrency x { x with execution := e' }
  | panic (thread : Thread) {node : Node} (works : x.fate thread = .working)
      (stands : x.execution.pc thread = .running node) :
      Step t concurrency x
        { x with hadPanic := true, fate := Function.update x.fate thread .unwinding }
  | unwind (thread : Thread) (unwinds : x.fate thread = .unwinding)
      (free : x.execution.guard = none) :
      Step t concurrency x { x with fate := Function.update x.fate thread .stopped }
  | hadPanic (thread : Thread) (works : x.fate thread = .working)
      (woken : Woken x.execution thread) (free : x.execution.guard = none)
      (panicked : x.hadPanic = true) :
      Step t concurrency x { x with fate := Function.update x.fate thread .stopped }

inductive Reachable (t : Topology P) (concurrency : Nat) : Interrupted P → Prop
  | start : Reachable t concurrency (.start t concurrency)
  | next {x y : Interrupted P} : Reachable t concurrency x → x.Step t concurrency y →
      Reachable t concurrency y

/-- The states `n` steps after `x`. -/
inductive After (t : Topology P) (concurrency : Nat) (x : Interrupted P) :
    Nat → Interrupted P → Prop
  | refl : After t concurrency x 0 x
  | next {n : Nat} {y z : Interrupted P} : After t concurrency x n y → y.Step t concurrency z →
      After t concurrency x (n + 1) z

/-- The system of a node has panicked on a thread. -/
def Panicked (x : Interrupted P) (thread : Thread) (node : Node) : Prop :=
  x.fate thread ≠ .working ∧ x.execution.pc thread = .running node

/-! ## What every step keeps -/

structure Inv (t : Topology P) (concurrency : Nat) (x : Interrupted P) : Prop where
  execution : x.execution.Inv t concurrency
  unwinding : ∀ thread, x.fate thread = .unwinding → ∃ node, x.execution.pc thread = .running node
  stopped : ∀ thread, x.fate thread = .stopped →
    (∃ node, x.execution.pc thread = .running node) ∨ Woken x.execution thread
  panicked : x.hadPanic = true → ∃ thread node, x.Panicked thread node
  places : x.execution.Places concurrency

section
variable {t : Topology P} {concurrency : Nat} {e e' : Execution P} {thread : Thread}
  {action : Execution.Action}

theorem running_kept (step : e.Step t concurrency thread action e') {other : Thread}
    (ne : other ≠ thread) {node : Node} (runs : e.pc other = .running node) :
    e'.pc other = .running node := by
  rcases (Execution.step_others step ne).2.2 with same | ⟨-, notified⟩
  · rw [same, runs]
  · rw [notified, runs]
    rfl

theorem woken_kept (step : e.Step t concurrency thread action e') {other : Thread}
    (ne : other ≠ thread) (woken : Woken e other) : Woken e' other := by
  rcases (Execution.step_others step ne).2.2 with same | ⟨-, notified⟩
  · rw [Woken, same]
    exact woken
  · rcases woken with here | here
    · left; rw [notified, here]; rfl
    · right; rw [notified, here]; rfl

end

section
variable {t : Topology P} {concurrency : Nat} {thread : Thread} [DecidableEq P] {b : Builder P}
  {it : HashOrders} {x y : Interrupted P}

omit [DecidableEq P] in
theorem start_inv (t : Topology P) (concurrency : Nat) :
    (Interrupted.start t concurrency).Inv t concurrency := by
  constructor
  · exact Execution.start_inv t concurrency
  · intro thread unwinds
    cases unwinds
  · intro thread stops
    cases stops
  · intro panicked
    cases panicked
  · exact Execution.start_places t concurrency

omit [DecidableEq P] in
/-- A thread stops working. -/
theorem Inv.fated (inv : x.Inv t concurrency) (thread : Thread) {fate : Fate} {hadPanic : Bool}
    (idle : fate ≠ .working)
    (unwinds : fate = .unwinding → ∃ node, x.execution.pc thread = .running node)
    (stops : fate = .stopped →
      (∃ node, x.execution.pc thread = .running node) ∨ Woken x.execution thread)
    (panics : hadPanic = true →
      x.hadPanic = true ∨ ∃ node, x.execution.pc thread = .running node) :
    Inv t concurrency ⟨x.execution, hadPanic, Function.update x.fate thread fate⟩ := by
  constructor
  · exact inv.execution
  · intro th unwinds'
    by_cases same : th = thread
    · subst same
      exact unwinds (by simpa using unwinds')
    · exact inv.unwinding th (by simpa [same] using unwinds')
  · intro th stops'
    by_cases same : th = thread
    · subst same
      exact stops (by simpa using stops')
    · exact inv.stopped th (by simpa [same] using stops')
  · intro panicked
    rcases panics panicked with before | ⟨node, runs⟩
    · obtain ⟨th, node, idle', runs⟩ := inv.panicked before
      refine ⟨th, node, ?_, runs⟩
      by_cases same : th = thread
      · simpa [same] using idle
      · simpa [same] using idle'
    · exact ⟨thread, node, by simpa using idle, runs⟩
  · exact inv.places

theorem step_inv (built : Built b) (accepted : b.build it = .ok t)
    (step : x.Step t concurrency y) (inv : x.Inv t concurrency) : y.Inv t concurrency := by
  cases step with
  | @step thread action e' works step calm =>
    have other : ∀ {th : Thread}, x.fate th ≠ .working → th ≠ thread := by
      rintro th idle rfl
      exact idle works
    constructor
    · exact Execution.step_keeps step inv.execution
    · intro th unwinds
      obtain ⟨node, runs⟩ := inv.unwinding th unwinds
      exact ⟨node, running_kept step (other (by rw [unwinds]; simp)) runs⟩
    · intro th stops
      have ne : th ≠ thread := other (by rw [stops]; simp)
      rcases inv.stopped th stops with ⟨node, runs⟩ | woken
      · exact .inl ⟨node, running_kept step ne runs⟩
      · exact .inr (woken_kept step ne woken)
    · intro panicked
      obtain ⟨th, node, idle, runs⟩ := inv.panicked panicked
      exact ⟨th, node, idle, running_kept step (other idle) runs⟩
    · exact Execution.step_places built accepted step inv.execution inv.places
  | @panic thread node works stands =>
    apply inv.fated thread (by simp) (fun _ => ⟨node, stands⟩) (fun _ => .inl ⟨node, stands⟩)
    exact fun _ => .inr ⟨node, stands⟩
  | unwind thread unwinds free =>
    have runs := inv.unwinding thread unwinds
    exact inv.fated thread (by simp) (fun _ => runs) (fun _ => .inl runs) .inl
  | hadPanic thread works woken free panicked =>
    exact inv.fated thread (by simp) (by simp) (fun _ => .inr woken) .inl

theorem reachable_inv (built : Built b) (accepted : b.build it = .ok t)
    (reached : Reachable t concurrency x) : x.Inv t concurrency := by
  induction reached with
  | start => exact start_inv t concurrency
  | next _ step ih => exact step_inv built accepted step ih

/-! ## A panicked system -/

omit [DecidableEq P] in
/-- The thread of a panicked system has not left its closure. -/
theorem Panicked.holds (inv : x.Inv t concurrency) {node : Node}
    (panicked : x.Panicked thread node) : (thread, node) ∈ x.execution.cycle.held :=
  (inv.execution.held thread node).mp (by rw [panicked.2]; rfl)

omit [DecidableEq P] in
/-- After a panic no thread finds the deadlock counter at its last thread. -/
theorem Inv.startWait (inv : x.Inv t concurrency) (panicked : x.hadPanic = true)
    (stands : x.execution.pc thread = .wait) :
    ∃ counter, x.execution.deadlockCounter.startWait = .ok counter := by
  unfold DeadlockCounter.startWait
  split
  · rename_i one
    exfalso
    obtain ⟨other, node, -, runs⟩ := inv.panicked panicked
    have known : other ∈ threads concurrency := by
      by_contra absent
      rw [inv.execution.outside other absent] at runs
      cases runs
    have idles := inv.execution.last stands one other known
    rw [runs] at idles
    simp [Execution.idle, Pc.waiting] at idles
  · exact ⟨_, rfl⟩

/-- Some thread can go on until all have stopped. -/
theorem Inv.progress (built : Built b) (accepted : b.build it = .ok t)
    (inv : x.Inv t concurrency) (panicked : x.hadPanic = true) :
    (∃ y, x.Step t concurrency y) ∨ ∀ thread ∈ threads concurrency, x.fate thread = .stopped := by
  by_contra stuck
  obtain ⟨still, left⟩ := not_or.mp stuck
  simp only [not_forall] at left
  obtain ⟨thread, known, goes⟩ := left
  cases locked : x.execution.guard with
  | some holder =>
    have holds := (inv.execution.guard holder).mpr locked
    have works : x.fate holder = .working := by
      cases fate : x.fate holder with
      | working => rfl
      | unwinding =>
        obtain ⟨node, runs⟩ := inv.unwinding holder fate
        rw [runs] at holds; cases holds
      | stopped =>
        rcases inv.stopped holder fate with ⟨node, runs⟩ | woken | woken
        · rw [runs] at holds; cases holds
        · rw [woken] at holds; cases holds
        · rw [woken] at holds; cases holds
    obtain ⟨action, e', other, -, step⟩ := Execution.exists_step built accepted inv.execution
      inv.places holds (inv.startWait panicked)
    exact still ⟨_, .step holder works step fun lock => absurd lock other⟩
  | none =>
    have unlocked : (x.execution.pc thread).holds = false := by
      by_contra holds
      rw [Bool.not_eq_false, inv.execution.guard thread, locked] at holds
      cases holds
    cases fate : x.fate thread with
    | stopped => exact goes fate
    | unwinding => exact still ⟨_, .unwind thread fate locked⟩
    | working =>
      cases stands : x.execution.pc thread with
      | start =>
        refine still ⟨_, .step thread fate (.lock locked (by rw [stands]; rfl)) ?_⟩
        rintro - (woken | woken) <;> rw [stands] at woken <;> cases woken
      | relock node =>
        refine still ⟨_, .step thread fate (.lock locked (by rw [stands]; rfl)) ?_⟩
        rintro - (woken | woken) <;> rw [stands] at woken <;> cases woken
      | parked => exact still ⟨_, .step thread fate (.timeOut stands) (by rintro ⟨⟩)⟩
      | running node => exact still ⟨_, .step thread fate (.finish stands) (by rintro ⟨⟩)⟩
      | notified => exact still ⟨_, .hadPanic thread fate (.inl stands) locked panicked⟩
      | timedOut => exact still ⟨_, .hadPanic thread fate (.inr stands) locked panicked⟩
      | returned =>
        obtain ⟨other, node, ended⟩ := inv.panicked panicked
        have holds := Panicked.holds inv ended
        exact Execution.held_left built accepted inv.execution holds
          (inv.places.returned thread known stands)
      | poll | pollSend | wait | park | complete =>
        rw [stands] at unlocked
        cases unlocked

end

/-! ## The steps that are left -/

/-- What is left of a thread beside its steps: the time-out after which it stops,
or the unwinding. -/
def rest (x : Interrupted P) (thread : Thread) : Nat :=
  match x.fate thread with
  | .working => if x.execution.pc thread = .timedOut then 1 else 4
  | .unwinding => 3
  | .stopped => 0

def measure (concurrency : Nat) (x : Interrupted P) : Nat :=
  x.execution.measure concurrency + ((threads concurrency).map x.rest).sum

theorem rest_le (x : Interrupted P) (thread : Thread) : x.rest thread ≤ 4 := by
  unfold rest
  split
  · split <;> simp
  · simp
  · simp

section
variable {t : Topology P} {concurrency : Nat} {x y : Interrupted P}

theorem rests_lt {thread : Thread} (active : x.execution.pc thread ≠ .returned)
    (inv : x.Inv t concurrency) (others : ∀ other, other ≠ thread → y.rest other = x.rest other)
    (own : y.rest thread < x.rest thread) :
    ((threads concurrency).map y.rest).sum < ((threads concurrency).map x.rest).sum := by
  have known : thread ∈ threads concurrency := by
    by_contra absent
    exact active (inv.execution.outside thread absent)
  have moves := Execution.sum_threads known others
  omega

/-- The steps of the loop, other than those after a wake-up, leave what comes
with a panic. -/
theorem step_rest {thread : Thread} {action : Execution.Action} {e' : Execution P}
    (works : x.fate thread = .working) (step : x.execution.Step t concurrency thread action e')
    (asleep : action = .lock → ¬ Woken x.execution thread) :
    (∀ other, other ≠ thread → rest ⟨e', x.hadPanic, x.fate⟩ other = x.rest other) ∧
    rest ⟨e', x.hadPanic, x.fate⟩ thread + (if action = .timeOut then 3 else 0) = x.rest thread := by
  constructor
  · intro other ne
    have late : e'.pc other = .timedOut ↔ x.execution.pc other = .timedOut := by
      rcases (Execution.step_others step ne).2.2 with same | ⟨-, notified⟩
      · rw [same]
      · rw [notified]
        cases x.execution.pc other <;> simp [Pc.notify]
    simp only [rest, late]
  · have prompt : ∀ {pc : Pc}, pc.waiting = false → pc ≠ .timedOut := by
      rintro pc waits rfl
      cases waits
    simp only [rest, works]
    cases step with
    | @lock pc free next =>
      have asleep := asleep rfl
      simp only [Execution.moved, Function.update_self]
      cases place : x.execution.pc thread <;> rw [place] at next <;> cases next <;>
        simp_all [Woken]
    | pending polled run =>
      have before := prompt (Pc.polled_place polled).2.1
      have after := prompt (Pc.pending_place concurrency thread (x.execution.pc thread)).2.1
      simp [Execution.moved, before, after]
    | ready polled | cycleComplete polled =>
      have before := prompt (Pc.polled_place polled).2.1
      simp [Execution.moved, before]
    | startWait stands | park stands | timeOut stands | finish stands | complete stands =>
      simp [Execution.moved, stands]

variable [DecidableEq P] {b : Builder P} {it : HashOrders}

/-- After a panic every step leaves fewer steps. -/
theorem step_measure (built : Built b) (accepted : b.build it = .ok t)
    (step : x.Step t concurrency y) (inv : x.Inv t concurrency) (panicked : x.hadPanic = true) :
    y.measure concurrency < x.measure concurrency := by
  cases step with
  | @step thread action e' works step calm =>
    have asleep : action = .lock → ¬ Woken x.execution thread := by
      intro lock woken
      rw [calm lock woken] at panicked
      cases panicked
    have known : thread ∈ threads concurrency := by
      by_contra absent
      exact Execution.step_active step (inv.execution.outside thread absent)
    have fewer := Execution.step_measure built accepted step inv.execution
    obtain ⟨others, own⟩ := step_rest works step asleep
    have moves := Execution.sum_threads known others
    unfold measure
    dsimp only
    omega
  | @panic thread node works stands =>
    apply Nat.add_lt_add_left
    apply rests_lt (by rw [stands]; simp) inv
    · intro other ne
      simp [rest, ne]
    · simp [rest, works, stands]
  | unwind thread unwinds free =>
    obtain ⟨node, runs⟩ := inv.unwinding thread unwinds
    apply Nat.add_lt_add_left
    apply rests_lt (by rw [runs]; simp) inv
    · intro other ne
      simp [rest, ne]
    · simp [rest, unwinds]
  | hadPanic thread works woken free _ =>
    have active : x.execution.pc thread ≠ .returned := by
      rcases woken with here | here <;> rw [here] <;> simp
    apply Nat.add_lt_add_left
    apply rests_lt active inv
    · intro other ne
      simp [rest, ne]
    · simp only [rest, Function.update_self, works]
      split <;> simp

omit [DecidableEq P] in
theorem after_reachable (reached : Reachable t concurrency x) {n : Nat}
    (after : x.After t concurrency n y) : Reachable t concurrency y := by
  induction after with
  | refl => exact reached
  | next _ step ih => exact .next ih step

omit [DecidableEq P] in
theorem step_hadPanic (step : x.Step t concurrency y) (panicked : x.hadPanic = true) :
    y.hadPanic = true := by
  cases step with
  | step | unwind | hadPanic => exact panicked
  | panic => rfl

/-- A run after a panic takes its steps out of the measure. -/
theorem after_measure (built : Built b) (accepted : b.build it = .ok t)
    (reached : Reachable t concurrency x) (panicked : x.hadPanic = true) {n : Nat}
    (after : x.After t concurrency n y) : y.hadPanic = true ∧
      n + y.measure concurrency ≤ x.measure concurrency := by
  induction after with
  | refl => exact ⟨panicked, by omega⟩
  | next after step ih =>
    obtain ⟨panicked, left⟩ := ih
    have inv := reachable_inv built accepted (after_reachable reached after)
    have fewer := step_measure built accepted step inv panicked
    exact ⟨step_hadPanic step panicked, by omega⟩

theorem measure_le (built : Built b) (accepted : b.build it = .ok t) (inv : x.Inv t concurrency) :
    x.measure concurrency ≤ 14 * (concurrency + 1) * (b.nodes.length + 1) := by
  have rests := Execution.sum_threads_le x.rest_le concurrency
  have ranks := Execution.measure_le built accepted inv.execution
  have grow : 11 * (concurrency + 1) * b.nodes.length ≤
      14 * (concurrency + 1) * b.nodes.length := by gcongr; omega
  unfold measure
  rw [Nat.mul_add_one (14 * (concurrency + 1))]
  omega

/-- **Interruption.** After a panic a cycle ends: the steps that it can still take
are bounded, some thread can go on until all have stopped, and no thread takes
the threads that are gone for a deadlock. What depends on the panicked system
never runs, and what conflicts with it does not run beside it. -/
theorem interrupted_ends (built : Built b) (accepted : b.build it = .ok t)
    (reached : Reachable t concurrency x) (panicked : x.hadPanic = true) :
    (∀ n y, x.After t concurrency n y → n ≤ 14 * (concurrency + 1) * (b.nodes.length + 1)) ∧
    ((∃ y, x.Step t concurrency y) ∨ ∀ thread ∈ threads concurrency, x.fate thread = .stopped) ∧
    (∀ thread, x.execution.pc thread = .wait →
      ∃ counter, x.execution.deadlockCounter.startWait = .ok counter) ∧
    ∀ thread node, x.Panicked thread node →
      (∀ later, Relation.TransGen (jobs b.orders (Clash b.resources)).before node later →
        later ∉ x.execution.cycle.returned) ∧
      ∀ rival, Clash b.resources node rival → ∀ other, (other, rival) ∉ x.execution.cycle.held := by
  have inv := reachable_inv built accepted reached
  have cycle := Scheduler.reachable_inv built accepted inv.execution.cycle
  refine ⟨?_, inv.progress built accepted panicked, fun thread => inv.startWait panicked, ?_⟩
  · intro n y after
    have spent := (after_measure built accepted reached panicked after).2
    have bound := measure_le built accepted inv
    omega
  · intro thread node ended
    have runs := cycle.held _ (ended.holds inv)
    rw [← status_running] at runs
    constructor
    · intro later chain stolen
      have done := Jobs.ordered (fun _ _ => Clash.symm) cycle.jobs chain
        (cycle.returned later stolen).2
      dsimp only at runs
      rw [runs] at done
      cases done
    · intro rival clash other held
      have beside := cycle.held _ held
      rw [← status_running] at beside
      exact Jobs.exclusive (fun _ _ => Clash.symm) cycle.jobs clash clash.1 ⟨runs, beside⟩

end

/-- The worker runs the first system, which panics when the main thread is about
to wait. -/
theorem interrupted_ends_pipeline : ∃ x, Reachable pipelineTopology 1 x ∧
    x.execution.pc .main = .wait ∧ x.Panicked (.worker 0) (.sendSystem 0) ∧
    (∃ counter, x.execution.deadlockCounter.startWait = .ok counter) ∧
    .sendSystem 1 ∉ x.execution.cycle.returned ∧ ∀ n y, x.After pipelineTopology 1 n y → n ≤ 84 := by
  obtain ⟨x, reached, panicked, waits, unwinds, runs⟩ : ∃ x, Reachable pipelineTopology 1 x ∧
      x.hadPanic = true ∧ x.execution.pc .main = .wait ∧ x.fate (.worker 0) = .unwinding ∧
      x.execution.pc (.worker 0) = .running (.sendSystem 0) := by
    have steals : Reachable pipelineTopology 1 _ :=
      .next (.next .start (.step (.worker 0) rfl (.lock rfl rfl) fun _ _ => rfl))
        (.step (.worker 0) rfl (.ready rfl rfl) fun _ _ => rfl)
    have polls : Reachable pipelineTopology 1 _ :=
      .next (.next steals (.step .main rfl (.lock rfl rfl) fun _ _ => rfl))
        (.step .main rfl (.pending rfl rfl) fun _ _ => rfl)
    exact ⟨_, .next polls (.panic (.worker 0) rfl rfl), rfl, rfl, rfl, rfl⟩
  have order : (jobs pipeline.orders (Clash pipeline.resources)).before (.sendSystem 0)
      (.sendSystem 1) := ⟨_, List.mem_cons_self, rfl, rfl⟩
  have ended : x.Panicked (.worker 0) (.sendSystem 0) := ⟨by rw [unwinds]; decide, runs⟩
  obtain ⟨bound, -, counts, apart⟩ :=
    interrupted_ends pipeline_registered.built pipeline_accepted reached panicked
  exact ⟨x, reached, waits, ended, counts .main waits,
    (apart _ _ ended).1 _ (.single order), bound⟩

end Interrupted

end Dynec.Scheduler
