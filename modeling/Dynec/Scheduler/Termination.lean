import Dynec.Scheduler.Wakeups
import Mathlib.Algebra.Group.Action.Defs
import Mathlib.Algebra.Order.BigOperators.Group.List

/-!
# The end of a cycle

The steps of a cycle are bounded, but for the rounds that threads make because
of time-outs. While no thread has missed a notification, some step is possible
until all threads have returned.
-/

namespace Dynec.Scheduler

namespace Execution

variable {P : Type} {t : Topology P} {concurrency : Nat} {e e' : Execution P} {thread : Thread}
  {action : Action}

/-! ## Where the threads can be -/

/-- Only a main thread that is alone polls the sendable systems second. -/
theorem step_alone (step : e.Step t concurrency thread action e')
    (alone : ∀ other, e.pc other = .pollSend → other = .main) :
    ∀ other, e'.pc other = .pollSend → other = .main := by
  intro other polls
  by_cases ne : other = thread
  · subst ne
    cases step with
    | @lock pc free next =>
      simp only [moved, Function.update_self] at polls
      subst polls
      cases place : e.pc other <;> rw [place] at next <;> cases next
    | pending polled run =>
      simp only [moved, Function.update_self] at polls
      cases other with
      | main => rfl
      | worker i => cases polls
    | ready | cycleComplete | startWait | park | timeOut | finish | complete =>
      simp [moved] at polls
  · apply alone
    rcases (step_others step ne).2.2 with same | ⟨-, notified⟩
    · rw [← same, polls]
    · rw [notified] at polls
      cases place : e.pc other <;> rw [place] at polls <;> cases polls

variable [DecidableEq P] {b : Builder P} {it : HashOrders}

/-- While a thread holds a node, systems are left. -/
theorem held_left (built : Built b) (accepted : b.build it = .ok t) (inv : e.Inv t concurrency)
    {node : Node} (holds : (thread, node) ∈ e.cycle.held) :
    e.cycle.planner.remainingSystems ≠ 0 := by
  intro none
  have cycle := reachable_inv built accepted inv.cycle
  have started := cycle.held _ holds
  have known := (cycle.balanced.known node).mp (by rw [started]; rfl)
  have completed := all_completed (build_parts built accepted).1 cycle none node known
  rw [started] at completed
  cases completed

theorem step_returned (built : Built b) (accepted : b.build it = .ok t)
    (step : e.Step t concurrency thread action e') (inv : e.Inv t concurrency)
    (returned : ∀ other ∈ threads concurrency, e.pc other = .returned →
      e.cycle.planner.remainingSystems = 0) :
    ∀ other ∈ threads concurrency, e'.pc other = .returned →
      e'.cycle.planner.remainingSystems = 0 := by
  have sound := (build_parts built accepted).1
  have balanced := (reachable_inv built accepted inv.cycle).balanced
  intro other known here
  have before : e.pc other = .returned ∨ other = thread ∧ action = .cycleComplete := by
    by_cases ne : other = thread
    · subst ne
      right
      refine ⟨rfl, ?_⟩
      cases step with
      | @lock pc free next =>
        simp only [moved, Function.update_self] at here
        subst here
        cases place : e.pc other <;> rw [place] at next <;> cases next
      | @pending pool planner tracer polled run =>
        have place := (Pc.pending_place concurrency other (e.pc other)).1
        simp only [moved, Function.update_self] at here
        rw [here] at place
        cases place
      | cycleComplete => rfl
      | ready | startWait | park | timeOut | finish | complete =>
        simp [moved] at here
    · left
      rcases (step_others step ne).2.2 with same | ⟨-, notified⟩
      · rw [← same, here]
      · rw [notified] at here
        cases place : e.pc other <;> rw [place] at here <;> cases here
  cases step with
  | ready polled run =>
    cases (steal_stolen sound balanced run).2.2 with
    | ready i left => exact absurd (returned other known (before.resolve_right (by simp))) left
  | pending polled run =>
    rw [(steal_stolen sound balanced run).2.2.same (.inl rfl)]
    exact returned other known (before.resolve_right (by simp))
  | cycleComplete polled run =>
    cases (steal_stolen sound balanced run).2.2 with
    | complete done same =>
      subst same
      exact done
  | complete stands run =>
    have holds := (inv.held thread _).mp (by rw [stands]; rfl)
    have none := returned other known (before.resolve_right (by simp))
    exact absurd none (held_left built accepted inv holds)
  | lock | startWait | park | timeOut | finish =>
    exact returned other known (before.resolve_right (by simp))

/-- Where the threads of a run can be. -/
structure Places (concurrency : Nat) (e : Execution P) : Prop where
  alone : ∀ thread, e.pc thread = .pollSend → thread = .main
  returned : ∀ thread ∈ threads concurrency, e.pc thread = .returned →
    e.cycle.planner.remainingSystems = 0

omit [DecidableEq P] in
theorem start_places (t : Topology P) (concurrency : Nat) :
    (start t concurrency).Places concurrency := by
  constructor
  · intro thread polls
    simp only [start] at polls
    split at polls <;> cases polls
  · intro thread known returned
    simp [start, known] at returned

theorem step_places (built : Built b) (accepted : b.build it = .ok t)
    (step : e.Step t concurrency thread action e') (inv : e.Inv t concurrency)
    (places : e.Places concurrency) : e'.Places concurrency :=
  ⟨step_alone step places.alone, step_returned built accepted step inv places.returned⟩

theorem run_places (built : Built b) (accepted : b.build it = .ok t)
    {trace : List (Execution P × Thread × Action)} (run : Run t concurrency trace e) :
    e.Places concurrency := by
  induction run with
  | start => exact start_places t concurrency
  | next _ run step ih => exact step_places built accepted step (run_keeps run) ih

/-- A thread that has the mutex can go on, if it does not take the others for
deadlocked. -/
theorem exists_step (built : Built b) (accepted : b.build it = .ok t) (inv : e.Inv t concurrency)
    (places : e.Places concurrency) (holds : (e.pc thread).holds = true)
    (counts : e.pc thread = .wait → ∃ counter, e.deadlockCounter.startWait = .ok counter) :
    ∃ action e', action ≠ .lock ∧ action ≠ .timeOut ∧ e.Step t concurrency thread action e' := by
  have sound := (build_parts built accepted).1
  have cycle := reachable_inv built accepted inv.cycle
  have steals : ∀ pool, (e.pc thread).polled thread = some pool → ∃ action e',
      action ≠ .lock ∧ action ≠ .timeOut ∧ e.Step t concurrency thread action e' := by
    intro pool polled
    obtain ⟨result, p', tracer', run, -⟩ :=
      steal_ok sound e.cycle.tracer thread pool cycle.balanced
    cases result with
    | cycleComplete => exact ⟨_, _, by simp, by simp, .cycleComplete polled run⟩
    | pending => exact ⟨_, _, by simp, by simp, .pending polled run⟩
    | ready index => exact ⟨_, _, by simp, by simp, .ready polled run⟩
  cases stands : e.pc thread with
  | poll =>
    cases thread with
    | main => exact steals .unsend (by rw [stands]; rfl)
    | worker i => exact steals .send (by rw [stands]; rfl)
  | pollSend =>
    have main := places.alone thread stands
    subst main
    exact steals .send (by rw [stands]; rfl)
  | wait =>
    obtain ⟨counter, run⟩ := counts stands
    exact ⟨_, _, by simp, by simp, .startWait stands run⟩
  | park => exact ⟨_, _, by simp, by simp, .park stands⟩
  | complete node =>
    have held := (inv.held thread node).mp (by rw [stands]; rfl)
    obtain ⟨p', tracer', run, -⟩ := complete_ok sound e.cycle.tracer cycle.balanced
      cycle.remaining (cycle.held _ held)
    exact ⟨_, _, by simp, by simp, .complete stands run⟩
  | start | parked | notified | timedOut | running | relock | returned =>
    rw [stands] at holds
    cases holds

/-! ## Progress -/

/-- In a timely run some thread can go on until all have returned. -/
theorem Quiet.progress (quiet : e.Quiet concurrency) (built : Built b)
    (accepted : b.build it = .ok t) (inv : e.Inv t concurrency) (places : e.Places concurrency) :
    (∃ thread action e', action ≠ .timeOut ∧ e.Step t concurrency thread action e') ∨
    ∀ thread ∈ threads concurrency, e.pc thread = .returned := by
  by_contra stuck
  obtain ⟨still, left⟩ := not_or.mp stuck
  simp only [not_forall] at left
  obtain ⟨thread, known, active⟩ := left
  cases locked : e.guard with
  | some holder =>
    have holds := (inv.guard holder).mpr locked
    have counts : e.pc holder = .wait →
        ∃ counter, e.deadlockCounter.startWait = .ok counter := by
      intro stands
      unfold DeadlockCounter.startWait
      split
      · rename_i one
        exact absurd (inv.last stands one) (quiet.busy built accepted inv)
      · exact ⟨_, rfl⟩
    obtain ⟨action, e', -, other, step⟩ := exists_step built accepted inv places holds counts
    exact still ⟨holder, action, e', other, step⟩
  | none =>
    have locks : ∀ other pc, (e.pc other).locked = some pc → False := fun other pc next =>
      still ⟨other, _, _, by simp, .lock locked next⟩
    have parked : ∀ other ∈ threads concurrency, e.pc other ≠ .returned →
        e.pc other = .parked := by
      intro other _ active
      have unlocked : (e.pc other).holds = false := by
        by_contra holds
        rw [Bool.not_eq_false, inv.guard other, locked] at holds
        cases holds
      cases stands : e.pc other with
      | parked => rfl
      | running node => exact absurd ⟨other, _, _, by simp, .finish stands⟩ still
      | start | notified | timedOut | relock =>
        exact (locks other _ (by rw [stands]; rfl)).elim
      | returned => exact absurd stands active
      | poll | pollSend | wait | park | complete =>
        rw [stands] at unlocked
        cases unlocked
    have waits := (quiet.waits thread (.inr (by rw [parked thread known active]; rfl))).1
    apply quiet.busy built accepted inv
    intro other among
    by_cases gone : e.pc other = .returned
    · exact absurd (places.returned other among gone) waits
    · right
      rw [parked other among gone]
      rfl

end Execution

/-! ## The steps that are left -/

/-- A bound on the steps of a thread before it completes a node or waits. -/
def Pc.rank : Pc → Nat
  | start | notified => 10
  | poll => 9
  | pollSend => 8
  | running _ => 7
  | relock _ => 6
  | complete _ => 5
  | wait | timedOut => 4
  | park => 3
  | parked => 2
  | returned => 0

theorem Pc.rank_le (pc : Pc) : pc.rank ≤ 10 := by cases pc <;> simp [rank]

theorem Pc.rank_polled {thread : Thread} {pc : Pc} {pool : Pool} (concurrency : Nat)
    (polled : pc.polled thread = some pool) :
    7 < pc.rank ∧ (pc.pending concurrency thread).rank < pc.rank := by
  cases thread <;> cases pc <;> cases polled <;> simp only [pending] <;> try split
  all_goals simp [rank]

theorem Pc.rank_locked {pc pc' : Pc} (next : pc.locked = some pc') : pc'.rank < pc.rank := by
  cases pc <;> cases next <;> simp [rank]

namespace Execution

variable {P : Type} {t : Topology P} {concurrency : Nat} {e e' : Execution P} {thread : Thread}
  {action : Action}

/-- The steps that the threads have left, with a full round of all of them for
each system that has not completed. -/
def measure (concurrency : Nat) (e : Execution P) : Nat :=
  11 * (concurrency + 1) * e.cycle.planner.remainingSystems +
    ((threads concurrency).map fun thread => (e.pc thread).rank).sum

theorem sum_threads_le {f : Thread → Nat} {bound : Nat} (le : ∀ thread, f thread ≤ bound)
    (concurrency : Nat) : ((threads concurrency).map f).sum ≤ bound * (concurrency + 1) := by
  have sum := List.sum_le_card_nsmul ((threads concurrency).map f) bound (by
    rintro r listed
    obtain ⟨thread, -, rfl⟩ := List.mem_map.mp listed
    exact le thread)
  rw [List.length_map, threads_length, smul_eq_mul, Nat.mul_comm] at sum
  exact sum

/-- One thread moves on, the others stay. -/
theorem sum_threads (known : thread ∈ threads concurrency) {f g : Thread → Nat}
    (others : ∀ other, other ≠ thread → f other = g other) :
    ((threads concurrency).map f).sum + g thread = ((threads concurrency).map g).sum + f thread := by
  have same : ∀ other ∈ (threads concurrency).erase thread, f other = g other := by
    intro other mem
    apply others
    rintro rfl
    exact (threads_nodup concurrency).not_mem_erase mem
  rw [← List.sum_map_erase f known, ← List.sum_map_erase g known, List.map_congr_left same]
  omega

theorem measure_moved (known : thread ∈ threads concurrency) {pc : Pc} {more : Nat}
    (remaining : e'.cycle.planner.remainingSystems = e.cycle.planner.remainingSystems)
    (pcs : e'.pc = Function.update e.pc thread pc)
    (less : pc.rank + 1 ≤ (e.pc thread).rank + more) :
    e'.measure concurrency + 1 ≤ e.measure concurrency + more := by
  have moves := sum_threads known (f := fun other => (Function.update e.pc thread pc other).rank)
    (g := fun other => (e.pc other).rank) fun other ne => by rw [Function.update_of_ne ne]
  rw [Function.update_self] at moves
  unfold measure
  rw [remaining, pcs]
  omega

/-- A completion makes up for the round that it begins. -/
theorem measure_completed
    (completed : e'.cycle.planner.remainingSystems + 1 = e.cycle.planner.remainingSystems) :
    e'.measure concurrency + 1 ≤ e.measure concurrency := by
  have after := sum_threads_le (fun thread => (e'.pc thread).rank_le) concurrency
  unfold measure
  rw [← completed, Nat.mul_add_one (11 * (concurrency + 1))]
  omega

/-- A time-out begins at most two more steps, every other step leaves fewer. -/
theorem step_measure [DecidableEq P] {b : Builder P} {it : HashOrders} (built : Built b)
    (accepted : b.build it = .ok t) (step : e.Step t concurrency thread action e')
    (inv : e.Inv t concurrency) : e'.measure concurrency + 1 ≤
      e.measure concurrency + if action = .timeOut then 3 else 0 := by
  have sound := (build_parts built accepted).1
  have cycle := reachable_inv built accepted inv.cycle
  have known : thread ∈ threads concurrency := by
    by_contra absent
    exact step_active step (inv.outside thread absent)
  cases step with
  | lock free next => exact measure_moved known rfl rfl (Pc.rank_locked next)
  | ready polled run =>
    obtain ⟨-, remaining, -⟩ := steal_stolen sound cycle.balanced run
    exact measure_moved known remaining rfl (Pc.rank_polled concurrency polled).1
  | pending polled run =>
    obtain ⟨-, remaining, -⟩ := steal_stolen sound cycle.balanced run
    exact measure_moved known remaining rfl (Pc.rank_polled concurrency polled).2
  | cycleComplete polled run =>
    obtain ⟨-, remaining, -⟩ := steal_stolen sound cycle.balanced run
    exact measure_moved known remaining rfl
      (Nat.zero_lt_of_lt (Pc.rank_polled concurrency polled).1)
  | startWait stands | park stands | timeOut stands | finish stands =>
    exact measure_moved known rfl rfl (by rw [stands]; simp [Pc.rank])
  | @complete node planner tracer stands run =>
    apply measure_completed
    have started := cycle.held _ ((inv.held thread node).mp (by rw [stands]; rfl))
    obtain ⟨-, remaining, -, systems⟩ :=
      complete_completed sound cycle.balanced cycle.remaining started run
    dsimp only at started
    rw [remaining, cycle.remaining]
    apply systemsLeft_completed sound.nodup
    · exact (cycle.balanced.known node).mp (by rw [started]; rfl)
    · exact cycle.balanced.isSystem_of_started started
    · rw [status_running.mpr started]
      simp
    · exact systems

section
variable [DecidableEq P] {b : Builder P} {it : HashOrders}
  {trace : List (Execution P × Thread × Action)}

theorem measure_le (built : Built b) (accepted : b.build it = .ok t)
    (inv : e.Inv t concurrency) :
    e.measure concurrency ≤ 11 * (concurrency + 1) * b.nodes.length + 10 * (concurrency + 1) := by
  have ranks := sum_threads_le (fun thread => (e.pc thread).rank_le) concurrency
  have systems : e.cycle.planner.remainingSystems ≤ b.nodes.length := by
    rw [(reachable_inv built accepted inv.cycle).remaining]
    exact List.countP_le_length
  have rounds := Nat.mul_le_mul_left (11 * (concurrency + 1)) systems
  unfold measure
  omega

/-- A run takes its steps out of the measure. -/
theorem run_measure (built : Built b) (accepted : b.build it = .ok t)
    (run : Run t concurrency trace e) : trace.length + e.measure concurrency ≤
      11 * (concurrency + 1) * (b.nodes.length + 1) +
        3 * trace.countP fun s => s.2.2 = .timeOut := by
  induction run with
  | start =>
    have bound := measure_le built accepted (start_inv t concurrency)
    rw [Nat.mul_add_one (11 * (concurrency + 1)), List.length_nil]
    omega
  | @next thread trace e e' action run step ih =>
    have fewer := step_measure built accepted step (run_keeps run)
    rw [List.length_cons, List.countP_cons]
    simp only [decide_eq_true_eq]
    split at fewer
    · rename_i late
      rw [if_pos late]
      omega
    · rename_i prompt
      rw [if_neg prompt]
      omega

/-- **Termination.** A cycle takes a bounded number of steps, and up to three more
for each time-out. While no completion has missed a thread that timed out, some
step is possible other than a time-out, until all threads have returned and
every node is completed. -/
theorem cycle_ends (built : Built b) (accepted : b.build it = .ok t)
    (run : Run t concurrency trace e) :
    trace.length ≤ 11 * (concurrency + 1) * (b.nodes.length + 1) +
      3 * trace.countP (fun s => s.2.2 = .timeOut) ∧
    ((∀ s ∈ trace, s.1.Timely s.2.2) →
      (∃ thread action e', action ≠ .timeOut ∧ e.Step t concurrency thread action e') ∨
      (∀ thread ∈ threads concurrency, e.pc thread = .returned) ∧
        ∀ n ∈ b.nodes, e.cycle.planner.wakeupState.lookup n = some .completed) := by
  have inv := run_keeps run
  have places := run_places built accepted run
  have bound := run_measure built accepted run
  refine ⟨by omega, fun timely => ?_⟩
  rcases (run_quiet built accepted run timely).progress built accepted inv places with more | gone
  · exact .inl more
  · right
    have none := places.returned .main List.mem_cons_self (gone .main List.mem_cons_self)
    exact ⟨gone, all_completed (build_parts built accepted).1
      (reachable_inv built accepted inv.cycle) none⟩

end

theorem rivals_accepted : rivals.build .insertion = .ok rivalsTopology := rfl

/-- A worker and the main thread run the two systems of a cycle one after the
other and return. -/
theorem cycle_ends_rivals : ∃ trace e, rivals.build .insertion = .ok rivalsTopology ∧
    Run rivalsTopology 1 trace e ∧ trace.length ≤ 66 ∧
    ∀ n ∈ rivals.nodes, e.cycle.planner.wakeupState.lookup n = some .completed := by
  obtain ⟨trace, e, run, timely, gone, late⟩ : ∃ trace e, Run rivalsTopology 1 trace e ∧
      (∀ s ∈ trace, s.1.Timely s.2.2) ∧ (∀ thread ∈ threads 1, e.pc thread = .returned) ∧
      trace.countP (fun s => s.2.2 = .timeOut) = 0 := by
    have sends : Run rivalsTopology 1 _ _ :=
      .next (.worker 0) (.next (.worker 0) (.next (.worker 0) (.next (.worker 0) .start
        (.lock rfl rfl)) (.ready rfl rfl)) (.finish rfl)) (.lock rfl rfl)
    have prompt := (run_keeps sends).timely (by decide)
    have parks : Run rivalsTopology 1 _ _ :=
      .next (.worker 0) (.next (.worker 0) (.next (.worker 0) (.next (.worker 0) sends
        (.complete rfl rfl)) (.pending rfl rfl)) (.startWait rfl rfl)) (.park rfl)
    have unsends : Run rivalsTopology 1 _ _ :=
      .next .main (.next .main (.next .main (.next .main parks (.lock rfl rfl))
        (.ready rfl rfl)) (.finish rfl)) (.lock rfl rfl)
    have prompt' := (run_keeps unsends).timely (by decide)
    refine ⟨_, _, .next (.worker 0) (.next (.worker 0) (.next .main (.next .main unsends
      (.complete rfl rfl)) (.cycleComplete rfl rfl)) (.lock rfl rfl)) (.cycleComplete rfl rfl),
      ?_, by decide, rfl⟩
    simp only [List.forall_mem_cons]
    exact ⟨trivial, trivial, trivial, prompt', trivial, trivial, trivial, trivial, trivial, trivial,
      trivial, prompt, trivial, trivial, trivial, trivial, by rintro _ ⟨⟩⟩
  obtain ⟨bound, ends⟩ := cycle_ends rivals_built rivals_accepted run
  rw [late] at bound
  refine ⟨trace, e, rfl, run, bound, ?_⟩
  rcases ends timely with ⟨thread, action, e', -, step⟩ | ⟨-, completed⟩
  · have active := step_active step
    by_cases known : thread ∈ threads 1
    · exact absurd (gone thread known) active
    · exact absurd ((run_keeps run).outside thread known) active
  · exact completed

end Execution

end Dynec.Scheduler
