import Dynec.Scheduler.Termination

/-!
# Which thread runs a system

A system is at one thread at most, and a thread-local one at the main thread. A
thread returns only when nothing is left to run.
-/

namespace Dynec.Scheduler

/-- The systems that a thread runs. -/
def Thread.runs (concurrency : Nat) : Thread → Node → Prop
  | .main, .unsendSystem _ => True
  | .main, .sendSystem _ => concurrency = 0
  | .worker _, .sendSystem _ => True
  | _, _ => False

namespace Execution

variable {P : Type} {t : Topology P} {concurrency : Nat} {e e' : Execution P} {thread : Thread}
  {action : Action}

/-- What a thread polls is what it runs. -/
structure Placed (concurrency : Nat) (e : Execution P) : Prop where
  pollSend : ∀ thread, e.pc thread = .pollSend → concurrency = 0
  node : ∀ thread node, (e.pc thread).node = some node → thread.runs concurrency node

theorem runs_polled {pc : Pc} {pool : Pool} (polled : pc.polled thread = some pool)
    (alone : pc = .pollSend → concurrency = 0) (index : Nat) :
    thread.runs concurrency (pool.toNode index) := by
  cases thread with
  | main =>
    cases pc <;> cases polled
    · trivial
    · exact alone rfl
  | worker id =>
    cases pc <;> cases polled
    trivial

theorem step_pollSend (step : e.Step t concurrency thread action e') (placed : e.Placed concurrency) :
    ∀ other, e'.pc other = .pollSend → concurrency = 0 := by
  intro other polls
  by_cases ne : other = thread
  · subst ne
    cases step with
    | @lock pc free next =>
      simp only [moved, Function.update_self] at polls
      subst polls
      cases place : e.pc other <;> rw [place] at next <;> cases next
    | pending polled run =>
      simp only [moved, Function.update_self, Pc.pending] at polls
      split at polls
      · split at polls
        · assumption
        · cases polls
      · cases polls
    | ready | cycleComplete | startWait | park | timeOut | finish | complete =>
      simp [moved] at polls
  · apply placed.pollSend other
    obtain same | ⟨-, notified⟩ := (step_others step ne).2.2
    · rw [← same, polls]
    · rw [notified] at polls
      cases place : e.pc other <;> rw [place] at polls <;> cases polls

theorem step_node (step : e.Step t concurrency thread action e') (placed : e.Placed concurrency) :
    ∀ other node, (e'.pc other).node = some node → other.runs concurrency node := by
  intro other node has
  by_cases ne : other = thread
  · subst ne
    cases step with
    | lock free next =>
      simp only [moved, Function.update_self, (Pc.locked_place next).2.2.2] at has
      exact placed.node other node has
    | ready polled run =>
      simp only [moved, Function.update_self, Pc.node, Option.some.injEq] at has
      rw [← has]
      exact runs_polled polled (placed.pollSend other) _
    | pending polled run =>
      simp [moved, (Pc.pending_place _ _ _).2.2] at has
    | finish stands =>
      apply placed.node other node
      simpa [moved, stands, Pc.node] using has
    | cycleComplete | startWait | park | timeOut | complete =>
      simp [moved, Pc.node] at has
  · rw [(step_others step ne).2.1] at has
    exact placed.node other node has

theorem run_placed {trace : List (Execution P × Thread × Action)}
    (run : Run t concurrency trace e) : e.Placed concurrency := by
  induction run with
  | start =>
    constructor
    · intro thread polls
      simp only [start] at polls
      split at polls <;> cases polls
    · intro thread node has
      simp only [start] at has
      split at has <;> cases has
  | next _ _ step ih => exact ⟨step_pollSend step ih, step_node step ih⟩

section
variable [DecidableEq P] {b : Builder P} {it : HashOrders}

/-- **Placement.** In every run of the threads, a system under way is at exactly
one thread, which may run it, and no system is stolen twice. When a thread has
returned, all nodes are completed and no thread has a system. -/
theorem systems_placed (built : Built b) (accepted : b.build it = .ok t)
    {trace : List (Execution P × Thread × Action)} (run : Run t concurrency trace e) :
    (∀ thread node, (e.pc thread).node = some node →
      node ∈ b.nodes ∧ thread ∈ threads concurrency ∧ thread.runs concurrency node ∧
        ∀ other, (e.pc other).node = some node → other = thread) ∧
    (∀ node, e.cycle.planner.state node = some .started ↔
      ∃ thread, (e.pc thread).node = some node) ∧
    e.cycle.returned.Nodup ∧
    ∀ thread ∈ threads concurrency, e.pc thread = .returned →
      (∀ n ∈ b.nodes, e.cycle.planner.state n = some .completed) ∧
        ∀ other, (e.pc other).node = none := by
  have inv := run_keeps run
  have cycle := reachable_inv built accepted inv.cycle
  have started : ∀ thread node, (e.pc thread).node = some node →
      e.cycle.planner.state node = some .started := by
    intro thread node has
    exact cycle.held _ ((inv.held thread node).mp has)
  refine ⟨?_, ?_, cycle.once, ?_⟩
  · intro thread node has
    refine ⟨?_, ?_, (run_placed run).node thread node has, ?_⟩
    · apply (cycle.balanced.known node).mp
      rw [started thread node has]
      rfl
    · by_contra absent
      rw [inv.outside thread absent] at has
      cases has
    · intro other also
      have here := (inv.held thread node).mp has
      have there := (inv.held other node).mp also
      exact (Prod.mk.inj (List.inj_on_of_nodup_map cycle.apart there here rfl)).1
  · intro node
    constructor
    · intro here
      obtain ⟨thread, holds⟩ := started_held built accepted inv.cycle here
      exact ⟨thread, (inv.held thread node).mpr holds⟩
    · rintro ⟨thread, has⟩
      exact started thread node has
  · intro thread known gone
    have none := (run_places built accepted run).returned thread known gone
    have completed := all_completed (build_parts built accepted).1 cycle none
    refine ⟨completed, ?_⟩
    intro other
    by_contra some
    obtain ⟨node, has⟩ := Option.ne_none_iff_exists'.mp some
    exact held_left built accepted inv ((inv.held other node).mp has) none

end

/-- While the worker runs its system, the main thread has none. -/
theorem systems_placed_rivals : ∃ trace e, Run rivalsTopology 1 trace e ∧
    (e.pc (.worker 0)).node = some (.sendSystem 0) ∧
    e.cycle.planner.state (.sendSystem 0) = some .started ∧
    (e.pc .main).node ≠ some (.sendSystem 0) := by
  obtain ⟨trace, e, run, has⟩ : ∃ trace e, Run rivalsTopology 1 trace e ∧
      (e.pc (.worker 0)).node = some (.sendSystem 0) :=
    ⟨_, _, .next (.worker 0) (.next (.worker 0) .start (.lock rfl rfl)) (.ready rfl rfl), rfl⟩
  obtain ⟨placed, started, -, -⟩ := systems_placed rivals_built rivals_accepted run
  obtain ⟨-, -, -, only⟩ := placed _ _ has
  refine ⟨trace, e, run, has, (started _).mpr ⟨_, has⟩, ?_⟩
  intro also
  cases only .main also

end Execution

end Dynec.Scheduler
