import Dynec.Scheduler.Detection
import Dynec.Scheduler.Serialization

/-!
# What a steal returns

The planner keeps counters and queues. What it returns does not depend on them:
a steal gives out the first system of its pool that the orders, the accesses and
what the threads have returned so far allow to start, and nothing if and only if
there is none.
-/

namespace Dynec.Scheduler

open Fallible

variable {P : Type} {b : Builder P} {it : HashOrders} {t : Topology P} {c c' : Cycle P}
  {nodes : List Node} {orders : List Order} {clash : Node → Node → Prop} {n : Node}

namespace Cycle

/-- A node that a thread has stolen and completed. -/
def Over (c : Cycle P) (n : Node) : Prop := n ∈ c.returned ∧ n ∉ c.held.map (·.2)

/-- A system that may start: it was not stolen before, the systems that lead to
it are over, and no system under way has a conflicting access. -/
structure Enabled (nodes : List Node) (orders : List Order) (clash : Node → Node → Prop)
    (c : Cycle P) (n : Node) : Prop where
  known : n ∈ nodes
  system : n.isSystem = true
  fresh : n ∉ c.returned
  ordered : ∀ m, m.isSystem = true → Relation.TransGen (Precedes orders) m n → c.Over m
  free : ∀ m ∈ c.held.map (·.2), ¬ clash m n

end Cycle

/-! ## Statuses -/

theorem step_running (sound : t.Sound nodes orders clash) (step : c.Step t c')
    (inv : c.Inv t nodes orders clash)
    (held : ∀ n, c.planner.status n = .running → n ∈ c.held.map (·.2)) :
    ∀ n, c'.planner.status n = .running → n ∈ c'.held.map (·.2) := by
  intro n running
  cases step with
  | poll thread pool run nothing =>
    rw [(steal_stolen sound inv.balanced run).2.2.same nothing] at running
    exact held n running
  | @steal thread pool index planner tracer run =>
    cases (steal_stolen sound inv.balanced run).2.2 with
    | ready i _ old status =>
      rw [status] at running
      by_cases here : n = pool.toNode index
      · exact here ▸ List.mem_cons_self
      · rw [Function.update_of_ne here] at running
        exact List.mem_cons_of_mem _ (held n running)
  | complete thread node holds run =>
    have started := (step_inv sound (.complete thread node holds run) inv).balanced
    have system := started.isSystem_of_started (status_running.mp running)
    obtain ⟨-, -, -, systems⟩ :=
      complete_completed sound inv.balanced inv.remaining (inv.held _ holds) run
    rw [systems n system] at running
    split at running
    · cases running
    · rename_i other
      obtain ⟨e, he, rfl⟩ := List.mem_map.mp (held n running)
      refine List.mem_map_of_mem ((List.mem_erase_of_ne ?_).mpr he)
      rintro rfl
      exact other rfl

/-- A waiting node with nothing before it and no exclusion under way is
pending. -/
theorem unblocked (sound : t.Sound nodes orders clash) (inv : c.Inv t nodes orders clash)
    (waits : c.planner.status n = .waiting)
    (ready : ∀ m, Precedes orders m n → c.planner.status m = .done)
    (free : ∀ m, clash n m → c.planner.status m ≠ .running) :
    c.planner.state n = some .pending := by
  have none : need t orders c.planner n = 0 := by
    have orders_done : orders.countP
        (fun o => o.after = n ∧ c.planner.state o.before ≠ some .completed) = 0 := by
      apply List.countP_eq_zero.mpr
      intro o listed
      simp only [decide_eq_true_eq, not_and, not_not]
      intro after
      rcases status_done.mp (ready o.before ⟨o, listed, rfl, after⟩) with done | absent
      · exact done
      · have known := (inv.balanced.known o.before).mpr (sound.known o listed).1
        simp [absent] at known
    have excl_idle : (t.excl n).countP (fun m => c.planner.state m = some .started) = 0 := by
      apply List.countP_eq_zero.mpr
      intro m member
      simpa [status_running] using free m ((mem_excl sound).mp member)
    rw [need, orders_done, excl_idle]
  cases state : c.planner.state n with
  | none => rw [Planner.status, state] at waits; cases waits
  | some w =>
    cases w with
    | pending => rfl
    | started | completed => rw [Planner.status, state] at waits; cases waits
    | blocked k =>
      have count := inv.balanced.count n _ state (by simp)
      simp only [WakeupState.count, List.count_nil, none] at count
      have := k.pos
      omega

section
variable (sound : t.Sound nodes orders clash) (inv : c.Inv t nodes orders clash)
  (history : c.History nodes orders clash)
  (held : ∀ n, c.planner.status n = .running → n ∈ c.held.map (·.2))
include inv held

theorem running_iff : c.planner.status n = .running ↔ n ∈ c.held.map (·.2) := by
  constructor
  · exact held n
  · intro member
    obtain ⟨e, he, rfl⟩ := List.mem_map.mp member
    exact status_running.mpr (inv.held e he)

include history

theorem over_iff (known : n ∈ nodes) (system : n.isSystem = true) :
    c.planner.status n = .done ↔ c.Over n := by
  rw [Cycle.Over, ← running_iff inv held]
  constructor
  · intro done
    exact ⟨history.covers n known system (by rw [done]; simp), by rw [done]; simp⟩
  · rintro ⟨returned, idle⟩
    have moved := (inv.returned n returned).2
    cases status : c.planner.status n with
    | waiting => exact absurd status moved
    | running => exact absurd status idle
    | done => rfl

include sound

/-- A node is done once the systems that lead to it are over, if it is a
partition, and otherwise has nothing left before it. -/
theorem before_done (ordered : ∀ m, m.isSystem = true →
    Relation.TransGen (Precedes orders) m n → c.Over m) :
    ∀ m, Precedes orders m n → c.planner.status m = .done := by
  induction n using (before_wellFounded sound).induction with
  | _ n ih =>
    rintro m ⟨o, listed, rfl, rfl⟩
    have known := (sound.known o listed).1
    cases system : o.before.isSystem with
    | true =>
      exact (over_iff inv history held known system).mpr
        (ordered _ system (.single ⟨o, listed, rfl, rfl⟩))
    | false =>
      have past := ih o.before ⟨o, listed, rfl, rfl⟩ fun k system path =>
        ordered k system (path.tail ⟨o, listed, rfl, rfl⟩)
      cases status : c.planner.status o.before with
      | done => rfl
      | running =>
        rw [inv.balanced.isSystem_of_started (status_running.mp status)] at system
        cases system
      | waiting =>
        have pending := unblocked sound inv status past fun k excl _ => by
          rw [(sound.clash_known _ _ excl).2] at system
          cases system
        obtain ⟨i, same⟩ : ∃ i, o.before = .partition i := by
          cases node : o.before with
          | partition i => exact ⟨i, rfl⟩
          | sendSystem i | unsendSystem i => rw [node] at system; cases system
        exact absurd (same ▸ pending) (inv.balanced.lasting i).1

theorem enabled_iff (known : n ∈ nodes) (system : n.isSystem = true) :
    c.planner.state n = some .pending ↔ c.Enabled nodes orders clash n := by
  constructor
  · intro pending
    have waits : c.planner.status n = .waiting := by
      rw [Planner.status, pending]
      rfl
    have none : need t orders c.planner n = 0 := by
      have count := inv.balanced.count n _ pending (by simp)
      simpa [WakeupState.count] using count.symm
    obtain ⟨before, free⟩ := need_zero none
    constructor
    · exact known
    · exact system
    · exact fun returned => (inv.returned n returned).2 waits
    · intro m lasting path
      have inside : m ∈ nodes := by
        obtain ⟨_, ⟨o, listed, rfl, -⟩, -⟩ := Relation.TransGen.head'_iff.mp path
        exact (sound.known o listed).1
      rw [← over_iff inv history held inside lasting]
      obtain ⟨_, way, o, listed, rfl, rfl⟩ := Relation.TransGen.tail'_iff.mp path
      have last := status_done.mpr (.inl (before o listed rfl))
      rcases Relation.reflTransGen_iff_eq_or_transGen.mp way with same | way
      · exact same ▸ last
      · exact Jobs.ordered sound.clash_symm inv.jobs way (by rw [last]; simp)
    · intro m member excl
      rw [← running_iff inv held, status_running] at member
      exact free m ((mem_excl sound).mpr (sound.clash_symm _ _ excl)) member
  · intro enabled
    have waits : c.planner.status n = .waiting := by
      by_contra moved
      exact enabled.fresh (history.covers n known system moved)
    apply unblocked sound inv waits (before_done sound inv history held enabled.ordered)
    intro m excl running
    exact enabled.free m ((running_iff inv held).mp running) (sound.clash_symm _ _ excl)

end

theorem running_held [DecidableEq P] (built : Built b) (accepted : b.build it = .ok t)
    (reached : Cycle.Reachable t c) :
    ∀ n, c.planner.status n = .running → n ∈ c.held.map (·.2) := by
  induction reached with
  | start =>
    intro n running
    exact absurd running ((initial_jobs built accepted).idle n)
  | next past step ih =>
    exact step_running (build_parts built accepted).1 step (reachable_inv built accepted past) ih

theorem steal_first {p p' : Planner} {tracer tracer' : Tracer P} {thread : Thread} {pool : Pool}
    {i : Nat} (run : p.steal tracer thread t pool = .ok (.ready i, p', tracer')) :
    (p.pool pool).first = some i := by
  unfold Planner.steal at run
  split at run
  · cases run
  · split at run
    · cases run
    · rename_i index rest popped
      obtain ⟨state, -, run⟩ := bind_eq_ok.mp run
      cases state with
      | blocked _ | started | completed => cases run
      | pending =>
        obtain ⟨q, -, run⟩ := bind_eq_ok.mp run
        obtain ⟨exclusions, -, run⟩ := bind_eq_ok.mp run
        obtain ⟨⟨q', tr⟩, -, run⟩ := bind_eq_ok.mp run
        cases run
        obtain ⟨first, found, same⟩ := Option.map_eq_some_iff.mp popped
        cases same
        exact found

/-- **Steals are exact.** In every state of a cycle a steal returns the first
system of its pool that is enabled. It returns nothing if there is none and some
system is not over, and reports the end of the cycle if all systems are over. -/
theorem steal_exact [DecidableEq P] (built : Built b) (accepted : b.build it = .ok t)
    (reached : Cycle.Reachable t c) (tracer : Tracer P) (thread : Thread) (pool : Pool) :
    ∃ result planner tracer', c.planner.steal tracer thread t pool = .ok (result, planner, tracer') ∧
      (∀ i, result = .ready i ↔
        c.Enabled b.nodes b.orders (Clash b.resources) (pool.toNode i) ∧
        ∀ j < i, ¬ c.Enabled b.nodes b.orders (Clash b.resources) (pool.toNode j)) ∧
      (result = .pending ↔ (∃ n ∈ b.nodes, n.isSystem = true ∧ ¬ c.Over n) ∧
        ∀ i, ¬ c.Enabled b.nodes b.orders (Clash b.resources) (pool.toNode i)) ∧
      (result = .cycleComplete ↔ ∀ n ∈ b.nodes, n.isSystem = true → c.Over n) := by
  have sound := (build_parts built accepted).1
  have inv := reachable_inv built accepted reached
  have history := reachable_history built accepted reached
  have held := running_held built accepted reached
  have enabled : ∀ i, i ∈ c.planner.pool pool ↔
      c.Enabled b.nodes b.orders (Clash b.resources) (pool.toNode i) := by
    intro i
    rw [inv.balanced.pools]
    constructor
    · intro pending
      have known := (inv.balanced.known _).mp (by rw [pending]; rfl)
      exact (enabled_iff sound inv history held known (toNode_isSystem pool i)).mp pending
    · intro enabled
      exact (enabled_iff sound inv history held enabled.known enabled.system).mpr enabled
  have left : c.planner.remainingSystems = 0 ↔ ∀ n ∈ b.nodes, n.isSystem = true → c.Over n := by
    rw [inv.remaining, systemsLeft, List.countP_eq_zero]
    apply forall_congr'
    intro n
    apply forall_congr'
    intro known
    simp only [ne_eq, Bool.decide_and, Bool.decide_eq_true, Bool.and_eq_true, decide_eq_true_eq,
      not_and, not_not]
    apply forall_congr'
    intro system
    exact over_iff inv history held known system
  obtain ⟨result, planner, tracer', run, -, -, stolen⟩ :=
    steal_ok sound tracer thread pool inv.balanced
  have unfinished : ∀ i, c.Enabled b.nodes b.orders (Clash b.resources) (pool.toNode i) →
      c.planner.remainingSystems ≠ 0 := by
    intro i enabled none
    exact enabled.fresh (left.mp none _ enabled.known enabled.system).1
  refine ⟨result, planner, tracer', run, ?_⟩
  cases stolen with
  | complete none =>
    refine ⟨fun i => ?_, ?_, iff_of_true rfl (left.mp none)⟩
    · exact iff_of_false nofun fun enabled => unfinished i enabled.1 none
    · apply iff_of_false nofun
      rintro ⟨⟨n, known, system, waits⟩, -⟩
      exact waits (left.mp none n known system)
  | pending some none =>
    have idle : ∀ i, ¬ c.Enabled b.nodes b.orders (Clash b.resources) (pool.toNode i) :=
      fun i h => none i ((enabled i).mpr h)
    refine ⟨fun i => ?_, iff_of_true rfl ⟨?_, idle⟩, ?_⟩
    · exact iff_of_false nofun fun h => idle i h.1
    · rw [ne_eq, left] at some
      push Not at some
      exact some
    · exact iff_of_false nofun fun ended => some (left.mpr ended)
  | ready i some old =>
    have first := steal_first run
    have here := (enabled i).mp (SortedSet.first_mem first)
    refine ⟨fun j => ?_, ?_, ?_⟩
    · rw [StealResult.ready.injEq]
      constructor
      · rintro rfl
        refine ⟨here, fun j less h => ?_⟩
        exact absurd (SortedSet.first_le first j ((enabled j).mpr h)) (Nat.not_le.mpr less)
      · rintro ⟨h, least⟩
        have le := SortedSet.first_le first j ((enabled j).mpr h)
        exact le.antisymm (Nat.le_of_not_lt fun less => least i less here)
    · exact iff_of_false nofun fun h => h.2 i here
    · exact iff_of_false nofun fun ended => some (left.mpr ended)

/-- While the first system of the pipeline runs, none is enabled. -/
theorem steal_exact_pipeline : ∃ c, Cycle.Reachable pipelineTopology c ∧
    c.returned = [.sendSystem 0] ∧ ∀ i, ¬ c.Enabled pipeline.nodes pipeline.orders
      (Clash pipeline.resources) (.sendSystem i) := by
  obtain ⟨c, reached, returned, waits⟩ : ∃ c, Cycle.Reachable pipelineTopology c ∧
      c.returned = [.sendSystem 0] ∧ ∃ planner tracer,
        c.planner.steal [] .main pipelineTopology .send = .ok (.pending, planner, tracer) :=
    ⟨_, .next .start (.steal .main .send rfl), rfl, _, _, rfl⟩
  obtain ⟨planner, tracer, waits⟩ := waits
  obtain ⟨result, planner', tracer', run, -, idle, -⟩ :=
    steal_exact pipeline_registered.built pipeline_accepted reached [] .main .send
  obtain ⟨rfl, -⟩ := Prod.mk.inj (Except.ok.inj (run.symm.trans waits))
  exact ⟨c, reached, returned, (idle.mp rfl).2⟩

end Dynec.Scheduler
