import Dynec.Scheduler.Completion

/-!
# One cycle of the planner

Any number of threads steal from the two pools and complete what they hold, in
any order. `Cycle.Inv` holds in every state they reach, and its `jobs` field
says that the planner carries out the abstract cycle of the schedule.
-/

namespace Dynec.Scheduler

open Fallible

variable {P : Type}

/-! ## The topology of an accepted schedule -/

theorem initialState_completed {n : Node} {c : Nat} :
    initialState n c = .completed ↔ c = 0 ∧ n.isSystem = false := by
  unfold initialState
  by_cases h : 0 < c
  · simp only [h, dif_pos, reduceCtorEq, false_iff]
    omega
  · cases hn : n.isSystem with
    | true => simp [h]
    | false => simp [h]; omega

theorem initialState_count {n : Node} {c : Nat} : (initialState n c).count = c := by
  unfold initialState
  by_cases h : 0 < c
  · simp [h, WakeupState.count]
  · have zero : c = 0 := by omega
    cases hn : n.isSystem <;> simp [zero, WakeupState.count]

theorem initialState_started {n : Node} {c : Nat} : initialState n c ≠ .started := by
  unfold initialState
  split
  · simp
  · split <;> simp

/-- A partition starts completed exactly when no order leads to it. -/
theorem untrimmed_partition {orders : List Order} {n : Node}
    (systems : ∀ o ∈ orders, o.before.isSystem = true ∨ o.after.isSystem = true)
    (instant : n.isSystem = false) : untrimmed orders n = 0 ↔ depless orders n = true := by
  constructor
  · intro none
    have none := List.countP_eq_zero.mp none
    simp only [depless, instant, Bool.not_false, Bool.true_and, List.all_eq_true,
      decide_eq_true_eq]
    intro o ho ha
    have system : o.before.isSystem = true := by
      rcases systems o ho with hb | hb
      · exact hb
      · rw [ha, instant] at hb; cases hb
    exact none o ho (by simp [ha, depless, system])
  · intro free
    simp only [depless, instant, Bool.not_false, Bool.true_and, List.all_eq_true,
      decide_eq_true_eq] at free
    apply List.countP_eq_zero.mpr
    intro o ho
    simp [free o ho]

section
variable [DecidableEq P] {b : Builder P} {it : HashOrders} {t : Topology P}

/-- What `build` has checked and tabulated. -/
theorem build_parts (built : Built b) (accepted : b.build it = .ok t) :
    t.Sound b.nodes b.orders (Clash b.resources) ∧
    Tabulates t.initialPlanner.wakeupState b.nodes
      (fun n => initialState n (untrimmed b.orders n)) ∧
    (∀ pool i, i ∈ t.initialPlanner.pool pool ↔
      t.initialPlanner.wakeupState.lookup (pool.toNode i) = some .pending) ∧
    t.initialPlanner.remainingSystems = b.nodes.countP (·.isSystem) := by
  have valid := built.valid
  simp only [Builder.build, Topology.init] at accepted
  obtain ⟨t', inner, accepted⟩ := bind_eq_ok.mp accepted
  obtain ⟨dependents, deps, inner⟩ := bind_eq_ok.mp inner
  obtain ⟨⟨⟩, scan, inner⟩ := bind_eq_ok.mp inner
  obtain ⟨⟨planner, left⟩, initials, inner⟩ := bind_eq_ok.mp inner
  obtain ⟨exclusions, excl, inner⟩ := bind_eq_ok.mp inner
  cases inner
  cases accepted
  have tab := buildDependentsMap_ok deps
  obtain ⟨states, pools, remaining⟩ :=
    buildInitials_ok tab valid.orders_system valid.orders_known initials
  refine ⟨⟨allNodes_nodup _ _ _, valid.orders_known, tab, buildExclusions_ok excl,
    fun _ _ => valid.clash_known, fun _ _ => Clash.symm, fun _ _ h => h.1, ?_, ?_⟩, states, pools,
    remaining⟩
  · obtain ⟨rank, ranked⟩ := scanCycles_ranked scan
    refine ⟨rank, fun o ho => ?_⟩
    have found : dependents.lookup o.before = some (orderedAfter b.orders o.before) := by
      rw [tab]
      exact if_pos (valid.orders_known o ho).1
    apply ranked
    · exact (tab.mem_keys _).mpr (valid.orders_known o ho).1
    · rw [dependentsIn, found]
      exact mem_orderedAfter.mpr ⟨o, ho, rfl, rfl⟩
  · intro i hi
    exact mem_allNodes.mp hi

/-- The initial planner owes nothing. -/
theorem initial_balanced (built : Built b) (accepted : b.build it = .ok t) :
    Balanced t b.nodes b.orders t.initialPlanner [] [] := by
  obtain ⟨sound, states, pools, -⟩ := build_parts built accepted
  have valid := built.valid
  have state : ∀ n w, t.initialPlanner.state n = some w →
      n ∈ b.nodes ∧ w = initialState n (untrimmed b.orders n) := by
    intro n w h
    rw [Planner.state, states n] at h
    by_cases hn : n ∈ b.nodes
    · rw [if_pos hn, Option.some.injEq] at h; exact ⟨hn, h.symm⟩
    · rw [if_neg hn] at h; cases h
  have completed : ∀ n ∈ b.nodes, (t.initialPlanner.state n = some .completed ↔
      depless b.orders n = true) := by
    intro n hn
    rw [Planner.state, states n, if_pos hn, Option.some.injEq, initialState_completed]
    cases hs : n.isSystem with
    | true => simp [depless, hs]
    | false => simp [untrimmed_partition valid.orders_system hs]
  have idle : ∀ n, t.initialPlanner.state n ≠ some .started := fun n h =>
    initialState_started (state n _ h).2.symm
  refine ⟨fun n => ?_, fun n w hw _ => ?_, fun n hn o ho ha => ?_, pools, fun i => ⟨?_, idle _⟩⟩
  · rw [Planner.state, states n]
    by_cases hn : n ∈ b.nodes <;> simp [hn]
  · obtain ⟨-, rfl⟩ := state n w hw
    have none : (t.excl n).countP (fun m => t.initialPlanner.state m = some .started) = 0 := by
      simp [idle]
    rw [initialState_count, need, none]
    simp only [List.count_nil, Nat.add_zero]
    apply List.countP_congr
    intro o ho
    simp [completed o.before (valid.orders_known o ho).1]
  · have free := (completed n (state n _ hn).1).mp hn
    simp only [depless, Bool.and_eq_true, List.all_eq_true, decide_eq_true_eq] at free
    exact absurd ha (free.2 o ho)
  · intro pending
    have h := (state _ _ pending).2
    unfold initialState at h
    split at h
    · cases h
    · cases h

theorem initial_jobs (built : Built b) (accepted : b.build it = .ok t) :
    (jobs b.orders (Clash b.resources)).Initial t.initialPlanner.status := by
  have balanced := initial_balanced built accepted
  obtain ⟨-, states, -, -⟩ := build_parts built accepted
  constructor
  · intro n
    rw [ne_eq, status_running, Planner.state, states n]
    split
    · rw [Option.some.injEq]; exact initialState_started
    · simp
  · rintro n done m ⟨o, ho, rfl, ha⟩
    rcases status_done.mp done with completed | absent
    · exact status_done.mpr (.inl (balanced.finished n completed o ho ha))
    · have known := (balanced.known n).mpr (ha ▸ (built.valid.orders_known o ho).2)
      simp [absent] at known

theorem initial_remaining (built : Built b) (accepted : b.build it = .ok t) :
    t.initialPlanner.remainingSystems = systemsLeft b.nodes t.initialPlanner := by
  obtain ⟨-, states, -, remaining⟩ := build_parts built accepted
  rw [remaining]
  apply List.countP_congr
  intro n hn
  have left : n.isSystem = true → t.initialPlanner.status n ≠ .done := by
    intro system done
    rcases status_done.mp done with completed | absent
    · rw [Planner.state, states n, if_pos hn, Option.some.injEq, initialState_completed,
        system] at completed
      cases completed.2
    · rw [Planner.state, states n, if_pos hn] at absent
      cases absent
  simpa using left

end

/-! ## Runs of a cycle -/

/-- A cycle under way. `held` has the nodes stolen and not completed, each with
its thread, and `returned` every node a steal has returned. -/
structure Cycle (P : Type) where
  planner : Planner
  tracer : Tracer P
  held : List (Thread × Node)
  returned : List Node

def Cycle.start (t : Topology P) : Cycle P := ⟨t.initialPlanner, [], [], []⟩

inductive Cycle.Step (t : Topology P) (c : Cycle P) : Cycle P → Prop
  | poll (thread : Thread) (pool : Pool) {result : StealResult} {planner : Planner}
      {tracer : Tracer P}
      (run : c.planner.steal c.tracer thread t pool = .ok (result, planner, tracer))
      (nothing : result = .pending ∨ result = .cycleComplete) :
      Step t c { c with planner, tracer }
  | steal (thread : Thread) (pool : Pool) {index : Nat} {planner : Planner} {tracer : Tracer P}
      (run : c.planner.steal c.tracer thread t pool = .ok (.ready index, planner, tracer)) :
      Step t c ⟨planner, tracer, (thread, pool.toNode index) :: c.held,
        pool.toNode index :: c.returned⟩
  | complete (thread : Thread) (node : Node) {planner : Planner} {tracer : Tracer P}
      (holds : (thread, node) ∈ c.held)
      (run : c.planner.complete c.tracer node t = .ok (planner, tracer)) :
      Step t c ⟨planner, tracer, c.held.erase (thread, node), c.returned⟩

inductive Cycle.Reachable (t : Topology P) : Cycle P → Prop
  | start : Reachable t (.start t)
  | next {c c'} : Reachable t c → c.Step t c' → Reachable t c'

structure Cycle.Inv (t : Topology P) (nodes : List Node) (orders : List Order)
    (clash : Node → Node → Prop) (c : Cycle P) : Prop where
  balanced : Balanced t nodes orders c.planner [] []
  remaining : c.planner.remainingSystems = systemsLeft nodes c.planner
  jobs : (jobs orders clash).Reachable c.planner.status
  held : ∀ e ∈ c.held, c.planner.state e.2 = some .started
  apart : (c.held.map (·.2)).Nodup
  returned : ∀ n ∈ c.returned, n.isSystem = true ∧ c.planner.status n ≠ .waiting
  once : c.returned.Nodup

section
variable {t : Topology P} {nodes : List Node} {orders : List Order} {clash : Node → Node → Prop}

/-- A steal that returns nothing changes no planner state. -/
theorem Cycle.Inv.poll {c : Cycle P} (h : c.Inv t nodes orders clash) (tracer : Tracer P) :
    Cycle.Inv t nodes orders clash { c with tracer } :=
  ⟨h.balanced, h.remaining, h.jobs, h.held, h.apart, h.returned, h.once⟩

section
variable (hs : t.Sound nodes orders clash) {c : Cycle P} {thread : Thread} {planner : Planner}
  {tracer : Tracer P}
include hs

theorem Cycle.Inv.steal {pool : Pool} {index : Nat} (h : c.Inv t nodes orders clash)
    (run : c.planner.steal c.tracer thread t pool = .ok (.ready index, planner, tracer)) :
    Cycle.Inv t nodes orders clash ⟨planner, tracer, (thread, pool.toNode index) :: c.held,
      pool.toNode index :: c.returned⟩ := by
  obtain ⟨balanced, remaining, stolen⟩ := steal_stolen hs h.balanced run
  cases stolen with
  | ready i _ old status step =>
    have waits : c.planner.status (pool.toNode index) = .waiting := by
      rw [Planner.status, old]; rfl
    have fresh : ∀ e ∈ c.held, e.2 ≠ pool.toNode index := by
      rintro e he same
      have started := h.held e he
      rw [same, old] at started
      cases started
    have unreturned : pool.toNode index ∉ c.returned := fun mem =>
      (h.returned _ mem).2 waits
    have left : systemsLeft nodes planner = systemsLeft nodes c.planner := by
      apply List.countP_congr
      intro n _
      rw [status]
      by_cases hn : n = pool.toNode index
      · subst hn; simp [waits]
      · simp [hn]
    refine ⟨balanced, ?_, .next h.jobs step, ?_, ?_, ?_, ?_⟩
    · rw [left, remaining, h.remaining]
    · intro e he
      rw [← status_running, status]
      rcases List.mem_cons.mp he with rfl | he
      · simp
      · rw [Function.update_of_ne (fresh e he), status_running]
        exact h.held e he
    · rw [List.map_cons, List.nodup_cons]
      refine ⟨fun mem => ?_, h.apart⟩
      obtain ⟨e, he, same⟩ := List.mem_map.mp mem
      exact fresh e he same
    · intro n hn
      rw [status]
      rcases List.mem_cons.mp hn with rfl | hn
      · simp [toNode_isSystem]
      · have other : n ≠ pool.toNode index := by rintro rfl; exact unreturned hn
        rw [Function.update_of_ne other]
        exact h.returned n hn
    · exact List.nodup_cons.mpr ⟨unreturned, h.once⟩

theorem Cycle.Inv.complete {node : Node} (h : c.Inv t nodes orders clash)
    (holds : (thread, node) ∈ c.held)
    (run : c.planner.complete c.tracer node t = .ok (planner, tracer)) :
    Cycle.Inv t nodes orders clash
      ⟨planner, tracer, c.held.erase (thread, node), c.returned⟩ := by
  obtain ⟨balanced, remaining, steps, systems⟩ :=
    complete_completed hs h.balanced h.remaining (h.held _ holds) run
  refine ⟨balanced, remaining, Jobs.reachable_steps h.jobs steps, ?_, ?_, ?_, h.once⟩
  · intro e he
    have mem := List.mem_of_mem_erase he
    have other : e.2 ≠ node := by
      rintro same
      have nodup : c.held.Nodup := List.Nodup.of_map _ h.apart
      have pair : e ≠ (thread, node) := by
        rintro rfl
        exact (List.Nodup.not_mem_erase nodup) he
      exact pair (List.inj_on_of_nodup_map h.apart mem holds same)
    have system := h.balanced.isSystem_of_started (h.held e mem)
    rw [← status_running, systems _ system, if_neg other, status_running]
    exact h.held e mem
  · exact h.apart.sublist (List.erase_sublist.map _)
  · intro n hn
    obtain ⟨system, moved⟩ := h.returned n hn
    refine ⟨system, ?_⟩
    rw [systems n system]
    split
    · simp
    · exact moved

theorem step_inv {c' : Cycle P} (step : c.Step t c') (h : c.Inv t nodes orders clash) :
    c'.Inv t nodes orders clash := by
  cases step with
  | poll thread pool run nothing =>
    rw [(steal_stolen hs h.balanced run).2.2.same nothing]
    exact h.poll _
  | steal thread pool run => exact h.steal hs run
  | complete thread node holds run => exact h.complete hs holds run

end

end

section
variable [DecidableEq P] {b : Builder P} {it : HashOrders} {t : Topology P} {c : Cycle P}

theorem reachable_inv (built : Built b) (accepted : b.build it = .ok t)
    (reached : Cycle.Reachable t c) : c.Inv t b.nodes b.orders (Clash b.resources) := by
  induction reached with
  | start =>
    exact ⟨initial_balanced built accepted, initial_remaining built accepted,
      .start (initial_jobs built accepted), by simp [Cycle.start], by simp [Cycle.start],
      by simp [Cycle.start], by simp [Cycle.start]⟩
  | next _ step ih => exact step_inv (build_parts built accepted).1 step ih

end

end Dynec.Scheduler
