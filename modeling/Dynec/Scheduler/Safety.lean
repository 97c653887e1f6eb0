import Dynec.Scheduler.Cycle

/-! What holds in every state of a cycle of an accepted schedule. -/

namespace Dynec.Scheduler

variable {P : Type} [DecidableEq P] {b : Builder P} {it : HashOrders} {t : Topology P}
  {c : Cycle P}

/-- **Mutual exclusion.** Two systems that are started together have no
conflicting accesses to the same resource. -/
theorem started_compatible (built : Built b) (accepted : b.build it = .ok t)
    (reached : Cycle.Reachable t c) {n m : Node} (ne : n ≠ m)
    (hn : c.planner.wakeupState.lookup n = some .started)
    (hm : c.planner.wakeupState.lookup m = some .started) (ty : ResourceType) :
    ∀ x ∈ b.accesses ty n, ∀ y ∈ b.accesses ty m, x.checkConflictsWith y = .ok () := by
  intro x hx y hy
  by_contra conflict
  have inv := reachable_inv built accepted reached
  have clash : Clash b.resources n m := by
    refine ⟨ne, ty, anyConflict_iff.mpr ⟨x, hx, y, hy, ?_⟩⟩
    cases h : x.checkConflictsWith y with
    | ok u => cases u; exact absurd h conflict
    | error e => simp [ResourceAccess.conflictsWith, h, Except.isOk, Except.toBool]
  exact Jobs.exclusive (fun _ _ => Clash.symm) inv.jobs clash ne
    ⟨status_running.mpr hn, status_running.mpr hm⟩

/-- Two systems that read the same global state. -/
def readers : Builder Nat :=
  let b := ((Builder.new 2).pushSendSystem "a").2
  let b := (b.pushSendSystem "b").2
  let b := b.setAccesses (.global ⟨0⟩) (.sendSystem 0) [.new false]
  b.setAccesses (.global ⟨0⟩) (.sendSystem 1) [.new false]

theorem readers_built : Built readers :=
  .useResource (.sendSystem 1) (.global ⟨0⟩) (.new false) rfl (by decide) rfl <|
    .useResource (.sendSystem 0) (.global ⟨0⟩) (.new false) rfl (by decide) rfl <|
      .pushSendSystem "b" (.pushSendSystem "a" (.new 2))

theorem started_compatible_readers : ∃ t c, readers.build .insertion = .ok t ∧
    Cycle.Reachable t c ∧ c.planner.wakeupState.lookup (.sendSystem 0) = some .started ∧
    c.planner.wakeupState.lookup (.sendSystem 1) = some .started ∧
    ∀ x ∈ readers.accesses (.global ⟨0⟩) (.sendSystem 0),
      ∀ y ∈ readers.accesses (.global ⟨0⟩) (.sendSystem 1), x.checkConflictsWith y = .ok () :=
  have accepted : readers.build .insertion = .ok _ := rfl
  have reached : Cycle.Reachable _ _ :=
    .next (.next .start (.steal .main .send rfl)) (.steal (.worker 0) .send rfl)
  ⟨_, _, accepted, reached, rfl, rfl,
    started_compatible readers_built accepted reached (by decide) rfl rfl _⟩

/-! ## Progress -/

omit [DecidableEq P] in
/-- With nothing started, a waiting node that has everything before it done is
runnable. -/
theorem ready_pending {nodes : List Node} {orders : List Order} {clash : Node → Node → Prop}
    (sound : t.Sound nodes orders clash) (inv : c.Inv t nodes orders clash) {n : Node}
    (waits : c.planner.status n = .waiting)
    (ready : (jobs orders clash).Ready c.planner.status n)
    (idle : ∀ m, c.planner.state m ≠ some .started) : c.planner.state n = some .pending := by
  have none : need t orders c.planner n = 0 := by
    have orders_done : orders.countP
        (fun o => o.after = n ∧ c.planner.state o.before ≠ some .completed) = 0 := by
      apply List.countP_eq_zero.mpr
      intro o ho
      simp only [decide_eq_true_eq, not_and, not_not]
      intro ha
      rcases status_done.mp (ready _ ⟨o, ho, rfl, ha⟩) with done | absent
      · exact done
      · have known := (inv.balanced.known o.before).mpr (sound.known o ho).1
        simp [absent] at known
    have excl_idle : (t.excl n).countP (fun m => c.planner.state m = some .started) = 0 := by
      simp [idle]
    rw [need, orders_done, excl_idle]
  cases hn : c.planner.state n with
  | none => rw [Planner.status, hn] at waits; cases waits
  | some w =>
    cases w with
    | pending => rfl
    | started => exact absurd hn (idle n)
    | completed => rw [Planner.status, hn] at waits; cases waits
    | blocked k =>
      have count := inv.balanced.count n _ hn (by simp)
      simp only [WakeupState.count, List.count_nil, none] at count
      have := k.pos
      omega

omit [DecidableEq P] in
theorem before_wellFounded {nodes : List Node} {orders : List Order}
    {clash : Node → Node → Prop} (sound : t.Sound nodes orders clash) :
    WellFounded (jobs orders clash).before := by
  obtain ⟨rank, ranked⟩ := sound.ranked
  refine Subrelation.wf ?_ (InvImage.wf rank Nat.lt_wfRel.wf)
  rintro m n ⟨o, ho, rfl, rfl⟩
  exact ranked o ho

omit [DecidableEq P] in
/-- Whenever a node is left and none is started, some pool has a system. -/
theorem exists_runnable {nodes : List Node} {orders : List Order} {clash : Node → Node → Prop}
    (sound : t.Sound nodes orders clash) (inv : c.Inv t nodes orders clash) {k : Node}
    (left : c.planner.status k ≠ .done) (idle : ∀ m, c.planner.state m ≠ some .started) :
    ∃ pool i, i ∈ c.planner.pool pool := by
  obtain ⟨n, waits, ready⟩ := Jobs.exists_ready (before_wellFounded sound) left
    fun m => by rw [ne_eq, status_running]; exact idle m
  have pending := ready_pending sound inv waits ready idle
  have system : n.isSystem = true := by
    cases n with
    | partition i => exact absurd pending (inv.balanced.lasting i).1
    | sendSystem i | unsendSystem i => rfl
  obtain ⟨pool, i, rfl⟩ := exists_toNode system
  exact ⟨pool, i, (inv.balanced.pools pool i).mpr pending⟩

omit [DecidableEq P] in
theorem systemsLeft_eq {nodes : List Node} {orders : List Order} {clash : Node → Node → Prop}
    (inv : c.Inv t nodes orders clash) : c.planner.remainingSystems =
      nodes.countP fun n => n.isSystem ∧ c.planner.state n ≠ some .completed := by
  rw [inv.remaining]
  apply List.countP_congr
  intro n hn
  have known := (inv.balanced.known n).mpr hn
  have same : c.planner.status n = .done ↔ c.planner.state n = some .completed := by
    rw [status_done]
    constructor
    · rintro (h | h)
      · exact h
      · simp [h] at known
    · exact .inl
  simp [same]

omit [DecidableEq P] in
/-- While systems are left, some node is not done. -/
theorem exists_undone {nodes : List Node} {orders : List Order} {clash : Node → Node → Prop}
    (inv : c.Inv t nodes orders clash) (left : 0 < c.planner.remainingSystems) :
    ∃ k, c.planner.status k ≠ .done := by
  rw [inv.remaining] at left
  obtain ⟨k, -, h⟩ := List.countP_pos_iff.mp left
  simp only [decide_eq_true_eq] at h
  exact ⟨k, h.2⟩

omit [DecidableEq P] in
/-- When no system is left, the partitions have passed too. -/
theorem all_completed {nodes : List Node} {orders : List Order} {clash : Node → Node → Prop}
    (sound : t.Sound nodes orders clash) (inv : c.Inv t nodes orders clash)
    (none : c.planner.remainingSystems = 0) : ∀ n ∈ nodes, c.planner.state n = some .completed := by
  rw [systemsLeft_eq inv, List.countP_eq_zero] at none
  have systems : ∀ m, m.isSystem = true → ∀ w, c.planner.state m = some w → w = .completed := by
    intro m hm w hw
    have known : m ∈ nodes := (inv.balanced.known m).mp (by simp [hw])
    have done := none m known
    simp only [hm, true_and, decide_eq_true_eq, not_not, hw, Option.some.injEq] at done
    exact done
  have idle : ∀ m, c.planner.state m ≠ some .started := by
    intro m hm
    cases m with
    | partition i => exact (inv.balanced.lasting i).2 hm
    | sendSystem i | unsendSystem i => cases systems _ rfl _ hm
  intro n hn
  by_contra left
  have undone : c.planner.status n ≠ .done := by
    intro done
    rcases status_done.mp done with h | h
    · exact left h
    · have known := (inv.balanced.known n).mpr hn
      simp [h] at known
  obtain ⟨pool, i, hi⟩ := exists_runnable sound inv undone idle
  cases systems _ (toNode_isSystem pool i) _ ((inv.balanced.pools pool i).mp hi)

/-- **Progress.** While systems are left and none is started, a pool is not
empty; the counter is exact; no steal returns a system twice; and at the end
every node is completed. -/
theorem cycle_progress (built : Built b) (accepted : b.build it = .ok t)
    (reached : Cycle.Reachable t c) :
    (0 < c.planner.remainingSystems →
      (∀ n, c.planner.wakeupState.lookup n ≠ some .started) →
      (∃ i, i ∈ c.planner.sendRunnable) ∨ ∃ i, i ∈ c.planner.unsendRunnable) ∧
    c.planner.remainingSystems =
      b.nodes.countP (fun n => n.isSystem ∧ c.planner.wakeupState.lookup n ≠ some .completed) ∧
    c.returned.Nodup ∧
    (c.planner.remainingSystems = 0 →
      ∀ n ∈ b.nodes, c.planner.wakeupState.lookup n = some .completed) := by
  have sound := (build_parts built accepted).1
  have inv := reachable_inv built accepted reached
  refine ⟨fun left idle => ?_, systemsLeft_eq inv, inv.once, all_completed sound inv⟩
  obtain ⟨k, undone⟩ := exists_undone inv left
  obtain ⟨pool, i, hi⟩ := exists_runnable sound inv undone idle
  cases pool with
  | send => exact .inl ⟨i, hi⟩
  | unsend => exact .inr ⟨i, hi⟩

theorem cycle_progress_readers : ∃ t c, readers.build .insertion = .ok t ∧
    Cycle.Reachable t c ∧ c.planner.remainingSystems = 1 ∧
    c.returned = [.sendSystem 1, .sendSystem 0] ∧ c.returned.Nodup :=
  have accepted : readers.build .insertion = .ok _ := rfl
  have reached : Cycle.Reachable _ _ :=
    .next (.next (.next .start (.steal .main .send rfl)) (.steal (.worker 0) .send rfl))
      (.complete .main (.sendSystem 0) (by decide) rfl)
  ⟨_, _, accepted, reached, rfl, rfl, (cycle_progress readers_built accepted reached).2.2.1⟩

/-! ## The representation of the planner -/

/-- What the maps of a planner say between two steps. -/
structure Planner.Represents (t : Topology P) (nodes : List Node) (orders : List Order)
    (p : Planner) : Prop where
  known : ∀ n, (p.state n).isSome ↔ n ∈ nodes
  /-- A waiting node counts its blockers, and a pending one has none. -/
  count : ∀ n w, p.state n = some w → w ≠ .started → w ≠ .completed →
    w.count = need t orders p n
  /-- No counter passes the number of orders and nodes. -/
  bounded : ∀ n w, p.state n = some w → w.count ≤ orders.length + nodes.length
  pools : ∀ pool i, i ∈ p.pool pool ↔ p.state (pool.toNode i) = some .pending
  partitions : ∀ i, p.state (.partition i) ≠ some .pending ∧ p.state (.partition i) ≠ some .started

omit [DecidableEq P] in
theorem need_le {nodes : List Node} {orders : List Order} {clash : Node → Node → Prop}
    (sound : t.Sound nodes orders clash) (p : Planner) (n : Node) :
    need t orders p n ≤ orders.length + nodes.length := by
  have excl : (t.excl n).length ≤ nodes.length := by
    apply ((nodup_excl sound n).subperm fun m member => ?_).length_le
    exact (sound.clash_known m n (sound.clash_symm _ _ ((mem_excl sound).mp member))).1
  exact Nat.add_le_add List.countP_le_length (List.countP_le_length.trans excl)

omit [DecidableEq P] in
theorem Cycle.Inv.represents {nodes : List Node} {orders : List Order}
    {clash : Node → Node → Prop} (sound : t.Sound nodes orders clash)
    (inv : c.Inv t nodes orders clash) : c.planner.Represents t nodes orders := by
  have counted : ∀ n w, c.planner.state n = some w → w ≠ .completed →
      w.count = need t orders c.planner n := by
    intro n w here left
    simpa using inv.balanced.count n w here left
  refine ⟨inv.balanced.known, fun n w here _ left => counted n w here left, fun n w here => ?_,
    inv.balanced.pools, inv.balanced.lasting⟩
  by_cases done : w = .completed
  · subst done
    exact Nat.zero_le _
  · rw [counted n w here done]
    exact need_le sound c.planner n

/-- **The planner invariant.** In every state of a cycle the counters count the
blockers, the pools hold the pending systems, and no step panics. -/
theorem planner_invariant (built : Built b) (accepted : b.build it = .ok t)
    (reached : Cycle.Reachable t c) :
    c.planner.Represents t b.nodes b.orders ∧
    (∀ tracer thread pool, ∃ outcome, c.planner.steal tracer thread t pool = .ok outcome) ∧
    (∀ tracer node, c.planner.state node = some .started →
      ∃ outcome, c.planner.complete tracer node t = .ok outcome) ∧
    ∀ e ∈ c.held, c.planner.state e.2 = some .started := by
  have sound := (build_parts built accepted).1
  have inv := reachable_inv built accepted reached
  refine ⟨inv.represents sound, fun tracer thread pool => ?_, fun tracer node runs => ?_, inv.held⟩
  · obtain ⟨result, p', tracer', run, -⟩ := steal_ok sound tracer thread pool inv.balanced
    exact ⟨_, run⟩
  · obtain ⟨p', tracer', run, -⟩ := complete_ok sound tracer inv.balanced inv.remaining runs
    exact ⟨_, run⟩

/-- Two systems that write one global state, the second after a partition that
the first is before. -/
def writers : Builder Nat :=
  let b := ((Builder.new 2).pushSendSystem "a").2
  let b := (b.pushSendSystem "b").2
  let b := b.setAccesses (.global ⟨0⟩) (.sendSystem 0) [.new true]
  let b := b.setAccesses (.global ⟨0⟩) (.sendSystem 1) [.new true]
  let b := b.addDependencies [.before 7] (.sendSystem 0)
  b.addDependencies [.after 7] (.sendSystem 1)

theorem writers_built : Built writers :=
  .addDependencies (.addDependencies
    (.useResource (.sendSystem 1) (.global ⟨0⟩) (.new true) rfl (by decide) rfl <|
      .useResource (.sendSystem 0) (.global ⟨0⟩) (.new true) rfl (by decide) rfl <|
        .pushSendSystem "b" (.pushSendSystem "a" (.new 2)))
    [.before 7] rfl (by decide)) [.after 7] rfl (by decide)

theorem planner_invariant_writers : ∃ t c, writers.build .insertion = .ok t ∧
    Cycle.Reachable t c ∧ c.planner.state (.sendSystem 1) = some (.blocked 2) ∧
    c.planner.Represents t writers.nodes writers.orders :=
  have accepted : writers.build .insertion = .ok _ := rfl
  have reached : Cycle.Reachable _ _ := .next .start (.steal .main .send rfl)
  ⟨_, _, accepted, reached, rfl, (planner_invariant writers_built accepted reached).1⟩

end Dynec.Scheduler
