import Dynec.Scheduler.Balance

/-! Stealing and completing keep the planner balanced, never panic, and carry
out steps of the abstract cycle. -/

namespace Dynec.Scheduler

open Fallible Count

variable {P : Type}

/-- The cycle a schedule stands for: systems run under the orders and the
exclusions, partitions are instants. -/
def jobs (orders : List Order) (clash : Node → Node → Prop) : Jobs Node where
  before m n := ∃ o ∈ orders, o.before = m ∧ o.after = n
  clash := clash
  instant n := n.isSystem = false

/-- What a planner state says about a job. A node outside the schedule has
nothing left to do. -/
def WakeupState.status : Option WakeupState → Jobs.Status
  | some .started => .running
  | some .completed | none => .done
  | _ => .waiting

def Planner.status (p : Planner) (n : Node) : Jobs.Status := WakeupState.status (p.state n)

theorem status_running {p : Planner} {n : Node} :
    p.status n = .running ↔ p.state n = some .started := by
  unfold Planner.status
  rcases p.state n with _ | (_ | _ | _ | _) <;> simp [WakeupState.status]

theorem status_done {p : Planner} {n : Node} :
    p.status n = .done ↔ p.state n = some .completed ∨ p.state n = none := by
  unfold Planner.status
  rcases p.state n with _ | (_ | _ | _ | _) <;> simp [WakeupState.status]

/-- States in which a node waits: blocked or pending. -/
def WakeupState.idle (w : WakeupState) : Prop := w ≠ .completed ∧ w ≠ .started

theorem WakeupState.idle.status {w : WakeupState} (h : w.idle) :
    WakeupState.status (some w) = .waiting := by
  cases w <;> simp_all [WakeupState.idle, WakeupState.status]

theorem status_update {p p' : Planner} {e : Node} {w : WakeupState}
    (new : ∀ k, p'.state k = if k = e then some w else p.state k) :
    p'.status = Function.update p.status e (WakeupState.status (some w)) := by
  funext k
  by_cases h : k = e
  · subst h; simp [Planner.status, new]
  · simp [Planner.status, new, h]

/-- A change between waiting states does not show in the status. -/
theorem status_idle {p p' : Planner} {e : Node} {w w' : WakeupState} (old : p.state e = some w)
    (new : ∀ k, p'.state k = if k = e then some w' else p.state k) (hw : w.idle) (hw' : w'.idle) :
    p'.status = p.status := by
  rw [status_update new, hw'.status, ← hw.status, ← old]
  exact Function.update_eq_self e p.status

section
variable {t : Topology P} {nodes : List Node} {orders : List Order} {clash : Node → Node → Prop}
  {p p' : Planner}

/-- A node that stays waiting may trade its counter against blocks owed. -/
theorem Balanced.recount {credit debt credit' debt' : List Node}
    (hb : Balanced t nodes orders p credit debt) {e : Node} {w w' : WakeupState}
    (old : p.state e = some w) (new : ∀ k, p'.state k = if k = e then some w' else p.state k)
    (hw : w.idle) (hw' : w'.idle) (system : w' = .pending → e.isSystem = true)
    (pools : ∀ pool i, i ∈ p'.pool pool ↔ p'.state (pool.toNode i) = some .pending)
    (here : w'.count + credit'.count e + debt.count e = w.count + credit.count e + debt'.count e)
    (there : ∀ k, k ≠ e → credit'.count k = credit.count k ∧ debt'.count k = debt.count k) :
    Balanced t nodes orders p' credit' debt' := by
  have completed : ∀ m, p'.state m = some .completed ↔ p.state m = some .completed := by
    intro m
    rw [new]
    by_cases h : m = e
    · subst h; simp [old, hw.1, hw'.1]
    · simp [h]
  have started : ∀ m, p'.state m = some .started ↔ p.state m = some .started := by
    intro m
    rw [new]
    by_cases h : m = e
    · subst h; simp [old, hw.2, hw'.2]
    · simp [h]
  have need_eq := need_congr t orders completed started
  refine ⟨fun n => ?_, fun n v hv hne => ?_, fun n hn o ho ha => ?_, pools, fun i => ⟨?_, ?_⟩⟩
  · rw [← hb.known n, new]
    by_cases h : n = e
    · subst h; simp [old]
    · simp [h]
  · rw [need_eq n]
    rw [new] at hv
    by_cases h : n = e
    · subst h
      simp only [if_true, Option.some.injEq] at hv
      subst hv
      have := hb.count n w old hw.1
      omega
    · simp only [h, if_false] at hv
      rw [(there n h).1, (there n h).2]
      exact hb.count n v hv hne
  · exact (completed _).mpr (hb.finished n ((completed n).mp hn) o ho ha)
  · rw [new]
    by_cases h : Node.partition i = e
    · simp only [h, if_true]
      rintro ⟨⟩
      have := system rfl
      rw [← h] at this
      cases this
    · simp only [h, if_false]; exact (hb.lasting i).1
  · rw [ne_eq, started]; exact (hb.lasting i).2

variable (hs : t.Sound nodes orders clash)
include hs

theorem mem_excl {n m : Node} : m ∈ t.excl n ↔ clash n m := by
  unfold Topology.excl
  cases h : t.exclusions.lookup n with
  | none =>
    simp only [Option.getD_none, List.not_mem_nil, false_iff]
    intro hc
    have := (hs.exclusions.known n).mpr (hs.clash_known n m hc).1
    simp [h] at this
  | some l => exact hs.exclusions.mem n l h m

theorem nodup_excl (n : Node) : (t.excl n).Nodup := by
  unfold Topology.excl
  cases h : t.exclusions.lookup n with
  | none => exact List.nodup_nil
  | some l => exact hs.exclusions.nodup n l h

theorem count_excl (n m : Node) : (t.excl n).count m = (t.excl m).count n := by
  by_cases h : clash n m
  · rw [List.count_eq_one_of_mem (nodup_excl hs n) ((mem_excl hs).mpr h),
      List.count_eq_one_of_mem (nodup_excl hs m) ((mem_excl hs).mpr (hs.clash_symm _ _ h))]
  · have hn : m ∉ t.excl n := fun hm => h ((mem_excl hs).mp hm)
    have hm : n ∉ t.excl m := fun hn => h (hs.clash_symm _ _ ((mem_excl hs).mp hn))
    rw [List.count_eq_zero_of_not_mem hn, List.count_eq_zero_of_not_mem hm]

theorem exclusionsOf_ok {n : Node} (h : n ∈ nodes) : t.exclusionsOf n = .ok (t.excl n) := by
  obtain ⟨l, hl⟩ := Option.isSome_iff_exists.mp ((hs.exclusions.known n).mpr h)
  simp [Topology.exclusionsOf, Topology.excl, hl]

theorem dependentsOf_ok {n : Node} (h : n ∈ nodes) :
    t.dependentsOf n = .ok (orderedAfter orders n) := by
  simp [Topology.dependentsOf, hs.dependents n, h]

/-! ## Stealing -/

/-- One round of the exclusion loop pays one block of the credit. -/
theorem blockExclusion_ok {e : Node} {rest : List Node} (tracer : Tracer P)
    (hb : Balanced t nodes orders p (e :: rest) []) {n : Node} (he : clash n e)
    (idle : p.state e ≠ some .started) :
    ∃ p' tracer', Planner.blockExclusion (p, tracer) e = .ok (p', tracer') ∧
      Balanced t nodes orders p' rest [] ∧ p'.status = p.status ∧
      p'.remainingSystems = p.remainingSystems := by
  obtain ⟨known, system⟩ := hs.clash_known e n (hs.clash_symm _ _ he)
  obtain ⟨w, hw⟩ := Option.isSome_iff_exists.mp ((hb.known e).mpr known)
  have lookup : p.wakeupState.lookup e = some w := hw
  have there : ∀ k, k ≠ e → rest.count k = (e :: rest).count k ∧
      ([] : List Node).count k = ([] : List Node).count k := by
    intro k hk
    rw [List.count_cons_of_ne (Ne.symm hk)]
    exact ⟨rfl, rfl⟩
  cases w with
  | completed =>
    refine ⟨p, tracer, by simp [Planner.blockExclusion, lookup], ⟨hb.known, fun k v hk hne => ?_,
      hb.finished, hb.pools, hb.lasting⟩, rfl, rfl⟩
    have hke : k ≠ e := by rintro rfl; rw [hw] at hk; cases hk; exact hne rfl
    rw [(there k hke).1]
    exact hb.count k v hk hne
  | started => exact absurd hw idle
  | blocked c =>
    have new : ∀ k, (p.setState e (.blocked (c + 1))).state k =
        if k = e then some (.blocked (c + 1)) else p.state k := fun k => state_setState p e k _
    have hidle : (WakeupState.blocked c).idle := ⟨by simp, by simp⟩
    have hidle' : (WakeupState.blocked (c + 1)).idle := ⟨by simp, by simp⟩
    refine ⟨p.setState e (.blocked (c + 1)), tracer, by simp [Planner.blockExclusion, lookup], ?_,
      status_idle hw new hidle hidle', rfl⟩
    refine hb.recount hw new hidle hidle' (by simp) (fun pool i => ?_) ?_ there
    · rw [pool_setState, hb.pools, new]
      by_cases h : pool.toNode i = e
      · simp [h, hw]
      · simp [h]
    · simp [WakeupState.count]; omega
  | pending =>
    obtain ⟨pool, i, rfl⟩ := exists_toNode system
    let p' := (p.setState (pool.toNode i) (.blocked 1)).setPool pool ((p.pool pool).erase i)
    have new : ∀ k, p'.state k = if k = pool.toNode i then some (.blocked 1) else p.state k := by
      intro k; simp [p']
    have hidle : WakeupState.pending.idle := ⟨by simp, by simp⟩
    have hidle' : (WakeupState.blocked 1).idle := ⟨by simp, by simp⟩
    have member : i ∈ p.pool pool := (hb.pools pool i).mpr hw
    have run : Planner.blockExclusion (p, tracer) (pool.toNode i) =
        .ok (p', tracer ++ [.unmarkRunnable (pool.toNode i)]) := by
      cases pool <;> simp only [Pool.toNode] at lookup <;>
        simp [Planner.blockExclusion, lookup, Planner.takeRunnable, member, p', Pool.toNode]
    refine ⟨p', _, run, ?_, status_idle hw new hidle hidle', by simp [p']⟩
    refine hb.recount hw new hidle hidle' (by simp) (fun pool' j => ?_) ?_ there
    · rw [new, pool_setPool]
      by_cases hp : pool' = pool
      · subst hp
        by_cases hj : j = i
        · simp [hj]
        · simp [hj, toNode_eq_iff, hb.pools]
      · simp [hp, toNode_eq_iff, hb.pools]
    · simp [WakeupState.count]; omega

/-- Stealing a pending node leaves every exclusion owed one block. -/
theorem Balanced.start {pool : Pool} {i : Nat} (hb : Balanced t nodes orders p [] [])
    (first : i ∈ p.pool pool) :
    Balanced t nodes orders
      ((p.setPool pool ((p.pool pool).erase i)).setState (pool.toNode i) .started)
      (t.excl (pool.toNode i)) [] := by
  set node := pool.toNode i with hnode
  set p' := (p.setPool pool ((p.pool pool).erase i)).setState node .started with hp'
  have old : p.state node = some .pending := (hb.pools pool i).mp first
  have new : ∀ k, p'.state k = if k = node then some .started else p.state k := by
    intro k; simp [hp']
  have completed : ∀ m, p'.state m = some .completed ↔ p.state m = some .completed := by
    intro m
    rw [new]
    by_cases h : m = node
    · simp [h, old]
    · simp [h]
  have started : ∀ m, p'.state m = some .started ↔ p.state m = some .started ∨ m = node := by
    intro m
    rw [new]
    by_cases h : m = node
    · simp [h]
    · simp [h]
  have need_eq := need_start t orders (by simp [old]) completed started
  have free : need t orders p node = 0 := by
    have := hb.count node _ old (by simp)
    simpa [WakeupState.count] using this.symm
  have irrefl : (t.excl node).count node = 0 :=
    List.count_eq_zero_of_not_mem fun h => hs.clash_ne _ _ ((mem_excl hs).mp h) rfl
  refine ⟨fun n => ?_, fun n w hw hne => ?_, fun n hn o ho ha => ?_, fun pool' j => ?_,
    fun j => ⟨?_, ?_⟩⟩
  · rw [← hb.known n, new]
    by_cases h : n = node
    · simp [h, old]
    · simp [h]
  · rw [need_eq n]
    rw [new] at hw
    by_cases h : n = node
    · simp only [h, if_true, Option.some.injEq] at hw
      subst hw
      rw [h, free, irrefl]
      rfl
    · simp only [h, if_false] at hw
      have := hb.count n w hw hne
      rw [count_excl hs n node]
      simpa using this
  · exact (completed _).mpr (hb.finished n ((completed n).mp hn) o ho ha)
  · rw [new, hp', pool_setState, pool_setPool]
    by_cases hp : pool' = pool
    · subst hp
      by_cases hj : j = i
      · simp [hj, hnode]
      · simp [hj, hnode, toNode_eq_iff, hb.pools]
    · simp [hp, hnode, toNode_eq_iff, hb.pools]
  · rw [new, hnode]
    cases pool <;> simp [Pool.toNode, (hb.lasting j).1]
  · rw [new, hnode]
    cases pool <;> simp [Pool.toNode, (hb.lasting j).2]

/-- The outcome of a steal: nothing happens, or one pending node of the pool
is started. -/
inductive Stolen (J : Jobs Node) (pool : Pool) (p p' : Planner) : StealResult → Prop
  | complete (done : p.remainingSystems = 0) (same : p' = p) : Stolen J pool p p' .cycleComplete
  | pending (left : p.remainingSystems ≠ 0) (none : ∀ i, i ∉ p.pool pool) (same : p' = p) :
      Stolen J pool p p' .pending
  | ready (i : Nat) (left : p.remainingSystems ≠ 0)
      (old : p.state (pool.toNode i) = some .pending)
      (status : p'.status = Function.update p.status (pool.toNode i) .running)
      (step : J.Step p.status p'.status) : Stolen J pool p p' (.ready i)

omit hs in
theorem Stolen.same {J : Jobs Node} {pool : Pool} {p p' : Planner} {result : StealResult}
    (stolen : Stolen J pool p p' result) (nothing : result = .pending ∨ result = .cycleComplete) :
    p' = p := by
  cases stolen with
  | complete _ same | pending _ _ same => exact same
  | ready i => simp at nothing

/-- The loop that blocks the nodes which a started node excludes. -/
theorem blockExclusions_ok {node : Node} (tracer : Tracer P)
    (hb : Balanced t nodes orders p (t.excl node) [])
    (idle : ∀ e ∈ t.excl node, p.status e ≠ .running) :
    ∃ p' tracer', (t.excl node).foldlM Planner.blockExclusion (p, tracer) = .ok (p', tracer') ∧
      Balanced t nodes orders p' [] [] ∧ p'.status = p.status ∧
      p'.remainingSystems = p.remainingSystems := by
  obtain ⟨⟨p', tracer'⟩, run, -, balanced⟩ := foldlM_total
    (f := Planner.blockExclusion) (l := t.excl node) (s := (p, tracer))
    (fun rest s => (∀ e ∈ rest, e ∈ t.excl node) ∧ Balanced t nodes orders s.1 rest [] ∧
      s.1.status = p.status ∧ s.1.remainingSystems = p.remainingSystems)
    ⟨fun _ h => h, hb, rfl, rfl⟩
    (by
      rintro e rest ⟨q, tr⟩ ⟨sub, hq, hst, hrem⟩
      have he := sub e List.mem_cons_self
      have notStarted : q.state e ≠ some .started := by
        rw [ne_eq, ← status_running, hst]; exact idle e he
      obtain ⟨q', tr', step, hq', hst', hrem'⟩ :=
        blockExclusion_ok hs tr hq ((mem_excl hs).mp he) notStarted
      exact ⟨(q', tr'), step, fun k hk => sub k (List.mem_cons_of_mem _ hk), hq',
        hst'.trans hst, hrem'.trans hrem⟩)
  exact ⟨p', tracer', run, balanced⟩

theorem steal_ok (tracer : Tracer P) (thread : Thread) (pool : Pool)
    (hb : Balanced t nodes orders p [] []) :
    ∃ result p' tracer', p.steal tracer thread t pool = .ok (result, p', tracer') ∧
      Balanced t nodes orders p' [] [] ∧ p'.remainingSystems = p.remainingSystems ∧
      Stolen (jobs orders clash) pool p p' result := by
  by_cases left : p.remainingSystems = 0
  · exact ⟨.cycleComplete, p, tracer ++ [.stealReturnComplete thread],
      by simp [Planner.steal, left], hb, rfl, .complete left rfl⟩
  cases hf : (p.pool pool).first with
  | none =>
    exact ⟨.pending, p, tracer ++ [.stealReturnPending thread],
      by simp [Planner.steal, left, SortedSet.popFirst, hf], hb, rfl,
      .pending left (SortedSet.first_none hf) rfl⟩
  | some i =>
    have member := SortedSet.first_mem hf
    have old : p.state (pool.toNode i) = some .pending := (hb.pools pool i).mp member
    have known : pool.toNode i ∈ nodes := (hb.known _).mp (by simp [old])
    let p₁ := (p.setPool pool ((p.pool pool).erase i)).setState (pool.toNode i) .started
    have hb₁ : Balanced t nodes orders p₁ (t.excl (pool.toNode i)) [] := hb.start hs member
    have state₁ : ∀ k, p₁.state k = if k = pool.toNode i then some .started else p.state k := by
      intro k; simp [p₁]
    have status₁ : p₁.status = Function.update p.status (pool.toNode i) .running :=
      status_update state₁
    have unblocked : need t orders p (pool.toNode i) = 0 := by
      have := hb.count _ _ old (by simp)
      simpa [WakeupState.count] using this.symm
    have free := need_zero unblocked
    have idle : ∀ e ∈ t.excl (pool.toNode i), p₁.status e ≠ .running := by
      intro e he
      have hne : e ≠ pool.toNode i := (hs.clash_ne _ _ ((mem_excl hs).mp he)).symm
      rw [status₁, Function.update_of_ne hne, ne_eq, status_running]
      exact free.2 e he
    obtain ⟨p', tracer', run, hb', status', rem'⟩ := blockExclusions_ok hs tracer hb₁ idle
    have lookup : (p.setPool pool ((p.pool pool).erase i)).wakeupState.lookup (pool.toNode i) =
        some .pending := by
      rw [← Planner.state, state_setPool, old]
    have status : p'.status = Function.update p.status (pool.toNode i) .running :=
      status'.trans status₁
    refine ⟨.ready i, p', tracer', ?_, hb', ?_, .ready i left old status ?_⟩
    · simp only [Planner.steal, left, if_false, SortedSet.popFirst, hf, Option.map_some, lookup,
        expect_some, ok_bind, pure_eq_ok, exclusionsOf_ok hs known]
      rw [show ((p.setPool pool ((p.pool pool).erase i)).setState (pool.toNode i) .started, tracer)
        = (p₁, tracer) from rfl, run]
      rfl
    · rw [rem']; simp [p₁]
    · rw [status]
      refine .start _ _ ?_ (by simp [jobs, toNode_isSystem]) ?_ ?_
      · rw [Planner.status, old]; rfl
      · rintro m ⟨o, ho, rfl, ha⟩
        exact status_done.mpr (.inl (free.1 o ho ha))
      · intro m hm
        rw [ne_eq, status_running]
        exact free.2 m ((mem_excl hs).mpr (hs.clash_symm _ _ hm))

/-- What a steal that returned has done. -/
theorem steal_stolen {tracer tracer' : Tracer P} {thread : Thread} {pool : Pool} {p' : Planner}
    {result : StealResult} (hb : Balanced t nodes orders p [] [])
    (run : p.steal tracer thread t pool = .ok (result, p', tracer')) :
    Balanced t nodes orders p' [] [] ∧ p'.remainingSystems = p.remainingSystems ∧
      Stolen (jobs orders clash) pool p p' result := by
  obtain ⟨_, _, _, run', stolen⟩ := steal_ok hs tracer thread pool hb
  rw [run] at run'
  cases run'
  exact stolen

end

end Dynec.Scheduler
