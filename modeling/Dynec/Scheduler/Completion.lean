import Dynec.Scheduler.Steps

/-! Completing a node pays the blocks it held, and the partitions that become
free pass one after another through the work queue. -/

namespace Dynec.Scheduler

open Fallible Count

variable {P : Type} {t : Topology P} {nodes : List Node} {orders : List Order}
  {clash : Node → Node → Prop} {p : Planner}

/-- Only systems are started. -/
theorem Balanced.isSystem_of_started {credit debt : List Node} {n : Node}
    (hb : Balanced t nodes orders p credit debt) (started : p.state n = some .started) :
    n.isSystem = true := by
  cases n with
  | partition i => exact absurd started (hb.lasting i).2
  | sendSystem i | unsendSystem i => rfl

/-- What removing one block does to the rest of the planner. -/
inductive Removed (J : Jobs Node) (orders : List Order) (node : Node) (p p' : Planner)
    (more : List Node) : Prop
  | quiet (none : more = []) (same : p'.status = p.status)
  | passed (instant : node.isSystem = false) (waits : p.status node = .waiting)
      (queued : more = orderedAfter orders node)
      (status : p'.status = Function.update p.status node .done)
      (step : J.Step p.status p'.status)

/-- A partition without blocks left completes and hands one block to each of
its dependents. -/
theorem Balanced.pass {node : Node} {debt : List Node} {c : ℕ+}
    (hb : Balanced t nodes orders p [] (node :: debt)) (old : p.state node = some (.blocked c))
    (free : need t orders p node = 0) :
    Balanced t nodes orders (p.setState node .completed) []
      (orderedAfter orders node ++ debt) := by
  have new : ∀ k, (p.setState node .completed).state k =
      if k = node then some .completed else p.state k := fun k => state_setState p node k _
  have completed : ∀ m, (p.setState node .completed).state m = some .completed ↔
      m = node ∨ p.state m = some .completed := by
    intro m
    rw [new]
    by_cases h : m = node
    · simp [h]
    · simp [h]
  have started : ∀ m, (p.setState node .completed).state m = some .started ↔
      p.state m = some .started := by
    intro m
    rw [new]
    by_cases h : m = node
    · simp [h, old]
    · simp [h]
  have need_eq := need_pass t orders (by simp [old]) completed started
  refine ⟨fun n => ?_, fun n w hw hne => ?_, fun n hn o ho ha => ?_, fun pool j => ?_,
    fun j => ⟨?_, ?_⟩⟩
  · rw [← hb.known n, new]
    by_cases h : n = node
    · simp [h, old]
    · simp [h]
  · rw [new] at hw
    by_cases h : n = node
    · simp only [h, if_true, Option.some.injEq] at hw
      exact absurd hw.symm hne
    · simp only [h, if_false] at hw
      have := hb.count n w hw hne
      rw [need_eq n, List.count_cons_of_ne (Ne.symm h)] at this
      rw [List.count_append]
      omega
  · rcases (completed n).mp hn with rfl | hn
    · exact (completed _).mpr (.inr ((need_zero free).1 o ho ha))
    · exact (completed _).mpr (.inr (hb.finished n hn o ho ha))
  · rw [pool_setState, hb.pools, new]
    by_cases h : pool.toNode j = node
    · simp [h, old]
    · simp [h]
  · rw [new]
    split
    · simp
    · exact (hb.lasting j).1
  · rw [ne_eq, started]; exact (hb.lasting j).2

/-- A debt paid to a completed node is paid to nobody. -/
theorem Balanced.absorb {node : Node} {debt : List Node}
    (hb : Balanced t nodes orders p [] (node :: debt)) (old : p.state node = some .completed) :
    Balanced t nodes orders p [] debt := by
  refine ⟨hb.known, fun n w hw hne => ?_, hb.finished, hb.pools, hb.lasting⟩
  have other : n ≠ node := by
    rintro rfl
    rw [old] at hw
    cases hw
    exact hne rfl
  have counted := hb.count n w hw hne
  rw [List.count_cons_of_ne (Ne.symm other)] at counted
  exact counted

/-- A node that changes from one idle state to another when its debt is paid. -/
theorem Balanced.settle {p' : Planner} {node : Node} {debt : List Node} {w w' : WakeupState}
    (hb : Balanced t nodes orders p [] (node :: debt)) (old : p.state node = some w)
    (new : ∀ k, p'.state k = if k = node then some w' else p.state k) (idle : w.idle)
    (idle' : w'.idle) (system : w' = .pending → node.isSystem = true)
    (pools : ∀ pool i, i ∈ p'.pool pool ↔ p'.state (pool.toNode i) = some .pending)
    (paid : w'.count + 1 = w.count) :
    Balanced t nodes orders p' [] debt ∧ p'.status = p.status := by
  refine ⟨hb.recount old new idle idle' system pools ?_ fun k other => ⟨rfl, ?_⟩,
    status_idle old new idle idle'⟩
  · rw [List.count_cons_self, List.count_nil]
    omega
  · rw [List.count_cons_of_ne (Ne.symm other)]

theorem Balanced.unblock {node : Node} {debt : List Node} {c : ℕ+}
    (hb : Balanced t nodes orders p [] (node :: debt)) (old : p.state node = some (.blocked c))
    (more : 1 < c) :
    Balanced t nodes orders (p.setState node (.blocked (c - 1))) [] debt ∧
      (p.setState node (.blocked (c - 1))).status = p.status := by
  have new : ∀ k, (p.setState node (.blocked (c - 1))).state k =
      if k = node then some (.blocked (c - 1)) else p.state k := fun k => state_setState p node k _
  apply hb.settle old new ⟨by simp, by simp⟩ ⟨by simp, by simp⟩ (by simp)
  · intro pool i
    rw [pool_setState, hb.pools, new]
    by_cases here : pool.toNode i = node
    · simp [here, old]
    · simp [here]
  · have positive := c.pos
    simp only [WakeupState.count, PNat.sub_coe, if_pos more, PNat.one_coe]
    omega

theorem Balanced.wake {pool : Pool} {i : Nat} {debt : List Node}
    (hb : Balanced t nodes orders p [] (pool.toNode i :: debt))
    (old : p.state (pool.toNode i) = some (.blocked 1)) :
    Balanced t nodes orders
        ((p.setState (pool.toNode i) .pending).setPool pool ((p.pool pool).insert i)) [] debt ∧
      ((p.setState (pool.toNode i) .pending).setPool pool ((p.pool pool).insert i)).status =
        p.status := by
  have new : ∀ k, ((p.setState (pool.toNode i) .pending).setPool pool
      ((p.pool pool).insert i)).state k =
        if k = pool.toNode i then some .pending else p.state k := by
    intro k
    rw [state_setPool, state_setState]
  apply hb.settle old new ⟨by simp, by simp⟩ ⟨by simp, by simp⟩ fun _ => toNode_isSystem pool i
  · intro pool' j
    rw [new, pool_setPool]
    by_cases hp : pool' = pool
    · subst hp
      by_cases hj : j = i
      · simp [hj]
      · simp [hj, toNode_eq_iff, hb.pools]
    · simp [hp, toNode_eq_iff, hb.pools]
  · rfl

variable (hs : t.Sound nodes orders clash)
include hs

/-- Removing a block that is owed never panics. -/
theorem removeOneBlock_ok {node : Node} {debt : List Node} (tracer : Tracer P)
    (hb : Balanced t nodes orders p [] (node :: debt)) (known : node ∈ nodes) :
    ∃ p' tracer' more, p.removeOneBlockNoRecursion tracer node t = .ok (p', tracer', more) ∧
      Balanced t nodes orders p' [] (more ++ debt) ∧
      p'.remainingSystems = p.remainingSystems ∧
      Removed (jobs orders clash) orders node p p' more := by
  obtain ⟨w, hw⟩ := Option.isSome_iff_exists.mp ((hb.known node).mpr known)
  have lookup : p.wakeupState.lookup node = some w := hw
  have owed : w ≠ .completed → w.count = need t orders p node + (debt.count node + 1) := by
    intro hne
    have := hb.count node w hw hne
    simpa using this
  cases w with
  | completed =>
    exact ⟨p, tracer, [], by simp [Planner.removeOneBlockNoRecursion, lookup], hb.absorb hw, rfl,
      .quiet rfl rfl⟩
  | pending => have := owed (by simp); simp [WakeupState.count] at this
  | started => have := owed (by simp); simp [WakeupState.count] at this
  | blocked c =>
    have counted : (c : Nat) = need t orders p node + (debt.count node + 1) := owed (by simp)
    by_cases more : 1 < c
    · obtain ⟨balanced, quiet⟩ := hb.unblock hw more
      exact ⟨p.setState node (.blocked (c - 1)), tracer, [],
        by simp [Planner.removeOneBlockNoRecursion, lookup, more], balanced, rfl, .quiet rfl quiet⟩
    · have one : c = 1 := by
        have : ¬ (1 : Nat) < c := fun h => more (PNat.coe_lt_coe _ _ |>.mp h)
        have := c.pos
        exact PNat.eq (by simp only [PNat.one_coe]; omega)
      subst one
      simp only [PNat.one_coe] at counted
      have free : need t orders p node = 0 := by omega
      cases hsys : node.isSystem with
      | true =>
        obtain ⟨pool, i, rfl⟩ := exists_toNode hsys
        have absent : i ∉ p.pool pool := by rw [hb.pools, hw]; simp
        obtain ⟨balanced, quiet⟩ := hb.wake hw
        have run : p.removeOneBlockNoRecursion tracer (pool.toNode i) t =
            .ok ((p.setState (pool.toNode i) .pending).setPool pool ((p.pool pool).insert i),
              tracer ++ [.markRunnable (pool.toNode i)], []) := by
          cases pool <;> simp only [Pool.toNode] at lookup <;>
            simp [Planner.removeOneBlockNoRecursion, lookup, Planner.insertRunnable, absent,
              Pool.toNode]
        exact ⟨_, _, [], run, balanced, by simp, .quiet rfl quiet⟩
      | false =>
        obtain ⟨i, rfl⟩ : ∃ i, node = .partition i := by
          cases node with
          | partition i => exact ⟨i, rfl⟩
          | sendSystem i | unsendSystem i => cases hsys
        obtain ⟨par, hpar⟩ : ∃ par, t.partitions[i]? = some par :=
          ⟨_, List.getElem?_eq_getElem (hs.partitions i known)⟩
        have status : (p.setState (.partition i) .completed).status =
            Function.update p.status (.partition i) .done :=
          status_update fun k => state_setState p _ k _
        have waits : p.status (.partition i) = .waiting := by rw [Planner.status, hw]; rfl
        refine ⟨p.setState (.partition i) .completed, tracer ++ [.partition (.partition i) par],
          orderedAfter orders (.partition i),
          by simp [Planner.removeOneBlockNoRecursion, lookup, hpar, dependentsOf_ok hs known],
          hb.pass hw free, rfl, .passed hsys waits rfl status ?_⟩
        rw [status]
        refine .pass _ _ waits hsys ?_
        rintro m ⟨o, ho, rfl, ha⟩
        exact status_done.mpr (.inl ((need_zero free).1 o ho ha))

/-- The dependents that partitions not yet passed may still put in a queue. -/
def unpassed (t : Topology P) (p : Planner) : Nat :=
  (t.dependents.entries.map fun e => if p.status e.1 = .done then 0 else e.2.length).sum

omit hs in
theorem unpassed_le (p : Planner) :
    unpassed t p ≤ (t.dependents.entries.map (·.2.length)).sum := by
  unfold unpassed
  induction t.dependents.entries with
  | nil => exact Nat.le_refl 0
  | cons e l ih =>
    simp only [List.map_cons, List.sum_cons]
    split <;> omega

theorem unpassed_pass {node : Node} {p p' : Planner} (known : node ∈ nodes)
    (waits : p.status node = .waiting)
    (status : p'.status = Function.update p.status node .done) :
    unpassed t p' + (orderedAfter orders node).length = unpassed t p := by
  have entry : (⟨node, orderedAfter orders node⟩ : Sigma fun _ : Node => List Node) ∈
      t.dependents.entries := by
    rw [HashMap.mem_entries_iff, hs.dependents node, if_pos known]
  have nodup : t.dependents.entries.Nodup := List.Nodup.of_map Sigma.fst t.dependents.nodupKeys
  have drop := sum_map_drop t.dependents.entries nodup
    (fun e => if p.status e.1 = .done then 0 else e.2.length)
    (fun e => if p'.status e.1 = .done then 0 else e.2.length) entry (by simp [status])
    (fun e he hne => by
      have key : e.1 ≠ node := by
        rintro rfl
        apply hne
        have h1 := (HashMap.mem_entries_iff t.dependents e.1 e.2).mp he
        rw [hs.dependents, if_pos known, Option.some.injEq] at h1
        rw [h1]
      simp [status, Function.update_of_ne key])
  unfold unpassed
  simpa [waits] using drop

omit hs in
theorem removeLoop_nil {n : Nat} {s : Planner × Tracer P} :
    Planner.removeLoop t n s [] = .ok s := by
  cases n <;> rfl

omit hs in
theorem removeLoop_concat (n : Nat) (s : Planner × Tracer P) (rest : List Node) (node : Node) :
    Planner.removeLoop t (n + 1) s (rest ++ [node]) =
      s.1.removeOneBlockNoRecursion s.2 node t >>= fun r =>
        Planner.removeLoop t n (r.1, r.2.1) (rest ++ r.2.2) := by
  rw [Planner.removeLoop, List.getLast?_concat, List.dropLast_concat]

/-- The work queue ends, with every owed block of the queue removed. -/
theorem removeLoop_ok (n : Nat) {queue debt : List Node} (tracer : Tracer P)
    (hb : Balanced t nodes orders p [] (queue ++ debt)) (known : ∀ k ∈ queue, k ∈ nodes)
    (bound : queue.length + unpassed t p ≤ n) :
    ∃ p' tracer', Planner.removeLoop t n (p, tracer) queue = .ok (p', tracer') ∧
      Balanced t nodes orders p' [] debt ∧ p'.remainingSystems = p.remainingSystems ∧
      Relation.ReflTransGen (jobs orders clash).Step p.status p'.status ∧
      ∀ k, k.isSystem = true → p'.status k = p.status k := by
  induction n generalizing p queue tracer with
  | zero =>
    have nil : queue = [] := List.length_eq_zero_iff.mp (by omega)
    subst nil
    exact ⟨p, tracer, removeLoop_nil, hb, rfl, .refl, fun _ _ => rfl⟩
  | succ n ih =>
    cases hl : queue.getLast? with
    | none =>
      have nil := List.getLast?_eq_none_iff.mp hl
      subst nil
      exact ⟨p, tracer, removeLoop_nil, hb, rfl, .refl, fun _ _ => rfl⟩
    | some node =>
      obtain ⟨rest, rfl⟩ := List.getLast?_eq_some_iff.mp hl
      have hnode : node ∈ nodes := known node (by simp)
      have hb' : Balanced t nodes orders p [] (node :: (rest ++ debt)) :=
        hb.congr (fun _ => rfl) fun k => by
          simp only [List.count_append, List.count_cons, List.count_nil]; omega
      obtain ⟨p₁, tracer₁, more, run, hb₁, rem₁, removed⟩ :=
        removeOneBlock_ok hs tracer hb' hnode
      have hb₂ : Balanced t nodes orders p₁ [] ((rest ++ more) ++ debt) :=
        hb₁.congr (fun _ => rfl) fun k => by simp only [List.count_append]; omega
      have unfolded : Planner.removeLoop t (n + 1) (p, tracer) (rest ++ [node]) =
          Planner.removeLoop t n (p₁, tracer₁) (rest ++ more) := by
        rw [removeLoop_concat, run, ok_bind]
      have moreKnown : ∀ k ∈ rest ++ more, k ∈ nodes := by
        intro k hk
        rcases List.mem_append.mp hk with hk | hk
        · exact known k (by simp [hk])
        · cases removed with
          | quiet none => simp [none] at hk
          | passed _ _ queued =>
            obtain ⟨o, ho, -, rfl⟩ := mem_orderedAfter.mp (queued ▸ hk)
            exact (hs.known o ho).2
      have bound' : (rest ++ more).length + unpassed t p₁ ≤ n := by
        simp only [List.length_append, List.length_singleton] at bound ⊢
        cases removed with
        | quiet none same =>
          have : unpassed t p₁ = unpassed t p := by unfold unpassed; rw [same]
          rw [none, this, List.length_nil]
          omega
        | passed _ waits queued status =>
          have := unpassed_pass hs hnode waits status
          rw [queued]
          omega
      obtain ⟨p', tracer', run', hbal, rem', steps, systems⟩ := ih tracer₁ hb₂ moreKnown bound'
      refine ⟨p', tracer', unfolded ▸ run', hbal, rem'.trans rem₁, ?_, fun k hk => ?_⟩
      · cases removed with
        | quiet _ same => rw [← same]; exact steps
        | passed _ _ _ _ step => exact .head step steps
      · rw [systems k hk]
        cases removed with
        | quiet _ same => rw [same]
        | passed instant _ _ status =>
          rw [status, Function.update_of_ne]
          rintro rfl
          rw [hk] at instant
          cases instant

theorem removeQueue_ok {queue debt : List Node} (tracer : Tracer P)
    (hb : Balanced t nodes orders p [] (queue ++ debt)) (known : ∀ k ∈ queue, k ∈ nodes) :
    ∃ p' tracer', p.removeOneBlock tracer t queue = .ok (p', tracer') ∧
      Balanced t nodes orders p' [] debt ∧ p'.remainingSystems = p.remainingSystems ∧
      Relation.ReflTransGen (jobs orders clash).Step p.status p'.status ∧
      ∀ k, k.isSystem = true → p'.status k = p.status k :=
  removeLoop_ok hs _ tracer hb known (Nat.add_le_add_left (unpassed_le p) _)

/-- Completing a started node owes one block to each of its dependents and
exclusions. -/
theorem Balanced.finish {node : Node} (hb : Balanced t nodes orders p [] [])
    (old : p.state node = some .started) :
    Balanced t nodes orders (p.setState node .completed) []
      (orderedAfter orders node ++ t.excl node) := by
  have new : ∀ k, (p.setState node .completed).state k =
      if k = node then some .completed else p.state k := fun k => state_setState p node k _
  have completed : ∀ m, (p.setState node .completed).state m = some .completed ↔
      m = node ∨ p.state m = some .completed := by
    intro m
    rw [new]
    by_cases h : m = node
    · simp [h]
    · simp [h]
  have started : ∀ m, (p.setState node .completed).state m = some .started ↔
      m ≠ node ∧ p.state m = some .started := by
    intro m
    rw [new]
    by_cases h : m = node
    · simp [h]
    · simp [h]
  have need_eq := need_finish t orders old completed started
  have free : need t orders p node = 0 := by
    have := hb.count node _ old (by simp)
    simpa [WakeupState.count] using this.symm
  refine ⟨fun n => ?_, fun n w hw hne => ?_, fun n hn o ho ha => ?_, fun pool j => ?_,
    fun j => ⟨?_, ?_⟩⟩
  · rw [← hb.known n, new]
    by_cases h : n = node
    · simp [h, old]
    · simp [h]
  · rw [new] at hw
    by_cases h : n = node
    · simp only [h, if_true, Option.some.injEq] at hw
      exact absurd hw.symm hne
    · simp only [h, if_false] at hw
      have := hb.count n w hw hne
      rw [need_eq n, count_excl hs n node] at this
      rw [List.count_append]
      simpa [Nat.add_assoc] using this
  · rcases (completed n).mp hn with rfl | hn
    · exact (completed _).mpr (.inr ((need_zero free).1 o ho ha))
    · exact (completed _).mpr (.inr (hb.finished n hn o ho ha))
  · rw [pool_setState, hb.pools, new]
    by_cases h : pool.toNode j = node
    · simp [h, old]
    · simp [h]
  · rw [new]
    split
    · simp
    · exact (hb.lasting j).1
  · rw [ne_eq, started]
    exact fun h => (hb.lasting j).2 h.2

/-- The number of systems that are not done. -/
def systemsLeft (nodes : List Node) (p : Planner) : Nat :=
  nodes.countP fun n => n.isSystem ∧ p.status n ≠ .done

omit hs in
theorem systemsLeft_completed {node : Node} {p' : Planner} (nodup : nodes.Nodup)
    (known : node ∈ nodes) (system : node.isSystem = true) (undone : p.status node ≠ .done)
    (systems : ∀ k, k.isSystem = true →
      p'.status k = if k = node then .done else p.status k) :
    systemsLeft nodes p' + 1 = systemsLeft nodes p := by
  have left : ∀ n, (n.isSystem = true ∧ p.status n ≠ .done) ↔
      (n.isSystem = true ∧ p'.status n ≠ .done) ∨ n = node := by
    intro n
    by_cases here : n = node
    · subst here
      simp [system, undone]
    · simp only [here, or_false, and_congr_right_iff]
      intro isSystem
      rw [systems n isSystem, if_neg here]
  have gain := countP_gain nodes (fun n => n.isSystem = true ∧ p'.status n ≠ .done)
    (fun n => n.isSystem = true ∧ p.status n ≠ .done) node (by simp [systems node system]) left
  rw [List.count_eq_one_of_mem nodup known] at gain
  exact gain.symm

theorem complete_ok {node : Node} (tracer : Tracer P) (hb : Balanced t nodes orders p [] [])
    (counted : p.remainingSystems = systemsLeft nodes p) (runs : p.state node = some .started) :
    ∃ p' tracer', p.complete tracer node t = .ok (p', tracer') ∧
      Balanced t nodes orders p' [] [] ∧ p'.remainingSystems = systemsLeft nodes p' ∧
      Relation.ReflTransGen (jobs orders clash).Step p.status p'.status ∧
      ∀ k, k.isSystem = true → p'.status k = if k = node then .done else p.status k := by
  have known : node ∈ nodes := (hb.known node).mp (by simp [runs])
  have lookup : p.wakeupState.lookup node = some .started := runs
  have system : node.isSystem = true := hb.isSystem_of_started runs
  have status₁ : (p.setState node .completed).status = Function.update p.status node .done :=
    status_update fun k => state_setState p _ k _
  obtain ⟨p₂, tracer₂, run₂, hb₂, rem₂, steps₂, sys₂⟩ := removeQueue_ok hs tracer
    (hb.finish hs runs) fun k hk => by
      obtain ⟨o, ho, -, rfl⟩ := mem_orderedAfter.mp hk
      exact (hs.known o ho).2
  obtain ⟨p₃, tracer₃, run₃, hb₃, rem₃, steps₃, sys₃⟩ := removeQueue_ok hs tracer₂
    (hb₂.congr (fun _ => rfl) fun k => by rw [List.append_nil])
    fun k hk => (hs.clash_known k node (hs.clash_symm _ _ ((mem_excl hs).mp hk))).1
  have systems : ∀ k, k.isSystem = true → p₃.status k = if k = node then .done else p.status k := by
    intro k hk
    rw [sys₃ k hk, sys₂ k hk, status₁]
    by_cases h : k = node
    · simp [h]
    · simp [h]
  have left : systemsLeft nodes p₃ + 1 = p₃.remainingSystems := by
    rw [rem₃, rem₂, remaining_setState, counted]
    have undone : p.status node ≠ .done := by
      rw [status_running.mpr runs]
      exact nofun
    exact systemsLeft_completed hs.nodup known system undone systems
  have nonzero : ¬ p₃.remainingSystems = 0 := by omega
  refine ⟨{ p₃ with remainingSystems := p₃.remainingSystems - 1 },
    tracer₃ ++ [.completeSystem node (p₃.remainingSystems - 1)], ?_,
    ⟨hb₃.known, hb₃.count, hb₃.finished, fun pool i => ?_, hb₃.lasting⟩, ?_, ?_, systems⟩
  · simp [Planner.complete, lookup, dependentsOf_ok hs known, exclusionsOf_ok hs known, run₂, run₃,
      nonzero]
  · rw [show Planner.pool { p₃ with remainingSystems := p₃.remainingSystems - 1 } pool =
      p₃.pool pool by cases pool <;> rfl]
    exact hb₃.pools pool i
  · change p₃.remainingSystems - 1 = systemsLeft nodes p₃
    omega
  · refine .trans ?_ steps₃
    refine .head ?_ steps₂
    rw [status₁]
    exact .finish _ _ (status_running.mpr runs)

/-- What a completion that returned has done. -/
theorem complete_completed {node : Node} {tracer tracer' : Tracer P} {p' : Planner}
    (hb : Balanced t nodes orders p [] []) (counted : p.remainingSystems = systemsLeft nodes p)
    (runs : p.state node = some .started)
    (run : p.complete tracer node t = .ok (p', tracer')) :
    Balanced t nodes orders p' [] [] ∧ p'.remainingSystems = systemsLeft nodes p' ∧
      Relation.ReflTransGen (jobs orders clash).Step p.status p'.status ∧
      ∀ k, k.isSystem = true → p'.status k = if k = node then .done else p.status k := by
  obtain ⟨_, _, run', completed⟩ := complete_ok hs tracer hb counted runs
  rw [run] at run'
  cases run'
  exact completed

end Dynec.Scheduler
