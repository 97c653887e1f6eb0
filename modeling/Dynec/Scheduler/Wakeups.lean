import Dynec.Scheduler.Executor

/-! A thread that waits has nothing to do, as long as no notification comes
between its time-out and its next lock of the mutex. -/

namespace Dynec.Scheduler

open Fallible Count

variable {P : Type} {t : Topology P}

/-! ## Steals and the pools -/

theorem blockExclusion_pools {s s' : Planner × Tracer P} {excl : Node}
    (run : Planner.blockExclusion s excl = .ok s') {pool : Pool} {i : Nat}
    (mem : i ∈ s'.1.pool pool) : i ∈ s.1.pool pool := by
  have taken : ∀ {p p' : Planner} {pool' : Pool} {j : Nat}, p.takeRunnable pool' j = .ok p' →
      i ∈ p'.pool pool → i ∈ p.pool pool := by
    intro p p' pool' j take mem
    unfold Planner.takeRunnable at take
    split at take
    · cases take
      rw [pool_setPool] at mem
      split at mem
      · rename_i same
        subst same
        exact (SortedSet.mem_erase.mp mem).1
      · exact mem
    · cases take
  obtain ⟨p, tracer⟩ := s
  simp only [Planner.blockExclusion] at run
  obtain ⟨w, -, run⟩ := bind_eq_ok.mp run
  cases w with
  | pending =>
    cases excl with
    | sendSystem j | unsendSystem j =>
      obtain ⟨p', take, run⟩ := bind_eq_ok.mp run
      cases run
      simpa using taken take mem
    | partition j => cases run
  | blocked c =>
    cases run
    simpa using mem
  | started => cases run
  | completed =>
    cases run
    exact mem

/-- A steal puts nothing in a pool. -/
theorem steal_pools {p p' : Planner} {tracer tracer' : Tracer P} {thread : Thread} {pool : Pool}
    {result : StealResult} (run : p.steal tracer thread t pool = .ok (result, p', tracer'))
    {other : Pool} {i : Nat} (mem : i ∈ p'.pool other) : i ∈ p.pool other := by
  unfold Planner.steal at run
  split at run
  · cases run
    exact mem
  split at run
  · cases run
    exact mem
  rename_i index rest popped
  obtain ⟨w, -, run⟩ := bind_eq_ok.mp run
  cases w with
  | pending =>
    simp only [pure_eq_ok, ok_bind] at run
    obtain ⟨exclusions, -, run⟩ := bind_eq_ok.mp run
    obtain ⟨s, block, run⟩ := bind_eq_ok.mp run
    cases run
    have back := foldlM_ok block
      (fun _ s => i ∈ s.1.pool other → i ∈ (p.setPool pool rest).pool other) (by simp)
      (fun _ _ _ _ _ past step h => past (blockExclusion_pools step h)) mem
    obtain ⟨a, -, taken⟩ := Option.map_eq_some_iff.mp popped
    cases taken
    rw [pool_setPool] at back
    split at back
    · rename_i same
      subst same
      exact (SortedSet.mem_erase.mp back).1
    · exact back
  | blocked | started | completed => cases run

/-! ## What a cycle has started -/

/-- A started node is held by a thread. -/
theorem step_started {nodes : List Node} {orders : List Order} {clash : Node → Node → Prop}
    (sound : t.Sound nodes orders clash) {c c' : Cycle P} (step : c.Step t c')
    (inv : c.Inv t nodes orders clash)
    (held : ∀ n, c.planner.state n = some .started → ∃ thread, (thread, n) ∈ c.held) :
    ∀ n, c'.planner.state n = some .started → ∃ thread, (thread, n) ∈ c'.held := by
  intro n started
  have inv' := step_inv sound step inv
  cases step with
  | poll thread pool run nothing =>
    rw [(steal_stolen sound inv.balanced run).2.2.same nothing] at started
    exact held n started
  | @steal thread pool index planner tracer run =>
    cases (steal_stolen sound inv.balanced run).2.2 with
    | ready i _ _ status =>
      by_cases here : n = pool.toNode index
      · exact ⟨thread, here ▸ List.mem_cons_self⟩
      · rw [← status_running, status, Function.update_of_ne here, status_running] at started
        obtain ⟨other, mem⟩ := held n started
        exact ⟨other, List.mem_cons_of_mem _ mem⟩
  | complete thread node holds run =>
    obtain ⟨-, -, -, systems⟩ :=
      complete_completed sound inv.balanced inv.remaining (inv.held _ holds) run
    have system := inv'.balanced.isSystem_of_started started
    rw [← status_running, systems n system] at started
    split at started
    · cases started
    · rename_i other
      obtain ⟨holder, mem⟩ := held n (status_running.mp started)
      refine ⟨holder, (List.mem_erase_of_ne ?_).mpr mem⟩
      rintro ⟨⟩
      exact other rfl

section
variable [DecidableEq P] {b : Builder P} {it : HashOrders} {c : Cycle P}

theorem started_held (built : Built b) (accepted : b.build it = .ok t)
    (reached : Cycle.Reachable t c) {n : Node} (started : c.planner.state n = some .started) :
    ∃ thread, (thread, n) ∈ c.held := by
  induction reached generalizing n with
  | start =>
    have idle := (initial_jobs built accepted).1 n
    exact absurd (status_running.mpr started) idle
  | next reached step ih =>
    exact step_started (build_parts built accepted).1 step (reachable_inv built accepted reached)
      (fun _ => ih) n started

end

/-! ## The places of the threads -/

namespace Pc

theorem locked_place {pc pc' : Pc} (next : pc.locked = some pc') :
    pc.holds = false ∧ pc'.holds = true ∧ pc'.waiting = pc.waiting ∧ pc'.node = pc.node := by
  cases pc <;> cases next <;> exact ⟨rfl, rfl, rfl, rfl⟩

theorem polled_place {thread : Thread} {pc : Pc} {pool : Pool} (polled : pc.polled thread = some pool) :
    pc.holds = true ∧ pc.waiting = false ∧ pc.node = none := by
  cases thread <;> cases pc <;> cases polled <;> exact ⟨rfl, rfl, rfl⟩

theorem pending_place (concurrency : Nat) (thread : Thread) (pc : Pc) :
    (pc.pending concurrency thread).holds = true ∧
    (pc.pending concurrency thread).waiting = false ∧
    (pc.pending concurrency thread).node = none := by
  unfold pending
  split
  · split <;> exact ⟨rfl, rfl, rfl⟩
  · exact ⟨rfl, rfl, rfl⟩

@[simp] theorem holds_notify (pc : Pc) : pc.notify.holds = pc.holds := by cases pc <;> rfl

@[simp] theorem node_notify (pc : Pc) : pc.notify.node = pc.node := by cases pc <;> rfl

theorem waiting_iff {pc : Pc} : pc.waiting = true ↔ pc = .parked ∨ pc.notify.waiting = true := by
  cases pc <;> simp [waiting, notify]

end Pc

namespace Execution

variable {concurrency : Nat} {e e' : Execution P} {thread : Thread} {action : Action}

theorem step_others (step : e.Step t concurrency thread action e') {other : Thread}
    (ne : other ≠ thread) : (e'.pc other).holds = (e.pc other).holds ∧
      (e'.pc other).node = (e.pc other).node ∧
      (e'.pc other = e.pc other ∨ action = .complete ∧ e'.pc other = (e.pc other).notify) := by
  cases step with
  | complete => simp [Function.update_of_ne ne]
  | _ => simp [moved, Function.update_of_ne ne]

/-- What every step keeps. -/
structure Inv (t : Topology P) (concurrency : Nat) (e : Execution P) : Prop where
  cycle : Cycle.Reachable t e.cycle
  guard : ∀ thread, (e.pc thread).holds = true ↔ e.guard = some thread
  counter : e.deadlockCounter.cnt + (threads concurrency).countP (fun thread => (e.pc thread).waiting) =
    concurrency + 1
  held : ∀ thread node, (e.pc thread).node = some node ↔ (thread, node) ∈ e.cycle.held
  apart : e.cycle.held.Nodup
  outside : ∀ thread, thread ∉ threads concurrency → e.pc thread = .returned

/-- A thread that takes or leaves the mutex. -/
theorem guard_moved (others : ∀ other, other ≠ thread → (e'.pc other).holds = (e.pc other).holds)
    (own : e.guard = none ∨ e.guard = some thread)
    (now : e'.guard = if (e'.pc thread).holds then some thread else none)
    (guard : ∀ thread, (e.pc thread).holds = true ↔ e.guard = some thread) :
    ∀ thread, (e'.pc thread).holds = true ↔ e'.guard = some thread := by
  intro other
  rw [now]
  by_cases same : other = thread
  · subst same
    cases (e'.pc other).holds <;> simp
  · rw [others other same, guard other]
    have apart : thread ≠ other := Ne.symm same
    rcases own with own | own
    · rw [own]
      split <;> simp [apart]
    · rw [own]
      split <;> simp [apart]

theorem step_guard (step : e.Step t concurrency thread action e') (inv : e.Inv t concurrency) :
    ∀ thread, (e'.pc thread).holds = true ↔ e'.guard = some thread := by
  have others : ∀ other, other ≠ thread → (e'.pc other).holds = (e.pc other).holds :=
    fun other ne => (step_others step ne).1
  have own : (e.pc thread).holds = true → e.guard = none ∨ e.guard = some thread :=
    fun holds => .inr ((inv.guard thread).mp holds)
  cases step with
  | lock free next =>
    apply guard_moved others (.inl free) _ inv.guard
    simp [moved, (Pc.locked_place next).2.1]
  | ready polled =>
    apply guard_moved others (own (Pc.polled_place polled).1) _ inv.guard
    simp [moved, Pc.holds]
  | pending polled =>
    have holds := (Pc.polled_place polled).1
    apply guard_moved others (own holds) _ inv.guard
    simpa [moved, (Pc.pending_place _ _ _).1] using (inv.guard thread).mp holds
  | cycleComplete polled =>
    apply guard_moved others (own (Pc.polled_place polled).1) _ inv.guard
    simp [moved, Pc.holds]
  | startWait stands =>
    have holds : (e.pc thread).holds = true := by rw [stands]; rfl
    apply guard_moved others (own holds) _ inv.guard
    simpa [moved, Pc.holds] using (inv.guard thread).mp holds
  | park stands =>
    have holds : (e.pc thread).holds = true := by rw [stands]; rfl
    apply guard_moved others (own holds) _ inv.guard
    simp [moved, Pc.holds]
  | timeOut stands | finish stands =>
    intro other
    change _ ↔ e.guard = some other
    rw [← inv.guard other]
    by_cases same : other = thread
    · subst same
      simp [moved, stands, Pc.holds]
    · rw [others other same]
  | complete stands =>
    have holds : (e.pc thread).holds = true := by rw [stands]; rfl
    apply guard_moved others (own holds) _ inv.guard
    simpa [Pc.holds] using (inv.guard thread).mp holds

theorem threads_nodup (concurrency : Nat) : (threads concurrency).Nodup := by
  have inj : Function.Injective Thread.worker := fun _ _ h => by cases h; rfl
  apply List.nodup_cons.mpr
  exact ⟨by simp, List.nodup_range.map inj⟩

theorem threads_length (concurrency : Nat) : (threads concurrency).length = concurrency + 1 := by
  simp [threads]

theorem step_active (step : e.Step t concurrency thread action e') : e.pc thread ≠ .returned := by
  intro returned
  cases step with
  | lock free next => simp [returned, Pc.locked] at next
  | ready polled | pending polled | cycleComplete polled => simp [returned, Pc.polled] at polled
  | startWait stands | park stands | timeOut stands | finish stands | complete stands =>
    simp [returned] at stands

theorem step_outside (step : e.Step t concurrency thread action e') (inv : e.Inv t concurrency) :
    ∀ thread, thread ∉ threads concurrency → e'.pc thread = .returned := by
  intro other absent
  have returned := inv.outside other absent
  have ne : other ≠ thread := by
    rintro rfl
    exact step_active step returned
  rcases (step_others step ne).2.2 with same | ⟨-, notified⟩
  · rw [same, returned]
  · rw [notified, returned]; rfl

/-- A move that leaves the counter alone is one between places that are counted
alike. -/
theorem counter_moved (known : thread ∈ threads concurrency) (inv : e.Inv t concurrency) {pc : Pc}
    (alike : pc.waiting = (e.pc thread).waiting) :
    e.deadlockCounter.cnt + (threads concurrency).countP
      (fun other => ((e.moved thread pc).pc other).waiting) = concurrency + 1 := by
  have change := countP_update (threads_nodup concurrency) e.pc Pc.waiting known pc
  have counter := inv.counter
  rw [alike] at change
  simp only [moved]
  omega

theorem step_counter (step : e.Step t concurrency thread action e') (inv : e.Inv t concurrency) :
    e'.deadlockCounter.cnt + (threads concurrency).countP (fun thread => (e'.pc thread).waiting) =
      concurrency + 1 := by
  have known : thread ∈ threads concurrency := by
    by_contra absent
    exact step_active step (inv.outside thread absent)
  cases step with
  | lock free next => exact counter_moved known inv (Pc.locked_place next).2.2.1
  | ready polled | cycleComplete polled =>
    exact counter_moved known inv (Pc.polled_place polled).2.1.symm
  | pending polled =>
    apply counter_moved known inv
    rw [(Pc.polled_place polled).2.1, (Pc.pending_place _ _ _).2.1]
  | @startWait left stands run =>
    have change := countP_update (threads_nodup concurrency) e.pc Pc.waiting known .park
    have counter := inv.counter
    rw [stands] at change
    change _ + 0 = _ + 1 at change
    unfold DeadlockCounter.startWait at run
    split at run
    · cases run
    · cases run
      have spare : (threads concurrency).countP (fun thread => (e.pc thread).waiting) <
          (threads concurrency).length := by
        apply List.countP_lt_length_iff.mpr
        exact ⟨thread, known, by rw [stands]; rfl⟩
      simp only [threads_length] at spare
      simp only [moved]
      omega
  | park stands | timeOut stands | finish stands =>
    apply counter_moved known inv
    rw [stands]
    rfl
  | @complete node planner tracer stands run =>
    have counter := inv.counter
    have split := countP_or (threads concurrency) (fun other => e.pc other = .parked)
      (fun other => ((e.pc other).notify).waiting = true)
      (fun other => (e.pc other).waiting = true) (fun other => Pc.waiting_iff)
      (fun other parked => by simp [parked, Pc.notify, Pc.waiting])
    have rest := countP_update (threads_nodup concurrency) (fun other => (e.pc other).notify)
      Pc.waiting known .poll
    rw [stands] at rest
    change _ + 0 = _ + 0 at rest
    simp only [Bool.decide_eq_true] at split
    simp only [DeadlockCounter.endWait, wakeups]
    omega

/-- A move between places with the same node. -/
theorem held_moved (inv : e.Inv t concurrency) {pc : Pc} (alike : pc.node = (e.pc thread).node)
    (other : Thread) (node : Node) :
    ((e.moved thread pc).pc other).node = some node ↔ (other, node) ∈ e.cycle.held := by
  rw [← inv.held other node]
  by_cases same : other = thread
  · subst same
    simp [moved, alike]
  · simp [moved, Function.update_of_ne same]

theorem step_held (step : e.Step t concurrency thread action e') (inv : e.Inv t concurrency) :
    (∀ thread node, (e'.pc thread).node = some node ↔ (thread, node) ∈ e'.cycle.held) ∧
    e'.cycle.held.Nodup := by
  have others := fun other (ne : other ≠ thread) => (step_others step ne).2.1
  cases step with
  | lock free next => exact ⟨held_moved inv (Pc.locked_place next).2.2.2, inv.apart⟩
  | cycleComplete polled => exact ⟨held_moved inv (Pc.polled_place polled).2.2.symm, inv.apart⟩
  | pending polled =>
    refine ⟨held_moved inv ?_, inv.apart⟩
    rw [(Pc.polled_place polled).2.2, (Pc.pending_place _ _ _).2.2]
  | startWait stands | park stands | timeOut stands | finish stands =>
    refine ⟨held_moved inv ?_, inv.apart⟩
    rw [stands]
    rfl
  | @ready pool index planner tracer polled run =>
    have idle : ∀ node, (thread, node) ∉ e.cycle.held := by
      intro node mem
      have here := (inv.held thread node).mpr mem
      rw [(Pc.polled_place polled).2.2] at here
      cases here
    refine ⟨fun other node => ?_, List.nodup_cons.mpr ⟨idle _, inv.apart⟩⟩
    rw [List.mem_cons]
    by_cases same : other = thread
    · subst same
      simp [moved, Pc.node, idle, eq_comm]
    · rw [others other same, inv.held other node]
      simp [same]
  | @complete done planner tracer stands run =>
    refine ⟨fun other node => ?_, inv.apart.erase _⟩
    rw [inv.apart.mem_erase_iff]
    by_cases same : other = thread
    · subst same
      rw [← inv.held other node, stands]
      simp only [Function.update_self, Pc.node, reduceCtorEq, Option.some.injEq, ne_eq,
        Prod.mk.injEq, true_and, false_iff, not_and]
      exact fun differ same => differ same.symm
    · rw [others other same, inv.held other node]
      simp [same]

theorem step_cycle (step : e.Step t concurrency thread action e') (inv : e.Inv t concurrency) :
    Cycle.Reachable t e'.cycle := by
  cases step with
  | lock | startWait | park | timeOut | finish => exact inv.cycle
  | ready polled run => exact .next inv.cycle (.steal thread _ run)
  | pending polled run => exact .next inv.cycle (.poll thread _ run (.inl rfl))
  | cycleComplete polled run => exact .next inv.cycle (.poll thread _ run (.inr rfl))
  | @complete node planner tracer stands run =>
    have holds := (inv.held thread node).mp (by rw [stands]; rfl)
    exact .next inv.cycle (.complete thread node holds run)

theorem start_inv (t : Topology P) (concurrency : Nat) :
    (start t concurrency).Inv t concurrency := by
  refine ⟨.start, fun thread => ?_, ?_, fun thread node => ?_, List.nodup_nil,
    fun thread absent => if_neg absent⟩
  · simp only [start]
    split <;> simp [Pc.holds]
  · have none : (threads concurrency).countP
        (fun thread => ((start t concurrency).pc thread).waiting) = 0 := by
      apply List.countP_eq_zero.mpr
      intro thread known
      simp [start, known, Pc.waiting]
    rw [none]
    rfl
  · simp only [start, Cycle.start]
    split <;> simp [Pc.node]

theorem step_keeps (step : e.Step t concurrency thread action e') (inv : e.Inv t concurrency) :
    e'.Inv t concurrency :=
  ⟨step_cycle step inv, step_guard step inv, step_counter step inv, (step_held step inv).1,
    (step_held step inv).2, step_outside step inv⟩

variable {trace : List (Execution P × Thread × Action)}

theorem run_keeps (run : Run t concurrency trace e) : e.Inv t concurrency := by
  induction run with
  | start => exact start_inv t concurrency
  | next _ _ step ih => exact step_keeps step ih

theorem Inv.timely (inv : e.Inv t concurrency)
    (prompt : ∀ thread ∈ threads concurrency, e.pc thread ≠ .timedOut) : e.Timely .complete := by
  intro thread late
  by_cases known : thread ∈ threads concurrency
  · exact prompt thread known late
  · rw [inv.outside thread known] at late
    cases late

/-! ## Threads with nothing to do -/

/-- A thread has found its pools empty and is about to wait, or it waits. -/
def idle (pc : Pc) : Prop := pc = .wait ∨ pc.waiting = true

/-- Systems are left, but none in a pool that the thread polls. -/
def Nothing (concurrency : Nat) (p : Planner) (thread : Thread) : Prop :=
  p.remainingSystems ≠ 0 ∧ ∀ pool, thread.polls concurrency pool → ∀ i, i ∉ p.pool pool

/-- Threads that wait have nothing to do. `alone` is the middle of a round of a
main thread that polls both pools. -/
structure Quiet (concurrency : Nat) (e : Execution P) : Prop where
  waits : ∀ thread, idle (e.pc thread) → Nothing concurrency e.cycle.planner thread
  alone : ∀ thread, e.pc thread = .pollSend →
    e.cycle.planner.remainingSystems ≠ 0 ∧ ∀ i, i ∉ e.cycle.planner.pool .unsend

/-- Pools that lose systems keep the other threads quiet. -/
theorem Quiet.moved (quiet : e.Quiet concurrency)
    (others : ∀ other, other ≠ thread → e'.pc other = e.pc other)
    (remaining : e'.cycle.planner.remainingSystems = e.cycle.planner.remainingSystems)
    (pools : ∀ pool i, i ∈ e'.cycle.planner.pool pool → i ∈ e.cycle.planner.pool pool)
    (waits : idle (e'.pc thread) → Nothing concurrency e.cycle.planner thread)
    (alone : e'.pc thread = .pollSend →
      e.cycle.planner.remainingSystems ≠ 0 ∧ ∀ i, i ∉ e.cycle.planner.pool .unsend) :
    e'.Quiet concurrency := by
  constructor
  · intro other idles
    have before : Nothing concurrency e.cycle.planner other := by
      by_cases same : other = thread
      · exact same ▸ waits (same ▸ idles)
      · exact quiet.waits other (others other same ▸ idles)
    rw [Nothing, remaining]
    exact ⟨before.1, fun pool polled i mem => before.2 pool polled i (pools pool i mem)⟩
  · intro other polls
    have before : e.cycle.planner.remainingSystems ≠ 0 ∧ ∀ i, i ∉ e.cycle.planner.pool .unsend := by
      by_cases same : other = thread
      · exact alone (same ▸ polls)
      · exact quiet.alone other (others other same ▸ polls)
    rw [remaining]
    exact ⟨before.1, fun i mem => before.2 i (pools .unsend i mem)⟩

theorem pending_alone {pool : Pool} (polled : (e.pc thread).polled thread = some pool)
    (left : e.cycle.planner.remainingSystems ≠ 0) (none : ∀ i, i ∉ e.cycle.planner.pool pool)
    (next : (e.pc thread).pending concurrency thread = .pollSend) :
    e.cycle.planner.remainingSystems ≠ 0 ∧ ∀ i, i ∉ e.cycle.planner.pool .unsend := by
  refine ⟨left, ?_⟩
  cases thread with
  | worker id => cases next
  | main =>
    cases place : e.pc .main <;> rw [place] at polled next <;> cases polled
    · exact none
    · cases next

/-- A thread waits when it has found all its pools empty. -/
theorem Quiet.pending (quiet : e.Quiet concurrency) {pool : Pool}
    (polled : (e.pc thread).polled thread = some pool)
    (left : e.cycle.planner.remainingSystems ≠ 0) (none : ∀ i, i ∉ e.cycle.planner.pool pool)
    (next : idle ((e.pc thread).pending concurrency thread)) :
    Nothing concurrency e.cycle.planner thread := by
  refine ⟨left, fun other polls => ?_⟩
  cases thread with
  | worker id =>
    cases polls
    cases place : e.pc (.worker id) <;> rw [place] at polled <;> cases polled
    exact none
  | main =>
    cases place : e.pc .main <;> rw [place] at polled next <;> cases polled
    · cases other with
      | unsend => exact none
      | send =>
        have solitary : concurrency = 0 := polls
        simp [Pc.pending, solitary, idle, Pc.waiting] at next
    · cases other with
      | unsend => exact (quiet.alone .main place).2
      | send => exact none

theorem start_quiet (t : Topology P) (concurrency : Nat) :
    (start t concurrency).Quiet concurrency := by
  constructor
  · intro thread idles
    simp only [start, idle] at idles
    split at idles <;> simp [Pc.waiting] at idles
  · intro thread polls
    simp only [start] at polls
    split at polls <;> cases polls

/-- When the counter is at its last thread, every other thread waits. -/
theorem Inv.last (inv : e.Inv t concurrency) (stands : e.pc thread = .wait)
    (one : e.deadlockCounter.cnt = 1) : ∀ other ∈ threads concurrency, idle (e.pc other) := by
  have known : thread ∈ threads concurrency := by
    by_contra absent
    rw [inv.outside thread absent] at stands
    cases stands
  have change := countP_update (threads_nodup concurrency) e.pc Pc.waiting known .parked
  rw [stands] at change
  change _ + 0 = _ + 1 at change
  have counter := inv.counter
  have full : (threads concurrency).countP
      (fun other => (Function.update e.pc thread .parked other).waiting) =
      (threads concurrency).length := by
    rw [threads_length]
    omega
  intro other mem
  have waits := List.countP_eq_length.mp full other mem
  by_cases same : other = thread
  · exact .inl (same ▸ stands)
  · rw [Function.update_of_ne same] at waits
    exact .inr waits

/-- A completion notifies all threads that wait. -/
theorem Inv.awake (inv : e.Inv t concurrency) (timely : e.Timely .complete)
    (locked : (e.pc thread).holds = true) {other : Thread} (ne : other ≠ thread) :
    ¬ idle (e.pc other).notify ∧ (e.pc other).notify ≠ .pollSend := by
  have unlocked : (e.pc other).holds = false := by
    by_contra holds
    rw [Bool.not_eq_false, inv.guard other, (inv.guard thread).mp locked,
      Option.some.injEq] at holds
    exact ne holds.symm
  have prompt := timely other
  cases place : e.pc other <;>
    simp_all [Pc.holds, idle, Pc.notify, Pc.waiting]

/-- Threads that wait hold no node. -/
theorem Inv.unheld (inv : e.Inv t concurrency)
    (idles : ∀ other ∈ threads concurrency, idle (e.pc other)) (other : Thread) (node : Node) :
    (other, node) ∉ e.cycle.held := by
  intro mem
  have here := (inv.held other node).mpr mem
  by_cases known : other ∈ threads concurrency
  · have idles := idles other known
    cases place : e.pc other <;> rw [place] at here idles <;>
      simp [Pc.node, idle, Pc.waiting] at here idles
  · rw [inv.outside other known] at here
    cases here

end Execution

section
variable [DecidableEq P] {b : Builder P} {it : HashOrders} {concurrency : Nat}
  {e e' : Execution P} {thread : Thread} {action : Execution.Action}
  {trace : List (Execution P × Thread × Execution.Action)}

namespace Execution

theorem step_quiet (built : Built b) (accepted : b.build it = .ok t)
    (step : e.Step t concurrency thread action e') (inv : e.Inv t concurrency)
    (timely : e.Timely action) (quiet : e.Quiet concurrency) : e'.Quiet concurrency := by
  have sound := (build_parts built accepted).1
  have balanced := (reachable_inv built accepted inv.cycle).balanced
  have others : action ≠ .complete → ∀ other, other ≠ thread → e'.pc other = e.pc other := by
    intro unfinished other ne
    rcases (step_others step ne).2.2 with same | ⟨done, -⟩
    · exact same
    · exact absurd done unfinished
  cases step with
  | @lock pc free next =>
    refine quiet.moved (others (by simp)) rfl (fun _ _ => id) ?_ ?_
    · intro idles
      apply quiet.waits
      cases place : e.pc thread <;> rw [place] at next <;> cases next <;>
        simp_all [moved, idle, Pc.waiting]
    · intro polls
      cases place : e.pc thread <;> rw [place] at next <;> cases next <;> simp_all [moved]
  | ready polled run =>
    obtain ⟨-, remaining, -⟩ := steal_stolen sound balanced run
    refine quiet.moved (others (by simp)) remaining (fun _ _ => steal_pools run) ?_ ?_
    · simp [moved, idle, Pc.waiting]
    · simp [moved]
  | @pending pool planner tracer polled run =>
    cases (steal_stolen sound balanced run).2.2 with
    | pending left none same =>
      subst same
      refine quiet.moved (others (by simp)) rfl (fun _ _ => id) ?_ ?_
      · exact fun idles => quiet.pending polled left none (by simpa [moved] using idles)
      · exact fun polls => pending_alone polled left none (by simpa [moved] using polls)
  | @cycleComplete pool planner tracer polled run =>
    cases (steal_stolen sound balanced run).2.2 with
    | complete _ same =>
      subst same
      refine quiet.moved (others (by simp)) rfl (fun _ _ => id) ?_ ?_
      · simp [moved, idle, Pc.waiting]
      · simp [moved]
  | startWait stands =>
    refine quiet.moved (others (by simp)) rfl (fun _ _ => id) ?_ ?_
    · exact fun _ => quiet.waits thread (.inl stands)
    · simp [moved]
  | park stands | timeOut stands =>
    refine quiet.moved (others (by simp)) rfl (fun _ _ => id) ?_ ?_
    · exact fun _ => quiet.waits thread (.inr (by rw [stands]; rfl))
    · simp [moved]
  | finish stands =>
    refine quiet.moved (others (by simp)) rfl (fun _ _ => id) ?_ ?_
    · simp [moved, idle, Pc.waiting]
    · simp [moved]
  | @complete node planner tracer stands run =>
    have awake : ∀ other, other ≠ thread →
        ¬ idle (e.pc other).notify ∧ (e.pc other).notify ≠ .pollSend :=
      fun other ne => inv.awake timely (by rw [stands]; rfl) ne
    constructor
    · intro other idles
      by_cases same : other = thread
      · simp [same, idle, Pc.waiting] at idles
      · simp only [Function.update_of_ne same] at idles
        exact absurd idles (awake other same).1
    · intro other polls
      by_cases same : other = thread
      · simp [same] at polls
      · simp only [Function.update_of_ne same] at polls
        exact absurd polls (awake other same).2

theorem run_quiet (built : Built b) (accepted : b.build it = .ok t)
    (run : Run t concurrency trace e) (timely : ∀ s ∈ trace, s.1.Timely s.2.2) :
    e.Quiet concurrency := by
  induction run with
  | start => exact start_quiet t concurrency
  | next _ run step ih =>
    obtain ⟨now, past⟩ := List.forall_mem_cons.mp timely
    exact step_quiet built accepted step (run_keeps run) now (ih past)

/-- Not all threads can wait while a system is left. -/
theorem Quiet.busy (quiet : e.Quiet concurrency) (built : Built b) (accepted : b.build it = .ok t)
    (inv : e.Inv t concurrency) : ¬ ∀ other ∈ threads concurrency, idle (e.pc other) := by
  intro idles
  have cycle := reachable_inv built accepted inv.cycle
  have main := quiet.waits .main (idles .main List.mem_cons_self)
  obtain ⟨k, undone⟩ := exists_undone cycle (Nat.pos_of_ne_zero main.1)
  have unstarted : ∀ n, e.cycle.planner.state n ≠ some .started := by
    intro n started
    obtain ⟨holder, mem⟩ := started_held built accepted inv.cycle started
    exact inv.unheld idles holder n mem
  obtain ⟨pool, i, mem⟩ :=
    exists_runnable (build_parts built accepted).1 cycle undone unstarted
  cases pool with
  | unsend => exact main.2 .unsend trivial i mem
  | send =>
    by_cases solitary : concurrency = 0
    · exact main.2 .send solitary i mem
    · have worker : .worker 0 ∈ threads concurrency := by
        simp [threads, Nat.pos_of_ne_zero solitary]
      exact (quiet.waits _ (idles _ worker)).2 .send rfl i mem

/-- **Wakeups.** In a run whose completions all come when no thread has timed out
and not yet locked the mutex again, no thread panics for a deadlock, and the threads
do not all wait while one of them has something to do. -/
theorem no_lost_wakeup (built : Built b) (accepted : b.build it = .ok t)
    (run : Run t concurrency trace e) (timely : ∀ s ∈ trace, s.1.Timely s.2.2) :
    (∀ thread, e.pc thread = .wait → ∃ counter, e.deadlockCounter.startWait = .ok counter) ∧
    ¬ e.Stuck concurrency := by
  have inv := run_keeps run
  have quiet := run_quiet built accepted run timely
  constructor
  · intro thread stands
    unfold DeadlockCounter.startWait
    split
    · rename_i one
      exact absurd (inv.last stands one) (quiet.busy built accepted inv)
    · exact ⟨_, rfl⟩
  · rintro ⟨⟨thread, known, active⟩, waits, complete | ⟨other, known', active', pool, polls, i, mem⟩⟩
    · exact (quiet.waits thread (.inr (waits thread known active))).1 complete
    · exact (quiet.waits other (.inr (waits other known' active'))).2 pool polls i mem

end Execution

end

/-- A system for the workers and one for the main thread that exclude each other. -/
def rivals : Builder Nat :=
  let b := ((Builder.new 1).pushSendSystem "a").2
  let b := (b.pushUnsendSystem "b").2
  let b := b.setAccesses (.global ⟨0⟩) (.sendSystem 0) [.new true]
  b.setAccesses (.global ⟨0⟩) (.unsendSystem 0) [.new true]

theorem rivals_built : Built rivals :=
  .useResource (.unsendSystem 0) (.global ⟨0⟩) (.new true) rfl (by decide) rfl <|
    .useResource (.sendSystem 0) (.global ⟨0⟩) (.new true) rfl (by decide) rfl <|
      .pushUnsendSystem "b" (.pushSendSystem "a" (.new 1))

def rivalsTopology : Topology Nat := (rivals.build .insertion).toOption.get rfl

namespace Execution

/-- While the worker runs its system, the main thread waits. It is notified by
the completion. -/
theorem no_lost_wakeup_rivals : ∃ trace e, rivals.build .insertion = .ok rivalsTopology ∧
    Run rivalsTopology 1 trace e ∧ e.pc .main = .notified ∧ e.pc (.worker 0) = .wait ∧
    e.cycle.planner.remainingSystems = 1 ∧
    (∃ counter, e.deadlockCounter.startWait = .ok counter) ∧ ¬ e.Stuck 1 := by
  obtain ⟨trace, e, accepted, run, timely, notified, waits, left⟩ :
      ∃ trace e, rivals.build .insertion = .ok rivalsTopology ∧
        Run rivalsTopology 1 trace e ∧ (∀ s ∈ trace, s.1.Timely s.2.2) ∧
        e.pc .main = .notified ∧ e.pc (.worker 0) = .wait ∧
        e.cycle.planner.remainingSystems = 1 := by
    have steals : Run rivalsTopology 1 _ _ :=
      .next (.worker 0) (.next (.worker 0) .start (.lock rfl rfl)) (.ready rfl rfl)
    have parks : Run rivalsTopology 1 _ _ :=
      .next .main (.next .main (.next .main (.next .main steals (.lock rfl rfl))
        (.pending rfl rfl)) (.startWait rfl rfl)) (.park rfl)
    have finishes : Run rivalsTopology 1 _ _ :=
      .next (.worker 0) (.next (.worker 0) parks (.finish rfl)) (.lock rfl rfl)
    have prompt := (run_keeps finishes).timely (by decide)
    refine ⟨_, _, rfl, .next (.worker 0) (.next (.worker 0) finishes (.complete rfl rfl))
      (.pending rfl rfl), ?_, rfl, rfl, rfl⟩
    simp only [List.forall_mem_cons]
    exact ⟨trivial, prompt, trivial, trivial, trivial, trivial, trivial, trivial, trivial, trivial,
      nofun⟩
  obtain ⟨counts, moves⟩ := no_lost_wakeup rivals_built accepted run timely
  exact ⟨trace, e, accepted, run, notified, waits, left, counts _ waits, moves⟩

/-- The completion comes when the main thread has timed out and not yet locked the
mutex again: it is not notified. In the first run it parks for good, with every
system completed; in the second the worker takes this for a deadlock. -/
theorem wakeup_lost : rivals.build .insertion = .ok rivalsTopology ∧
    (∃ trace e, Run rivalsTopology 1 trace e ∧ e.Stuck 1) ∧
    ∃ trace e, Run rivalsTopology 1 trace e ∧ e.pc (.worker 0) = .wait ∧
      e.deadlockCounter.startWait = .error .deadlock := by
  refine ⟨rfl, ?_, ?_⟩
  · have unsend : Run rivalsTopology 1 _ _ :=
      .next .main (.next .main (.next .main (.next .main (.next .main .start (.lock rfl rfl))
        (.ready rfl rfl)) (.finish rfl)) (.lock rfl rfl)) (.complete rfl rfl)
    have parks : Run rivalsTopology 1 _ _ :=
      .next .main (.next .main (.next .main unsend (.pending rfl rfl)) (.startWait rfl rfl))
        (.park rfl)
    have steals : Run rivalsTopology 1 _ _ :=
      .next (.worker 0) (.next (.worker 0) parks (.lock rfl rfl)) (.ready rfl rfl)
    have completes : Run rivalsTopology 1 _ _ :=
      .next (.worker 0) (.next (.worker 0) (.next (.worker 0)
        (.next .main steals (.timeOut rfl)) (.finish rfl)) (.lock rfl rfl)) (.complete rfl rfl)
    have parksAgain : Run rivalsTopology 1 _ _ :=
      .next .main (.next .main (.next (.worker 0) completes (.cycleComplete rfl rfl))
        (.lock rfl rfl)) (.park rfl)
    exact ⟨_, _, parksAgain, ⟨.main, by decide, by decide⟩, by decide, .inl rfl⟩
  · have steals : Run rivalsTopology 1 _ _ :=
      .next (.worker 0) (.next (.worker 0) .start (.lock rfl rfl)) (.ready rfl rfl)
    have parks : Run rivalsTopology 1 _ _ :=
      .next .main (.next .main (.next .main (.next .main steals (.lock rfl rfl))
        (.pending rfl rfl)) (.startWait rfl rfl)) (.park rfl)
    have completes : Run rivalsTopology 1 _ _ :=
      .next (.worker 0) (.next (.worker 0) (.next (.worker 0)
        (.next .main parks (.timeOut rfl)) (.finish rfl)) (.lock rfl rfl)) (.complete rfl rfl)
    exact ⟨_, _, .next (.worker 0) completes (.pending rfl rfl), rfl, rfl⟩

end Execution

end Dynec.Scheduler
