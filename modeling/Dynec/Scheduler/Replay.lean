import Dynec.Scheduler.Tracing

/-!
# Replaying a trace

The events of a cycle tell an observer which systems are runnable, which have
completed and how many are left (`trace_replayed`).
-/

namespace Dynec.Scheduler

open Fallible

variable {P : Type} {t : Topology P}

namespace TraceEvent

/-- What an observer concludes about a system. Marks and unmarks have to
alternate. -/
def observe (n : Node) (runnable : Bool) : TraceEvent P → Option Bool
  | .markRunnable node =>
    if node = n then if runnable then none else some true else some runnable
  | .unmarkRunnable node =>
    if node = n then if runnable then some false else none else some runnable
  | _ => some runnable

def completion : TraceEvent P → Option (Node × Nat)
  | .completeSystem node remaining => some (node, remaining)
  | _ => none

/-- The events within a step. -/
def isInner : TraceEvent P → Bool
  | .markRunnable _ | .unmarkRunnable _ | .partition _ _ => true
  | _ => false

end TraceEvent

namespace Tracer

def replay (tracer : Tracer P) (n : Node) : Option Bool :=
  tracer.foldlM (TraceEvent.observe n) false

/-- The completed systems, each with the number of remaining ones. -/
def completions (tracer : Tracer P) : List (Node × Nat) :=
  tracer.filterMap TraceEvent.completion

theorem replay_append (tracer more : Tracer P) (n : Node) :
    Tracer.replay (tracer ++ more) n =
      (tracer.replay n).bind fun runnable => more.foldlM (TraceEvent.observe n) runnable := by
  rw [replay, List.foldlM_append]
  rfl

theorem completions_append (tracer more : Tracer P) :
    Tracer.completions (tracer ++ more) = tracer.completions ++ Tracer.completions more :=
  List.filterMap_append

theorem completions_inner {more : Tracer P} (inner : ∀ e ∈ more, e.isInner = true) :
    Tracer.completions more = [] := by
  apply List.filterMap_eq_nil_iff.mpr
  intro e member
  have inner := inner e member
  cases e with
  | markRunnable | unmarkRunnable | partition => rfl
  | stealReturnComplete | stealReturnPending | completeSystem => cases inner

end Tracer

/-- A node that has no blockers, or had none when it was stolen. -/
def WakeupState.opened : Option WakeupState → Bool
  | some .pending | some .started | some .completed => true
  | some (.blocked _) | none => false

def Planner.opened (p : Planner) (n : Node) : Bool := WakeupState.opened (p.state n)

theorem opened_setState (p : Planner) (m n : Node) (w : WakeupState) :
    (p.setState m w).opened n = if n = m then WakeupState.opened (some w) else p.opened n := by
  rw [Planner.opened, state_setState]
  split
  · rfl
  · rfl

/-- What happens to the planner and the trace within a step, as far as systems
are concerned. -/
structure Follows (s s' : Planner × Tracer P) : Prop where
  replay : ∀ n, n.isSystem = true → s.2.replay n = some (s.1.opened n) →
    s'.2.replay n = some (s'.1.opened n)
  completed : ∀ n, n.isSystem = true →
    (s'.1.state n = some .completed ↔ s.1.state n = some .completed)
  remaining : s'.1.remainingSystems = s.1.remainingSystems
  inner : ∃ more, s'.2 = s.2 ++ more ∧ ∀ e ∈ more, e.isInner = true

namespace Follows

variable {s s' s'' : Planner × Tracer P}

theorem refl (s : Planner × Tracer P) : Follows s s :=
  ⟨fun _ _ same => same, fun _ _ => Iff.rfl, rfl, [], (List.append_nil _).symm, nofun⟩

theorem trans (first : Follows s s') (second : Follows s' s'') : Follows s s'' := by
  constructor
  · intro n system told
    exact second.replay n system (first.replay n system told)
  · intro n system
    rw [second.completed n system, first.completed n system]
  · rw [second.remaining, first.remaining]
  · obtain ⟨more, grown, inner⟩ := first.inner
    obtain ⟨more', grown', inner'⟩ := second.inner
    refine ⟨more ++ more', ?_, ?_⟩
    · rw [grown', grown, List.append_assoc]
    · intro e member
      obtain here | there := List.mem_append.mp member
      · exact inner e here
      · exact inner' e there

/-- A change of the state of one node, and what the trace says of it. -/
inductive Tells (n : Node) (v w : WakeupState) : Tracer P → Prop
  | quiet (same : WakeupState.opened (some v) = WakeupState.opened (some w)) : Tells n v w []
  | mark (before : WakeupState.opened (some v) = false)
      (after : WakeupState.opened (some w) = true) : Tells n v w [.markRunnable n]
  | unmark (before : WakeupState.opened (some v) = true)
      (after : WakeupState.opened (some w) = false) : Tells n v w [.unmarkRunnable n]

theorem Tells.observed {n : Node} {v w : WakeupState} {more : Tracer P} (told : Tells n v w more)
    (m : Node) (runnable : Bool)
    (here : m = n → runnable = WakeupState.opened (some v)) :
    more.foldlM (TraceEvent.observe m) runnable =
      some (if m = n then WakeupState.opened (some w) else runnable) := by
  by_cases same : m = n
  · subst same
    rw [here rfl, if_pos rfl]
    cases told with
    | quiet same => exact congrArg some same
    | mark before after => simp [TraceEvent.observe, before, after]
    | unmark before after => simp [TraceEvent.observe, before, after]
  · rw [if_neg same]
    cases told with
    | quiet => rfl
    | mark | unmark => simp [TraceEvent.observe, Ne.symm same]

theorem Tells.isInner {n : Node} {v w : WakeupState} {more : Tracer P} (told : Tells n v w more) :
    ∀ e ∈ more, e.isInner = true := by
  cases told with
  | quiet => exact nofun
  | mark | unmark => simp [TraceEvent.isInner]

theorem changed {p p' : Planner} {m : Node} {v w : WakeupState} {more : Tracer P}
    (tracer : Tracer P) (old : p.state m = some v)
    (states : ∀ n, p'.state n = (p.setState m w).state n)
    (remaining : p'.remainingSystems = p.remainingSystems) (told : Tells m v w more)
    (left : v ≠ .completed) (waits : w ≠ .completed) :
    Follows (p, tracer) (p', tracer ++ more) := by
  constructor
  · intro n _ same
    have opened : p'.opened n = (p.setState m w).opened n := by
      rw [Planner.opened, states, Planner.opened]
    rw [Tracer.replay_append, same, opened, opened_setState]
    apply told.observed
    intro here
    rw [here, Planner.opened, old]
  · intro n _
    rw [states, state_setState]
    split
    · rename_i here
      subst here
      simp [old, left, waits]
    · rfl
  · exact remaining
  · exact ⟨more, rfl, told.isInner⟩

end Follows

theorem takeRunnable_keeps {p p' : Planner} {pool : Pool} {index : Nat}
    (h : p.takeRunnable pool index = .ok p') :
    (∀ n, p'.state n = p.state n) ∧ p'.remainingSystems = p.remainingSystems := by
  unfold Planner.takeRunnable at h
  split at h
  · cases h
    cases pool <;> exact ⟨fun _ => rfl, rfl⟩
  · cases h

theorem insertRunnable_keeps {p p' : Planner} {pool : Pool} {index : Nat}
    (h : p.insertRunnable pool index = .ok p') :
    (∀ n, p'.state n = p.state n) ∧ p'.remainingSystems = p.remainingSystems := by
  unfold Planner.insertRunnable at h
  split at h
  · cases h
  · cases h
    cases pool <;> exact ⟨fun _ => rfl, rfl⟩

theorem blockExclusion_follows {s s' : Planner × Tracer P} {excl : Node}
    (h : Planner.blockExclusion s excl = .ok s') : Follows s s' := by
  obtain ⟨p, tracer⟩ := s
  unfold Planner.blockExclusion at h
  obtain ⟨w, found, h⟩ := bind_eq_ok.mp h
  have old : p.state excl = some w := expect_eq_ok.mp found
  cases w with
  | pending =>
    have told : Follows.Tells (P := P) excl .pending (.blocked 1) [.unmarkRunnable excl] :=
      .unmark rfl rfl
    cases excl with
    | sendSystem index | unsendSystem index =>
      obtain ⟨q, taken, h⟩ := bind_eq_ok.mp h
      cases h
      obtain ⟨states, remaining⟩ := takeRunnable_keeps taken
      exact .changed tracer old states remaining told (by simp) (by simp)
    | partition index => cases h
  | blocked count =>
    cases h
    have told : Follows.Tells (P := P) excl (.blocked count) (.blocked (count + 1)) [] := .quiet rfl
    have quiet := Follows.changed tracer old (fun _ => rfl) rfl told (by simp) (by simp)
    rwa [List.append_nil] at quiet
  | started => cases h
  | completed =>
    cases h
    exact .refl _

/-- A steal that returns a system only unmarks others. -/
theorem steal_follows {p p' : Planner} {tracer tracer' : Tracer P} {thread : Thread} {pool : Pool}
    {index : Nat} (h : p.steal tracer thread t pool = .ok (.ready index, p', tracer')) :
    Follows (p, tracer) (p', tracer') := by
  unfold Planner.steal at h
  split at h
  · cases h
  · dsimp only at h
    split at h
    · cases h
    · rename_i index rest popped
      obtain ⟨w, found, h⟩ := bind_eq_ok.mp h
      have old : (p.setPool pool rest).state (pool.toNode index) = some w := expect_eq_ok.mp found
      cases w with
      | pending =>
        obtain ⟨q, begun, h⟩ := bind_eq_ok.mp h
        cases begun
        obtain ⟨exclusions, -, h⟩ := bind_eq_ok.mp h
        obtain ⟨⟨p₁, tracer₁⟩, blocked, h⟩ := bind_eq_ok.mp h
        cases h
        rw [state_setPool] at old
        have told : Follows.Tells (P := P) (pool.toNode index) .pending .started [] := .quiet rfl
        have started : Follows (p, tracer)
            ((p.setPool pool rest).setState (pool.toNode index) .started, tracer) := by
          have quiet : Follows (p, tracer)
              ((p.setPool pool rest).setState (pool.toNode index) .started, tracer ++ []) :=
            Follows.changed (w := .started) tracer old (by simp) (by cases pool <;> rfl) told (by simp)
              (by simp)
          rwa [List.append_nil] at quiet
        apply foldlM_ok blocked (fun _ s => Follows (p, tracer) s)
        · exact started
        · intro past excl s s' _ followed step
          exact followed.trans (blockExclusion_follows step)
      | blocked count => cases h
      | started => cases h
      | completed => cases h

/-- A steal that returns nothing says why. -/
theorem steal_nothing {p p' : Planner} {tracer tracer' : Tracer P} {thread : Thread} {pool : Pool}
    {result : StealResult} (h : p.steal tracer thread t pool = .ok (result, p', tracer'))
    (nothing : result = .pending ∨ result = .cycleComplete) : p' = p ∧
      (tracer' = tracer ++ [.stealReturnPending thread] ∨
        p.remainingSystems = 0 ∧ tracer' = tracer ++ [.stealReturnComplete thread]) := by
  unfold Planner.steal at h
  split at h
  · rename_i none
    cases h
    exact ⟨rfl, .inr ⟨none, rfl⟩⟩
  · dsimp only at h
    split at h
    · cases h
      exact ⟨rfl, .inl rfl⟩
    · obtain ⟨w, -, h⟩ := bind_eq_ok.mp h
      cases w with
      | pending =>
        obtain ⟨q, -, h⟩ := bind_eq_ok.mp h
        obtain ⟨exclusions, -, h⟩ := bind_eq_ok.mp h
        obtain ⟨⟨p₁, tracer₁⟩, -, h⟩ := bind_eq_ok.mp h
        cases h
        obtain pending | complete := nothing
        · cases pending
        · cases complete
      | blocked count => cases h
      | started => cases h
      | completed => cases h

theorem removeOneBlock_follows {p p' : Planner} {tracer tracer' : Tracer P} {node : Node}
    {more : List Node} (h : p.removeOneBlockNoRecursion tracer node t = .ok (p', tracer', more)) :
    Follows (p, tracer) (p', tracer') := by
  unfold Planner.removeOneBlockNoRecursion at h
  obtain ⟨w, found, h⟩ := bind_eq_ok.mp h
  have old : p.state node = some w := expect_eq_ok.mp found
  cases w with
  | completed =>
    cases h
    exact .refl _
  | pending => cases h
  | started => cases h
  | blocked count =>
    dsimp only at h
    split at h
    · cases h
      have told : Follows.Tells (P := P) node (.blocked count) (.blocked (count - 1)) [] := .quiet rfl
      have quiet := Follows.changed tracer old (fun _ => rfl) rfl told (by simp) (by simp)
      rwa [List.append_nil] at quiet
    · have told : Follows.Tells (P := P) node (.blocked count) .pending [.markRunnable node] :=
        .mark rfl rfl
      cases node with
      | sendSystem index | unsendSystem index =>
        obtain ⟨q, inserted, h⟩ := bind_eq_ok.mp h
        cases h
        obtain ⟨states, remaining⟩ := insertRunnable_keeps inserted
        exact .changed tracer old states remaining told (by simp) (by simp)
      | partition index =>
        obtain ⟨partition, -, h⟩ := bind_eq_ok.mp h
        obtain ⟨dependents, -, h⟩ := bind_eq_ok.mp h
        cases h
        have other : ∀ n : Node, n.isSystem = true → n ≠ .partition index := by
          intro n system same
          rw [same] at system
          cases system
        refine ⟨?_, ?_, rfl, _, rfl, by simp [TraceEvent.isInner]⟩
        · intro n system same
          rw [Tracer.replay_append, same, opened_setState, if_neg (other n system)]
          rfl
        · intro n system
          rw [state_setState, if_neg (other n system)]

theorem removeLoop_follows (n : Nat) {s s' : Planner × Tracer P} {queue : List Node}
    (h : Planner.removeLoop t n s queue = .ok s') : Follows s s' := by
  induction n generalizing s queue with
  | zero =>
    unfold Planner.removeLoop at h
    split at h
    · cases h
      exact .refl _
    · cases h
  | succ n ih =>
    unfold Planner.removeLoop at h
    split at h
    · cases h
      exact .refl _
    · obtain ⟨⟨p₁, tracer₁, more⟩, removed, h⟩ := bind_eq_ok.mp h
      exact (removeOneBlock_follows removed).trans (ih h)

/-- What a completion tells: the systems that become runnable, and then itself
and how many are left. -/
structure Finishes (node : Node) (s s' : Planner × Tracer P) : Prop where
  started : s.1.state node = some .started
  replay : ∀ n, n.isSystem = true → s.2.replay n = some (s.1.opened n) →
    s'.2.replay n = some (s'.1.opened n)
  completed : ∀ n, n.isSystem = true →
    (s'.1.state n = some .completed ↔ n = node ∨ s.1.state n = some .completed)
  remaining : s.1.remainingSystems = s'.1.remainingSystems + 1
  events : ∃ inner, (∀ e ∈ inner, e.isInner = true) ∧
    s'.2 = s.2 ++ (inner ++ [.completeSystem node s'.1.remainingSystems])

theorem complete_finishes {p p' : Planner} {tracer tracer' : Tracer P} {node : Node}
    (h : p.complete tracer node t = .ok (p', tracer')) : Finishes node (p, tracer) (p', tracer') := by
  unfold Planner.complete at h
  obtain ⟨w, found, h⟩ := bind_eq_ok.mp h
  have old : p.state node = some w := expect_eq_ok.mp found
  cases w with
  | started =>
    obtain ⟨q, marked, h⟩ := bind_eq_ok.mp h
    cases marked
    obtain ⟨dependents, -, h⟩ := bind_eq_ok.mp h
    obtain ⟨⟨p₁, tracer₁⟩, first, h⟩ := bind_eq_ok.mp h
    obtain ⟨exclusions, -, h⟩ := bind_eq_ok.mp h
    obtain ⟨⟨p₂, tracer₂⟩, second, h⟩ := bind_eq_ok.mp h
    dsimp only at h
    split at h
    · cases h
    · rename_i positive
      cases h
      have follows := (removeLoop_follows _ first).trans (removeLoop_follows _ second)
      obtain ⟨inner, grown, plain⟩ := follows.inner
      dsimp only at grown
      constructor
      · exact old
      · intro n system same
        have before : tracer.replay n = some ((p.setState node .completed).opened n) := by
          rw [same, opened_setState]
          split
          · rename_i here
            rw [here, Planner.opened, old]
            rfl
          · rfl
        have told := follows.replay n system before
        rw [Tracer.replay_append, told]
        rfl
      · intro n system
        have kept := follows.completed n system
        rw [state_setState] at kept
        change p₂.state n = some .completed ↔ _
        rw [kept]
        split
        · rename_i here
          simp [here]
        · rename_i other
          simp [other]
      · have kept : p₂.remainingSystems = p.remainingSystems := follows.remaining
        dsimp only
        omega
      · refine ⟨inner, plain, ?_⟩
        rw [grown, List.append_assoc]
  | pending => cases h
  | blocked count => cases h
  | completed => cases h

/-! ## Cycles -/

/-- The numbers of remaining systems, after each completion. -/
def countdown (total completed : Nat) : List Nat :=
  (List.range completed).map fun i => total - 1 - i

/-- What the trace of a cycle tells. -/
structure Cycle.Told (total : Nat) (c : Cycle P) : Prop where
  replay : ∀ n, n.isSystem = true → c.tracer.replay n = some (c.planner.opened n)
  once : (c.tracer.completions.map (·.1)).Nodup
  completed : ∀ n, n.isSystem = true →
    (n ∈ c.tracer.completions.map (·.1) ↔ c.planner.state n = some .completed)
  remaining : c.planner.remainingSystems + c.tracer.completions.length = total
  counted : c.tracer.completions.map (·.2) = countdown total c.tracer.completions.length
  closed : ∀ thread before after, c.tracer = before ++ .stealReturnComplete thread :: after →
    (Tracer.completions before).length = total

/-- An event in a longer trace is one of the new ones or was there before. -/
theorem split_append {α : Type} {l more before after : List α} {a : α}
    (same : l ++ more = before ++ a :: after) :
    (∃ rest, l = before ++ a :: rest) ∨ ∃ first, before = l ++ first ∧ more = first ++ a :: after := by
  obtain ⟨rest, first, second⟩ | ⟨rest, first, second⟩ := List.append_eq_append_iff.mp same
  · exact .inr ⟨rest, first, second⟩
  · cases rest with
    | nil => exact .inr ⟨[], by simpa using first.symm, by simpa using second.symm⟩
    | cons b rest =>
      cases second
      exact .inl ⟨rest, first⟩

theorem Cycle.Told.grow {total : Nat} {c c' : Cycle P} {more : Tracer P} (told : c.Told total)
    (grown : c'.tracer = c.tracer ++ more)
    (open' : ∀ e ∈ more, ∀ thread, e ≠ .stealReturnComplete thread) :
    ∀ thread before after, c'.tracer = before ++ .stealReturnComplete thread :: after →
      (Tracer.completions before).length = total := by
  intro thread before after same
  rw [grown] at same
  obtain ⟨rest, whole⟩ | ⟨first, -, last⟩ := split_append same
  · exact told.closed thread before rest whole
  · have member : TraceEvent.stealReturnComplete thread ∈ more := by
      rw [last]
      exact List.mem_append_right _ List.mem_cons_self
    exact absurd rfl (open' _ member thread)

/-- A step that completes nothing. -/
theorem Cycle.Told.silent {total : Nat} {c c' : Cycle P} (told : c.Told total)
    (replay : ∀ n, n.isSystem = true → c'.tracer.replay n = some (c'.planner.opened n))
    (completed : ∀ n, n.isSystem = true →
      (c'.planner.state n = some .completed ↔ c.planner.state n = some .completed))
    (remaining : c'.planner.remainingSystems = c.planner.remainingSystems)
    (same : c'.tracer.completions = c.tracer.completions)
    (closed : ∀ thread before after, c'.tracer = before ++ .stealReturnComplete thread :: after →
      (Tracer.completions before).length = total) : c'.Told total := by
  constructor
  · exact replay
  · rw [same]
    exact told.once
  · intro n system
    rw [same, completed n system]
    exact told.completed n system
  · rw [same, remaining]
    exact told.remaining
  · rw [same]
    exact told.counted
  · exact closed

theorem step_told {total : Nat} {c c' : Cycle P} (systems : ∀ e ∈ c.held, e.2.isSystem = true)
    (step : c.Step t c') (told : c.Told total) : c'.Told total := by
  cases step with
  | poll thread pool run nothing =>
    obtain ⟨rfl, pending | ⟨none, complete⟩⟩ := steal_nothing run nothing
    · subst pending
      apply told.silent
      · intro n system
        rw [Tracer.replay_append, told.replay n system]
        rfl
      · exact fun _ _ => Iff.rfl
      · rfl
      · exact (Tracer.completions_append _ _).trans (List.append_nil _)
      · exact told.grow rfl (by simp)
    · subst complete
      apply told.silent
      · intro n system
        rw [Tracer.replay_append, told.replay n system]
        rfl
      · exact fun _ _ => Iff.rfl
      · rfl
      · exact (Tracer.completions_append _ _).trans (List.append_nil _)
      · intro thread' before after same
        obtain ⟨rest, whole⟩ | ⟨first, whole, last⟩ := split_append same
        · exact told.closed thread' before rest whole
        · cases first with
          | nil =>
            rw [List.append_nil] at whole
            have remaining := told.remaining
            rw [none, Nat.zero_add] at remaining
            rw [whole, remaining]
          | cons e first =>
            have lengths := congrArg List.length last
            simp at lengths
  | steal thread pool run =>
    have follows := steal_follows run
    obtain ⟨more, grown, inner⟩ := follows.inner
    apply told.silent
    · intro n system
      exact follows.replay n system (told.replay n system)
    · exact follows.completed
    · exact follows.remaining
    · dsimp only at grown ⊢
      rw [grown, Tracer.completions_append, Tracer.completions_inner inner, List.append_nil]
    · apply told.grow grown
      rintro e member thread' rfl
      cases inner _ member
  | @complete thread node planner tracer holds run =>
    have finishes := complete_finishes run
    obtain ⟨inner, plain, grown⟩ := finishes.events
    dsimp only at grown
    have completions : Tracer.completions tracer =
        c.tracer.completions ++ [(node, planner.remainingSystems)] := by
      rw [grown, Tracer.completions_append, Tracer.completions_append,
        Tracer.completions_inner plain]
      rfl
    have system := systems _ holds
    have fresh : node ∉ c.tracer.completions.map (·.1) := by
      rw [told.completed node system, finishes.started]
      simp
    have before := told.remaining
    have left := finishes.remaining
    dsimp only at left
    constructor
    · intro n system
      exact finishes.replay n system (told.replay n system)
    · dsimp only
      rw [completions, List.map_append, List.nodup_append]
      refine ⟨told.once, List.nodup_singleton _, ?_⟩
      rintro a member b last rfl
      cases List.mem_singleton.mp last
      exact fresh member
    · intro n system
      dsimp only
      rw [completions, List.map_append, List.mem_append, told.completed n system,
        finishes.completed n system, or_comm]
      simp
    · dsimp only
      rw [completions, List.length_append, List.length_singleton]
      omega
    · dsimp only
      rw [completions, List.map_append, told.counted, List.length_append, List.length_singleton,
        countdown, countdown, List.range_succ, List.map_append]
      congr 1
      simp only [List.map_cons, List.map_nil, List.cons.injEq, and_true]
      omega
    · apply told.grow grown
      intro e member thread' same
      rw [same] at member
      obtain member | member := List.mem_append.mp member
      · cases plain _ member
      · cases List.mem_singleton.mp member

/-- Marks of different nodes. -/
theorem replay_marks (n : Node) {l : List Node} (nodup : l.Nodup) (runnable : Bool)
    (fresh : runnable = true → n ∉ l) :
    (l.map (TraceEvent.markRunnable (P := P))).foldlM (TraceEvent.observe n) runnable =
      some (runnable || decide (n ∈ l)) := by
  induction l generalizing runnable with
  | nil => simp
  | cons m l ih =>
    obtain ⟨absent, nodup⟩ := List.nodup_cons.mp nodup
    rw [List.map_cons, List.foldlM_cons]
    by_cases here : m = n
    · subst here
      cases runnable with
      | true => exact absurd List.mem_cons_self (fresh rfl)
      | false =>
        simp only [TraceEvent.observe, if_pos]
        change (l.map _).foldlM _ true = _
        rw [ih nodup true fun _ => absent]
        simp
    · simp only [TraceEvent.observe, if_neg here]
      change (l.map _).foldlM _ runnable = _
      rw [ih nodup runnable fun marked member => fresh marked (List.mem_cons_of_mem _ member)]
      simp [Ne.symm here]

/-- The systems in the pools, in the order in which a cycle marks them first. -/
def Planner.marked (p : Planner) : List Node :=
  p.sendRunnable.toList.map .sendSystem ++ p.unsendRunnable.toList.map .unsendSystem

theorem marked_nodup (p : Planner) : p.marked.Nodup := by
  apply List.Nodup.append
  · exact p.sendRunnable.nodup.map fun _ _ same => Node.sendSystem.inj same
  · exact p.unsendRunnable.nodup.map fun _ _ same => Node.unsendSystem.inj same
  · intro n send unsend
    obtain ⟨i, -, rfl⟩ := List.mem_map.mp send
    obtain ⟨j, -, same⟩ := List.mem_map.mp unsend
    cases same

theorem mem_marked {p : Planner} {pool : Pool} {i : Nat} :
    pool.toNode i ∈ p.marked ↔ i ∈ p.pool pool := by
  cases pool with
  | send => simp [Planner.marked, Planner.pool, Pool.toNode]
  | unsend => simp [Planner.marked, Planner.pool, Pool.toNode]

section
variable [DecidableEq P] {b : Builder P} {it : HashOrders}

/-- At first a system is unblocked exactly if it is in its pool. -/
theorem initial_opened (built : Built b) (accepted : b.build it = .ok t) {n : Node}
    (system : n.isSystem = true) :
    t.initialPlanner.opened n = decide (n ∈ t.initialPlanner.marked) := by
  obtain ⟨-, states, pools, -⟩ := build_parts built accepted
  obtain ⟨pool, i, rfl⟩ := exists_toNode system
  have pending : pool.toNode i ∈ t.initialPlanner.marked ↔
      t.initialPlanner.state (pool.toNode i) = some .pending := mem_marked.trans (pools pool i)
  rw [Planner.opened, Bool.eq_iff_iff, decide_eq_true_eq, pending]
  cases state : t.initialPlanner.state (pool.toNode i) with
  | none => simp [WakeupState.opened]
  | some w =>
    rw [Planner.state, states] at state
    split at state
    · cases state
      cases initial : initialState (pool.toNode i) (untrimmed b.orders (pool.toNode i)) with
      | pending => simp [WakeupState.opened, initial]
      | blocked count => simp [WakeupState.opened, initial]
      | started => exact absurd initial initialState_started
      | completed =>
        rw [initialState_completed, system] at initial
        cases initial.2
    · cases state

theorem startCycle_told (built : Built b) (accepted : b.build it = .ok t) {c : Cycle P}
    (begun : t.startCycle = .ok c) : c.Told (b.nodes.countP (·.isSystem)) := by
  obtain ⟨-, states, -, remaining⟩ := build_parts built accepted
  have idle : ∀ n, n.isSystem = true → t.initialPlanner.state n ≠ some .completed := by
    intro n system completed
    rw [Planner.state, states] at completed
    split at completed
    · rw [Option.some.injEq, initialState_completed, system] at completed
      cases completed.2
    · cases completed
  have start : c = ⟨t.initialPlanner, t.initialPlanner.marked.map .markRunnable, [], []⟩ := by
    unfold Topology.startCycle at begun
    rw [deplessPars_nil accepted] at begun
    cases begun
    simp [Planner.marked, Function.comp_def]
  subst start
  have inner : ∀ e ∈ t.initialPlanner.marked.map (TraceEvent.markRunnable (P := P)),
      e.isInner = true := by
    intro e member
    obtain ⟨n, -, rfl⟩ := List.mem_map.mp member
    rfl
  have none := Tracer.completions_inner inner
  constructor
  · intro n system
    rw [initial_opened built accepted system]
    have marks := replay_marks (P := P) n (marked_nodup t.initialPlanner) false
      (by simp)
    rw [Bool.false_or] at marks
    exact marks
  · rw [none]
    exact List.nodup_nil
  · intro n system
    rw [none]
    simp [idle n system]
  · rw [none]
    exact remaining
  · rw [none]
    rfl
  · intro thread before after same
    have member : TraceEvent.stealReturnComplete thread ∈
        t.initialPlanner.marked.map (TraceEvent.markRunnable (P := P)) := by
      dsimp only at same
      rw [same]
      exact List.mem_append_right _ List.mem_cons_self
    cases inner _ member

theorem run_told (built : Built b) (accepted : b.build it = .ok t) {past : List (Cycle P)}
    {c : Cycle P} (run : Cycle.Run t past c) : c.Told (b.nodes.countP (·.isSystem)) := by
  induction run with
  | start begun => exact startCycle_told built accepted begun
  | next run step ih =>
    have inv := (run_tallied built accepted run _ List.mem_cons_self).inv
    apply step_told _ step ih
    intro e member
    exact inv.balanced.isSystem_of_started (inv.held e member)

/-- **A trace tells the cycle.** In every state of every run of a cycle, the
marks and unmarks of a system in the trace alternate, and they end with a mark
if and only if the system is in its pool or was stolen. The completed systems
are traced once each, and the numbers of remaining systems count down to the one
the planner has. A thread is told that the cycle is complete only after all
systems have completed. -/
theorem trace_replayed (built : Built b) (accepted : b.build it = .ok t)
    {past : List (Cycle P)} {c : Cycle P} (run : Cycle.Run t past c) :
    (∀ pool i, ∃ runnable, c.tracer.replay (pool.toNode i) = some runnable ∧
      (runnable = true ↔ i ∈ c.planner.pool pool ∨
        c.planner.state (pool.toNode i) = some .started ∨
        c.planner.state (pool.toNode i) = some .completed)) ∧
    ((c.tracer.completions.map (·.1)).Nodup ∧ ∀ n, n.isSystem = true →
      (n ∈ c.tracer.completions.map (·.1) ↔ c.planner.state n = some .completed)) ∧
    (c.planner.remainingSystems + c.tracer.completions.length = b.nodes.countP (·.isSystem) ∧
      c.tracer.completions.map (·.2) =
        countdown (b.nodes.countP (·.isSystem)) c.tracer.completions.length) ∧
    ∀ thread before after, c.tracer = before ++ .stealReturnComplete thread :: after →
      (Tracer.completions before).length = b.nodes.countP (·.isSystem) := by
  have told := run_told built accepted run
  have inv := (run_tallied built accepted run c List.mem_cons_self).inv
  refine ⟨?_, ⟨told.once, told.completed⟩, ⟨told.remaining, told.counted⟩, told.closed⟩
  intro pool i
  refine ⟨_, told.replay _ (toNode_isSystem pool i), ?_⟩
  rw [inv.balanced.pools pool i, Planner.opened]
  cases c.planner.state (pool.toNode i) with
  | none => simp [WakeupState.opened]
  | some w => cases w <;> simp [WakeupState.opened]

end

def writersTopology : Topology Nat := (writers.build .insertion).toOption.get rfl

/-- After the first writer, the second is stolen. -/
theorem trace_replayed_writers : ∃ past c, Cycle.Run writersTopology past c ∧
    c.tracer.replay (.sendSystem 1) = some true ∧
    c.planner.remainingSystems + c.tracer.completions.length = 2 ∧
    c.tracer.completions.length = 1 := by
  obtain ⟨past, c, run, started, one⟩ : ∃ past c, Cycle.Run writersTopology past c ∧
      c.planner.state (.sendSystem 1) = some .started ∧ c.tracer.completions.length = 1 :=
    ⟨_, _, .next (.next (.next (.start rfl) (.steal .main .send rfl))
      (.complete .main (.sendSystem 0) (by decide) rfl)) (.steal (.worker 0) .send rfl), rfl, rfl⟩
  have accepted : writers.build .insertion = .ok writersTopology := rfl
  obtain ⟨replays, -, ⟨remaining, -⟩, -⟩ := trace_replayed writers_built accepted run
  obtain ⟨runnable, replayed, told⟩ := replays .send 1
  refine ⟨past, c, run, ?_, remaining, one⟩
  rw [told.mpr (.inr (.inl started))] at replayed
  exact replayed

end Dynec.Scheduler
