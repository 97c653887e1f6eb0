import Dynec.Lib.Work
import Dynec.Scheduler.Conflicts
import Dynec.Scheduler.Termination

/-!
# What the systems of a cycle do to the store

The threads work on one store of globals, component storages and system states,
a step of one system between any two steps of others. If every system keeps to
the accesses it asked for, the store ends as if the systems had run one at a
time, in the order in which they were stolen.
-/

namespace Dynec.Scheduler

open ResourceAccess (Overlap)

/-! ## Systems on a store -/

/-- The storage of a resource under a discriminant. -/
structure Cell where
  ty : ResourceType
  discrim : Nat
  deriving DecidableEq, Repr

/-- The discriminants of an access. -/
def ResourceAccess.Covers (access : ResourceAccess) (discrim : Nat) : Prop :=
  ∀ list, access.discrim = some list → discrim ∈ list

/-- The shared storages, and the state of each system. -/
structure Memory (L V : Type) where
  state : Node → L
  cells : Cell → V

/-- The next atomic step of each system, from its state and the storages. -/
abbrev Body (L V : Type) := Node → L → (Cell → V) → Option (L × (Cell → V))

def Body.work {L V : Type} (body : Body L V) : Work Node (Memory L V) where
  step node memory := (body node (memory.state node) memory.cells).map fun (state, cells) =>
    ⟨Function.update memory.state node state, cells⟩

section
variable (calls : List UseResource)

def Reads (node : Node) (cell : Cell) : Prop :=
  ∃ call ∈ calls, call.node = node ∧ call.ty = cell.ty ∧ call.access.Covers cell.discrim

def Writes (node : Node) (cell : Cell) : Prop :=
  ∃ call ∈ calls, call.node = node ∧ call.ty = cell.ty ∧ call.access.mutable = true ∧
    call.access.Covers cell.discrim

/-- Each system writes and reads within the accesses that it asked for. -/
structure Confined {L V : Type} (body : Body L V) : Prop where
  writes : ∀ node state cells state' cells', body node state cells = some (state', cells') →
    ∀ cell, ¬ Writes calls node cell → cells' cell = cells cell
  reads : ∀ node state cells other, (∀ cell, Reads calls node cell → cells cell = other cell) →
    (body node state cells = none → body node state other = none) ∧
    ∀ state' cells', body node state cells = some (state', cells') →
      ∃ other', body node state other = some (state', other') ∧
        ∀ cell, Writes calls node cell → cells' cell = other' cell

end

theorem covers_overlap {a b : ResourceAccess} {discrim : Nat} (ha : a.Covers discrim)
    (hb : b.Covers discrim) : Overlap a.discrim b.discrim := by
  unfold ResourceAccess.Covers at ha hb
  cases hda : a.discrim with
  | none => trivial
  | some l =>
    cases hdb : b.discrim with
    | none => trivial
    | some l' => exact ⟨discrim, ha l hda, hb l' hdb⟩

variable {P L V : Type} [DecidableEq P] {calls : List UseResource} {b : Builder P}

/-- Systems that do not clash share no storage that one of them writes. -/
theorem Registered.private (registered : Registered calls b) {m n : Node} (differ : m ≠ n)
    (free : ¬ Clash b.resources m n) {cell : Cell} (writes : Writes calls m cell) :
    ¬ Reads calls n cell := by
  rintro ⟨d, listed', rfl, same', covers'⟩
  obtain ⟨c, listed, rfl, same, unique, covers⟩ := writes
  apply free
  rw [registered.clash_iff]
  exact ⟨differ, c, listed, d, listed', rfl, rfl, same.trans same'.symm, .inl unique,
    covers_overlap covers covers'⟩

theorem Writes.reads {node : Node} {cell : Cell} (writes : Writes calls node cell) :
    Reads calls node cell := by
  obtain ⟨call, listed, same, ty, -, covers⟩ := writes
  exact ⟨call, listed, same, ty, covers⟩

theorem work_step {body : Body L V} {node : Node} {memory memory' : Memory L V} :
    body.work.step node memory = some memory' ↔ ∃ state cells,
      body node (memory.state node) memory.cells = some (state, cells) ∧
      memory' = ⟨Function.update memory.state node state, cells⟩ := by
  simp only [Body.work, Option.map_eq_some_iff, Prod.exists]
  constructor
  · rintro ⟨state, cells, step, rfl⟩
    exact ⟨state, cells, step, rfl⟩
  · rintro ⟨state, cells, step, rfl⟩
    exact ⟨state, cells, step, rfl⟩

theorem work_none {body : Body L V} {node : Node} {memory : Memory L V} :
    body.work.step node memory = none ↔ body node (memory.state node) memory.cells = none := by
  simp [Body.work]

/-- Systems that do not clash do not notice each other. -/
theorem Confined.apart {body : Body L V} (confined : Confined calls body)
    (registered : Registered calls b) {m n : Node} (differ : m ≠ n)
    (free : ¬ Clash b.resources m n) : body.work.Apart m n := by
  have free' : ¬ Clash b.resources n m := fun clash => free clash.symm
  intro s t step
  obtain ⟨state, cells, run, rfl⟩ := work_step.mp step
  have unread : ∀ cell, Reads calls n cell → s.cells cell = cells cell := by
    intro cell reads
    refine (confined.writes m _ _ _ _ run cell fun writes => ?_).symm
    exact registered.private differ free writes reads
  constructor
  · intro ends
    rw [work_none] at ends ⊢
    dsimp only
    rw [Function.update_of_ne differ.symm]
    exact (confined.reads n _ _ _ unread).1 ends
  · intro u next
    obtain ⟨state', cells', run', rfl⟩ := work_step.mp next
    have unread' : ∀ cell, Reads calls m cell → s.cells cell = cells' cell := by
      intro cell reads
      refine (confined.writes n _ _ _ _ run' cell fun writes => ?_).symm
      exact registered.private differ.symm free' writes reads
    obtain ⟨after, second, written⟩ := (confined.reads n _ _ _ unread).2 _ _ run'
    obtain ⟨after', first, written'⟩ := (confined.reads m _ _ _ unread').2 _ _ run
    have same : after' = after := by
      funext cell
      by_cases mine : Writes calls m cell
      · rw [← written' cell mine]
        refine (confined.writes n _ _ _ _ second cell fun writes => ?_).symm
        exact registered.private differ free mine writes.reads
      · rw [confined.writes m _ _ _ _ first cell mine]
        by_cases yours : Writes calls n cell
        · exact written cell yours
        · rw [confined.writes n _ _ _ _ second cell yours,
            confined.writes n _ _ _ _ run' cell yours, confined.writes m _ _ _ _ run cell mine]
    refine ⟨⟨Function.update (Function.update s.state m state) n state', after⟩, ?_, ?_⟩
    · rw [work_step]
      refine ⟨state', after, ?_, rfl⟩
      dsimp only
      rw [Function.update_of_ne differ.symm]
      exact second
    · rw [work_step]
      refine ⟨state, after', ?_, ?_⟩
      · dsimp only
        rw [Function.update_of_ne differ]
        exact first
      · rw [same, Function.update_comm differ]

/-! ## The order of the starts -/

/-- What the list of the steals says about a cycle under way. -/
structure Cycle.History (nodes : List Node) (orders : List Order) (clash : Node → Node → Prop)
    (c : Cycle P) : Prop where
  free : c.returned.Pairwise fun later earlier =>
    earlier ∈ c.held.map (·.2) → ¬ clash earlier later
  order : c.returned.Pairwise fun later earlier =>
    ¬ Relation.TransGen (jobs orders clash).before later earlier
  known : ∀ n ∈ c.returned, n ∈ nodes
  stolen : ∀ n ∈ c.held.map (·.2), n ∈ c.returned
  covers : ∀ n ∈ nodes, n.isSystem = true → c.planner.status n ≠ .waiting → n ∈ c.returned

section
variable {t : Topology P} {nodes : List Node} {orders : List Order} {clash : Node → Node → Prop}
  {c c' : Cycle P}

omit [DecidableEq P] in
theorem step_history (sound : t.Sound nodes orders clash) (step : c.Step t c')
    (inv : c.Inv t nodes orders clash) (history : c.History nodes orders clash) :
    c'.History nodes orders clash := by
  have inv' := step_inv sound step inv
  cases step with
  | poll thread pool run nothing =>
    have same := (steal_stolen sound inv.balanced run).2.2.same nothing
    subst same
    exact ⟨history.free, history.order, history.known, history.stolen, history.covers⟩
  | @steal thread pool index planner tracer run =>
    cases (steal_stolen sound inv.balanced run).2.2 with
    | ready i _ old status =>
      have waits : c.planner.status (pool.toNode index) = .waiting := by
        rw [Planner.status, old]; rfl
      have fresh : pool.toNode index ∉ c.returned := fun mem => (inv.returned _ mem).2 waits
      constructor
      · apply List.pairwise_cons.mpr
        constructor
        · intro earlier mem held clash
          rcases List.mem_cons.mp held with rfl | held
          · exact fresh mem
          · obtain ⟨e, he, rfl⟩ := List.mem_map.mp held
            have other := sound.clash_ne _ _ clash
            apply Jobs.exclusive sound.clash_symm inv'.jobs clash other
            constructor
            · exact status_running.mpr (inv'.held e (List.mem_cons_of_mem _ he))
            · exact status_running.mpr (inv'.held (thread, pool.toNode index) List.mem_cons_self)
        · apply history.free.imp_of_mem
          intro later earlier _ mem old held
          apply old ((List.mem_cons.mp held).resolve_left _)
          rintro rfl
          exact fresh mem
      · apply List.pairwise_cons.mpr
        constructor
        · intro earlier mem chain
          have done := Jobs.ordered sound.clash_symm inv.jobs chain (inv.returned _ mem).2
          rw [waits] at done
          cases done
        · exact history.order
      · intro n mem
        rcases List.mem_cons.mp mem with rfl | mem
        · exact (inv.balanced.known _).mp (by rw [old]; rfl)
        · exact history.known n mem
      · intro n held
        rcases List.mem_cons.mp held with rfl | held
        · exact List.mem_cons_self
        · exact List.mem_cons_of_mem _ (history.stolen n held)
      · intro n known system moved
        rw [status] at moved
        by_cases here : n = pool.toNode index
        · exact here ▸ List.mem_cons_self
        · rw [Function.update_of_ne here] at moved
          exact List.mem_cons_of_mem _ (history.covers n known system moved)
  | complete thread node holds run =>
    obtain ⟨-, -, -, systems⟩ :=
      complete_completed sound inv.balanced inv.remaining (inv.held _ holds) run
    have fewer : ∀ n, n ∈ (c.held.erase (thread, node)).map (·.2) → n ∈ c.held.map (·.2) :=
      fun n mem => (List.erase_sublist.map _).subset mem
    constructor
    · apply history.free.imp
      intro later earlier old held
      exact old (fewer _ held)
    · exact history.order
    · exact history.known
    · intro n held
      exact history.stolen n (fewer n held)
    · intro n known system moved
      rw [systems n system] at moved
      split at moved
      · rename_i same
        exact history.stolen n (same ▸ List.mem_map_of_mem holds)
      · exact history.covers n known system moved

end

section
variable {it : HashOrders} {t : Topology P} {c : Cycle P}

/-- No system has started or completed before the first steal. -/
theorem initial_waiting (built : Built b) (accepted : b.build it = .ok t) {n : Node}
    (known : n ∈ b.nodes) (system : n.isSystem = true) :
    t.initialPlanner.status n = .waiting := by
  obtain ⟨-, states, -, -⟩ := build_parts built accepted
  cases status : t.initialPlanner.status n with
  | waiting => rfl
  | running => exact absurd status ((initial_jobs built accepted).idle n)
  | done =>
    rw [status_done, Planner.state, states n, if_pos known, Option.some.injEq,
      initialState_completed, system] at status
    simp at status

theorem reachable_history (built : Built b) (accepted : b.build it = .ok t)
    (reached : Cycle.Reachable t c) : c.History b.nodes b.orders (Clash b.resources) := by
  induction reached with
  | start =>
    constructor
    · exact .nil
    · exact .nil
    · intro n stolen
      cases stolen
    · intro n held
      cases held
    · intro n known system moved
      exact absurd (initial_waiting built accepted known system) moved
  | next reached step ih =>
    exact step_history (build_parts built accepted).1 step (reachable_inv built accepted reached) ih

end

/-! ## Runs on a store -/

namespace Execution

/-- A run of the threads of a cycle on a store `S`. A system that a thread runs
takes its steps until it has none left. -/
inductive WorkRun {S : Type} (t : Topology P) (concurrency : Nat) (work : Work Node S)
    (first : S) : Execution P → S → Prop
  | start : WorkRun t concurrency work first (.start t concurrency) first
  | step (thread : Thread) {action : Action} {e e' : Execution P} {s : S} :
      WorkRun t concurrency work first e s → e.Step t concurrency thread action e' →
      (∀ node, e.pc thread = .running node → work.step node s = none) →
      WorkRun t concurrency work first e' s
  | work (thread : Thread) {node : Node} {e : Execution P} {s s' : S} :
      WorkRun t concurrency work first e s → e.pc thread = .running node →
      work.step node s = some s' → WorkRun t concurrency work first e s'

/-- No thread is still in the closure of a node. -/
def Ended (e : Execution P) (node : Node) : Prop := ∀ thread, e.pc thread ≠ .running node

section
variable {S : Type} {t : Topology P} {concurrency : Nat} {work : Work Node S} {first s : S}
  {e e' : Execution P} {it : HashOrders} {thread : Thread} {action : Action}

omit [DecidableEq P] in
theorem WorkRun.inv (run : WorkRun t concurrency work first e s) : e.Inv t concurrency := by
  induction run with
  | start => exact start_inv t concurrency
  | step _ _ step _ ih => exact step_keeps step ih
  | work _ _ _ _ ih => exact ih

omit [DecidableEq P] in
/-- A thread leaves the closure of a node only by its own step. -/
theorem step_ended (step : e.Step t concurrency thread action e') {node : Node}
    (ended : e'.Ended node) : e.Ended node ∨ e.pc thread = .running node := by
  by_cases here : e.pc thread = .running node
  · exact .inr here
  · left
    intro other runs
    have ne : other ≠ thread := by
      rintro rfl
      exact here runs
    apply ended other
    rcases (step_others step ne).2.2 with same | ⟨-, notified⟩
    · rw [same, runs]
    · rw [notified, runs]
      rfl

/-- The systems stolen after a running one are apart from it. -/
theorem Inv.apart_later (inv : e.Inv t concurrency) (built : Built b)
    (accepted : b.build it = .ok t)
    (apart : ∀ m n, m ≠ n → ¬ Clash b.resources m n → work.Apart m n) {node : Node}
    (runs : e.pc thread = .running node) : e.cycle.returned.Pairwise fun later earlier =>
      earlier = node → work.Apart later node ∧ work.Apart node later := by
  have history := reachable_history built accepted inv.cycle
  have once := (reachable_inv built accepted inv.cycle).once
  have held : node ∈ e.cycle.held.map (·.2) :=
    List.mem_map_of_mem ((inv.held thread node).mp (by rw [runs]; rfl))
  apply List.Pairwise.imp₂ ?_ once history.free
  rintro later earlier differ free rfl
  constructor
  · exact apart later earlier differ fun clash => free held clash.symm
  · exact apart earlier later differ.symm (free held)

theorem WorkRun.trail (built : Built b) (accepted : b.build it = .ok t)
    (apart : ∀ m n, m ≠ n → ¬ Clash b.resources m n → work.Apart m n)
    (run : WorkRun t concurrency work first e s) :
    work.Trail e.Ended e.cycle.returned first s := by
  induction run with
  | start => exact .nil _
  | @step thread action e e' s run step ends ih =>
    have kept : work.Trail e'.Ended e.cycle.returned first s := by
      by_cases closure : ∃ node, e.pc thread = .running node
      · obtain ⟨node, runs⟩ := closure
        have later := run.inv.apart_later built accepted apart runs
        have finished := ih.finish (later.imp fun h same => (h same).1) (ends node runs)
        apply finished.mono
        intro n _ ended
        rcases step_ended step ended with before | here
        · exact .inl before
        · rw [runs, Pc.running.injEq] at here
          exact .inr here.symm
      · apply ih.mono
        intro n _ ended
        exact (step_ended step ended).resolve_right fun runs => closure ⟨n, runs⟩
    cases step with
    | @ready pool index planner tracer polled steal =>
      apply kept.start
      intro ended
      apply ended thread
      simp [moved]
    | lock | pending | cycleComplete | startWait | park | timeOut | finish | complete => exact kept
  | @work thread node e s s' run runs step ih =>
    have later := run.inv.apart_later built accepted apart runs
    have stolen : node ∈ e.cycle.returned := by
      apply (reachable_history built accepted run.inv.cycle).stolen
      exact List.mem_map_of_mem ((run.inv.held thread node).mp (by rw [runs]; rfl))
    apply ih.act stolen (fun ended => ended thread runs) ?_ step
    apply later.imp
    rintro _ _ h rfl
    exact h rfl

end

end Execution

/-! ## Serial orders -/

/-- An order of all systems in which none comes before a system it depends on. -/
structure SerialOrder (b : Builder P) (order : List Node) : Prop where
  systems : ∀ n, n ∈ order ↔ n ∈ b.nodes ∧ n.isSystem = true
  once : order.Nodup
  respects : order.Pairwise fun earlier later =>
    ¬ Relation.TransGen (jobs b.orders (Clash b.resources)).before later earlier

section
variable {t : Topology P} {it : HashOrders} {c : Cycle P}

/-- When no system is left, all have been stolen and none is held. -/
theorem complete_order (built : Built b) (accepted : b.build it = .ok t)
    (reached : Cycle.Reachable t c) (complete : c.planner.remainingSystems = 0) :
    c.held = [] ∧ SerialOrder b c.returned.reverse := by
  have inv := reachable_inv built accepted reached
  have history := reachable_history built accepted reached
  have sound := (build_parts built accepted).1
  have completed := all_completed sound inv complete
  constructor
  · apply List.eq_nil_iff_forall_not_mem.mpr
    intro e held
    have started := inv.held e held
    have among := (inv.balanced.known e.2).mp (by rw [started]; rfl)
    rw [completed e.2 among] at started
    cases started
  · constructor
    · intro n
      rw [List.mem_reverse]
      constructor
      · intro stolen
        exact ⟨history.known n stolen, (inv.returned n stolen).1⟩
      · rintro ⟨among, system⟩
        apply history.covers n among system
        rw [Planner.status, completed n among]
        simp [WakeupState.status]
    · exact List.nodup_reverse.mpr inv.once
    · exact List.pairwise_reverse.mpr history.order

end

section
variable {t t' : Topology P} {it it' : HashOrders} {concurrency concurrency' : Nat}
  {body : Body L V} {first s s' : Memory L V} {e e' : Execution P}

/-- While no system is held, the store is what serial work leaves. -/
theorem Execution.WorkRun.serial (run : Execution.WorkRun t concurrency body.work first e s)
    (registered : Registered calls b) (accepted : b.build it = .ok t)
    (confined : Confined calls body) (quiet : e.cycle.held = []) :
    body.work.Serial e.cycle.returned.reverse first s := by
  have trail := run.trail registered.built accepted fun _ _ => confined.apart registered
  apply trail.serial
  intro n _ thread runs
  have held := (run.inv.held thread n).mp (by rw [runs]; rfl)
  rw [quiet] at held
  cases held

/-- Serial orders agree when the dependencies order all systems that clash. -/
theorem SerialOrder.agree (registered : Registered calls b) (confined : Confined calls body)
    (ordered : ∀ m n, Clash b.resources m n →
      Relation.TransGen (jobs b.orders (Clash b.resources)).before m n ∨
      Relation.TransGen (jobs b.orders (Clash b.resources)).before n m)
    {ms ns : List Node} (hm : SerialOrder b ms) (hn : SerialOrder b ns)
    (serial : body.work.Serial ms first s) (serial' : body.work.Serial ns first s') : s = s' := by
  have perm : ms.Perm ns := by
    apply (List.perm_ext_iff_of_nodup hm.once hn.once).mpr
    intro n
    rw [hm.systems, hn.systems]
  apply Work.serial_perm ?_ perm hm.once hm.respects hn.respects serial serial'
  intro m n differ
  by_cases clash : Clash b.resources m n
  · exact .inr (ordered m n clash)
  · exact .inl (confined.apart registered differ clash)

/-- **Serialization.** However the threads interleave, the store of a cycle is
what the systems leave when they run one at a time in the order of the steals,
and that order keeps the dependencies. -/
theorem cycle_serializable (registered : Registered calls b) (accepted : b.build it = .ok t)
    (confined : Confined calls body)
    (run : Execution.WorkRun t concurrency body.work first e s) :
    (e.cycle.held = [] → body.work.Serial e.cycle.returned.reverse first s) ∧
    (e.cycle.planner.remainingSystems = 0 →
      e.cycle.held = [] ∧ SerialOrder b e.cycle.returned.reverse) :=
  ⟨run.serial registered accepted confined,
    complete_order registered.built accepted run.inv.cycle⟩

/-- **Determinacy.** When the dependencies order all systems that clash, every
complete cycle leaves the same store, whatever the threads and the hash orders. -/
theorem cycle_determinate (registered : Registered calls b) (accepted : b.build it = .ok t)
    (accepted' : b.build it' = .ok t') (confined : Confined calls body)
    (ordered : ∀ m n, Clash b.resources m n →
      Relation.TransGen (jobs b.orders (Clash b.resources)).before m n ∨
      Relation.TransGen (jobs b.orders (Clash b.resources)).before n m)
    (run : Execution.WorkRun t concurrency body.work first e s)
    (run' : Execution.WorkRun t' concurrency' body.work first e' s')
    (complete : e.cycle.planner.remainingSystems = 0)
    (complete' : e'.cycle.planner.remainingSystems = 0) : s = s' := by
  obtain ⟨quiet, order⟩ := complete_order registered.built accepted run.inv.cycle complete
  obtain ⟨quiet', order'⟩ := complete_order registered.built accepted' run'.inv.cycle complete'
  exact order.agree registered confined ordered order'
    (run.serial registered accepted confined quiet)
    (run'.serial registered accepted' confined quiet')

end

/-! ## Two systems in a row -/

/-- Two systems that write one global state, the second after the first. -/
def pipeline : Builder Nat :=
  let b := ((Builder.new 1).pushSendSystem "a").2
  let b := (b.pushSendSystem "b").2
  let b := b.setAccesses (.global ⟨0⟩) (.sendSystem 0) [.new true]
  let b := b.setAccesses (.global ⟨0⟩) (.sendSystem 1) [.new true]
  b.addDependency (.sendSystem 0) (.sendSystem 1)

def pipelineCalls : List UseResource :=
  [⟨.sendSystem 0, .global ⟨0⟩, .new true⟩, ⟨.sendSystem 1, .global ⟨0⟩, .new true⟩]

theorem pipeline_registered : Registered pipelineCalls pipeline :=
  .addDependency (by decide) (by decide) (.inl rfl) <|
    .useResource ⟨.sendSystem 1, .global ⟨0⟩, .new true⟩ rfl (by decide) rfl <|
      .useResource ⟨.sendSystem 0, .global ⟨0⟩, .new true⟩ rfl (by decide) rfl <|
        .pushSendSystem "b" (.pushSendSystem "a" (.new 1))

def pipelineTopology : Topology Nat := (pipeline.build .insertion).toOption.get rfl

theorem pipeline_accepted : pipeline.build .insertion = .ok pipelineTopology := rfl

def pipelineCell : Cell := ⟨.global ⟨0⟩, 0⟩

/-- The first system adds one to the global state, the second one doubles it.
Each has a step to make until its own state is set. -/
def pipelineBody : Body Bool Nat := fun node done cells =>
  match done, node with
  | false, .sendSystem 0 =>
    some (true, Function.update cells pipelineCell (cells pipelineCell + 1))
  | false, .sendSystem 1 =>
    some (true, Function.update cells pipelineCell (cells pipelineCell * 2))
  | _, _ => none

theorem pipeline_step (node : Node) (done : Bool) :
    (∀ cells, pipelineBody node done cells = none) ∨ Writes pipelineCalls node pipelineCell ∧
      ∃ f : Nat → Nat, ∀ cells, pipelineBody node done cells =
        some (true, Function.update cells pipelineCell (f (cells pipelineCell))) := by
  have covers : (ResourceAccess.new true).Covers 0 := fun _ none => by cases none
  cases done with
  | true => exact .inl fun _ => rfl
  | false =>
    rcases node with (_ | _ | i) | i | i
    · right
      exact ⟨⟨_, List.mem_cons_self, rfl, rfl, rfl, covers⟩, (· + 1), fun _ => rfl⟩
    · right
      exact ⟨⟨_, List.mem_cons_of_mem _ List.mem_cons_self, rfl, rfl, rfl, covers⟩, (· * 2),
        fun _ => rfl⟩
    all_goals exact .inl fun _ => rfl

theorem pipeline_confined : Confined pipelineCalls pipelineBody := by
  constructor
  · intro node state cells state' cells' step cell unwritten
    rcases pipeline_step node state with ends | ⟨writes, f, all⟩
    · rw [ends] at step; cases step
    · rw [all] at step
      cases step
      rw [Function.update_of_ne]
      rintro rfl
      exact unwritten writes
  · intro node state cells other same
    rcases pipeline_step node state with ends | ⟨writes, f, all⟩
    · rw [ends]
      exact ⟨fun _ => ends other, fun _ _ step => by cases step⟩
    · rw [all cells]
      constructor
      · intro ends
        cases ends
      · intro state' cells' step
        cases step
        refine ⟨_, all other, fun cell written => ?_⟩
        rw [same pipelineCell writes.reads]
        by_cases here : cell = pipelineCell
        · subst here
          simp
        · rw [Function.update_of_ne here, Function.update_of_ne here]
          exact same cell written.reads

namespace Execution

/-- The main thread is alone and runs both systems. -/
theorem pipeline_alone : ∃ e s, WorkRun pipelineTopology 0 pipelineBody.work
    ⟨fun _ => false, fun _ => 3⟩ e s ∧ e.cycle.planner.remainingSystems = 0 ∧
    e.cycle.held = [] ∧ e.cycle.returned.reverse = [.sendSystem 0, .sendSystem 1] ∧
    s.cells pipelineCell = 8 := by
  have steals : WorkRun pipelineTopology 0 pipelineBody.work ⟨fun _ => false, fun _ => 3⟩ _ _ :=
    .step .main (.step .main (.step .main .start (.lock rfl rfl) (by rintro node ⟨⟩))
      (.pending rfl rfl) (by rintro node ⟨⟩)) (.ready rfl rfl) (by rintro node ⟨⟩)
  have completes : WorkRun pipelineTopology 0 pipelineBody.work
      ⟨fun _ => false, fun _ => 3⟩ _ _ :=
    .step .main (.step .main (.step .main (.work .main steals rfl rfl) (.finish rfl)
      (by rintro node ⟨⟩; rfl)) (.lock rfl rfl) (by rintro node ⟨⟩))
      (.complete rfl rfl) (by rintro node ⟨⟩)
  have stealsAgain : WorkRun pipelineTopology 0 pipelineBody.work
      ⟨fun _ => false, fun _ => 3⟩ _ _ :=
    .step .main (.step .main completes (.pending rfl rfl) (by rintro node ⟨⟩))
      (.ready rfl rfl) (by rintro node ⟨⟩)
  have completesAgain : WorkRun pipelineTopology 0 pipelineBody.work
      ⟨fun _ => false, fun _ => 3⟩ _ _ :=
    .step .main (.step .main (.step .main (.work .main stealsAgain rfl rfl) (.finish rfl)
      (by rintro node ⟨⟩; rfl)) (.lock rfl rfl) (by rintro node ⟨⟩))
      (.complete rfl rfl) (by rintro node ⟨⟩)
  exact ⟨_, _, completesAgain, rfl, rfl, rfl, rfl⟩

/-- A worker runs both systems, while the main thread waits. -/
theorem pipeline_worker : ∃ e s, WorkRun pipelineTopology 1 pipelineBody.work
    ⟨fun _ => false, fun _ => 3⟩ e s ∧ e.cycle.planner.remainingSystems = 0 ∧
    e.pc .main = .notified := by
  have parks : WorkRun pipelineTopology 1 pipelineBody.work ⟨fun _ => false, fun _ => 3⟩ _ _ :=
    .step .main (.step .main (.step .main (.step .main .start (.lock rfl rfl)
      (by rintro node ⟨⟩)) (.pending rfl rfl) (by rintro node ⟨⟩)) (.startWait rfl rfl)
      (by rintro node ⟨⟩)) (.park rfl) (by rintro node ⟨⟩)
  have steals : WorkRun pipelineTopology 1 pipelineBody.work ⟨fun _ => false, fun _ => 3⟩ _ _ :=
    .step (.worker 0) (.step (.worker 0) parks (.lock rfl rfl) (by rintro node ⟨⟩))
      (.ready rfl rfl) (by rintro node ⟨⟩)
  have completes : WorkRun pipelineTopology 1 pipelineBody.work
      ⟨fun _ => false, fun _ => 3⟩ _ _ :=
    .step (.worker 0) (.step (.worker 0) (.step (.worker 0) (.work (.worker 0) steals rfl rfl)
      (.finish rfl) (by rintro node ⟨⟩; rfl)) (.lock rfl rfl) (by rintro node ⟨⟩))
      (.complete rfl rfl) (by rintro node ⟨⟩)
  have stealsAgain : WorkRun pipelineTopology 1 pipelineBody.work
      ⟨fun _ => false, fun _ => 3⟩ _ _ :=
    .step (.worker 0) completes (.ready rfl rfl) (by rintro node ⟨⟩)
  have completesAgain : WorkRun pipelineTopology 1 pipelineBody.work
      ⟨fun _ => false, fun _ => 3⟩ _ _ :=
    .step (.worker 0) (.step (.worker 0) (.step (.worker 0)
      (.work (.worker 0) stealsAgain rfl rfl) (.finish rfl) (by rintro node ⟨⟩; rfl))
      (.lock rfl rfl) (by rintro node ⟨⟩)) (.complete rfl rfl) (by rintro node ⟨⟩)
  exact ⟨_, _, completesAgain, rfl, rfl⟩

end Execution

theorem cycle_serializable_pipeline : ∃ s, s.cells pipelineCell = 8 ∧ pipelineBody.work.Serial
    [.sendSystem 0, .sendSystem 1] ⟨fun _ => false, fun _ => 3⟩ s ∧
    SerialOrder pipeline [.sendSystem 0, .sendSystem 1] := by
  obtain ⟨e, s, run, complete, quiet, order, value⟩ := Execution.pipeline_alone
  obtain ⟨serial, all⟩ := cycle_serializable pipeline_registered pipeline_accepted
    pipeline_confined run
  rw [← order]
  exact ⟨s, value, serial quiet, (all complete).2⟩

theorem cycle_determinate_pipeline : ∃ e e' s,
    Execution.WorkRun pipelineTopology 0 pipelineBody.work ⟨fun _ => false, fun _ => 3⟩ e s ∧
    Execution.WorkRun pipelineTopology 1 pipelineBody.work ⟨fun _ => false, fun _ => 3⟩ e' s ∧
    s.cells pipelineCell = 8 := by
  obtain ⟨e, s, run, complete, quiet, order, value⟩ := Execution.pipeline_alone
  obtain ⟨e', s', run', complete', -⟩ := Execution.pipeline_worker
  have ordered : ∀ m n, Clash pipeline.resources m n →
      Relation.TransGen (jobs pipeline.orders (Clash pipeline.resources)).before m n ∨
      Relation.TransGen (jobs pipeline.orders (Clash pipeline.resources)).before n m := by
    intro m n clash
    have order : (jobs pipeline.orders (Clash pipeline.resources)).before (.sendSystem 0)
        (.sendSystem 1) := ⟨_, List.mem_cons_self, rfl, rfl⟩
    obtain ⟨differ, c, listed, d, listed', rfl, rfl, -⟩ := pipeline_registered.clash_iff.mp clash
    simp only [pipelineCalls, List.mem_cons, List.not_mem_nil, or_false] at listed listed'
    rcases listed with rfl | rfl <;> rcases listed' with rfl | rfl
    · exact absurd rfl differ
    · exact .inl (.single order)
    · exact .inr (.single order)
    · exact absurd rfl differ
  have same : s = s' := cycle_determinate pipeline_registered pipeline_accepted
    pipeline_accepted pipeline_confined ordered run run' complete complete'
  subst same
  exact ⟨e, e', s, run, run', value⟩

end Dynec.Scheduler
