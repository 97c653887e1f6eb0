import Dynec.Scheduler.Exclusions
import Dynec.Scheduler.Trimming

/-!
# Which schedules are accepted

A schedule is built if and only if its orders have no cycle. The build panics
for no other reason, whatever the iteration order of its hash maps.
-/

namespace Dynec.Scheduler

open Fallible

variable {nodes : List Node} {orders : List Order}

/-- The scan of the orders of a schedule. -/
theorem scan_cases {map : HashMap Node (List Node)}
    (inside : ∀ o ∈ orders, o.before ∈ nodes ∧ o.after ∈ nodes)
    (built : buildDependentsMap nodes orders = .ok map) :
    scanCycles map = .ok () ∧ (∀ n, ¬ Relation.TransGen (Precedes orders) n n) ∨
    ∃ chain, scanCycles map = .error (.cyclicDependency chain) ∧
      DirectedCycle (Precedes orders) chain := by
  have table := buildDependentsMap_ok built
  have keys := table.mem_keys
  have edges := dependentsIn_iff (fun o listed => (inside o listed).1) table
  have closed : ∀ a ∈ map.keys, ∀ b ∈ dependentsIn map a, b ∈ map.keys := by
    intro a _ b member
    obtain ⟨o, listed, -, rfl⟩ := (edges a b).mp member
    exact (keys _).mpr (inside o listed).2
  have size : (SortedSet.empty.extend map.keys).size ≤ map.keys.length := by
    apply ((SortedSet.nodup _).subperm fun n member => ?_).length_le
    simpa using member
  rcases scanLoop_cases closed map.keys.length (.start map) rfl size with
    passed | ⟨chain, failed, cycle⟩
  · left
    refine ⟨passed, ?_⟩
    obtain ⟨rank, ranked⟩ := scanCycles_ranked passed
    apply acyclic_of_ranked rank
    intro o listed
    exact ranked _ ((keys _).mpr (inside o listed).1) _ ((edges _ _).mpr ⟨o, listed, rfl, rfl⟩)
  · right
    have same : (fun a b => b ∈ dependentsIn map a) = Precedes orders := by
      funext a b
      exact propext (edges a b)
    exact ⟨chain, failed, same ▸ cycle⟩

/-- Orders that lead to or from systems only never lead from a partition to
another. -/
theorem single_of_systems
    (systems : ∀ o ∈ orders, o.before.isSystem = true ∨ o.after.isSystem = true) :
    Single orders := by
  intro o listed _ _ clear instant
  rcases systems o listed with system | system
  · rw [clear.1] at system
    cases system
  · rw [instant] at system
    cases system

theorem buildInitials_total (it : HashOrders) {dependents : HashMap Node (List Node)}
    (inside : ∀ o ∈ orders, o.before ∈ nodes ∧ o.after ∈ nodes) (single : Single orders)
    (built : buildDependentsMap nodes orders = .ok dependents) :
    ∃ result, buildInitials it nodes orders dependents = .ok result := by
  obtain ⟨m, counting⟩ := countDependency_total fun o listed => (inside o listed).2
  have counted := countDependency_ok counting
  have work : Worklist nodes orders _ := worklist_arrange it.deplessPars counted
  obtain ⟨m', popped, trim, -, -⟩ := trimLoop_total inside work counted single
    (buildDependentsMap_ok built) ((it.deplessPars.arrange (deplessOf m)).length + orders.length)
    (.start orders m _) (fun o _ => Nat.zero_le _) (Nat.le_refl _)
  rw [buildInitials, counting, ok_bind]
  dsimp only
  rw [trim]
  exact ⟨_, rfl⟩

/-- **Acceptance.** A schedule is built if and only if its orders have no cycle, and a
build that panics reports one of the cycles. -/
theorem build_exact {P : Type} [DecidableEq P] {b : Builder P} (built : Built b)
    (it : HashOrders) :
    ((∃ t, b.build it = .ok t) ↔ ∀ n, ¬ Relation.TransGen (Precedes b.orders) n n) ∧
    ∀ panic, b.build it = .error panic → ∃ chain, panic = .cyclicDependency chain ∧
      DirectedCycle (Precedes b.orders) chain := by
  have valid := built.valid
  obtain ⟨dependents, mapped⟩ := buildDependentsMap_total fun o listed =>
    (valid.orders_known o listed).1
  obtain ⟨⟨planner, left⟩, initials⟩ := buildInitials_total it valid.orders_known
    (single_of_systems valid.orders_system) mapped
  obtain ⟨exclusions, excluded⟩ := buildExclusions_total it fun ty node listed =>
    (valid.resources_known ty node listed).1
  have run : b.build it = (scanCycles dependents).bind fun _ =>
      .ok ⟨dependents, planner, left, b.partitions, exclusions⟩ := by
    rw [Builder.nodes] at mapped initials excluded
    simp only [Builder.build, Topology.init, mapped, ok_bind]
    cases scanCycles dependents with
    | error panic => rfl
    | ok scanned =>
      simp only [initials, excluded, ok_bind]
      rfl
  rcases scan_cases valid.orders_known mapped with ⟨passed, acyclic⟩ | ⟨chain, failed, cycle⟩
  · rw [run, passed]
    constructor
    · exact iff_of_true ⟨_, rfl⟩ acyclic
    · intro panic failed
      cases failed
  · rw [run, failed]
    constructor
    · apply iff_of_false
      · rintro ⟨t, ok⟩
        cases ok
      · intro acyclic
        obtain ⟨n, path⟩ := cycle.transGen
        exact acyclic n path
    · intro panic reported
      cases reported
      exact ⟨chain, rfl, cycle⟩

/-- Two systems on both sides of a partition, and the other way around. -/
def knotted : Builder Nat :=
  let b := ((Builder.new 1).pushSendSystem "a").2
  let b := (b.pushSendSystem "b").2
  let b := b.addDependencies [.before 7] (.sendSystem 0)
  let b := b.addDependencies [.after 7] (.sendSystem 1)
  b.addDependency (.sendSystem 1) (.sendSystem 0)

theorem knotted_built : Built knotted :=
  .addDependency (by decide) (by decide) (.inl rfl) <|
    .addDependencies (.addDependencies (.pushSendSystem "b" (.pushSendSystem "a" (.new 1)))
      [.before 7] rfl (by decide)) [.after 7] rfl (by decide)

theorem build_exact_knotted : ∃ chain,
    knotted.build .insertion = .error (.cyclicDependency chain) ∧
    DirectedCycle (Precedes knotted.orders) chain := by
  obtain ⟨accepted, reported⟩ := build_exact knotted_built .insertion
  cases run : knotted.build .insertion with
  | error panic =>
    obtain ⟨chain, rfl, cycle⟩ := reported panic run
    exact ⟨chain, rfl, cycle⟩
  | ok t =>
    have first : Precedes knotted.orders (.sendSystem 0) (.partition 0) := ⟨_, .head _, rfl, rfl⟩
    have second : Precedes knotted.orders (.partition 0) (.sendSystem 1) :=
      ⟨_, .tail _ (.head _), rfl, rfl⟩
    have third : Precedes knotted.orders (.sendSystem 1) (.sendSystem 0) :=
      ⟨_, .tail _ (.tail _ (.head _)), rfl, rfl⟩
    have path := ((Relation.TransGen.single first).tail second).tail third
    exact absurd path (accepted.mp ⟨t, run⟩ _)

end Dynec.Scheduler
