import Dynec.Scheduler.Cycle

/-! The exclusions of a schedule are the conflicts between the calls of
`use_resource` that filled the resource table. -/

namespace Dynec.Scheduler

open Fallible
open ResourceAccess (Overlap overlap_symm conflictsWith_iff conflictsWith_comm)

/-- A call of `use_resource`. -/
structure UseResource where
  node : Node
  ty : ResourceType
  access : ResourceAccess
  deriving DecidableEq, Repr

/-- The accesses of two calls must not be held together. -/
def UseResource.Conflicts (c d : UseResource) : Prop :=
  c.ty = d.ty ∧ (c.access.mutable = true ∨ d.access.mutable = true) ∧
    Overlap c.access.discrim d.access.discrim

theorem UseResource.conflicts_iff {c d : UseResource} :
    c.Conflicts d ↔ c.ty = d.ty ∧ c.access.conflictsWith d.access = true := by
  rw [Conflicts, conflictsWith_iff]

theorem UseResource.Conflicts.symm {c d : UseResource} (h : c.Conflicts d) : d.Conflicts c := by
  obtain ⟨same, unique, meet⟩ := h
  exact ⟨same.symm, unique.symm, overlap_symm meet⟩

variable {P : Type} [DecidableEq P]

/-- The builders that the calls of the crate can produce, with the calls of
`use_resource` among them. A call that panics leaves the table as it was. -/
inductive Registered : List UseResource → Builder P → Prop
  | new (concurrency : Nat) : Registered [] (.new concurrency)
  | pushSendSystem {calls : List UseResource} {b : Builder P} (name : String) :
      Registered calls b → Registered calls (b.pushSendSystem name).2
  | pushUnsendSystem {calls : List UseResource} {b : Builder P} (name : String) :
      Registered calls b → Registered calls (b.pushUnsendSystem name).2
  | pushPartition {calls : List UseResource} {b : Builder P} (par : P) :
      Registered calls b → Registered calls (b.pushPartition par).2
  | useResource {calls : List UseResource} {b b' : Builder P} (call : UseResource)
      (system : call.node.isSystem = true) (known : call.node ∈ b.nodes)
      (used : b.useResource call.node call.ty call.access = .ok b') :
      Registered calls b → Registered (calls ++ [call]) b'
  | addDependency {calls : List UseResource} {b : Builder P} {before after : Node}
      (known : before ∈ b.nodes) (known' : after ∈ b.nodes)
      (system : before.isSystem = true ∨ after.isSystem = true) :
      Registered calls b → Registered calls (b.addDependency before after)
  | setConcurrency {calls : List UseResource} {b : Builder P} (concurrency : Nat) :
      Registered calls b → Registered calls { b with concurrency }

variable {calls : List UseResource} {b : Builder P}

theorem Registered.built (registered : Registered calls b) : Built b := by
  induction registered with
  | new concurrency => exact .new concurrency
  | pushSendSystem name _ ih => exact .pushSendSystem name ih
  | pushUnsendSystem name _ ih => exact .pushUnsendSystem name ih
  | pushPartition par _ ih => exact .pushPartition par ih
  | useResource call system known used _ ih =>
    exact .useResource call.node call.ty call.access system known used ih
  | addDependency known known' system _ ih => exact .addDependency known known' system ih
  | setConcurrency concurrency _ ih => exact .setConcurrency concurrency ih

/-- Every builder of the crate comes from some calls. -/
theorem Built.registered (built : Built b) : ∃ calls, Registered calls b := by
  induction built with
  | new concurrency => exact ⟨[], .new concurrency⟩
  | pushSendSystem name _ ih =>
    obtain ⟨calls, before⟩ := ih
    exact ⟨calls, .pushSendSystem name before⟩
  | pushUnsendSystem name _ ih =>
    obtain ⟨calls, before⟩ := ih
    exact ⟨calls, .pushUnsendSystem name before⟩
  | pushPartition par _ ih =>
    obtain ⟨calls, before⟩ := ih
    exact ⟨calls, .pushPartition par before⟩
  | useResource node ty access system known used _ ih =>
    obtain ⟨calls, before⟩ := ih
    exact ⟨calls ++ [⟨node, ty, access⟩], .useResource ⟨node, ty, access⟩ system known used before⟩
  | addDependency known known' system _ ih =>
    obtain ⟨calls, before⟩ := ih
    exact ⟨calls, .addDependency known known' system before⟩
  | setConcurrency concurrency _ ih =>
    obtain ⟨calls, before⟩ := ih
    exact ⟨calls, .setConcurrency concurrency before⟩

/-- The accesses that the calls ask for, in their order. -/
def accessesOf (calls : List UseResource) (ty : ResourceType) (node : Node) :
    List ResourceAccess :=
  (calls.filter fun call => call.ty = ty ∧ call.node = node).map (·.access)

theorem mem_accessesOf {ty : ResourceType} {node : Node} {access : ResourceAccess} :
    access ∈ accessesOf calls ty node ↔ ⟨node, ty, access⟩ ∈ calls := by
  simp only [accessesOf, List.mem_map, List.mem_filter, decide_eq_true_eq]
  constructor
  · rintro ⟨call, ⟨listed, rfl, rfl⟩, rfl⟩
    exact listed
  · intro listed
    exact ⟨⟨node, ty, access⟩, ⟨listed, rfl, rfl⟩, rfl⟩

/-- The resource table records every call and nothing else. -/
theorem Registered.accesses (registered : Registered calls b) (ty : ResourceType) (node : Node) :
    b.accesses ty node = accessesOf calls ty node := by
  induction registered with
  | new concurrency => simp [Builder.new, Builder.accesses, ResourceTable.accesses, accessesOf]
  | pushSendSystem name _ ih => exact ih
  | pushUnsendSystem name _ ih => exact ih
  | @pushPartition calls b par _ ih =>
    rw [Builder.accesses, (pushPartition_keeps b par).2.2.2]
    exact ih
  | useResource call _ _ used _ ih =>
    obtain ⟨rfl, -⟩ := useResource_ok used
    rw [accesses_setAccesses, accessesOf, List.filter_append, List.map_append]
    by_cases here : ty = call.ty ∧ node = call.node
    · obtain ⟨rfl, rfl⟩ := here
      rw [if_pos ⟨rfl, rfl⟩, ih, accessesOf]
      simp
    · have other : ¬ (call.ty = ty ∧ call.node = node) := by
        rintro ⟨sameTy, sameNode⟩
        exact here ⟨sameTy.symm, sameNode.symm⟩
      rw [if_neg here, ih, accessesOf]
      simp [other]
  | addDependency _ _ _ _ ih => exact ih
  | setConcurrency concurrency _ ih => exact ih

/-- Two nodes clash in the table exactly if calls of theirs conflict. -/
theorem Registered.clash_iff (registered : Registered calls b) {m n : Node} :
    Clash b.resources m n ↔
      m ≠ n ∧ ∃ c ∈ calls, ∃ d ∈ calls, c.node = m ∧ d.node = n ∧ c.Conflicts d := by
  have stored : ∀ ty node access, access ∈ b.resources.accesses ty node ↔
      ⟨node, ty, access⟩ ∈ calls := by
    intro ty node access
    rw [← mem_accessesOf, ← registered.accesses, Builder.accesses]
  apply and_congr_right
  intro _
  constructor
  · rintro ⟨ty, conflict⟩
    obtain ⟨x, hx, y, hy, conflict⟩ := anyConflict_iff.mp conflict
    exact ⟨⟨m, ty, x⟩, (stored ty m x).mp hx, ⟨n, ty, y⟩, (stored ty n y).mp hy, rfl, rfl,
      UseResource.conflicts_iff.mpr ⟨rfl, conflict⟩⟩
  · rintro ⟨⟨m, ty, x⟩, first, ⟨n, ty', y⟩, second, rfl, rfl, both⟩
    obtain ⟨same, conflict⟩ := UseResource.conflicts_iff.mp both
    dsimp only at same conflict
    subst same
    exact ⟨ty, anyConflict_iff.mpr
      ⟨x, (stored ty m x).mpr first, y, (stored ty n y).mpr second, conflict⟩⟩

/-! ## The lists -/

/-- `exclusions[a]` contains `b`. -/
def Excludes (exclusions : HashMap Node (List Node)) (a b : Node) : Prop :=
  ∃ list, exclusions.lookup a = some list ∧ b ∈ list

/-- The exclusion lists of the nodes are the conflicts between the calls. -/
structure ConflictRelation (calls : List UseResource) (nodes : List Node)
    (exclusions : HashMap Node (List Node)) : Prop where
  known : ∀ a, (exclusions.lookup a).isSome ↔ a ∈ nodes
  symmetric : ∀ a b, Excludes exclusions a b → Excludes exclusions b a
  irreflexive : ∀ a, ¬ Excludes exclusions a a
  once : ∀ a list, exclusions.lookup a = some list → list.Nodup
  systems : ∀ a b, Excludes exclusions a b → a.isSystem = true ∧ b.isSystem = true
  conflicts : ∀ a b, a ≠ b → (Excludes exclusions a b ↔
    ∃ c ∈ calls, ∃ d ∈ calls, c.node = a ∧ d.node = b ∧ c.Conflicts d)

theorem Registered.conflictRelation (registered : Registered calls b)
    {exclusions : HashMap Node (List Node)}
    (related : Relates exclusions b.nodes (Clash b.resources)) :
    ConflictRelation calls b.nodes exclusions := by
  have valid := registered.built.valid
  have excludes : ∀ m n, Excludes exclusions m n ↔ Clash b.resources m n := by
    intro m n
    constructor
    · rintro ⟨list, found, listed⟩
      exact (related.mem m list found n).mp listed
    · intro clash
      have known := (related.known m).mpr (valid.clash_known clash).1
      obtain ⟨list, found⟩ := Option.isSome_iff_exists.mp known
      exact ⟨list, found, (related.mem m list found n).mpr clash⟩
  constructor
  case known => exact related.known
  case once => exact related.nodup
  case symmetric =>
    intro m n
    rw [excludes, excludes]
    exact Clash.symm
  case irreflexive =>
    intro n
    rw [excludes]
    exact fun clash => clash.1 rfl
  case systems =>
    intro m n
    rw [excludes]
    intro clash
    exact ⟨(valid.clash_known clash).2, (valid.clash_known clash.symm).2⟩
  case conflicts =>
    intro m n different
    rw [excludes, registered.clash_iff]
    exact and_iff_right different

/-- The topology of an accepted schedule has these lists. -/
theorem Registered.topology (registered : Registered calls b) {it : HashOrders} {t : Topology P}
    (accepted : b.build it = .ok t) : ConflictRelation calls b.nodes t.exclusions :=
  registered.conflictRelation (build_parts registered.built accepted).1.exclusions

/-! ## The order of iteration -/

/-- The same table, with its entries in any order. -/
def ResourceTable.Rearranges (resources resources' : ResourceTable) : Prop :=
  ∀ ty node, ((resources'.lookup ty).getD ∅).lookup node =
    ((resources.lookup ty).getD ∅).lookup node

theorem clash_rearranged {resources resources' : ResourceTable}
    (table : resources.Rearranges resources') (m n : Node) :
    Clash resources' m n ↔ Clash resources m n := by
  simp only [Clash, ResourceTable.accesses, table _ _]

/-- **Exclusions.** Whatever order the tables are iterated in, the exclusions
can be built, and they are the conflicts between the calls. Which of two
accesses is compared with the other does not matter. -/
theorem exclusions_exact (registered : Registered calls b) :
    (∀ it resources, b.resources.Rearranges resources →
      ∃ exclusions, buildExclusions it b.nodes resources = .ok exclusions ∧
        ConflictRelation calls b.nodes exclusions) ∧
    ∀ x y : ResourceAccess, (x.checkConflictsWith y).isOk = (y.checkConflictsWith x).isOk := by
  constructor
  · intro it resources table
    have inside : ∀ ty node, ((resources.lookup ty).getD ∅).lookup node ≠ none →
        node ∈ b.nodes := by
      intro ty node present
      rw [table ty node] at present
      exact (registered.built.valid.resources_known ty node present).1
    obtain ⟨exclusions, run⟩ := buildExclusions_total it inside
    have related := (buildExclusions_ok run).congr (clash_rearranged table)
    exact ⟨exclusions, run, registered.conflictRelation related⟩
  · intro x y
    apply Bool.not_inj
    exact conflictsWith_comm x y

/-- Three systems with an isotope: the first writes two discriminants, the
second reads one of them and the third reads all. -/
def isotopeCalls : List UseResource :=
  [⟨.sendSystem 0, .isotope ⟨0⟩ ⟨1⟩, .withDiscrim true (some [1, 2])⟩,
    ⟨.sendSystem 1, .isotope ⟨0⟩ ⟨1⟩, .withDiscrim false (some [2])⟩,
    ⟨.unsendSystem 0, .isotope ⟨0⟩ ⟨1⟩, .withDiscrim false none⟩]

def isotopeUsers : Builder Nat :=
  let b := ((Builder.new 2).pushSendSystem "a").2
  let b := (b.pushSendSystem "b").2
  let b := (b.pushUnsendSystem "c").2
  let b := b.setAccesses (.isotope ⟨0⟩ ⟨1⟩) (.sendSystem 0) [.withDiscrim true (some [1, 2])]
  let b := b.setAccesses (.isotope ⟨0⟩ ⟨1⟩) (.sendSystem 1) [.withDiscrim false (some [2])]
  b.setAccesses (.isotope ⟨0⟩ ⟨1⟩) (.unsendSystem 0) [.withDiscrim false none]

theorem isotopeUsers_registered : Registered isotopeCalls isotopeUsers :=
  .useResource ⟨.unsendSystem 0, _, .withDiscrim false none⟩ rfl (by decide) rfl <|
    .useResource ⟨.sendSystem 1, _, .withDiscrim false (some [2])⟩ rfl (by decide) rfl <|
      .useResource ⟨.sendSystem 0, _, .withDiscrim true (some [1, 2])⟩ rfl (by decide) rfl <|
        .pushUnsendSystem "c" (.pushSendSystem "b" (.pushSendSystem "a" (.new 2)))

theorem exclusions_exact_isotopes : ∃ exclusions,
    buildExclusions .insertion isotopeUsers.nodes isotopeUsers.resources = .ok exclusions ∧
    Excludes exclusions (.unsendSystem 0) (.sendSystem 0) ∧
    ¬ Excludes exclusions (.unsendSystem 0) (.sendSystem 1) ∧
    ConflictRelation isotopeCalls isotopeUsers.nodes exclusions := by
  obtain ⟨exclusions, run, relation⟩ := (exclusions_exact isotopeUsers_registered).1
    .insertion isotopeUsers.resources fun _ _ => rfl
  cases run
  refine ⟨_, rfl, ⟨_, rfl, by decide⟩, ?_, relation⟩
  rintro ⟨list, found, listed⟩
  cases found
  revert listed
  decide

end Dynec.Scheduler
