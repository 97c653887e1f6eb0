import Dynec.Scheduler.Planner

/-! The scheduler builder: systems, partitions, resource accesses and orders
are collected here, and `build` turns them into a topology. -/

namespace Dynec.Scheduler

open Fallible

inductive Dependency (P : Type) where
  -- the system must execute before the given partition
  | before (partition : P)
  -- the system must execute after the given partition
  | after (partition : P)
  deriving DecidableEq, Repr

/-- The boxed systems are kept by name only: no function modelled here runs
them. `partitions` is an insertion-ordered set. -/
structure Builder (P : Type) where
  concurrency : Nat
  sendSystems : List String
  unsendSystems : List String
  partitions : List P
  resources : ResourceTable
  orders : List Order

namespace Builder

variable {P : Type} [DecidableEq P]

def new (concurrency : Nat) : Builder P := ⟨concurrency, [], [], [], ∅, []⟩

def pushSendSystem (self : Builder P) (debugName : String) : Node × Builder P :=
  (.sendSystem self.sendSystems.length,
    { self with sendSystems := self.sendSystems ++ [debugName] })

def pushUnsendSystem (self : Builder P) (debugName : String) : Node × Builder P :=
  (.unsendSystem self.unsendSystems.length,
    { self with unsendSystems := self.unsendSystems ++ [debugName] })

/-- `insert_full`: the index of an equal partition if there is one. -/
def pushPartition (self : Builder P) (par : P) : Node × Builder P :=
  match self.partitions.idxOf? par with
  | some index => (.partition index, self)
  | none => (.partition self.partitions.length,
      { self with partitions := self.partitions ++ [par] })

def addDependency (self : Builder P) (before after : Node) : Builder P :=
  { self with orders := self.orders ++ [⟨before, after⟩] }

def addDependencyOf (self : Builder P) (systemNode : Node) (dep : Dependency P) : Builder P :=
  match dep with
  | .before partition =>
    let (partitionNode, self) := self.pushPartition partition
    self.addDependency systemNode partitionNode
  | .after partition =>
    let (partitionNode, self) := self.pushPartition partition
    self.addDependency partitionNode systemNode

def addDependencies (self : Builder P) (deps : List (Dependency P)) (systemNode : Node) :
    Builder P :=
  deps.foldl (fun self dep => self.addDependencyOf systemNode dep) self

/-- A new access is compared with the previous accesses of the same node. -/
def checkAccess (node : Node) (ty : ResourceType) (access other : ResourceAccess) :
    Except Panic Unit :=
  match access.checkConflictsWith other with
  | .ok () => .ok ()
  | .error err => .error (.accessConflict node ty err)

/-- Write the entry of a node in the table of a resource. -/
def setAccesses (self : Builder P) (ty : ResourceType) (node : Node)
    (list : List ResourceAccess) : Builder P :=
  let nodes := (self.resources.lookup ty).getD ∅
  { self with resources := self.resources.insert ty (nodes.insert node list) }

def useResource (self : Builder P) (node : Node) (ty : ResourceType) (access : ResourceAccess) :
    Except Panic (Builder P) := do
  match ((self.resources.lookup ty).getD ∅).lookup node with
  | none => return self.setAccesses ty node [access]
  | some others =>
    others.forM (checkAccess node ty access)
    return self.setAccesses ty node (others ++ [access])

def build (it : HashOrders) (self : Builder P) : Except Panic (Topology P) := do
  let topology ← Topology.init it self.sendSystems.length self.unsendSystems.length
    self.partitions self.orders self.resources
  return { topology with partitions := self.partitions }

def nodes (self : Builder P) : List Node :=
  allNodes self.sendSystems.length self.unsendSystems.length self.partitions.length

def accesses (self : Builder P) (ty : ResourceType) (node : Node) : List ResourceAccess :=
  self.resources.accesses ty node

end Builder

variable {P : Type} [DecidableEq P]

/-- The builders that the calls of the crate can produce: resources and
dependencies are those of a system that was pushed, and no caller orders two
partitions directly. -/
inductive Built : Builder P → Prop
  | new (concurrency : Nat) : Built (.new concurrency)
  | pushSendSystem {b : Builder P} (name : String) : Built b → Built (b.pushSendSystem name).2
  | pushUnsendSystem {b : Builder P} (name : String) : Built b → Built (b.pushUnsendSystem name).2
  | pushPartition {b : Builder P} (par : P) : Built b → Built (b.pushPartition par).2
  | useResource {b b' : Builder P} (node : Node) (ty : ResourceType) (access : ResourceAccess)
      (system : node.isSystem = true) (known : node ∈ b.nodes)
      (used : b.useResource node ty access = .ok b') : Built b → Built b'
  | addDependency {b : Builder P} {before after : Node} (known : before ∈ b.nodes)
      (known' : after ∈ b.nodes) (system : before.isSystem = true ∨ after.isSystem = true) :
      Built b → Built (b.addDependency before after)
  | setConcurrency {b : Builder P} (concurrency : Nat) : Built b → Built { b with concurrency }

theorem mem_allNodes {s u p : Nat} {n : Node} : n ∈ allNodes s u p ↔
    match n with
    | .sendSystem i => i < s
    | .unsendSystem i => i < u
    | .partition i => i < p := by
  cases n <;> simp [allNodes]

theorem allNodes_nodup (s u p : Nat) : (allNodes s u p).Nodup := by
  have inj1 : Function.Injective Node.sendSystem := fun _ _ h => by cases h; rfl
  have inj2 : Function.Injective Node.unsendSystem := fun _ _ h => by cases h; rfl
  have inj3 : Function.Injective Node.partition := fun _ _ h => by cases h; rfl
  unfold allNodes
  refine List.Nodup.append (List.Nodup.append (List.nodup_range.map inj1)
    (List.nodup_range.map inj2) ?_) (List.nodup_range.map inj3) ?_
  · intro a h h'; simp at h h'; grind
  · intro a h h'; simp at h h'; grind

theorem allNodes_mono {s u p s' u' p' : Nat} (hs : s ≤ s') (hu : u ≤ u') (hp : p ≤ p') {n : Node}
    (h : n ∈ allNodes s u p) : n ∈ allNodes s' u' p' := by
  rw [mem_allNodes] at h ⊢
  cases n <;> simp only at h ⊢ <;> omega

theorem pushPartition_grows (b : Builder P) (par : P) :
    b.partitions <+: (b.pushPartition par).2.partitions := by
  unfold Builder.pushPartition
  split
  · exact List.prefix_refl _
  · exact List.prefix_append _ _

theorem pushPartition_keeps (b : Builder P) (par : P) :
    (b.pushPartition par).2.sendSystems = b.sendSystems ∧
    (b.pushPartition par).2.unsendSystems = b.unsendSystems ∧
    (b.pushPartition par).2.orders = b.orders ∧
    (b.pushPartition par).2.resources = b.resources := by
  unfold Builder.pushPartition
  split <;> exact ⟨rfl, rfl, rfl, rfl⟩

/-- The node `push_partition` returns is the place of an equal partition. -/
theorem pushPartition_node (b : Builder P) (par : P) :
    ∃ i, (b.pushPartition par).1 = .partition i ∧
      (b.pushPartition par).2.partitions[i]? = some par := by
  unfold Builder.pushPartition
  split
  · rename_i index found
    refine ⟨index, rfl, ?_⟩
    obtain ⟨hlt, heq, -⟩ := List.idxOf?_eq_some_iff.mp found
    exact List.getElem?_eq_some_iff.mpr ⟨hlt, by simpa using heq⟩
  · exact ⟨b.partitions.length, rfl, by simp⟩

theorem pushPartition_nodes (b : Builder P) (par : P) {n : Node} (h : n ∈ b.nodes) :
    n ∈ (b.pushPartition par).2.nodes := by
  obtain ⟨hs, hu, -, -⟩ := pushPartition_keeps b par
  unfold Builder.nodes at h ⊢
  rw [hs, hu]
  exact allNodes_mono (Nat.le_refl _) (Nat.le_refl _) (pushPartition_grows b par).length_le h

theorem pushPartition_node_mem (b : Builder P) (par : P) :
    (b.pushPartition par).1 ∈ (b.pushPartition par).2.nodes := by
  obtain ⟨i, hi, hp⟩ := pushPartition_node b par
  rw [hi, Builder.nodes, mem_allNodes]
  exact (List.getElem?_eq_some_iff.mp hp).1

omit [DecidableEq P] in
theorem accesses_setAccesses (b : Builder P) (ty ty' : ResourceType) (node n : Node)
    (list : List ResourceAccess) : (b.setAccesses ty node list).accesses ty' n =
      if ty' = ty ∧ n = node then list else b.accesses ty' n := by
  simp only [Builder.accesses, Builder.setAccesses, ResourceTable.accesses,
    HashMap.lookup_insert_ite]
  by_cases same : ty' = ty
  · subst same
    by_cases here : n = node
    · subst here
      simp
    · simp [here]
  · simp [same]

omit [DecidableEq P] in
/-- A call of `use_resource` that returns has compared the access with every
previous one of the node, and appends it. -/
theorem useResource_ok {b b' : Builder P} {node : Node} {ty : ResourceType}
    {access : ResourceAccess} (h : b.useResource node ty access = .ok b') :
    b' = b.setAccesses ty node (b.accesses ty node ++ [access]) ∧
    ∀ other ∈ b.accesses ty node, access.conflictsWith other = false := by
  simp only [Builder.useResource, Builder.accesses, ResourceTable.accesses] at h ⊢
  split at h
  · rename_i vacant
    cases h
    simp [vacant]
  · rename_i others occupied
    obtain ⟨⟨⟩, checked, h⟩ := bind_eq_ok.mp h
    cases h
    rw [occupied]
    refine ⟨rfl, fun other ho => ?_⟩
    have hc := forM_ok checked other ho
    unfold Builder.checkAccess at hc
    split at hc
    · rename_i ok
      simp [ResourceAccess.conflictsWith, ok, Except.isOk, Except.toBool]
    · cases hc

/-- What a builder has collected refers to nodes it has. -/
structure Builder.Valid (b : Builder P) : Prop where
  orders_known : ∀ o ∈ b.orders, o.before ∈ b.nodes ∧ o.after ∈ b.nodes
  orders_system : ∀ o ∈ b.orders, o.before.isSystem = true ∨ o.after.isSystem = true
  resources_known : ∀ ty node, ((b.resources.lookup ty).getD ∅).lookup node ≠ none →
    node ∈ b.nodes ∧ node.isSystem = true

omit [DecidableEq P] in
/-- Growing the node lists keeps a builder valid. -/
theorem Builder.Valid.grow {b b' : Builder P} (hv : b.Valid) (ho : b'.orders = b.orders)
    (hr : b'.resources = b.resources) (hn : ∀ n ∈ b.nodes, n ∈ b'.nodes) : b'.Valid where
  orders_known o h := by
    rw [ho] at h
    exact ⟨hn _ (hv.orders_known o h).1, hn _ (hv.orders_known o h).2⟩
  orders_system o h := hv.orders_system o (ho ▸ h)
  resources_known ty node h := by
    rw [hr] at h
    exact ⟨hn _ (hv.resources_known ty node h).1, (hv.resources_known ty node h).2⟩

theorem Built.valid {b : Builder P} (h : Built b) : b.Valid := by
  induction h with
  | new c => exact ⟨by simp [Builder.new], by simp [Builder.new], by simp [Builder.new]⟩
  | pushSendSystem name _ ih =>
    refine ih.grow rfl rfl fun n hn => ?_
    exact allNodes_mono (by simp [Builder.pushSendSystem]) (Nat.le_refl _) (Nat.le_refl _) hn
  | pushUnsendSystem name _ ih =>
    refine ih.grow rfl rfl fun n hn => ?_
    exact allNodes_mono (Nat.le_refl _) (by simp [Builder.pushUnsendSystem]) (Nat.le_refl _) hn
  | @pushPartition b par _ ih =>
    obtain ⟨-, -, ho, hr⟩ := pushPartition_keeps b par
    exact ih.grow ho hr fun n hn => pushPartition_nodes b par hn
  | @useResource b b' node ty access system known used _ ih =>
    obtain ⟨rfl, -⟩ := useResource_ok used
    refine ⟨ih.orders_known, ih.orders_system, fun ty' node' h => ?_⟩
    · simp only [Builder.setAccesses, HashMap.lookup_insert_ite] at h
      by_cases et : ty' = ty
      · subst et
        simp only [if_true, Option.getD_some, HashMap.lookup_insert_ite] at h
        by_cases en : node' = node
        · subst en; exact ⟨known, system⟩
        · exact ih.resources_known ty' node' (by simpa [en] using h)
      · exact ih.resources_known ty' node' (by simpa [et] using h)
  | @addDependency b before after known known' system _ ih =>
    refine ⟨fun o h => ?_, fun o h => ?_, ih.resources_known⟩
    · rcases List.mem_append.mp h with h | h
      · exact ih.orders_known o h
      · cases List.mem_singleton.mp h; exact ⟨known, known'⟩
    · rcases List.mem_append.mp h with h | h
      · exact ih.orders_system o h
      · cases List.mem_singleton.mp h; exact system
  | setConcurrency c _ ih => exact ⟨ih.orders_known, ih.orders_system, ih.resources_known⟩

/-- `add_dependencies` on a known system is one of the calls above. -/
theorem Built.addDependencies {b : Builder P} (h : Built b) (deps : List (Dependency P))
    {node : Node} (system : node.isSystem = true) (known : node ∈ b.nodes) :
    Built (b.addDependencies deps node) := by
  induction deps generalizing b with
  | nil => exact h
  | cons dep deps ih =>
    have hp : ∀ par, node ∈ (b.pushPartition par).2.nodes := fun par =>
      pushPartition_nodes b par known
    refine ih (b := b.addDependencyOf node dep) ?_ ?_
    · cases dep with
      | before par =>
        exact .addDependency (hp par) (pushPartition_node_mem b par) (.inl system)
          (.pushPartition par h)
      | after par =>
        exact .addDependency (pushPartition_node_mem b par) (hp par) (.inr system)
          (.pushPartition par h)
    · cases dep with
      | before par => exact hp par
      | after par => exact hp par

end Dynec.Scheduler
