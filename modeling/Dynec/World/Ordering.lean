import Dynec.World.Builder

/-!
# Systems run in the order of their partitions

Every dependency a system declares, in its own list or through the resources
it requests, becomes an order of the schedule. Equal partitions share a node,
so declaring `before` and `after` of one partition makes a chain of two orders.
-/

namespace Dynec.World

open Fallible
open Scheduler (Node Dependency Order Built HashOrders Topology)

/-! ## What the scheduler builder records -/

section
variable {P : Type}

/-- The order that a dependency of a system stands for is recorded. -/
def Declares (b : Scheduler.Builder P) (node : Node) : Dependency P → Prop
  | .before p => ∃ i, b.partitions[i]? = some p ∧ (⟨node, .partition i⟩ : Order) ∈ b.orders
  | .after p => ∃ i, b.partitions[i]? = some p ∧ (⟨.partition i, node⟩ : Order) ∈ b.orders

structure Grows (b b' : Scheduler.Builder P) : Prop where
  partitions : b.partitions <+: b'.partitions
  orders : ∀ o ∈ b.orders, o ∈ b'.orders
  nodes : ∀ n ∈ b.nodes, n ∈ b'.nodes

theorem Grows.refl (b : Scheduler.Builder P) : Grows b b :=
  ⟨List.prefix_refl _, fun _ h => h, fun _ h => h⟩

theorem Grows.trans {b b' b'' : Scheduler.Builder P} (h : Grows b b') (h' : Grows b' b'') :
    Grows b b'' :=
  ⟨h.partitions.trans h'.partitions, fun o ho => h'.orders o (h.orders o ho),
    fun n hn => h'.nodes n (h.nodes n hn)⟩

theorem Declares.mono {b b' : Scheduler.Builder P} (h : Grows b b') {node : Node}
    {dep : Dependency P} (hd : Declares b node dep) : Declares b' node dep := by
  have keep : ∀ (i : Nat) (p : P), b.partitions[i]? = some p → b'.partitions[i]? = some p := by
    intro i p hp
    obtain ⟨rest, hr⟩ := h.partitions
    rw [← hr, List.getElem?_append_left (List.getElem?_eq_some_iff.mp hp).1, hp]
  cases dep with
  | before p =>
    obtain ⟨i, hi, ho⟩ := hd
    exact ⟨i, keep i p hi, h.orders _ ho⟩
  | after p =>
    obtain ⟨i, hi, ho⟩ := hd
    exact ⟨i, keep i p hi, h.orders _ ho⟩

variable [DecidableEq P]

/-- What registering the dependencies `deps` of a system does. -/
structure Registers (node : Node) (deps : List (Dependency P)) (b b' : Scheduler.Builder P) :
    Prop where
  built : Built b → node ∈ b.nodes → Built b'
  grows : Grows b b'
  declares : ∀ dep ∈ deps, Declares b' node dep

theorem Registers.refl (node : Node) (b : Scheduler.Builder P) : Registers node [] b b :=
  ⟨fun h _ => h, .refl b, by simp⟩

theorem Registers.trans {node : Node} {deps deps' : List (Dependency P)}
    {b b' b'' : Scheduler.Builder P} (h : Registers node deps b b')
    (h' : Registers node deps' b' b'') : Registers node (deps ++ deps') b b'' := by
  refine ⟨fun hb hn => h'.built (h.built hb hn) (h.grows.nodes _ hn), h.grows.trans h'.grows, ?_⟩
  intro dep hdep
  rcases List.mem_append.mp hdep with hdep | hdep
  · exact (h.declares dep hdep).mono h'.grows
  · exact h'.declares dep hdep

theorem pushPartition_grows' (b : Scheduler.Builder P) (par : P) :
    Grows b (b.pushPartition par).2 := by
  obtain ⟨-, -, orders, -⟩ := Scheduler.pushPartition_keeps b par
  exact ⟨Scheduler.pushPartition_grows b par, fun o ho => orders ▸ ho,
    fun n hn => Scheduler.pushPartition_nodes b par hn⟩

omit [DecidableEq P] in
theorem addDependency_grows (b : Scheduler.Builder P) (x y : Node) :
    Grows b (b.addDependency x y) :=
  ⟨List.prefix_refl _, fun _ ho => List.mem_append_left _ ho, fun _ h => h⟩

theorem addDependencyOf_declares (b : Scheduler.Builder P) (node : Node) (dep : Dependency P) :
    Grows b (b.addDependencyOf node dep) ∧ Declares (b.addDependencyOf node dep) node dep := by
  cases dep with
  | before par =>
    obtain ⟨i, hi, hp⟩ := Scheduler.pushPartition_node b par
    refine ⟨(pushPartition_grows' b par).trans (addDependency_grows _ _ _), i, hp, ?_⟩
    rw [← hi]
    exact List.mem_append_right _ (List.mem_singleton.mpr rfl)
  | after par =>
    obtain ⟨i, hi, hp⟩ := Scheduler.pushPartition_node b par
    refine ⟨(pushPartition_grows' b par).trans (addDependency_grows _ _ _), i, hp, ?_⟩
    rw [← hi]
    exact List.mem_append_right _ (List.mem_singleton.mpr rfl)

theorem addDependencies_registers {node : Node} (system : node.isSystem = true)
    (b : Scheduler.Builder P) (deps : List (Dependency P)) :
    Registers node deps b (b.addDependencies deps node) := by
  have effect : Grows b (b.addDependencies deps node) ∧
      ∀ dep ∈ deps, Declares (b.addDependencies deps node) node dep := by
    induction deps generalizing b with
    | nil => exact ⟨.refl b, by simp⟩
    | cons dep deps ih =>
      obtain ⟨grows, declared⟩ := addDependencyOf_declares b node dep
      obtain ⟨grows', declared'⟩ := ih (b.addDependencyOf node dep)
      refine ⟨grows.trans grows', fun d hd => ?_⟩
      rcases List.mem_cons.mp hd with rfl | hd
      · exact declared.mono grows'
      · exact declared' d hd
  exact ⟨fun hb hn => hb.addDependencies deps system hn, effect.1, effect.2⟩

theorem useResource_registers {node : Node} (system : node.isSystem = true)
    {b b' : Scheduler.Builder P} {ty : Scheduler.ResourceType} {access : Scheduler.ResourceAccess}
    (used : b.useResource node ty access = .ok b') : Registers node [] b b' := by
  refine ⟨fun hb hn => .useResource node ty access system hn used hb, ?_, by simp⟩
  obtain ⟨rfl, -⟩ := Scheduler.useResource_ok used
  exact ⟨List.prefix_refl _, fun _ h => h, fun _ h => h⟩

/-- Equal partitions have one node. -/
theorem partitions_nodup {b : Scheduler.Builder P} (h : Built b) : b.partitions.Nodup := by
  induction h with
  | new c => exact List.nodup_nil
  | pushSendSystem _ _ ih | pushUnsendSystem _ _ ih => exact ih
  | addDependency _ _ _ _ ih | setConcurrency _ _ ih => exact ih
  | @pushPartition b par _ ih =>
    unfold Scheduler.Builder.pushPartition
    split
    · exact ih
    · rename_i absent
      refine List.nodup_append.mpr ⟨ih, List.nodup_singleton par, ?_⟩
      intro p hp q hq
      cases List.mem_singleton.mp hq
      rintro rfl
      exact List.idxOf?_eq_none_iff.mp absent hp
  | useResource node ty access _ _ used _ ih =>
    obtain ⟨rfl, -⟩ := Scheduler.useResource_ok used
    exact ih

end

/-! ## What a system declares -/

variable {U V : Type} [DecidableEq U]

/-- The partitions a request runs before, one for each strong reference. -/
def beforeCreation (strongRefs : List DbgTypeId) : List (Dependency (Partition U)) :=
  strongRefs.map fun strongRef => .before (.entityCreation strongRef)

/-- The dependencies of a system: those of its specification, the creation of
every archetype it strongly refers to, and, for an entity creator, being after
the creation partition of its archetype. -/
def System.declared (system : System U) : List (Dependency (Partition U)) :=
  beforeCreation (system.foundArchs.filter (· ∉ system.stateMaybeUninit)) ++
  system.spec.globalRequests.flatMap (fun request => beforeCreation request.strongRefs) ++
  system.spec.simpleRequests.flatMap (fun request => beforeCreation request.strongRefs) ++
  system.spec.isotopeRequests.flatMap (fun request => beforeCreation request.strongRefs) ++
  (system.spec.entityCreatorRequests.filter (!·.noPartition)).map
    (fun request => .after (.entityCreation request.arch)) ++
  system.spec.dependencies

section
variable {node : Node} (system : node.isSystem = true)
include system

theorem addDependencies_spec (b : Builder U V) (deps : List (Dependency (Partition U))) :
    Registers node deps b.scheduler (b.addDependencies deps node).scheduler :=
  addDependencies_registers system b.scheduler deps

theorem addStrongRefs_spec (b : Builder U V) (strongRefs : List DbgTypeId) :
    Registers node (beforeCreation strongRefs) b.scheduler
      (b.addStrongRefs node strongRefs).scheduler := by
  induction strongRefs generalizing b with
  | nil => exact .refl node b.scheduler
  | cons strongRef rest ih =>
    exact (addDependencies_spec system b [.before (.entityCreation strongRef)]).trans (ih _)

theorem useResource_spec {b b' : Builder U V} {ty : Scheduler.ResourceType}
    {access : Scheduler.ResourceAccess} (used : b.useResource node ty access = .ok b') :
    Registers node [] b.scheduler b'.scheduler := by
  obtain ⟨scheduler, run, done⟩ := bind_eq_ok.mp used
  cases done
  exact useResource_registers system run

/-- A request uses a resource and then registers its strong references. -/
theorem request_spec {b b₁ b' : Builder U V} {ty : Scheduler.ResourceType}
    {access : Scheduler.ResourceAccess} {strongRefs : List DbgTypeId}
    (same : b₁.scheduler = b.scheduler)
    (run : (do
      let self ← b₁.useResource node ty access
      return self.addStrongRefs node strongRefs) = .ok b') :
    Registers node (beforeCreation strongRefs) b.scheduler b'.scheduler := by
  obtain ⟨b₂, used, done⟩ := bind_eq_ok.mp run
  cases done
  have first := useResource_spec system used
  rw [same] at first
  exact first.trans (addStrongRefs_spec system b₂ strongRefs)

theorem registerGlobal_spec {debugName : String} {sync : Bool} {b b' : Builder U V}
    {request : GlobalRequest} (run : Builder.registerGlobal debugName sync node b request = .ok b') :
    Registers node (beforeCreation request.strongRefs) b.scheduler b'.scheduler := by
  obtain ⟨b₁, entered, run⟩ := bind_eq_ok.mp run
  refine request_spec system ?_ run
  unfold Builder.enterGlobal at entered
  split at entered
  · split at entered
    · cases entered
    · cases entered; rfl
  · cases entered
  · split at entered
    · cases entered
    · cases entered; rfl

theorem registerSimple_spec {types : Types V} {b b' : Builder U V} {request : SimpleRequest}
    (run : Builder.registerSimple types node b request = .ok b') :
    Registers node (beforeCreation request.strongRefs) b.scheduler b'.scheduler := by
  obtain ⟨typed, -, run⟩ := bind_eq_ok.mp run
  have same : (b.setArchetype request.arch typed).scheduler = b.scheduler := rfl
  exact request_spec system same run

theorem registerIsotope_spec {types : Types V} {b b' : Builder U V} {request : IsotopeRequest}
    (run : Builder.registerIsotope types node b request = .ok b') :
    Registers node (beforeCreation request.strongRefs) b.scheduler b'.scheduler := by
  have same : (b.setArchetype request.arch
      ((b.archetype types request.arch).addIsotopeMapIfMissing request.comp)).scheduler =
    b.scheduler := rfl
  exact request_spec system same run

omit system in
/-- A loop registers what each of its rounds registers. -/
theorem foldlM_spec {α : Type} {f : Builder U V → α → Except Panic (Builder U V)}
    {deps : α → List (Dependency (Partition U))}
    (body : ∀ b b' a, f b a = .ok b' → Registers node (deps a) b.scheduler b'.scheduler)
    {l : List α} {b b' : Builder U V} (run : l.foldlM f b = .ok b') :
    Registers node (l.flatMap deps) b.scheduler b'.scheduler := by
  induction l generalizing b with
  | nil => cases run; exact .refl node _
  | cons a l ih =>
    rw [List.foldlM_cons] at run
    obtain ⟨b₁, one, rest⟩ := bind_eq_ok.mp run
    exact (body b b₁ a one).trans (ih rest)

theorem registerStates_spec (maybeUninit archs : List DbgTypeId) (b : Builder U V) :
    Registers node (beforeCreation (archs.filter (· ∉ maybeUninit))) b.scheduler
      (archs.foldl (Builder.registerState maybeUninit node) b).scheduler := by
  induction archs generalizing b with
  | nil => exact .refl node b.scheduler
  | cons arch archs ih =>
    rw [List.foldl_cons]
    by_cases skip : arch ∈ maybeUninit
    · simpa [Builder.registerState, skip] using ih b
    · have first := addDependencies_spec system b [.before (.entityCreation arch)]
      simpa [Builder.registerState, skip, beforeCreation] using first.trans (ih _)

theorem registerCreators_spec (requests : List EntityCreatorRequest) (b : Builder U V) :
    Registers node ((requests.filter (!·.noPartition)).map
        fun request => .after (.entityCreation request.arch)) b.scheduler
      (requests.foldl (Builder.registerCreator node) b).scheduler := by
  induction requests generalizing b with
  | nil => exact .refl node b.scheduler
  | cons request requests ih =>
    rw [List.foldl_cons]
    by_cases skip : request.noPartition = true
    · simpa [Builder.registerCreator, skip] using ih b
    · have first := addDependencies_spec system b [.after (.entityCreation request.arch)]
      simpa [Builder.registerCreator, skip] using first.trans (ih _)

/-- `register_resources` records every declared dependency. -/
theorem registerResources_spec {types : Types V} {b b' : Builder U V} {s : System U} {sync : Bool}
    (run : b.registerResources types s sync node = .ok b') :
    Registers node s.declared b.scheduler b'.scheduler := by
  simp only [Builder.registerResources] at run
  obtain ⟨b₁, globals, run⟩ := bind_eq_ok.mp run
  obtain ⟨b₂, simples, run⟩ := bind_eq_ok.mp run
  obtain ⟨b₃, isotopes, run⟩ := bind_eq_ok.mp run
  cases run
  have states := registerStates_spec system s.stateMaybeUninit s.foundArchs b
  have globals := foldlM_spec (fun _ _ _ h => registerGlobal_spec system h) globals
  have simples := foldlM_spec (fun _ _ _ h => registerSimple_spec system h) simples
  have isotopes := foldlM_spec (fun _ _ _ h => registerIsotope_spec system h) isotopes
  have creators := registerCreators_spec system s.spec.entityCreatorRequests b₃
  exact ((((states.trans globals).trans simples).trans isotopes).trans creators).trans
    (addDependencies_spec system _ s.spec.dependencies)

end

/-- The recorded state of a builder with its scheduled systems. -/
structure Recorded (b : Scheduler.Builder (Partition U)) (systems : List (Node × System U)) :
    Prop where
  built : Built b
  isSystem : ∀ e ∈ systems, e.1.isSystem = true
  declares : ∀ e ∈ systems, ∀ dep ∈ e.2.declared, Declares b e.1 dep

/-- Scheduling one more system keeps the dependencies of the others. -/
theorem Recorded.snoc {systems : List (Node × System U)} {node : Node} {s : System U}
    {b b₁ b' : Scheduler.Builder (Partition U)} (h : Recorded b systems) (built : Built b₁)
    (grows : Grows b b₁) (system : node.isSystem = true) (known : node ∈ b₁.nodes)
    (registers : Registers node s.declared b₁ b') : Recorded b' (systems ++ [(node, s)]) := by
  refine ⟨registers.built built known, fun e he => ?_, fun e he dep hdep => ?_⟩
  · rcases List.mem_append.mp he with he | he
    · exact h.isSystem e he
    · cases List.mem_singleton.mp he; exact system
  · rcases List.mem_append.mp he with he | he
    · exact (h.declares e he dep hdep).mono (grows.trans registers.grows)
    · cases List.mem_singleton.mp he
      exact registers.declares dep hdep

theorem pushSendSystem_grows {P : Type} (b : Scheduler.Builder P) (name : String) :
    Grows b (b.pushSendSystem name).2 :=
  ⟨List.prefix_refl _, fun _ h => h, fun _ hn => Scheduler.allNodes_mono
    (by simp [Scheduler.Builder.pushSendSystem]) (Nat.le_refl _) (Nat.le_refl _) hn⟩

theorem pushUnsendSystem_grows {P : Type} (b : Scheduler.Builder P) (name : String) :
    Grows b (b.pushUnsendSystem name).2 :=
  ⟨List.prefix_refl _, fun _ h => h, fun _ hn => Scheduler.allNodes_mono (Nat.le_refl _)
    (by simp [Scheduler.Builder.pushUnsendSystem]) (Nat.le_refl _) hn⟩

theorem scheduled_recorded {types : Types V} {b : Builder U V}
    {systems : List (Node × System U)} (h : Scheduled types b systems) :
    Recorded b.scheduler systems := by
  induction h with
  | new c => exact ⟨.new c, by simp, by simp⟩
  | @schedule b b' systems s run _ ih =>
    have system : (b.scheduler.pushSendSystem s.spec.debugName).1.isSystem = true := rfl
    refine ih.snoc (.pushSendSystem s.spec.debugName ih.built)
      (pushSendSystem_grows b.scheduler s.spec.debugName) system ?_
      (registerResources_spec system run)
    simp [Scheduler.Builder.pushSendSystem, Scheduler.Builder.nodes, Scheduler.mem_allNodes]
  | @scheduleThreadUnsafe b b' systems s run _ ih =>
    have system : (b.scheduler.pushUnsendSystem s.spec.debugName).1.isSystem = true := rfl
    refine ih.snoc (.pushUnsendSystem s.spec.debugName ih.built)
      (pushUnsendSystem_grows b.scheduler s.spec.debugName) system ?_
      (registerResources_spec system run)
    simp [Scheduler.Builder.pushUnsendSystem, Scheduler.Builder.nodes, Scheduler.mem_allNodes]
  | global ty _ ih | globalThreadUnsafe ty _ ih => exact ih
  | setConcurrency c _ ih => exact ⟨.setConcurrency c ih.built, ih.isSystem, ih.declares⟩

/-! ## The order of a cycle -/

/-- One system declared `before` a partition, the other `after` an equal one. -/
def Precedes (systems : List (Node × System U)) (i j : Node) : Prop :=
  ∃ p a b, (i, a) ∈ systems ∧ .before p ∈ a.declared ∧ (j, b) ∈ systems ∧ .after p ∈ b.declared

/-- A declared precedence is a chain through the node of the partition. -/
theorem precedes_chain {b : Scheduler.Builder (Partition U)} {systems : List (Node × System U)}
    (h : Recorded b systems) {i j : Node} (precedes : Precedes systems i j)
    (clash : Node → Node → Prop) :
    Relation.TransGen (Scheduler.jobs b.orders clash).before i j := by
  obtain ⟨p, s, s', hi, before, hj, after⟩ := precedes
  obtain ⟨k, hk, first⟩ := h.declares _ hi _ before
  obtain ⟨k', hk', second⟩ := h.declares _ hj _ after
  have same : k = k' := by
    obtain ⟨lt, eq⟩ := List.getElem?_eq_some_iff.mp hk
    obtain ⟨lt', eq'⟩ := List.getElem?_eq_some_iff.mp hk'
    exact (List.Nodup.getElem_inj_iff (partitions_nodup h.built)).mp (eq.trans eq'.symm)
  subst same
  exact .tail (.single ⟨_, first, rfl, rfl⟩) ⟨_, second, rfl, rfl⟩

section
variable {P : Type} {t : Topology P} {nodes : List Node} {orders : List Order}
  {clash : Node → Node → Prop}

/-- Systems along a chain of orders are started only when those before them
were completed by an earlier step. -/
theorem step_ordered (sound : t.Sound nodes orders clash) {c c' : Scheduler.Cycle P}
    (inv : c.Inv t nodes orders clash) (step : c.Step t c') {i j : Node}
    (chain : Relation.TransGen (Scheduler.jobs orders clash).before i j)
    (isSystem : i.isSystem = true ∧ j.isSystem = true)
    (started : c'.planner.status j = .running) : c.planner.status i = .done := by
  have ordered : ∀ {s : Scheduler.Cycle P}, s.Inv t nodes orders clash →
      s.planner.status j = .running → s.planner.status i = .done := by
    intro s hs hj
    exact Jobs.ordered sound.clash_symm hs.jobs chain (by simp [hj])
  have inv' := Scheduler.step_inv sound step inv
  have done := ordered inv' started
  cases step with
  | poll thread pool run nothing =>
    rw [(Scheduler.steal_stolen sound inv.balanced run).2.2.same nothing] at done
    exact done
  | @steal thread pool k planner tracer run =>
    cases (Scheduler.steal_stolen sound inv.balanced run).2.2 with
    | ready _ _ _ status _ =>
      change Scheduler.Planner.status _ i = .done at done
      rw [status] at done
      by_cases same : i = pool.toNode k
      · subst same; simp at done
      · rwa [Function.update_of_ne same] at done
  | complete thread node holds run =>
    obtain ⟨-, -, -, systems⟩ := Scheduler.complete_completed sound inv.balanced inv.remaining
      (inv.held _ holds) run
    change Scheduler.Planner.status _ j = .running at started
    rw [systems j isSystem.2] at started
    split at started
    · cases started
    · exact ordered inv started

end

theorem precedes_chain_trans {b : Scheduler.Builder (Partition U)}
    {systems : List (Node × System U)} (h : Recorded b systems) {i j : Node}
    (chain : Relation.TransGen (Precedes systems) i j) (clash : Node → Node → Prop) :
    Relation.TransGen (Scheduler.jobs b.orders clash).before i j := by
  induction chain with
  | single one => exact precedes_chain h one clash
  | tail _ last ih => exact ih.trans (precedes_chain h last clash)

/-- Both ends of a chain are systems that were scheduled. -/
theorem chain_systems {b : Scheduler.Builder (Partition U)} {systems : List (Node × System U)}
    (h : Recorded b systems) {i j : Node} (chain : Relation.TransGen (Precedes systems) i j) :
    (i.isSystem = true ∧ i ∈ b.nodes) ∧ j.isSystem = true := by
  have ends : ∀ {i j}, Precedes systems i j →
      (i.isSystem = true ∧ i ∈ b.nodes) ∧ j.isSystem = true := by
    rintro i j ⟨p, s, s', hi, before, hj, -⟩
    obtain ⟨k, -, order⟩ := h.declares _ hi _ before
    exact ⟨⟨h.isSystem _ hi, (h.built.valid.orders_known _ order).1⟩, h.isSystem _ hj⟩
  induction chain with
  | single one => exact ends one
  | tail _ last ih => exact ⟨ih.1, (ends last).2⟩

/-- **Partition order.** In a cycle of a built schedule, a system declared
after a partition is started only when every system declared before an equal
partition is completed already, and so along every chain of partitions. -/
theorem partition_order {types : Types V} {b : Builder U V} {systems : List (Node × System U)}
    (scheduled : Scheduled types b systems) {it : HashOrders} {t : Topology (Partition U)}
    (accepted : b.scheduler.build it = .ok t) {c : Scheduler.Cycle (Partition U)}
    (reached : Scheduler.Cycle.Reachable t c) {i j : Node}
    (chain : Relation.TransGen (Precedes systems) i j) :
    (c.planner.wakeupState.lookup j = some .started →
      c.planner.wakeupState.lookup i = some .completed) ∧
    ∀ c', c.Step t c' → c'.planner.wakeupState.lookup j = some .started →
      c.planner.wakeupState.lookup i = some .completed := by
  have recorded := scheduled_recorded scheduled
  have sound := (Scheduler.build_parts recorded.built accepted).1
  have inv := Scheduler.reachable_inv recorded.built accepted reached
  have orders := precedes_chain_trans recorded chain (Scheduler.Clash b.scheduler.resources)
  obtain ⟨⟨hi, known⟩, hj⟩ := chain_systems recorded chain
  have completed : c.planner.status i = .done → c.planner.state i = some .completed := by
    intro done
    rcases Scheduler.status_done.mp done with h | h
    · exact h
    · have present := (inv.balanced.known i).mpr known
      simp [h] at present
  refine ⟨fun started => completed ?_, fun c' step started => completed ?_⟩
  · apply Jobs.ordered sound.clash_symm inv.jobs orders
    rw [Scheduler.status_running.mpr started]
    simp
  · exact step_ordered sound inv step orders ⟨hi, hj⟩ (Scheduler.status_running.mpr started)

/-- A system that reads references to an archetype, and one that creates its
entities. -/
def reader : System Nat :=
  ⟨⟨"reader", [], [], [⟨⟨0⟩, ⟨1⟩, false, [⟨0⟩]⟩], [], []⟩, [], []⟩

def creator : System Nat := ⟨⟨"creator", [], [], [], [], [⟨⟨0⟩, false⟩]⟩, [], []⟩

def plainTypes : Types Nat where
  flag := ⟨100⟩
  flagValue := 0
  generations := ⟨101⟩
  simpleOf _ _ := ⟨.optional, .none, false⟩
  isotopeOf _ _ := ⟨.optional, .none⟩
  stack := 8
  entityRc := true

/-- The builder of the two systems. -/
def creation : Builder Nat Nat :=
  let b := (Builder.new plainTypes 2).schedule plainTypes reader
  (b >>= (·.schedule plainTypes creator)).toOption.get rfl

def creationTopology : Topology (Partition Nat) :=
  (creation.scheduler.build .insertion).toOption.get rfl

theorem partition_order_creation : ∃ c,
    Scheduled plainTypes creation [(.sendSystem 0, reader), (.sendSystem 1, creator)] ∧
    creation.scheduler.build .insertion = .ok creationTopology ∧
    Scheduler.Cycle.Reachable creationTopology c ∧
    c.planner.wakeupState.lookup (.sendSystem 1) = some .started ∧
    c.planner.wakeupState.lookup (.sendSystem 0) = some .completed := by
  have scheduled : Scheduled plainTypes creation
      [(.sendSystem 0, reader), (.sendSystem 1, creator)] :=
    .schedule creator rfl (.schedule reader rfl (.new 2))
  have accepted : creation.scheduler.build .insertion = .ok creationTopology := rfl
  have reached : Scheduler.Cycle.Reachable creationTopology _ :=
    .next (.next (.next .start (.steal .main .send rfl)) (.complete .main (.sendSystem 0)
      (.head _) rfl)) (.steal (.worker 0) .send rfl)
  have precedes : Precedes [(.sendSystem 0, reader), (.sendSystem 1, creator)]
      (.sendSystem 0) (.sendSystem 1) :=
    ⟨.entityCreation ⟨0⟩, reader, creator, .head _, by decide, .tail _ (.head _), by decide⟩
  exact ⟨_, scheduled, accepted, reached, rfl,
    (partition_order scheduled accepted reached (.single precedes)).1 rfl⟩

end Dynec.World
