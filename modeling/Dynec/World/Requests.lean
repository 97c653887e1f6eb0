import Dynec.World.Ordering

/-! Every request of a scheduled system is an access in the resource table of the
scheduler. -/

namespace Dynec.World

open Fallible
open Scheduler (Node ResourceType ResourceAccess Dependency)

section
variable {P : Type}

/-- A registration adds accesses of a node and removes none. -/
structure Uses (node : Node) (requested : List (ResourceType × ResourceAccess))
    (b b' : Scheduler.Builder P) : Prop where
  keeps : ∀ ty n, ∀ access ∈ b.accesses ty n, access ∈ b'.accesses ty n
  uses : ∀ r ∈ requested, r.2 ∈ b'.accesses r.1 node

variable {node : Node} {requested requested' : List (ResourceType × ResourceAccess)}
  {b b' b'' : Scheduler.Builder P}

theorem Uses.same (resources : b'.resources = b.resources) : Uses node [] b b' := by
  refine ⟨fun ty n access member => ?_, by simp⟩
  rwa [Scheduler.Builder.accesses, resources]

theorem Uses.trans (first : Uses node requested b b') (second : Uses node requested' b' b'') :
    Uses node (requested ++ requested') b b'' := by
  constructor
  · intro ty n access member
    exact second.keeps ty n access (first.keeps ty n access member)
  · intro r member
    rcases List.mem_append.mp member with member | member
    · exact second.keeps r.1 node r.2 (first.uses r member)
    · exact second.uses r member

theorem useResource_uses {ty : ResourceType} {access : ResourceAccess}
    (used : b.useResource node ty access = .ok b') : Uses node [(ty, access)] b b' := by
  obtain ⟨rfl, -⟩ := Scheduler.useResource_ok used
  constructor
  · intro ty' n old member
    rw [Scheduler.accesses_setAccesses]
    split
    · rename_i here
      obtain ⟨rfl, rfl⟩ := here
      exact List.mem_append_left _ member
    · exact member
  · intro r member
    cases List.mem_singleton.mp member
    rw [Scheduler.accesses_setAccesses, if_pos ⟨rfl, rfl⟩]
    exact List.mem_append_right _ (.head _)

theorem addDependencies_resources [DecidableEq P] (b : Scheduler.Builder P)
    (deps : List (Dependency P)) (node : Node) :
    (b.addDependencies deps node).resources = b.resources := by
  induction deps generalizing b with
  | nil => rfl
  | cons dep deps ih =>
    have one : (b.addDependencyOf node dep).resources = b.resources := by
      cases dep with
      | before p => exact (Scheduler.pushPartition_keeps b p).2.2.2
      | after p => exact (Scheduler.pushPartition_keeps b p).2.2.2
    exact (ih _).trans one

end

variable {U V : Type}

/-- The accesses that a system requests. -/
def System.requested (system : System U) : List (ResourceType × ResourceAccess) :=
  system.spec.globalRequests.map
    (fun request => (.global request.ty, .new request.mutable)) ++
  system.spec.simpleRequests.map
    (fun request => (.simple request.arch request.comp, .new request.mutable)) ++
  system.spec.isotopeRequests.map (fun request =>
    (.isotope request.arch request.comp, .withDiscrim request.mutable request.discrim))

variable [DecidableEq U] {node : Node} {b b' : Builder U V}

omit [DecidableEq U] in
/-- A loop whose rounds leave the table alone. -/
theorem foldl_resources {α : Type} {f : Builder U V → α → Builder U V}
    (round : ∀ b a, (f b a).scheduler.resources = b.scheduler.resources) (l : List α)
    (b : Builder U V) : (l.foldl f b).scheduler.resources = b.scheduler.resources := by
  induction l generalizing b with
  | nil => rfl
  | cons a l ih => exact (ih (f b a)).trans (round b a)

theorem addDependencies_same (b : Builder U V) (deps : List (Dependency (Partition U)))
    (node : Node) : (b.addDependencies deps node).scheduler.resources = b.scheduler.resources :=
  addDependencies_resources b.scheduler deps node

theorem request_uses {b₁ : Builder U V} {ty : ResourceType} {access : ResourceAccess}
    {strongRefs : List DbgTypeId} (same : b₁.scheduler = b.scheduler)
    (run : (do
      let self ← b₁.useResource node ty access
      return self.addStrongRefs node strongRefs) = .ok b') :
    Uses node [(ty, access)] b.scheduler b'.scheduler := by
  obtain ⟨b₂, used, done⟩ := bind_eq_ok.mp run
  cases done
  obtain ⟨scheduler, inner, done⟩ := bind_eq_ok.mp used
  cases done
  rw [same] at inner
  have refs : Uses node [] scheduler (Builder.addStrongRefs { b₁ with scheduler } node
      strongRefs).scheduler := by
    apply Uses.same
    exact foldl_resources (fun b ref => addDependencies_same b _ node) strongRefs _
  exact (useResource_uses inner).trans refs

omit [DecidableEq U] in
theorem foldlM_uses {α : Type} {f : Builder U V → α → Except Panic (Builder U V)}
    (access : α → ResourceType × ResourceAccess)
    (body : ∀ b b' a, f b a = .ok b' → Uses node [access a] b.scheduler b'.scheduler)
    {l : List α} (run : l.foldlM f b = .ok b') :
    Uses node (l.map access) b.scheduler b'.scheduler := by
  apply foldlM_ok run fun past now => Uses node (past.map access) b.scheduler now.scheduler
  · exact .same rfl
  · intro past a now now' _ uses run
    rw [List.map_append]
    exact uses.trans (body now now' a run)

/-- `register_resources` uses every requested resource. -/
theorem registerResources_uses {types : Types V} {s : System U} {sync : Bool}
    (run : b.registerResources types s sync node = .ok b') :
    Uses node s.requested b.scheduler b'.scheduler := by
  obtain ⟨b₁, globals, run⟩ := bind_eq_ok.mp run
  obtain ⟨b₂, simples, run⟩ := bind_eq_ok.mp run
  obtain ⟨b₃, isotopes, run⟩ := bind_eq_ok.mp run
  cases run
  have states : Uses node [] b.scheduler
      (s.foundArchs.foldl (Builder.registerState s.stateMaybeUninit node) b).scheduler := by
    apply Uses.same
    apply foldl_resources
    intro b arch
    unfold Builder.registerState
    split
    · rfl
    · exact addDependencies_same b _ node
  have globals := foldlM_uses (fun request : GlobalRequest =>
    (.global request.ty, .new request.mutable)) (fun b b' request run => by
      obtain ⟨entered, enter, run⟩ := bind_eq_ok.mp run
      refine request_uses ?_ run
      unfold Builder.enterGlobal at enter
      split at enter
      · split at enter
        · cases enter
        · cases enter
          rfl
      · cases enter
      · split at enter
        · cases enter
        · cases enter
          rfl) globals
  have simples := foldlM_uses (fun request : SimpleRequest =>
    (.simple request.arch request.comp, .new request.mutable)) (fun b b' request run => by
      obtain ⟨typed, -, run⟩ := bind_eq_ok.mp run
      have same : (b.setArchetype request.arch typed).scheduler = b.scheduler := rfl
      exact request_uses same run) simples
  have isotopes := foldlM_uses (fun request : IsotopeRequest =>
    (.isotope request.arch request.comp, .withDiscrim request.mutable request.discrim))
    (fun b b' request run => by
      have same : (b.setArchetype request.arch
          ((b.archetype types request.arch).addIsotopeMapIfMissing request.comp)).scheduler =
        b.scheduler := rfl
      exact request_uses same run) isotopes
  have rest : Uses node [] b₃.scheduler (((s.spec.entityCreatorRequests.foldl
      (Builder.registerCreator node) b₃)).addDependencies s.spec.dependencies node).scheduler := by
    apply Uses.same
    rw [addDependencies_same]
    apply foldl_resources
    intro b request
    unfold Builder.registerCreator
    split
    · rfl
    · exact addDependencies_same b _ node
  have all := (((states.trans globals).trans simples).trans isotopes).trans rest
  rw [List.nil_append, List.append_nil] at all
  exact all

theorem scheduled_requests {types : Types V} {systems : List (Node × System U)}
    (h : Scheduled types b systems) :
    ∀ e ∈ systems, ∀ r ∈ e.2.requested, r.2 ∈ b.scheduler.accesses r.1 e.1 := by
  have snoc : ∀ {b b₁ b' : Scheduler.Builder (Partition U)} {systems : List (Node × System U)}
      {node : Node} {s : System U},
      (∀ e ∈ systems, ∀ r ∈ e.2.requested, r.2 ∈ b.accesses r.1 e.1) →
      Uses node s.requested b₁ b' → b₁.resources = b.resources →
      ∀ e ∈ systems ++ [(node, s)], ∀ r ∈ e.2.requested, r.2 ∈ b'.accesses r.1 e.1 := by
    intro b b₁ b' systems node s before uses same e member r requested
    rcases List.mem_append.mp member with member | member
    · apply uses.keeps
      rw [Scheduler.Builder.accesses, same]
      exact before e member r requested
    · cases List.mem_singleton.mp member
      exact uses.uses r requested
  induction h with
  | new =>
    intro e member
    cases member
  | @schedule b b' systems s run _ ih =>
    have uses := registerResources_uses (b := { b with
      scheduler := (b.scheduler.pushSendSystem s.spec.debugName).2 }) run
    exact snoc ih uses rfl
  | @scheduleThreadUnsafe b b' systems s run _ ih =>
    have uses := registerResources_uses (b := { b with
      scheduler := (b.scheduler.pushUnsendSystem s.spec.debugName).2 }) run
    exact snoc ih uses rfl
  | global => assumption
  | globalThreadUnsafe => assumption
  | setConcurrency => assumption

end Dynec.World
