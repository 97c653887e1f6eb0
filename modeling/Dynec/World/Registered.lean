import Dynec.World.Builder
import Dynec.World.Values

/-! The component storages of a world that was built: those that registration
produces, which are all empty. -/

namespace Dynec.World

open Fallible
open Scheduler (Node)

variable {U V : Type} [DecidableEq U] {types : Types V} {arch : DbgTypeId}

/-- The storages that registration can produce for an archetype. -/
inductive Typed.Registered (types : Types V) (arch : DbgTypeId) : Typed V → Prop
  | builder : Registered types arch (.builder types)
  | simple {typed typed'} (depth : Nat) (component : DbgTypeId)
      (run : typed.addSimpleStorageIfMissing types arch depth component = .ok typed') :
      Registered types arch typed → Registered types arch typed'
  | isotope {typed} (component : DbgTypeId) :
      Registered types arch typed → Registered types arch (typed.addIsotopeMapIfMissing component)

/-- The deletion flag has a storage, and no storage holds anything. -/
structure Typed.Blank (types : Types V) (typed : Typed V) : Prop where
  flag : types.flag ∈ typed.simpleStorages.order
  simple : ∀ c i, typed.getSimple c i = none
  isotope : ∀ c map, typed.isotopeStorageMaps.lookup c = some map → map = ∅

theorem valueIn_insert_empty (st : IndexMap DbgTypeId (Simple V)) (component : DbgTypeId)
    (deps : List DbgTypeId) (c : DbgTypeId) (i : Nat) (none : Typed.valueIn st c i = none) :
    Typed.valueIn (st.insert component ⟨deps, .empty⟩) c i = .none := by
  simp only [Typed.valueIn, IndexMap.get_insert, Option.bind_eq_bind] at none ⊢
  split
  · rfl
  · exact none

omit [DecidableEq U] in
theorem addSimpleStorageIfMissing_blank {depth : Nat} {typed typed' : Typed V}
    {component : DbgTypeId}
    (h : typed.addSimpleStorageIfMissing types arch depth component = .ok typed')
    (blank : typed.Blank types) : typed'.Blank types := by
  induction depth generalizing typed typed' component with
  | zero => cases h
  | succ depth ih =>
    unfold Typed.addSimpleStorageIfMissing at h
    split at h
    · cases h
      exact blank
    · obtain ⟨deps, -, h⟩ := bind_eq_ok.mp h
      obtain ⟨inner, run, h⟩ := bind_eq_ok.mp h
      cases h
      have kept : inner.Blank types := foldlM_ok run (fun _ typed => typed.Blank types) blank
        fun _ _ _ _ _ blank run => ih run blank
      refine ⟨(IndexMap.mem_order_insert ..).mpr (.inr kept.flag), fun c i => ?_, kept.isotope⟩
      exact valueIn_insert_empty _ _ _ c i (kept.simple c i)

omit [DecidableEq U] in
theorem Typed.Registered.blank {typed : Typed V} (h : Typed.Registered types arch typed) :
    typed.Blank types := by
  induction h with
  | builder =>
    refine ⟨(IndexMap.mem_order_insert ..).mpr (.inl rfl), fun c i => ?_, ?_⟩
    · exact valueIn_insert_empty _ _ _ c i rfl
    · intro c map found
      cases found
  | simple depth component run _ ih => exact addSimpleStorageIfMissing_blank run ih
  | @isotope typed component _ ih =>
    unfold Typed.addIsotopeMapIfMissing
    split
    · exact ih
    · refine ⟨ih.flag, ih.simple, fun c map found => ?_⟩
      rw [HashMap.lookup_insert_ite] at found
      split at found
      · cases found
        rfl
      · exact ih.isotope c map found

/-! ## The builder -/

/-- Every archetype of a builder was made by registration. -/
def Builder.AllRegistered (types : Types V) (b : Builder U V) : Prop :=
  ∀ arch typed, b.archetypes.lookup arch = some typed → Typed.Registered types arch typed

namespace Builder

variable {b b' : Builder U V} {node : Node}

omit [DecidableEq U] in
theorem AllRegistered.archetype (h : b.AllRegistered types) (arch : DbgTypeId) :
    Typed.Registered types arch (b.archetype types arch) := by
  unfold Builder.archetype
  cases found : b.archetypes.lookup arch with
  | none => exact .builder
  | some typed => exact h arch typed found

omit [DecidableEq U] in
theorem AllRegistered.set (h : b.AllRegistered types) {typed : Typed V}
    (registered : Typed.Registered types arch typed) :
    (b.setArchetype arch typed).AllRegistered types := by
  intro arch' typed' found
  rw [setArchetype, HashMap.lookup_insert_ite] at found
  split at found
  · rename_i same
    subst same
    cases found
    exact registered
  · exact h arch' typed' found

theorem addStrongRefs_archetypes (b : Builder U V) (node : Node) (refs : List DbgTypeId) :
    (b.addStrongRefs node refs).archetypes = b.archetypes := by
  unfold addStrongRefs
  induction refs generalizing b with
  | nil => rfl
  | cons ref refs ih => exact ih _

omit [DecidableEq U] in
theorem foldl_archetypes {α : Type} {f : Builder U V → α → Builder U V}
    (step : ∀ b a, (f b a).archetypes = b.archetypes) (l : List α) (b : Builder U V) :
    (l.foldl f b).archetypes = b.archetypes := by
  induction l generalizing b with
  | nil => rfl
  | cons a l ih => exact (ih (f b a)).trans (step b a)

omit [DecidableEq U] in
theorem useResource_archetypes {ty : Scheduler.ResourceType} {access : Scheduler.ResourceAccess}
    (h : b.useResource node ty access = .ok b') : b'.archetypes = b.archetypes := by
  obtain ⟨scheduler, -, h⟩ := bind_eq_ok.mp h
  cases h
  rfl

theorem registerGlobal_registered {debugName : String} {sync : Bool} {request : GlobalRequest}
    (h : b.registerGlobal debugName sync node request = .ok b') (all : b.AllRegistered types) :
    b'.AllRegistered types := by
  obtain ⟨entered, enter, h⟩ := bind_eq_ok.mp h
  obtain ⟨used, use, h⟩ := bind_eq_ok.mp h
  cases h
  have same : entered.archetypes = b.archetypes := by
    unfold enterGlobal at enter
    split at enter
    · split at enter
      · cases enter
      · cases enter
        rfl
    · cases enter
    · split at enter
      · cases enter
      · cases enter
        rfl
  rw [AllRegistered, addStrongRefs_archetypes, useResource_archetypes use, same]
  exact all

theorem registerSimple_registered {request : SimpleRequest}
    (h : b.registerSimple types node request = .ok b') (all : b.AllRegistered types) :
    b'.AllRegistered types := by
  obtain ⟨typed, add, h⟩ := bind_eq_ok.mp h
  obtain ⟨used, use, h⟩ := bind_eq_ok.mp h
  cases h
  rw [AllRegistered, addStrongRefs_archetypes, useResource_archetypes use]
  exact all.set (.simple _ _ add (all.archetype request.arch))

theorem registerIsotope_registered {request : IsotopeRequest}
    (h : b.registerIsotope types node request = .ok b') (all : b.AllRegistered types) :
    b'.AllRegistered types := by
  obtain ⟨used, use, h⟩ := bind_eq_ok.mp h
  cases h
  rw [AllRegistered, addStrongRefs_archetypes, useResource_archetypes use]
  exact all.set (.isotope _ (all.archetype request.arch))

theorem registerResources_registered {system : System U} {sync : Bool}
    (h : b.registerResources types system sync node = .ok b') (all : b.AllRegistered types) :
    b'.AllRegistered types := by
  obtain ⟨globals, h₁, h⟩ := bind_eq_ok.mp h
  obtain ⟨simples, h₂, h⟩ := bind_eq_ok.mp h
  obtain ⟨isotopes, h₃, h⟩ := bind_eq_ok.mp h
  cases h
  have states : AllRegistered types
      (system.foundArchs.foldl (registerState system.stateMaybeUninit node) b) := by
    rw [AllRegistered, foldl_archetypes fun b a => by unfold registerState; split <;> rfl]
    exact all
  have all₁ := foldlM_ok h₁ (fun _ b => b.AllRegistered types) states
    fun _ _ _ _ _ all run => registerGlobal_registered run all
  have all₂ := foldlM_ok h₂ (fun _ b => b.AllRegistered types) all₁
    fun _ _ _ _ _ all run => registerSimple_registered run all
  have all₃ := foldlM_ok h₃ (fun _ b => b.AllRegistered types) all₂
    fun _ _ _ _ _ all run => registerIsotope_registered run all
  change AllRegistered types (addDependencies (system.spec.entityCreatorRequests.foldl
    (registerCreator node) isotopes) system.spec.dependencies node)
  rw [AllRegistered, addDependencies,
    foldl_archetypes fun b a => by unfold registerCreator; split <;> rfl]
  exact all₃

end Builder

theorem scheduled_registered {b : Builder U V} {systems : List (Node × System U)}
    (h : Scheduled types b systems) : b.AllRegistered types := by
  induction h with
  | new => intro arch typed found; cases found
  | schedule s run _ ih => exact Builder.registerResources_registered run ih
  | scheduleThreadUnsafe s run _ ih => exact Builder.registerResources_registered run ih
  | global => assumption
  | globalThreadUnsafe => assumption
  | setConcurrency => assumption

end Dynec.World
