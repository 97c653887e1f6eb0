import Dynec.World.Weak

/-!
# Component values over runs

A component of an entity changes only when it is set, and when the entity is
initialized or deleted. So an initialized entity has every component that is
required or has an initializer, unless a system unset it.
-/

namespace Dynec.World

open Fallible
open Entity (Recycling Recycler)

variable {U V : Type} {w : DbgTypeId → Nat} {T Hint : DbgTypeId → Type}
  [∀ arch, Recycler (T arch) (Hint arch)] {types : Types V} {s t : Machine w T V}
  {label : Label Hint V} {arch : DbgTypeId} {typed typed' : Typed V}
  {earlier trace : List (Machine.Transition w T Hint V)}

/-! ## What a step does to the component storages -/

/-- The changes of the component storages of one archetype. -/
inductive Retyped (types : Types V) (s : Machine w T V) (label : Label Hint V) (t : Machine w T V)
    (arch : DbgTypeId) (typed typed' : Typed V) : Prop
  | keep (same : typed' = typed)
  | init (id : Nat) (compMap : CompMap V) (e : Recycling (w arch) (T arch))
      (readies : Readies arch id ⟨s, label, t⟩)
      (run : typed.initEntity types arch id compMap e = .ok typed')
  | flag (id : Nat)
      (run : typed.setSimple .missingFlag types.flag id (some types.flagValue) = .ok typed')
  | clear (id : Nat) (flagged : Typed V) (frees : Frees s t arch id)
      (run : typed.setSimple .missingFlag types.flag id (some types.flagValue) = .ok flagged)
      (cleared : typed' = flagged.clearEntry id)
  | setSimple (comp : DbgTypeId) (id : Nat) (value : Option V)
      (asked : label = .setSimple arch comp id value)
      (run : typed.setSimple (.unusedComponent comp) comp id value = .ok typed')
  | openIsotope (comp : DbgTypeId) (discrim : Discrim) (entities : Except Panic (List Nat))
      (map : IsotopeMap V) (storage : Storage V) (map' : IsotopeMap V)
      (known : typed.isotopeStorageMaps.lookup comp = some map)
      (run : map.getOrCreate (types.isotopeOf arch comp) discrim entities = .ok (storage, map'))
      (opened : typed' = { typed with
        isotopeStorageMaps := typed.isotopeStorageMaps.insert comp map' })
  | setIsotope (comp : DbgTypeId) (discrim : Discrim) (id : Nat) (value : Option V)
      (map : IsotopeMap V) (storage : Storage V)
      (asked : label = .setIsotope arch comp discrim id value)
      (known : typed.isotopeStorageMaps.lookup comp = some map)
      (found : map.lookup discrim = some storage)
      (written : typed' = { typed with
        isotopeStorageMaps := typed.isotopeStorageMaps.insert comp
          (map.insert discrim (storage.set id value)) })

/-- An archetype that a step knows is still known after it. -/
def Machine.Retypes (types : Types V) (s : Machine w T V) (label : Label Hint V)
    (t : Machine w T V) (arch : DbgTypeId) : Prop :=
  (∀ a, s.world.archetypes.lookup arch = some a → ∃ a', t.world.archetypes.lookup arch = some a' ∧
    Retyped types s label t arch a.typed a'.typed) ∧
  (s.world.archetypes.lookup arch = none → t.world.archetypes.lookup arch = none)

omit [∀ arch, Recycler (T arch) (Hint arch)] in
theorem Touches.retypes {changed : DbgTypeId}
    {R : Archetype (w changed) (T changed) V → Archetype (w changed) (T changed) V → Prop}
    (touches : Touches s.world t.world changed R)
    (here : ∀ a a', R a a' → Retyped types s label t changed a.typed a'.typed) (arch : DbgTypeId) :
    Machine.Retypes types s label t arch := by
  by_cases same : arch = changed
  · subst same
    obtain ⟨a, a', before, after, change⟩ := touches.here
    constructor
    · intro b found
      rw [before] at found
      cases found
      exact ⟨a', after, here a a' change⟩
    · intro none
      rw [before] at none
      cases none
  · rw [Machine.Retypes, touches.others arch same]
    exact ⟨fun a found => ⟨a, found, .keep rfl⟩, id⟩

omit [∀ arch, Recycler (T arch) (Hint arch)] in
theorem retypes_same (same : t.world.archetypes = s.world.archetypes) (arch : DbgTypeId) :
    Machine.Retypes types s label t arch := by
  rw [Machine.Retypes, same]
  exact ⟨fun a found => ⟨a, found, .keep rfl⟩, id⟩

omit [∀ arch, Recycler (T arch) (Hint arch)] in
theorem forEalloc_retypes
    {f : ∀ arch, Recycling (w arch) (T arch) → Except Panic (Recycling (w arch) (T arch))}
    {world world' : World w T V} (run : world.forEalloc f = .ok world')
    (before : world.archetypes = s.world.archetypes) (after : t.world = world')
    (arch : DbgTypeId) : Machine.Retypes types s label t arch := by
  obtain ⟨known, unknown⟩ := (forEalloc_ok run).1 arch
  rw [before] at known unknown
  rw [Machine.Retypes, after]
  constructor
  · intro a found
    obtain ⟨a', after, change⟩ := known a found
    exact ⟨a', after, .keep change.typed⟩
  · exact unknown

omit [∀ arch, Recycler (T arch) (Hint arch)] in
theorem readies_enroll {world : World w T V} {phase : Phase V} {f : Roll → Roll} {id : Nat}
    (grown : ∀ r, (f r).ready = id :: r.ready) :
    Readies arch id
      (⟨s, label, ⟨world, phase, s.enroll arch f⟩⟩ : Machine.Transition w T Hint V) := by
  simp only [Readies, enroll_same, grown]

omit [∀ arch, Recycler (T arch) (Hint arch)] in
theorem enroll_create_ready {changed : DbgTypeId} (id : Nat) (arch : DbgTypeId) :
    (s.enroll changed (·.create id) arch).ready = (s.roll arch).ready := by
  by_cases here : arch = changed
  · subst here
    rw [enroll_same]
    rfl
  · rw [enroll_other here]

theorem step_retypes (step : s.Step types label t) (arch : DbgTypeId) :
    Machine.Retypes types s label t arch := by
  cases step with
  | create changed shardId hint compMap host run =>
    obtain ⟨touches, -, -⟩ := createWithHint_ok run
    apply touches.retypes
    rintro a a' ⟨e, -, init⟩
    exact .init _ compMap e (readies_enroll fun _ => rfl) init.typed
  | delete changed id host run =>
    obtain ⟨-, touches⟩ := delete_deleted run
    apply touches.retypes
    intro a a' deleted
    obtain ⟨flagged, cleared, flag, -⟩ := deleted.typed
    exact .clear id flagged frees_enroll flag cleared
  | deleteTerminating changed id host run =>
    obtain ⟨-, touches⟩ := delete_terminating run
    apply touches.retypes
    intro a a' flagged
    exact .flag id flagged.typed
  | setSimple changed comp id value _ _ run =>
    apply (setSimple_ok run).1.retypes
    intro a a' accessed
    exact .setSimple comp id value rfl accessed.typed
  | openIsotope changed comp discrim _ _ run =>
    apply (openIsotope_ok run).1.retypes
    intro a a' accessed
    obtain ⟨map, storage, map', known, run, opened⟩ := accessed.typed
    exact .openIsotope comp discrim _ map storage map' known run opened
  | setIsotope changed comp discrim id value _ run =>
    apply (setIsotope_ok run).1.retypes
    intro a a' accessed
    obtain ⟨map, storage, known, found, written⟩ := accessed.typed
    exact .setIsotope comp discrim id value map storage rfl known found written
  | getIsotope changed comp discrim id value _ _ run =>
    apply (setIsotope_ok run).1.retypes
    intro a a' accessed
    obtain ⟨map, storage, known, found, written⟩ := accessed.typed
    exact .setIsotope comp discrim id (some value) map storage rfl known found written
  | cloneReference | dropReference | join =>
    apply retypes_same
    rfl
  | execute assign host run | flush drained run => exact forEalloc_retypes run rfl rfl arch
  | createOnline worker changed hint compMap online _ run =>
    obtain ⟨touches, -, -⟩ := createEntityWithHintAndShard_ok run
    apply touches.retypes
    intro a a' allocated
    exact .keep allocated.typed
  | deleteOnline worker changed id online run =>
    obtain ⟨items, -, rfl⟩ := pushOperation_ok run
    apply retypes_same
    rfl
  | drainCreate draining run =>
    apply (initEntity_ok run).1.retypes
    intro a a' init
    exact .init _ _ a.ealloc (readies_enroll fun _ => rfl) init.typed
  | drainDelete draining run =>
    apply (flagDeleteEntity_deleted run).retypes
    intro a a' deleted
    obtain ⟨flagged, cleared, flag, -⟩ := deleted.typed
    exact .clear _ flagged frees_enroll flag cleared
  | drainRerun draining run =>
    apply (flagDeleteEntity_terminating run).retypes
    intro a a' flagged
    exact .flag _ flagged.typed

/-! ## Frames -/

section Frames

variable {id : Nat}

omit [∀ arch, Recycler (T arch) (Hint arch)] in
theorem Retyped.order (h : Retyped types s label t arch typed typed') :
    typed'.simpleStorages.order = typed.simpleStorages.order := by
  cases h with
  | keep same => rw [same]
  | init _ _ _ _ run => exact (Typed.initEntity_ok run).order
  | flag _ run | setSimple _ _ _ _ run => exact (Typed.setSimple_ok run).1
  | clear _ _ _ run cleared =>
    rw [cleared, Typed.clearEntry_order]
    exact (Typed.setSimple_ok run).1
  | openIsotope _ _ _ _ _ _ _ _ opened => rw [opened]
  | setIsotope _ _ _ _ _ _ _ _ _ written => rw [written]

omit [∀ arch, Recycler (T arch) (Hint arch)] in
theorem Retyped.getSimple (h : Retyped types s label t arch typed typed') {comp : DbgTypeId}
    (hidden : comp ≠ types.flag) (unset : ∀ value, label ≠ .setSimple arch comp id value)
    (kept : ¬ Readies arch id ⟨s, label, t⟩) (alive : ¬ Frees s t arch id) :
    typed'.getSimple comp id = typed.getSimple comp id := by
  have flagged : ∀ {id' : Nat} {flagged : Typed V},
      typed.setSimple .missingFlag types.flag id' (some types.flagValue) = .ok flagged →
      flagged.getSimple comp id = typed.getSimple comp id := by
    intro id' flagged run
    obtain ⟨-, -, -, values⟩ := Typed.setSimple_ok run
    rw [values, if_neg fun both => hidden both.1]
  cases h with
  | keep same => rw [same]
  | init id' compMap e readies run =>
    apply (Typed.initEntity_ok run).frame
    rintro rfl
    exact kept readies
  | flag id' run => exact flagged run
  | clear id' _ frees run cleared =>
    rw [cleared, Typed.clearEntry_getSimple, if_neg, flagged run]
    rintro rfl
    exact alive frees
  | setSimple comp' id' value asked run =>
    obtain ⟨-, -, -, values⟩ := Typed.setSimple_ok run
    rw [values, if_neg]
    rintro ⟨rfl, rfl⟩
    exact unset value asked
  | openIsotope _ _ _ _ _ _ _ _ opened =>
    rw [opened]
    rfl
  | setIsotope _ _ _ _ _ _ _ _ _ written =>
    rw [written]
    rfl

omit [∀ arch, Recycler (T arch) (Hint arch)] in
/-- Opening the storage of a discriminant, and initializing another entity, may
add values to those of an entity and never changes them. -/
theorem Retyped.getIsotope (h : Retyped types s label t arch typed typed') {comp : DbgTypeId}
    {discrim : Discrim} {v : V} (present : typed.getIsotope comp discrim id = some v)
    (unset : ∀ value, label ≠ .setIsotope arch comp discrim id value)
    (kept : ¬ Readies arch id ⟨s, label, t⟩) : typed'.getIsotope comp discrim id = some v := by
  have same : ∀ {typed' : Typed V}, typed'.isotopeStorageMaps = typed.isotopeStorageMaps →
      typed'.getIsotope comp discrim id = some v := by
    intro typed' same
    rw [Typed.getIsotope_congr same, present]
  obtain ⟨map, storage, known, found, value⟩ := Typed.getIsotope_some present
  cases h with
  | keep eq => rw [eq, present]
  | init id' compMap e readies run =>
    obtain ⟨map', known', filled⟩ := (Typed.initEntity_ok run).isotope comp map known
    have other : id ≠ id' := by
      rintro rfl
      exact kept readies
    rw [Typed.getIsotope_eq known']
    cases found' : map'.lookup discrim with
    | none =>
      have absent := ((filled.absent discrim).mp found').1
      rw [found] at absent
      cases absent
    | some storage' =>
      obtain ⟨old, opened | ⟨absent, -⟩, frame, -⟩ := filled.present discrim storage' found'
      · rw [found] at opened
        cases opened
        exact (frame id other).trans value
      · rw [found] at absent
        cases absent
  | flag _ run | setSimple _ _ _ _ run => exact same (Typed.setSimple_ok run).2.1
  | clear _ _ _ run cleared =>
    apply same
    rw [cleared]
    exact (Typed.setSimple_ok run).2.1
  | openIsotope comp' discrim' _ map₁ storage₁ map' known₁ run opened =>
    obtain ⟨created, lookups⟩ := IsotopeMap.getOrCreate_ok run
    rw [opened, Typed.getIsotope_insert]
    split
    next own =>
      subst own
      rw [known] at known₁
      cases known₁
      rw [lookups]
      split
      next own =>
        subst own
        obtain created | ⟨absent, -⟩ := created
        · rw [found] at created
          cases created
          exact value
        · rw [found] at absent
          cases absent
      next => rw [found, Option.bind_some, value]
    next => exact present
  | setIsotope comp' discrim' id' new map₁ storage₁ asked known₁ found₁ written =>
    rw [written, Typed.getIsotope_insert]
    split
    next own =>
      subst own
      rw [known] at known₁
      cases known₁
      rw [HashMap.lookup_insert_ite]
      split
      next own =>
        subst own
        rw [found] at found₁
        cases found₁
        rw [Option.bind_some, Storage.set_apply, if_neg, value]
        rintro rfl
        exact unset new asked
      next => rw [found, Option.bind_some, value]
    next => exact present

theorem step_getSimple (step : s.Step types label t) {comp : DbgTypeId}
    (hidden : comp ≠ types.flag) (unset : ∀ value, label ≠ .setSimple arch comp id value)
    (kept : ¬ Readies arch id ⟨s, label, t⟩) (alive : ¬ Frees s t arch id) :
    t.world.getSimple arch comp id = s.world.getSimple arch comp id := by
  obtain ⟨known, unknown⟩ := step_retypes step arch
  cases found : s.world.archetypes.lookup arch with
  | none => rw [World.getSimple, World.getSimple, found, unknown found]
  | some a =>
    obtain ⟨a', after, change⟩ := known a found
    rw [getSimple_lookup after, getSimple_lookup found]
    exact change.getSimple hidden unset kept alive

theorem step_getIsotope (step : s.Step types label t) {comp : DbgTypeId} {discrim : Discrim}
    {v : V} (present : s.world.getIsotope arch comp discrim id = some v)
    (unset : ∀ value, label ≠ .setIsotope arch comp discrim id value)
    (kept : ¬ Readies arch id ⟨s, label, t⟩) :
    t.world.getIsotope arch comp discrim id = some v := by
  obtain ⟨known, -⟩ := step_retypes step arch
  cases found : s.world.archetypes.lookup arch with
  | none =>
    rw [World.getIsotope, found] at present
    cases present
  | some a =>
    obtain ⟨a', after, change⟩ := known a found
    rw [getIsotope_lookup found] at present
    rw [getIsotope_lookup after]
    exact change.getIsotope present unset kept

/-- **Values stay.** As long as an entity is neither initialized nor deleted,
each of its simple components keeps its value, or stays absent, unless it is
set, and each of its isotope components keeps its value unless it is set. -/
theorem values_kept (run : Machine.Run types s trace t)
    (alive : ∀ tr ∈ trace, ¬ Readies arch id tr ∧ ¬ Frees tr.before tr.after arch id) :
    (∀ comp ≠ types.flag, (∀ tr ∈ trace, ∀ value, tr.label ≠ .setSimple arch comp id value) →
      t.world.getSimple arch comp id = s.world.getSimple arch comp id) ∧
    ∀ comp discrim v, s.world.getIsotope arch comp discrim id = some v →
      (∀ tr ∈ trace, ∀ value, tr.label ≠ .setIsotope arch comp discrim id value) →
      t.world.getIsotope arch comp discrim id = some v := by
  induction run with
  | start => exact ⟨fun _ _ _ => rfl, fun _ _ _ present _ => present⟩
  | next past step ih =>
    obtain ⟨⟨kept, here⟩, alive⟩ := List.forall_mem_cons.mp alive
    obtain ⟨simple, isotope⟩ := ih alive
    constructor
    · intro comp hidden unset
      obtain ⟨now, unset⟩ := List.forall_mem_cons.mp unset
      rw [step_getSimple step hidden now kept here, simple comp hidden unset]
    · intro comp discrim v present unset
      obtain ⟨now, unset⟩ := List.forall_mem_cons.mp unset
      exact step_getIsotope step (isotope comp discrim v present unset) now kept

/-- Another entity is created and its component set. -/
theorem values_kept_created : ∃ (earlier trace : PlainTrace) (s t : PlainMachine),
    Machine.Run plainTypes (.start creation) earlier s ∧ Machine.Run plainTypes s trace t ∧
    (t.roll ⟨0⟩).ready = [2, 1] ∧ s.world.getSimple ⟨0⟩ ⟨1⟩ 1 = some 5 ∧
    t.world.getSimple ⟨0⟩ ⟨1⟩ 1 = some 5 := by
  obtain ⟨earlier, trace, s, t, past, run, ready, value, alive, unset⟩ :
      ∃ (earlier trace : PlainTrace) (s t : PlainMachine),
        Machine.Run plainTypes (.start creation) earlier s ∧ Machine.Run plainTypes s trace t ∧
        (t.roll ⟨0⟩).ready = [2, 1] ∧ s.world.getSimple ⟨0⟩ ⟨1⟩ 1 = some 5 ∧
        (∀ tr ∈ trace, ¬ Readies ⟨0⟩ 1 tr ∧ ¬ Frees tr.before tr.after ⟨0⟩ 1) ∧
        ∀ tr ∈ trace, ∀ value, tr.label ≠ .setSimple ⟨0⟩ ⟨1⟩ 1 value := by
    refine ⟨_, _, _, _, .next .start (.create ⟨0⟩ 0 () ⟨AList.singleton ⟨1⟩ 5, ∅⟩ rfl rfl),
      .next (.next .start (.create ⟨0⟩ 0 () noComponents rfl rfl))
        (.setSimple ⟨0⟩ ⟨1⟩ 2 (some 7) trivial (by decide) rfl), rfl, rfl, ?_, ?_⟩
    · rintro tr (_ | ⟨_, _ | ⟨_, ⟨⟩⟩⟩)
      · constructor
        · decide
        · intro frees
          cases frees
      · constructor
        · decide
        · intro frees
          cases frees
    · rintro tr (_ | ⟨_, _ | ⟨_, ⟨⟩⟩⟩) value asked
      · cases asked
      · cases asked
  obtain ⟨simple, -⟩ := values_kept run alive
  refine ⟨earlier, trace, s, t, past, run, ready, value, ?_⟩
  rw [simple ⟨1⟩ (by decide) unset]
  exact value

end Frames

/-! ## Components that an entity must have -/

/-- An initialized entity gets the component, or its initialization panics. -/
def Assured (types : Types V) (arch comp : DbgTypeId) : Prop :=
  (types.simple arch comp).presence = .required ∨ (types.simple arch comp).initStrategy ≠ .none

section Assured

variable {comp : DbgTypeId} {id : Nat}

theorem Assured.hidden (assured : Assured types arch comp) : comp ≠ types.flag := by
  rintro rfl
  simp [Assured, Types.simple] at assured

theorem initSimple_given {compMap : CompMap V} {st st' : IndexMap DbgTypeId (Simple V)}
    (h : Typed.initSimple types arch id compMap st comp = .ok st')
    (required : (types.simple arch comp).presence = .required)
    (bare : (types.simple arch comp).initStrategy = .none) :
    compMap.removeSimple comp ≠ none := by
  obtain ⟨simple, -, h⟩ := bind_eq_ok.mp h
  obtain ⟨storage, fill, -⟩ := bind_eq_ok.mp h
  intro missing
  simp [Storage.fillInitSimple, missing, bare, required] at fill

theorem Assured.init (assured : Assured types arch comp) {compMap : CompMap V} {n : Nat} {R : Type}
    {e : Recycling n R} (registered : comp ∈ typed.simpleStorages.order)
    (run : typed.initEntity types arch id compMap e = .ok typed') :
    (typed'.getSimple comp id).isSome = true := by
  obtain ⟨simpleStorages, simples, -⟩ := bind_eq_ok.mp run
  have given : compMap.removeSimple comp = none →
      (types.simple arch comp).initStrategy ≠ .none := by
    intro missing bare
    have required := assured.resolve_right fun auto => auto bare
    exact foldlM_ok simples (fun past _ => comp ∈ past → compMap.removeSimple comp ≠ none)
      (by simp) (by
        intro past c st st' _ ih run listed
        obtain old | new := List.mem_append.mp listed
        · exact ih old
        · cases List.mem_singleton.mp new
          exact initSimple_given run required bare) registered missing
  have source := (Typed.initEntity_ok run).simple comp registered
  unfold SimpleSource at source
  change (Typed.valueIn typed'.simpleStorages comp id).isSome = true
  cases passed : compMap.removeSimple comp with
  | some value =>
    simp only [passed] at source
    rw [source]
    rfl
  | none =>
    cases strategy : (types.simple arch comp).initStrategy with
    | none => exact absurd strategy (given passed)
    | auto deps init =>
      simp only [passed, strategy] at source
      obtain ⟨args, -, value⟩ := source
      rw [value]
      rfl

/-- Entities are initialized with their components. -/
theorem readies_init (step : s.Step types label t) (readies : Readies arch id ⟨s, label, t⟩) :
    ∃ a a' compMap, ∃ e : Recycling (w arch) (T arch), s.world.archetypes.lookup arch = some a ∧
      t.world.archetypes.lookup arch = some a' ∧
      a.typed.initEntity types arch id compMap e = .ok a'.typed := by
  cases step with
  | create changed shardId hint compMap host run =>
    obtain ⟨rfl, rfl⟩ := (readies_iff (f := fun r => (r.create _).init _) rfl fun _ => rfl).mp readies
    obtain ⟨a, a', before, after, e, -, init⟩ := (createWithHint_ok run).1.here
    exact ⟨a, a', compMap, e, before, after, init.typed⟩
  | drainCreate draining run =>
    obtain ⟨rfl, rfl⟩ := (readies_iff (f := fun r => r.init _) rfl fun _ => rfl).mp readies
    obtain ⟨a, a', before, after, init⟩ := (initEntity_ok run).1.here
    exact ⟨a, a', _, a.ealloc, before, after, init.typed⟩
  | delete changed id' | drainDelete =>
    exact absurd readies (not_readies (enroll_free_ready _ arch).2)
  | createOnline worker changed =>
    exact absurd readies (not_readies (congrArg List.length (enroll_create_ready _ arch)).le)
  | _ => exact absurd readies (not_readies le_rfl)

theorem step_setSimple {value : Option V}
    (step : s.Step types (.setSimple arch comp id value : Label Hint V) t) :
    t.world.getSimple arch comp id = value := by
  cases step with
  | setSimple _ _ _ _ _ _ run =>
    obtain ⟨a, a', -, after, accessed⟩ := (setSimple_ok run).1.here
    obtain ⟨-, -, -, values⟩ := Typed.setSimple_ok accessed.typed
    rw [getSimple_lookup after, values, if_pos ⟨rfl, rfl⟩]

/-- The transitions since an ID was last initialized. -/
def sinceInit (arch : DbgTypeId) (id : Nat) (trace : List (Machine.Transition w T Hint V)) :
    List (Machine.Transition w T Hint V) :=
  trace.takeWhile fun tr => ¬ Readies arch id tr

omit [∀ arch, Recycler (T arch) (Hint arch)] in
theorem sinceInit_cons {tr : Machine.Transition w T Hint V} (kept : ¬ Readies arch id tr) :
    sinceInit arch id (tr :: trace) = tr :: sinceInit arch id trace :=
  List.takeWhile_cons_of_pos (decide_eq_true kept)

/-- **Required components are present.** In every run that frees only initialized
entities, an initialized entity has every registered component that is required
or has an initializer, unless a system or host code unset it since the entity
was initialized. What was done to earlier entities with the same ID makes no
difference. -/
theorem assured_present (width : ∀ arch, 0 < w arch) {b : Builder U V}
    (run : Machine.Run types (.start b) trace s) (orderly : Orderly trace)
    {a : Archetype (w arch) (T arch) V} (found : s.world.archetypes.lookup arch = some a)
    (registered : comp ∈ a.typed.simpleStorages.order) (assured : Assured types arch comp)
    (ready : id ∈ (s.roll arch).ready)
    (kept : ∀ tr ∈ sinceInit arch id trace, tr.label ≠ .setSimple arch comp id none) :
    (s.world.getSimple arch comp id).isSome = true := by
  induction run generalizing a with
  | start => cases ready
  | @next trace s label t past step ih =>
    obtain ⟨here, orderly'⟩ := List.forall_mem_cons.mp orderly
    have books := orderly_books width past orderly'
    rw [(step_counted step (buffered_run past)).ready books] at ready
    by_cases readies : Readies arch id ⟨s, label, t⟩
    · obtain ⟨a₁, a₂, compMap, e, -, after, init⟩ := readies_init step readies
      rw [after] at found
      cases found
      rw [(Typed.initEntity_ok init).order] at registered
      rw [getSimple_lookup after]
      exact assured.init registered init
    · rw [sinceInit_cons readies] at kept
      obtain ⟨now, kept⟩ := List.forall_mem_cons.mp kept
      obtain ⟨ready, alive⟩ := ready.resolve_left readies
      obtain ⟨known, unknown⟩ := step_retypes step arch
      cases before : s.world.archetypes.lookup arch with
      | none =>
        rw [unknown before] at found
        cases found
      | some a₁ =>
        obtain ⟨a₂, after, change⟩ := known a₁ before
        rw [after] at found
        cases found
        have present := ih orderly' before (change.order ▸ registered) ready kept
        by_cases set : ∃ value, label = .setSimple arch comp id value
        · obtain ⟨value, rfl⟩ := set
          rw [step_setSimple step]
          cases value with
          | none => exact absurd rfl now
          | some v => rfl
        · push Not at set
          rw [step_getSimple step assured.hidden set readies alive]
          exact present

end Assured

def requiredTypes : Types Nat :=
  { plainTypes with simpleOf := fun _ _ => ⟨.required, .none, false⟩ }

def requiring : Builder Nat Nat :=
  ((Builder.new requiredTypes 0).schedule requiredTypes reader).toOption.get rfl

/-- The component of an earlier entity with the same ID was unset. -/
theorem assured_present_reused : ∃ (trace : PlainTrace) (s : PlainMachine),
    Machine.Run requiredTypes (.start requiring) trace s ∧ (s.roll ⟨0⟩).freed = [1] ∧
    (∃ tr ∈ trace, tr.label = .setSimple ⟨0⟩ ⟨1⟩ 1 none) ∧ (s.roll ⟨0⟩).ready = [1] ∧
    (s.world.getSimple ⟨0⟩ ⟨1⟩ 1).isSome = true := by
  obtain ⟨trace, s, run, freed, unset, ready, a, found, registered, kept⟩ :
      ∃ (trace : PlainTrace) (s : PlainMachine),
        Machine.Run requiredTypes (.start requiring) trace s ∧ (s.roll ⟨0⟩).freed = [1] ∧
        (∃ tr ∈ trace, tr.label = .setSimple ⟨0⟩ ⟨1⟩ 1 none) ∧ (s.roll ⟨0⟩).ready = [1] ∧
        ∃ a, s.world.archetypes.lookup ⟨0⟩ = some a ∧ ⟨1⟩ ∈ a.typed.simpleStorages.order ∧
          ∀ tr ∈ sinceInit ⟨0⟩ 1 trace, tr.label ≠ .setSimple ⟨0⟩ ⟨1⟩ 1 none := by
    have first : Machine.Run requiredTypes (.start requiring) (_ : PlainTrace) (_ : PlainMachine) :=
      .next (.next (.next (.next .start
        (.create ⟨0⟩ 0 () ⟨AList.singleton ⟨1⟩ 5, ∅⟩ rfl rfl))
        (.setSimple ⟨0⟩ ⟨1⟩ 1 none trivial (by decide) rfl)) (.dropReference 0 trivial))
        (.delete ⟨0⟩ 1 rfl rfl)
    refine ⟨_, _, .next (.next (.next (.next (.next first
      (.execute (fun _ => [0]) rfl rfl rfl (by decide))) (.join rfl)) (.flush rfl rfl))
      (.create ⟨0⟩ 0 () ⟨AList.singleton ⟨1⟩ 6, ∅⟩ rfl rfl))
      (.setSimple ⟨0⟩ ⟨1⟩ 1 (some 7) trivial (by decide) rfl), rfl,
      ⟨_, .tail _ (.tail _ (.tail _ (.tail _ (.tail _ (.tail _ (.tail _ (.head _))))))), rfl⟩, rfl,
      _, rfl, by decide, ?_⟩
    intro tr member asked
    rw [sinceInit_cons (by decide)] at member
    obtain here | earlier := List.mem_cons.mp member
    · rw [here] at asked
      cases asked
    · have none : tr ∈ ([] : PlainTrace) := earlier
      cases none
  refine ⟨trace, s, run, freed, unset, ready, ?_⟩
  exact assured_present (fun _ => by decide) run (counted_orderly rfl (fun _ => by decide) run)
    found registered (.inl rfl) (by rw [ready]; exact .head _) kept

end Dynec.World
