import Dynec.World.Leftovers

/-!
# Deletions complete once

Requests are identified by the ID alone, and nothing removes the others for an
entity when one of them completes. As long as a deletion that completes is the
only one pending for its entity, every entity is freed at most once.
-/

namespace Dynec.World

open Entity Fallible
open Scheduler (Node)

variable {U V : Type} {w : DbgTypeId → Nat} {T Hint : DbgTypeId → Type}
  [∀ arch, Recycler (T arch) (Hint arch)] {types : Types V} {s t : Machine w T V}
  {label : Label Hint V} {arch : DbgTypeId}

/-! ## Tracked references -/

/-- `rctrack::Store::get` on the store of one archetype. -/
def rctrackGet (store : Option (List (Option Nat))) (id : Nat) : Option Nat :=
  ((store.getD [])[id]?).join

section Stores

variable {store store' : Option (List (Option Nat))} {id rc : Nat}

theorem getElem?_resized {α : Type} (vec : List α) (id : Nat) (default : α) (i : Nat) :
    (resized vec id default)[i]? =
      if i < vec.length then vec[i]? else if i ≤ id then some default else none := by
  rw [resized, List.getElem?_append]
  split
  · rfl
  · rename_i outside
    rw [List.getElem?_replicate]
    by_cases inside : i ≤ id
    · rw [if_pos inside, if_pos (by omega)]
    · rw [if_neg inside, if_neg (by omega)]

theorem rctrackGet_set (h : rctrackSet store id rc = .ok store') (i : Nat) :
    rctrackGet store' i = if i = id then some rc else rctrackGet store i := by
  simp only [rctrackSet] at h
  split at h
  · rename_i free
    cases h
    obtain ⟨inside, -⟩ := List.getElem?_eq_some_iff.mp free
    simp only [rctrackGet, Option.getD_some, List.getElem?_set]
    by_cases same : i = id
    · subst same
      simp [inside]
    · rw [if_neg (Ne.symm same), if_neg same, getElem?_resized]
      split
      · rfl
      · rename_i outside
        rw [List.getElem?_eq_none (Nat.le_of_not_lt outside)]
        split <;> rfl
  · cases h

theorem rctrackGet_remove (h : rctrackRemove store id = .ok (rc, store')) (i : Nat) :
    rctrackGet store' i = if i = id then none else rctrackGet store i := by
  obtain ⟨vec, known, h⟩ := bind_eq_ok.mp h
  obtain ⟨slot, found, h⟩ := bind_eq_ok.mp h
  obtain ⟨rc', tracked, h⟩ := bind_eq_ok.mp h
  cases h
  rw [expect_eq_ok.mp known]
  obtain ⟨inside, -⟩ := List.getElem?_eq_some_iff.mp (expect_eq_ok.mp found)
  simp only [rctrackGet, Option.getD_some, List.getElem?_set]
  by_cases same : i = id
  · subst same
    simp [inside]
  · rw [if_neg (Ne.symm same), if_neg same]

theorem rctrackRemove_found (h : rctrackRemove store id = .ok (rc, store')) :
    rctrackGet store id = some rc := by
  obtain ⟨vec, known, h⟩ := bind_eq_ok.mp h
  obtain ⟨slot, found, h⟩ := bind_eq_ok.mp h
  obtain ⟨rc', tracked, h⟩ := bind_eq_ok.mp h
  cases h
  rw [expect_eq_ok] at known found tracked
  rw [rctrackGet, known, Option.getD_some, found, tracked]
  rfl

theorem rctrackRemove_total (h : rctrackGet store id = some rc) :
    ∃ store', rctrackRemove store id = .ok (rc, store') := by
  cases store with
  | none => simp [rctrackGet] at h
  | some vec =>
    rw [rctrackGet, Option.join_eq_some_iff] at h
    refine ⟨some (vec.set id none), ?_⟩
    rw [Option.getD_some] at h
    simp only [rctrackRemove, expect_some, ok_bind, h, pure_eq_ok]

end Stores

/-- With its reference tracked and dropped, an entity can be deleted. -/
theorem untrackReference_total {references : List Nat} {store : Option (List (Option Nat))}
    {id : Nat} (tracked : types.entityRc = true → ∃ rc, rctrackGet store id = some rc ∧
      references[rc]?.getD 0 = 0) :
    ∃ store', untrackReference types references store arch id = .ok store' := by
  unfold untrackReference
  split
  · rename_i counted
    obtain ⟨rc, found, dropped⟩ := tracked counted
    obtain ⟨store', removed⟩ := rctrackRemove_total found
    exact ⟨store', by simp [removed, dropped]⟩
  · exact ⟨store, rfl⟩

theorem flagDeleteEntity_total {world : World w T V} {a : Archetype (w arch) (T arch) V} {id : Nat}
    (found : world.archetypes.lookup arch = some a)
    (flag : types.flag ∈ a.typed.simpleStorages.order)
    (tracked : a.typed.hasFinalizer types arch id = false → types.entityRc = true →
      ∃ rc, rctrackGet a.rctrack id = some rc ∧ world.references[rc]?.getD 0 = 0) :
    ∃ result, world.flagDeleteEntity types arch id = .ok result := by
  obtain ⟨simple, known⟩ := Option.isSome_iff_exists.mp ((IndexMap.mem_order_iff _ _).mp flag)
  obtain ⟨typed, set⟩ : ∃ typed, a.typed.setSimple .missingFlag types.flag id
      (some types.flagValue) = .ok typed := by
    simp [Typed.setSimple, known]
  have final : typed.hasFinalizer types arch id = a.typed.hasFinalizer types arch id :=
    Typed.hasFinalizer_flag set
  simp only [flagDeleteEntity, archetype_ok.mpr found, ok_bind, set, tryRealDeleteEntity]
  have here : World.archetype (world.setArchetype arch { a with typed }) arch =
      .ok { a with typed } := archetype_ok.mpr (AList.lookup_insert _)
  simp only [here, ok_bind, final]
  cases present : a.typed.hasFinalizer types arch id with
  | true => exact ⟨_, rfl⟩
  | false =>
    obtain ⟨store, untracked⟩ : ∃ store,
        untrackReference types world.references a.rctrack arch id = .ok store :=
      untrackReference_total (tracked present)
    exact ⟨_, by
      simp only [Bool.false_eq_true, if_false, setArchetype, untracked, ok_bind]
      rfl⟩

/-! ## Entries -/

/-- What a step does to the tracked references of an archetype: it tracks the
entities it initializes, and untracks those it frees. The storages stay. -/
structure Retracked (types : Types V) (r r' : Roll) (a a' : Archetype (w arch) (T arch) V) :
    Prop where
  order : a'.typed.simpleStorages.order = a.typed.simpleStorages.order
  kept : types.entityRc = true → ∀ i, r'.freed ≠ i :: r.freed →
    (rctrackGet a.rctrack i).isSome = true → (rctrackGet a'.rctrack i).isSome = true
  init : types.entityRc = true → ∀ i, r'.ready = i :: r.ready →
    (rctrackGet a'.rctrack i).isSome = true
  freed : types.entityRc = true → ∀ i, r'.freed = i :: r.freed →
    (rctrackGet a.rctrack i).isSome = true
  ready : types.entityRc = true →
    (∀ i, (rctrackGet a.rctrack i).isSome = true → i ∈ r.ready) →
    ∀ i, (rctrackGet a'.rctrack i).isSome = true → i ∈ r'.ready

section Entries

variable {r r' : Roll} {a a' : Archetype (w arch) (T arch) V}

theorem retracked_same (order : a'.typed.simpleStorages.order = a.typed.simpleStorages.order)
    (rctrack : a'.rctrack = a.rctrack) (ready : r'.ready = r.ready) (freed : r'.freed = r.freed) :
    Retracked types r r' a a' := by
  refine ⟨order, fun _ i _ tracked => rctrack ▸ tracked, fun _ i grows => ?_,
    fun _ i grows => ?_, fun _ known i tracked => ready ▸ known i (rctrack ▸ tracked)⟩
  · rw [ready] at grows
    exact absurd grows.symm (List.cons_ne_self i _)
  · rw [freed] at grows
    exact absurd grows.symm (List.cons_ne_self i _)

theorem retracked_init {id rc : Nat} {compMap : CompMap V} {e : Recycling (w arch) (T arch)}
    (init : Initialized types id rc compMap { a with ealloc := e } a')
    (ready : r'.ready = id :: r.ready) (freed : r'.freed = r.freed) :
    Retracked types r r' a a' := by
  have tracks := init.rctrack
  refine ⟨(Typed.initEntity_ok init.typed).order, fun counted i _ tracked => ?_,
    fun counted i grows => ?_, fun _ i grows => ?_, fun counted known i tracked => ?_⟩
  · rw [trackReference, if_pos counted] at tracks
    rw [rctrackGet_set tracks]
    split
    · rfl
    · exact tracked
  · rw [trackReference, if_pos counted] at tracks
    rw [ready, List.cons.injEq] at grows
    rw [rctrackGet_set tracks, if_pos grows.1.symm]
    rfl
  · rw [freed] at grows
    exact absurd grows.symm (List.cons_ne_self i _)
  · rw [trackReference, if_pos counted] at tracks
    rw [rctrackGet_set tracks] at tracked
    rw [ready]
    split at tracked
    · rename_i same
      exact same ▸ .head _
    · exact .tail _ (known i tracked)

theorem retracked_free {id : Nat} {references : List Nat} {e : Recycling (w arch) (T arch)}
    (deleted : Deleted types references id { a with ealloc := e } a') :
    Retracked types r (r.free id) a a' := by
  obtain ⟨flagged, eq, set, -⟩ := deleted.typed
  have removed : types.entityRc = true → ∃ rc, rctrackGet a.rctrack id = some rc ∧
      ∀ i, rctrackGet a'.rctrack i = if i = id then none else rctrackGet a.rctrack i := by
    intro counted
    have untracks := deleted.rctrack
    rw [untrackReference, if_pos counted] at untracks
    obtain ⟨⟨rc, store⟩, removed, done⟩ := bind_eq_ok.mp untracks
    simp only at done
    split at done
    · cases done
      exact ⟨rc, rctrackRemove_found removed, rctrackGet_remove removed⟩
    · cases done
  refine ⟨?_, fun counted i others tracked => ?_, fun _ i grows => ?_, fun counted i grows => ?_,
    fun counted known i tracked => ?_⟩
  · rw [eq, Typed.clearEntry_order]
    exact (Typed.setSimple_ok set).1
  · obtain ⟨rc, -, left⟩ := removed counted
    rw [left, if_neg]
    · exact tracked
    · rintro rfl
      exact others rfl
  · have shorter := List.length_erase_le (a := id) (l := r.ready)
    have longer := congrArg List.length grows
    simp only [Roll.free, List.length_cons] at longer
    omega
  · obtain ⟨rc, found, -⟩ := removed counted
    simp only [Roll.free, List.cons.injEq, and_true] at grows
    subst grows
    rw [found]
    rfl
  · obtain ⟨rc, -, left⟩ := removed counted
    rw [left] at tracked
    split at tracked
    · cases tracked
    · rename_i other
      exact (List.mem_erase_of_ne other).mpr (known i tracked)

theorem retracked_flag {id : Nat} {e : Recycling (w arch) (T arch)}
    (flagged : Flagged types id { a with ealloc := e } a') : Retracked types r r a a' :=
  retracked_same (Typed.setSimple_ok flagged.typed).1 flagged.rctrack rfl rfl

end Entries

theorem Touches.retracked {changed : DbgTypeId} {world world' : World w T V}
    {R : Archetype (w changed) (T changed) V → Archetype (w changed) (T changed) V → Prop}
    (touches : Touches world world' changed R) {roll : DbgTypeId → Roll} {r' : Roll}
    (here : ∀ a a', R a a' → Retracked types (roll changed) r' a a')
    {a' : Archetype (w arch) (T arch) V} (after : world'.archetypes.lookup arch = some a') :
    ∃ a, world.archetypes.lookup arch = some a ∧
      Retracked types (roll arch) (Function.update roll changed r' arch) a a' := by
  by_cases same : arch = changed
  · subst same
    obtain ⟨a, a'', before, after', change⟩ := touches.here
    cases after.symm.trans after'
    rw [Function.update_self]
    exact ⟨a, before, here a a' change⟩
  · rw [Function.update_of_ne same]
    exact ⟨a', touches.others arch same ▸ after, retracked_same rfl rfl rfl rfl⟩

/-- A change that leaves the entities alone. -/
theorem Touches.retracked_access {changed : DbgTypeId} {world world' : World w T V}
    {R : Archetype (w changed) (T changed) V → Archetype (w changed) (T changed) V → Prop}
    (touches : Touches world world' changed R) {roll : DbgTypeId → Roll}
    (here : ∀ a a', R a a' → Retracked types (roll changed) (roll changed) a a')
    {a' : Archetype (w arch) (T arch) V} (after : world'.archetypes.lookup arch = some a') :
    ∃ a, world.archetypes.lookup arch = some a ∧
      Retracked types (roll arch) (roll arch) a a' := by
  have entry := touches.retracked here after
  rwa [Function.update_eq_self] at entry

theorem forEalloc_retracked {world world' : World w T V}
    {f : ∀ arch, Recycling (w arch) (T arch) → Except Panic (Recycling (w arch) (T arch))}
    (run : world.forEalloc f = .ok world') {r : Roll} {a' : Archetype (w arch) (T arch) V}
    (after : world'.archetypes.lookup arch = some a') :
    ∃ a, world.archetypes.lookup arch = some a ∧ Retracked types r r a a' := by
  obtain ⟨known, unknown⟩ := (forEalloc_ok run).1 arch
  cases before : world.archetypes.lookup arch with
  | none => cases after.symm.trans (unknown before)
  | some a =>
    obtain ⟨a'', after', change⟩ := known a before
    cases after.symm.trans after'
    exact ⟨a, rfl, retracked_same (by rw [change.typed]) change.rctrack rfl rfl⟩

theorem step_retracked (step : s.Step types label t) {a' : Archetype (w arch) (T arch) V}
    (after : t.world.archetypes.lookup arch = some a') :
    ∃ a, s.world.archetypes.lookup arch = some a ∧
      Retracked types (s.roll arch) (t.roll arch) a a' := by
  cases step with
  | create changed shardId hint compMap host run =>
    refine (createWithHint_ok run).1.retracked ?_ after
    rintro a a' ⟨e, -, init⟩
    exact retracked_init init rfl rfl
  | delete changed id host run =>
    obtain ⟨-, touches⟩ := delete_deleted run
    exact touches.retracked (fun a a' deleted => retracked_free deleted) after
  | deleteTerminating changed id host run =>
    obtain ⟨-, touches⟩ := delete_terminating run
    exact touches.retracked_access (fun a a' flagged => retracked_flag flagged) after
  | setSimple changed comp id value _ _ run =>
    exact (setSimple_ok run).1.retracked_access
      (fun a a' h => retracked_same (Typed.setSimple_ok h.typed).1 h.rctrack rfl rfl) after
  | openIsotope changed comp discrim _ _ run =>
    refine (openIsotope_ok run).1.retracked_access (fun a a' h => ?_) after
    obtain ⟨map, storage, map', -, -, eq⟩ := h.typed
    exact retracked_same (by rw [eq]) h.rctrack rfl rfl
  | setIsotope changed comp discrim id value _ run
  | getIsotope changed comp discrim id value _ _ run =>
    refine (setIsotope_ok run).1.retracked_access (fun a a' h => ?_) after
    obtain ⟨map, storage, -, -, eq⟩ := h.typed
    exact retracked_same (by rw [eq]) h.rctrack rfl rfl
  | cloneReference | dropReference | join => exact ⟨a', after, retracked_same rfl rfl rfl rfl⟩
  | execute assign host run => exact forEalloc_retracked run after
  | createOnline worker changed hint compMap online _ run =>
    refine (createEntityWithHintAndShard_ok run).1.retracked (fun a a' h => ?_) after
    exact retracked_same (by rw [h.typed]) h.rctrack rfl rfl
  | deleteOnline worker changed id online run =>
    obtain ⟨items, -, rfl⟩ := pushOperation_ok run
    exact ⟨a', after, retracked_same rfl rfl rfl rfl⟩
  | drainCreate draining run =>
    refine (initEntity_ok run).1.retracked (fun a a' init => ?_) after
    exact retracked_init (e := a.ealloc) init rfl rfl
  | drainDelete draining run =>
    have touches := flagDeleteEntity_deleted run
    exact touches.retracked
      (fun a a' deleted => retracked_free (e := a.ealloc) deleted) after
  | drainRerun draining run =>
    have touches := flagDeleteEntity_terminating run
    exact touches.retracked_access
      (fun a a' flagged => retracked_flag (e := a.ealloc) flagged) after
  | flush drained run => exact forEalloc_retracked run after

/-! ## Requests -/

/-- Deletions are requested of live entities. A deletion completes only if no
other request for the same entity is pending and, with reference counting, if
the entity does not wait for its initialization. -/
def Timely (types : Types V) (s : Machine w T V) : Label Hint V → Prop
  | .delete arch id => id ∈ (s.roll arch).live ∧
      (s.world.hasFinalizer types arch id = false → .deleteEntity arch id ∉ s.pending)
  | .deleteOnline _ arch id => id ∈ (s.roll arch).live
  | .drain => ∀ arch id todo newQueue,
      s.phase = .draining (.deleteEntity arch id :: todo) newQueue →
      s.world.hasFinalizer types arch id = false → .deleteEntity arch id ∉ todo ++ newQueue ∧
        (types.entityRc = true → id ∉ creates arch todo)
  | _ => True

/-- The strong references to an entity without finalizers were dropped. -/
def Dropped (types : Types V) (s : Machine w T V) (arch : DbgTypeId) (id : Nat) : Prop :=
  s.world.hasFinalizer types arch id = false → ∀ a rc, s.world.archetypes.lookup arch = some a →
    rctrackGet a.rctrack id = some rc → s.world.references[rc]?.getD 0 = 0

/-- Pending deletions are of live entities, and every live entity is tracked or
waits for its initialization. -/
structure Deletable (types : Types V) (s : Machine w T V) : Prop extends Ledgers s where
  requested : ∀ arch id, .deleteEntity arch id ∈ s.pending → id ∈ (s.roll arch).live
  flag : ∀ arch a, s.world.archetypes.lookup arch = some a →
    types.flag ∈ a.typed.simpleStorages.order
  tracked : types.entityRc = true → ∀ arch a, s.world.archetypes.lookup arch = some a →
    ∀ id ∈ (s.roll arch).live,
      (rctrackGet a.rctrack id).isSome = true ∨ id ∈ creates arch s.pending

theorem mem_creates {id : Nat} {ops : List (Operation V)} :
    id ∈ creates arch ops ↔ ∃ rc compMap, .createEntity arch id rc compMap ∈ ops := by
  simp only [creates, List.mem_filterMap]
  constructor
  · rintro ⟨op, member, created⟩
    cases op with
    | createEntity arch' entity rc compMap =>
      simp only [Operation.created] at created
      split at created
      · rename_i same
        subst same
        cases created
        exact ⟨rc, compMap, member⟩
      · cases created
    | deleteEntity => cases created
  · rintro ⟨rc, compMap, member⟩
    exact ⟨_, member, by simp [Operation.created]⟩

omit [∀ arch, Recycler (T arch) (Hint arch)] in
/-- A deletion that completes takes at most its own request away. -/
theorem Completes.pending {id : Nat} (completes : Completes s label t arch id)
    {op : Operation V} : (op ∈ t.pending → op ∈ s.pending) ∧
      (op ∈ s.pending → op = .deleteEntity arch id ∨ op ∈ t.pending) := by
  rcases completes with ⟨-, same⟩ | ⟨-, todo, newQueue, draining, same⟩
  · rw [same]
    exact ⟨fun h => h, .inr⟩
  · rw [same, pending_draining draining, List.cons_append]
    exact ⟨List.mem_cons_of_mem _, List.mem_cons.mp⟩

omit [∀ arch, Recycler (T arch) (Hint arch)] in
theorem Timely.last {id : Nat} (timely : Timely types s label)
    (final : s.world.hasFinalizer types arch id = false)
    (completes : Completes s label t arch id) : .deleteEntity arch id ∉ t.pending := by
  rcases completes with ⟨rfl, same⟩ | ⟨rfl, todo, newQueue, draining, same⟩
  · rw [same]
    exact timely.2 final
  · rw [same]
    exact (timely arch id todo newQueue draining final).1

/-- Only live entities are freed. -/
theorem frees_live (step : s.Step types label t) (buffered : s.Buffered)
    (timely : Timely types s label) (deletable : Deletable types s) {id : Nat}
    (frees : Frees s t arch id) : id ∈ (s.roll arch).live := by
  cases step_traffic step buffered with
  | keep roll | request _ _ roll => exact absurd frees (not_frees (by rw [roll]))
  | create _ _ roll | createOnline _ _ _ _ roll | init _ _ _ _ roll =>
    exact absurd frees (not_frees (by rw [roll]; exact enroll_freed fun _ => rfl))
  | free changed entity roll final completes =>
    obtain ⟨rfl, rfl⟩ := enroll_free roll frees
    rcases completes with ⟨rfl, -⟩ | ⟨rfl, todo, newQueue, draining, -⟩
    · exact timely.1
    · exact deletable.requested arch id (by rw [pending_draining draining]; exact .head _)

theorem requested_step (traffic : Traffic types s label t) (timely : Timely types s label)
    (deletable : Deletable types s) {id : Nat} (pending : .deleteEntity arch id ∈ t.pending) :
    id ∈ (t.roll arch).live := by
  have before := deletable.requested arch id
  have grown : ∀ {changed : DbgTypeId} {f : Roll → Roll}, (∀ r, r.live ⊆ (f r).live) →
      id ∈ (s.roll arch).live → id ∈ ((s.enroll changed f) arch).live := by
    intro changed f grows live
    by_cases same : arch = changed
    · subst same
      rw [enroll_same]
      exact grows _ live
    · rw [enroll_other same]
      exact live
  cases traffic with
  | keep roll same => exact roll ▸ before (same.mem_iff.mp pending)
  | create changed entity roll same =>
    exact roll ▸ grown (fun r => List.subset_cons_self ..) (before (same ▸ pending))
  | createOnline changed entity rc compMap roll same =>
    rcases List.mem_cons.mp (same.mem_iff.mp pending) with new | old
    · cases new
    · exact roll ▸ grown (fun r => List.subset_cons_self ..) (before old)
  | init changed entity rc compMap roll same =>
    exact roll ▸ grown (fun r => List.Subset.refl _) (before (same ▸ .tail _ pending))
  | request changed entity roll same asked =>
    rw [roll]
    rcases List.mem_cons.mp (same.mem_iff.mp pending) with new | old
    · cases new
      rcases asked with rfl | ⟨worker, rfl⟩
      · exact timely.1
      · exact timely
    · exact before old
  | free changed entity roll final completes =>
    have live := before (completes.pending.1 pending)
    have last := timely.last final completes
    rw [roll]
    by_cases same : arch = changed
    · subst same
      rw [enroll_same]
      refine (List.mem_erase_of_ne ?_).mpr live
      rintro rfl
      exact last pending
    · rw [enroll_other same]
      exact live

/-- An entity that is live after a creation was live before, or was created. -/
theorem live_created {changed : DbgTypeId} {entity id : Nat} {f : Roll → Roll}
    (roll : t.roll = s.enroll changed f) (adds : ∀ r, (f r).live = entity :: r.live)
    (live : id ∈ (t.roll arch).live) : (arch = changed ∧ id = entity) ∨ id ∈ (s.roll arch).live := by
  rw [roll] at live
  by_cases here : arch = changed
  · subst here
    rw [enroll_same, adds] at live
    rcases List.mem_cons.mp live with rfl | old
    · exact .inl ⟨rfl, rfl⟩
    · exact .inr old
  · rw [enroll_other here] at live
    exact .inr live

theorem live_kept {changed : DbgTypeId} {id : Nat} {f : Roll → Roll}
    (roll : t.roll = s.enroll changed f) (fewer : ∀ r, ∀ x ∈ (f r).live, x ∈ r.live)
    (live : id ∈ (t.roll arch).live) : id ∈ (s.roll arch).live := by
  rw [roll] at live
  by_cases here : arch = changed
  · subst here
    rw [enroll_same] at live
    exact fewer _ id live
  · rw [enroll_other here] at live
    exact live

theorem tracked_step (step : s.Step types label t) (buffered : s.Buffered)
    (deletable : Deletable types s) (counted : types.entityRc = true)
    {a' : Archetype (w arch) (T arch) V} (after : t.world.archetypes.lookup arch = some a')
    {id : Nat} (live : id ∈ (t.roll arch).live) :
    (rctrackGet a'.rctrack id).isSome = true ∨ id ∈ creates arch t.pending := by
  obtain ⟨a, before, entry⟩ := step_retracked step after
  have kept : ¬ Frees s t arch id → id ∈ (s.roll arch).live →
      (∀ rc compMap, .createEntity arch id rc compMap ∈ s.pending →
        .createEntity arch id rc compMap ∈ t.pending) →
      (rctrackGet a'.rctrack id).isSome = true ∨ id ∈ creates arch t.pending := by
    intro unfreed live waits
    rcases deletable.tracked counted arch a before id live with tracked | waiting
    · exact .inl (entry.kept counted id unfreed tracked)
    · obtain ⟨rc, compMap, member⟩ := mem_creates.mp waiting
      exact .inr (mem_creates.mpr ⟨rc, compMap, waits rc compMap member⟩)
  cases step_traffic step buffered with
  | keep roll same =>
    exact kept (not_frees (by rw [roll])) (roll ▸ live) fun _ _ => same.mem_iff.mpr
  | request changed entity roll same =>
    exact kept (not_frees (by rw [roll])) (roll ▸ live)
      fun _ _ member => same.mem_iff.mpr (.tail _ member)
  | create changed entity roll same =>
    have unfreed : ¬ Frees s t arch id :=
      not_frees (by rw [roll]; exact enroll_freed fun _ => rfl)
    rcases live_created roll (fun _ => rfl) live with ⟨rfl, rfl⟩ | live
    · exact .inl (entry.init counted id (by rw [roll, enroll_same]; rfl))
    · exact kept unfreed live fun _ _ member => same ▸ member
  | createOnline changed entity rc compMap roll same =>
    have unfreed : ¬ Frees s t arch id :=
      not_frees (by rw [roll]; exact enroll_freed fun _ => rfl)
    rcases live_created roll (fun _ => rfl) live with ⟨rfl, rfl⟩ | live
    · exact .inr (mem_creates.mpr ⟨rc, compMap, same.mem_iff.mpr (.head _)⟩)
    · exact kept unfreed live fun _ _ member => same.mem_iff.mpr (.tail _ member)
  | init changed entity rc compMap roll same =>
    by_cases here : arch = changed ∧ id = entity
    · obtain ⟨rfl, rfl⟩ := here
      exact .inl (entry.init counted id (by rw [roll, enroll_same]; rfl))
    · have unfreed : ¬ Frees s t arch id :=
        not_frees (by rw [roll]; exact enroll_freed fun _ => rfl)
      refine kept unfreed (live_kept roll (fun _ _ member => member) live) fun rc' compMap' member => ?_
      rw [same] at member
      rcases List.mem_cons.mp member with eq | member
      · cases eq
        exact absurd ⟨rfl, rfl⟩ here
      · exact member
  | free changed entity roll final completes =>
    have nodup := deletable.live_nodup arch
    have before := live_kept roll (fun _ _ => List.mem_of_mem_erase) live
    refine kept (fun frees => ?_) before fun rc compMap member => ?_
    · obtain ⟨rfl, rfl⟩ := enroll_free roll frees
      rw [roll, enroll_same] at live
      exact nodup.not_mem_erase live
    · rcases completes.pending.2 member with eq | member
      · cases eq
      · exact member

theorem deletable_step (step : s.Step types label t) (buffered : s.Buffered)
    (timely : Timely types s label) (deletable : Deletable types s) : Deletable types t := by
  have traffic := step_traffic step buffered
  refine ⟨ledgers_step step (fun arch id => frees_live step buffered timely deletable)
    deletable.toLedgers, fun arch id => requested_step traffic timely deletable,
    fun arch a' after => ?_, fun counted arch a' after id =>
      tracked_step step buffered deletable counted after⟩
  obtain ⟨a, before, entry⟩ := step_retracked step after
  rw [entry.order]
  exact deletable.flag arch a before

theorem deletable_start (width : ∀ arch, 0 < w arch) {b : Builder U V}
    (registered : b.AllRegistered types) : Deletable types (.start b : Machine w T V) := by
  refine ⟨(books_start width b).toLedgers, fun arch id member => ?_, fun arch a found => ?_,
    fun _ arch a _ id live => nomatch live⟩
  · change _ ∈ (b.build : World w T V).offlineBuffer.operations at member
    rw [build_operations] at member
    cases member
  · change (b.build : World w T V).archetypes.lookup arch = some a at found
    rw [build_lookup] at found
    obtain ⟨typed, known, rfl⟩ := Option.map_eq_some_iff.mp found
    exact (registered arch typed known).blank.flag

theorem deletable_run (width : ∀ arch, 0 < w arch) {b : Builder U V}
    (registered : b.AllRegistered types) {trace : List (Machine.Transition w T Hint V)}
    (run : Machine.Run types (.start b) trace s)
    (timely : ∀ t ∈ trace, Timely types t.before t.label) :
    Deletable types s ∧ ∀ t ∈ trace, ∀ arch id, Frees t.before t.after arch id →
      id ∈ (t.before.roll arch).live := by
  induction run with
  | start => exact ⟨deletable_start width registered, by simp⟩
  | next past step ih =>
    obtain ⟨here, timely⟩ := List.forall_mem_cons.mp timely
    obtain ⟨deletable, frees⟩ := ih timely
    exact ⟨deletable_step step (buffered_run past) here deletable,
      List.forall_mem_cons.mpr
        ⟨fun arch id => frees_live step (buffered_run past) here deletable, frees⟩⟩

/-- With reference counting, only initialized entities are tracked, and freed. -/
theorem counted_run (counted : types.entityRc = true) (width : ∀ arch, 0 < w arch)
    {b : Builder U V} {trace : List (Machine.Transition w T Hint V)}
    (run : Machine.Run types (.start b) trace s) : Books s ∧
      ∀ arch a, s.world.archetypes.lookup arch = some a →
        ∀ i, (rctrackGet a.rctrack i).isSome = true → i ∈ (s.roll arch).ready := by
  induction run with
  | start =>
    refine ⟨books_start width b, fun arch a found i tracked => ?_⟩
    change (b.build : World w T V).archetypes.lookup arch = some a at found
    rw [build_lookup] at found
    obtain ⟨typed, -, rfl⟩ := Option.map_eq_some_iff.mp found
    cases tracked
  | next past step ih =>
    obtain ⟨books, known⟩ := ih
    refine ⟨books_step step (buffered_run past) (fun arch id frees => ?_) books,
      fun arch a' after => ?_⟩
    · obtain ⟨a₀, a', e, -, after, -⟩ := frees_deleted step frees
      obtain ⟨a, before, entry⟩ := step_retracked step after
      exact known arch a before id (entry.freed counted id frees)
    · obtain ⟨a, before, entry⟩ := step_retracked step after
      exact entry.ready counted (known arch a before)

/-- A live entity that does not wait for its initialization can be deleted. -/
theorem Deletable.entry (deletable : Deletable types s) {id : Nat}
    (live : id ∈ (s.roll arch).live) (ready : s.world.hasFinalizer types arch id = false →
      types.entityRc = true → id ∉ creates arch s.pending)
    (dropped : Dropped types s arch id) :
    ∃ a, s.world.archetypes.lookup arch = some a ∧
      types.flag ∈ a.typed.simpleStorages.order ∧
      (a.typed.hasFinalizer types arch id = false → types.entityRc = true →
        ∃ rc, rctrackGet a.rctrack id = some rc ∧ s.world.references[rc]?.getD 0 = 0) := by
  cases found : s.world.archetypes.lookup arch with
  | none =>
    have none := deletable.unknown arch (by rw [ealloc, found]; rfl)
    rw [none] at live
    cases live
  | some a =>
    refine ⟨a, rfl, deletable.flag arch a found, fun final counted => ?_⟩
    rw [← hasFinalizer_lookup found] at final
    rcases deletable.tracked counted arch a found id live with tracked | waiting
    · obtain ⟨rc, tracked⟩ := Option.isSome_iff_exists.mp tracked
      exact ⟨rc, tracked, dropped final a rc found tracked⟩
    · exact absurd waiting (ready final counted)

theorem Deletable.delete_total (deletable : Deletable types s) (buffered : s.Buffered)
    (host : s.phase = .host) {id : Nat} (live : id ∈ (s.roll arch).live)
    (dropped : Dropped types s arch id) :
    ∃ result, s.world.delete types arch id = .ok result := by
  have idle : creates arch s.pending = [] := by
    simp only [Machine.Buffered, host] at buffered
    rw [Machine.pending, host]
    simp only [Buffer.operations, buffered.1, List.append_nil]
    exact buffered.2 arch
  obtain ⟨a, found, flag, tracked⟩ := deletable.entry live (fun _ _ => by simp [idle]) dropped
  have marked : s.world.markNeedFlush arch = .ok (s.world.setArchetype arch
      { a with ealloc := a.ealloc.markNeedFlush }) := by
    rw [markNeedFlush, archetype_ok.mpr found]
    rfl
  obtain ⟨⟨result, world⟩, run⟩ : ∃ result, World.flagDeleteEntity types (s.world.setArchetype arch
      { a with ealloc := a.ealloc.markNeedFlush }) arch id = .ok result :=
    flagDeleteEntity_total (AList.lookup_insert _) flag tracked
  rw [delete, marked, ok_bind, run, ok_bind]
  cases result with
  | deleted => exact ⟨_, rfl⟩
  | terminating => exact ⟨_, rfl⟩

theorem Deletable.drain_total (deletable : Deletable types s) (buffered : s.Buffered) {id : Nat}
    {todo newQueue : List (Operation V)}
    (draining : s.phase = .draining (.deleteEntity arch id :: todo) newQueue)
    (timely : Timely types s (.drain : Label Hint V)) (dropped : Dropped types s arch id) :
    ∃ result, s.world.flagDeleteEntity types arch id = .ok result := by
  have live := deletable.requested arch id (by rw [pending_draining draining]; exact .head _)
  have ready : s.world.hasFinalizer types arch id = false → types.entityRc = true →
      id ∉ creates arch s.pending := by
    intro final counted waits
    simp only [Machine.Buffered, draining] at buffered
    rw [pending_draining draining, creates_append, buffered.2 arch, List.append_nil] at waits
    exact (timely arch id todo newQueue draining final).2 counted waits
  obtain ⟨a, found, flag, tracked⟩ := deletable.entry live ready dropped
  exact flagDeleteEntity_total found flag tracked

/-- **Each entity is freed at most once.** In every run in which a deletion
completes only when no other request for the same entity is pending, each
created entity is live or was freed once, no two live entities share an ID, only
live entities are freed, and the deletion of an entity whose references were
dropped does not panic. -/
theorem freed_once [DecidableEq U] (width : ∀ arch, 0 < w arch) {b : Builder U V}
    {systems : List (Node × System U)} (scheduled : Scheduled types b systems)
    {trace : List (Machine.Transition w T Hint V)} (run : Machine.Run types (.start b) trace s)
    (timely : ∀ t ∈ trace, Timely types t.before t.label) :
    (∀ arch, (s.roll arch).live.Nodup ∧ ∀ id, (s.roll arch).created.count id =
      (s.roll arch).freed.count id + (s.roll arch).live.count id) ∧
    (∀ t ∈ trace, ∀ arch id, (t.after.roll arch).freed = id :: (t.before.roll arch).freed →
      id ∈ (t.before.roll arch).live) ∧
    (∀ arch id, s.phase = .host → Timely types s (.delete arch id : Label Hint V) →
      Dropped types s arch id → ∃ result, s.world.delete types arch id = .ok result) ∧
    ∀ arch id todo newQueue, s.phase = .draining (.deleteEntity arch id :: todo) newQueue →
      Timely types s (.drain : Label Hint V) → Dropped types s arch id →
      ∃ result, s.world.flagDeleteEntity types arch id = .ok result := by
  obtain ⟨deletable, frees⟩ := deletable_run width (scheduled_registered scheduled) run timely
  have buffered := buffered_run run
  refine ⟨fun arch => ⟨deletable.live_nodup arch, deletable.balance arch⟩, frees, ?_, ?_⟩
  · intro arch id host timely dropped
    exact deletable.delete_total buffered host timely.1 dropped
  · intro arch id todo newQueue draining timely dropped
    exact deletable.drain_total buffered draining timely dropped

theorem freed_once_online : ∃ (trace : PlainTrace) (s : PlainMachine),
    Machine.Run plainTypes (.start creation) trace s ∧ (s.roll ⟨0⟩).freed = [1] ∧
    ∀ t ∈ trace, ∀ arch id, (t.after.roll arch).freed = id :: (t.before.roll arch).freed →
      id ∈ (t.before.roll arch).live := by
  have scheduled : Scheduled plainTypes creation
      [(.sendSystem 0, reader), (.sendSystem 1, creator)] :=
    .schedule creator rfl (.schedule reader rfl (.new 2))
  obtain ⟨trace, s, run, freed, timely⟩ : ∃ (trace : PlainTrace) (s : PlainMachine),
      Machine.Run plainTypes (.start creation) trace s ∧ (s.roll ⟨0⟩).freed = [1] ∧
      ∀ t ∈ trace, Timely plainTypes t.before t.label := by
    refine ⟨_, _, .next (.next (.next (.next (.next (.next .start
      (.create ⟨0⟩ 0 () noComponents rfl rfl)) (.dropReference 0 trivial))
      (.execute inOrder rfl rfl rfl (by decide))) (.deleteOnline 1 ⟨0⟩ 1 rfl rfl)) (.join rfl))
      (.drainDelete rfl rfl), rfl, ?_⟩
    rintro t (_ | ⟨_, _ | ⟨_, _ | ⟨_, _ | ⟨_, _ | ⟨_, _ | ⟨_, ⟨⟩⟩⟩⟩⟩⟩⟩)
    · intro arch id todo newQueue draining final
      cases draining
      exact ⟨nofun, fun _ => nofun⟩
    · trivial
    · exact .head _
    · trivial
    · trivial
    · trivial
  exact ⟨trace, s, run, freed, (freed_once (fun _ => by decide) scheduled run timely).2.1⟩

/-- The types of the examples, without reference counting. -/
def uncountedTypes : Types Nat := { plainTypes with entityRc := false }

/-- An entity that two systems queue for deletion in one cycle is freed twice,
and the two entities created next share its ID. With reference counting, the
second deletion panics. -/
theorem freed_once_repeated :
    (∃ (trace : PlainTrace) (s : PlainMachine),
      Machine.Run uncountedTypes (.start creation) trace s ∧
      (∀ t ∈ trace, ∀ worker arch id, t.label = .deleteOnline worker arch id →
        id ∈ (t.before.roll arch).live) ∧
      (∃ t ∈ trace, (t.after.roll ⟨0⟩).created = [1] ∧ (t.after.roll ⟨0⟩).freed = [1, 1]) ∧
      (s.roll ⟨0⟩).live = [1, 1]) ∧
    ∃ (trace : PlainTrace) (s : PlainMachine),
      Machine.Run plainTypes (.start creation) trace s ∧
      (∀ t ∈ trace, ∀ worker arch id, t.label = .deleteOnline worker arch id →
        id ∈ (t.before.roll arch).live) ∧
      s.world.references = [0] ∧ s.phase = .draining [.deleteEntity ⟨0⟩ 1] [] ∧
      s.world.flagDeleteEntity plainTypes ⟨0⟩ 1 = .error .doubleFree := by
  constructor
  · refine ⟨_, _, .next (.next (.next (.next (.next (.next (.next (.next (.next (.next (.next .start
      (.create ⟨0⟩ 0 () noComponents rfl rfl)) (.dropReference 0 trivial))
      (.execute inOrder rfl rfl rfl (by decide))) (.deleteOnline 0 ⟨0⟩ 1 rfl rfl))
      (.deleteOnline 1 ⟨0⟩ 1 rfl rfl)) (.join rfl)) (.drainDelete rfl rfl)) (.drainDelete rfl rfl))
      (.flush rfl rfl)) (.create ⟨0⟩ 1 () noComponents rfl rfl))
      (.create ⟨0⟩ 2 () noComponents rfl rfl),
      ?_, ⟨_, .tail _ (.tail _ (.tail _ (.head _))), rfl, rfl⟩, rfl⟩
    simp only [List.forall_mem_cons]
    refine ⟨nofun, nofun, nofun, nofun, nofun, nofun, ?_, ?_, nofun, nofun, nofun, nofun⟩
    · rintro worker arch id ⟨⟩
      exact .head _
    · rintro worker arch id ⟨⟩
      exact .head _
  · refine ⟨_, _, .next (.next (.next (.next (.next (.next (.next .start
      (.create ⟨0⟩ 0 () noComponents rfl rfl)) (.dropReference 0 trivial))
      (.execute inOrder rfl rfl rfl (by decide))) (.deleteOnline 0 ⟨0⟩ 1 rfl rfl))
      (.deleteOnline 1 ⟨0⟩ 1 rfl rfl)) (.join rfl)) (.drainDelete rfl rfl), ?_, rfl, rfl, rfl⟩
    simp only [List.forall_mem_cons]
    refine ⟨nofun, nofun, ?_, ?_, nofun, nofun, nofun, nofun⟩
    · rintro worker arch id ⟨⟩
      exact .head _
    · rintro worker arch id ⟨⟩
      exact .head _

end Dynec.World
