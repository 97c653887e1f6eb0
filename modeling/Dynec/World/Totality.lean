import Dynec.World.Leftovers
import Dynec.Entity.Numbers

/-!
# Isotopes with initializers

A new entity gets a value in every storage of an isotope type with an
initializer, and a new storage gets a value for every entity of a snapshot. No
value is missing as long as no storage is created from a snapshot that lacks an
initialized entity.
-/

namespace Dynec.World

open Entity Fallible

variable {U V : Type} {w : DbgTypeId → Nat} {T Hint : DbgTypeId → Type}
  [∀ arch, Recycler (T arch) (Hint arch)] {types : Types V} {s t : Machine w T V}
  {label : Label Hint V} {arch comp : DbgTypeId}

/-- `AccessIsotope::get` or `get_mut`: the storage of the discriminant is
obtained, and then read. -/
def accessIsotope (types : Types V) (self : World w T V) (snapshot : Snapshot)
    (arch comp : DbgTypeId) (discrim : Discrim) (entity : Nat) :
    Except Panic (V × World w T V) := do
  let self ← self.openIsotope types snapshot arch comp discrim
  let value ← expect .noInitializer (self.getIsotope arch comp discrim entity)
  return (value, self)

/-! ## Storages -/

namespace Typed

variable {typed typed' : Typed V} {ids : List Nat} {initer : List V → V}

/-- Every storage of an isotope type has a value for each of the entities. -/
def Total (typed : Typed V) (comp : DbgTypeId) (ids : List Nat) : Prop :=
  ∀ map, typed.isotopeStorageMaps.lookup comp = some map →
    ∀ d storage, map.lookup d = some storage → ∀ id ∈ ids, (storage id).isSome = true

/-- A new entity is given a value for a discriminant that has no storage yet. -/
def Introduces (typed : Typed V) (comp : DbgTypeId) (compMap : CompMap V) : Prop :=
  ∃ map, typed.isotopeStorageMaps.lookup comp = some map ∧
    ∃ d ∈ (compMap.removeIsotope comp).map Prod.fst, map.lookup d = none

theorem Total.sub {ids' : List Nat} (total : typed.Total comp ids) (sub : ∀ id ∈ ids', id ∈ ids) :
    typed.Total comp ids' :=
  fun map found d storage opened id member => total map found d storage opened id (sub id member)

theorem Total.congr (total : typed.Total comp ids)
    (same : typed'.isotopeStorageMaps = typed.isotopeStorageMaps) : typed'.Total comp ids := by
  intro map found
  rw [same] at found
  exact total map found

/-- A new storage of a type with an initializer. -/
theorem newStorage_total {ty : IsotopeType V} {entities : Except Panic (List Nat)}
    {storage : Storage V} {id : Nat} (auto : ty.initStrategy = .auto [] initer)
    (created : IsotopeMap.newStorage ty entities = .ok storage)
    (covered : ∀ all, entities = .ok all → id ∈ all) : (storage id).isSome = true := by
  have new := IsotopeMap.newStorage_ok created
  rw [auto] at new
  obtain ⟨all, listed, -, values⟩ := new
  rw [values, if_pos (covered all listed)]
  rfl

/-- The initialization of an entity. -/
theorem Total.init {w : Nat} {T : Type} {ealloc : Recycling w T} {entity : Nat}
    {compMap : CompMap V} (total : typed.Total comp ids)
    (auto : (types.isotopeOf arch comp).initStrategy = .auto [] initer)
    (filled : InitFilled types arch entity compMap ealloc typed typed')
    (covered : typed.Introduces comp compMap →
      ∀ all, IsotopeMap.snapshotIds ealloc = .ok all → ∀ id ∈ ids, id ∈ all) :
    typed'.Total comp (entity :: ids) := by
  intro map' found' d storage opened' id member
  cases found : typed.isotopeStorageMaps.lookup comp with
  | none =>
    rw [filled.unknown comp found] at found'
    cases found'
  | some map =>
    obtain ⟨map'', found'', fill⟩ := filled.isotope comp map found
    cases found'.symm.trans found''
    obtain ⟨old, opened, frame, source⟩ := fill.present d storage opened'
    by_cases here : id = entity
    · subst here
      rcases source with ⟨value, -, set⟩ | ⟨-, source⟩
      · simp [set]
      · rw [auto] at source
        rcases source with ⟨value, -, set⟩ | ⟨-, args, -, set⟩
        · simp [set]
        · simp [set]
    · have member : id ∈ ids := (List.mem_cons.mp member).resolve_left here
      rw [frame id here]
      rcases opened with opened | ⟨missing, created⟩
      · exact total map found d old opened id member
      · have given : d ∈ (compMap.removeIsotope comp).map Prod.fst := by
          by_contra absent
          rw [(fill.absent d).mpr ⟨missing, absent⟩] at opened'
          cases opened'
        exact newStorage_total auto created fun all listed =>
          covered ⟨map, found, d, given, missing⟩ all listed id member

/-- An accessor obtains a storage. -/
theorem Total.openIsotope {changed : DbgTypeId} {discrim : Discrim}
    {entities : Except Panic (List Nat)} {map map' : IsotopeMap V} {storage : Storage V}
    (total : typed.Total comp ids)
    (auto : (types.isotopeOf arch comp).initStrategy = .auto [] initer)
    (found : typed.isotopeStorageMaps.lookup changed = some map)
    (run : map.getOrCreate (types.isotopeOf arch changed) discrim entities = .ok (storage, map'))
    (covered : ∀ all, entities = .ok all → ∀ id ∈ ids, id ∈ all) :
    Total { typed with isotopeStorageMaps := typed.isotopeStorageMaps.insert changed map' }
      comp ids := by
  intro map₁ found₁ d storage₁ opened₁ id member
  dsimp only at found₁
  rw [HashMap.lookup_insert_ite] at found₁
  split at found₁
  · rename_i same
    subst same
    cases found₁
    obtain ⟨opened, lookups⟩ := IsotopeMap.getOrCreate_ok run
    rw [lookups] at opened₁
    split at opened₁
    · cases opened₁
      rcases opened with opened | ⟨-, created⟩
      · exact total map found discrim storage opened id member
      · exact newStorage_total auto created fun all listed => covered all listed id member
    · exact total map found d storage₁ opened₁ id member
  · exact total map₁ found₁ d storage₁ opened₁ id member

/-- A value is overwritten. -/
theorem Total.setIsotope {changed : DbgTypeId} {discrim : Discrim} {entity : Nat}
    {value : Option V} {map : IsotopeMap V} {storage : Storage V} (total : typed.Total comp ids)
    (found : typed.isotopeStorageMaps.lookup changed = some map)
    (opened : map.lookup discrim = some storage) (kept : changed = comp → value.isSome = true) :
    Total { typed with
      isotopeStorageMaps := typed.isotopeStorageMaps.insert changed
        (map.insert discrim (storage.set entity value)) } comp ids := by
  intro map₁ found₁ d storage₁ opened₁ id member
  dsimp only at found₁
  rw [HashMap.lookup_insert_ite] at found₁
  split at found₁
  · rename_i same
    subst same
    cases found₁
    rw [HashMap.lookup_insert_ite] at opened₁
    split at opened₁
    · cases opened₁
      rw [Storage.set_apply]
      split
      · exact kept rfl
      · exact total map found discrim storage opened id member
    · exact total map found d storage₁ opened₁ id member
  · exact total map₁ found₁ d storage₁ opened₁ id member

end Typed

/-! ## Issued IDs -/

/-- Deletion is requested for entities that were created. -/
def Requests (t : Machine.Transition w T Hint V) : Prop :=
  match t.label with
  | .delete arch id | .deleteOnline _ arch id => id ∈ (t.before.roll arch).created
  | _ => True

/-- Operations and entities of an archetype have issued IDs, and a live entity
is initialized or waits for it. -/
structure Numbers (arch : DbgTypeId) (s : Machine w T V) : Prop where
  alloc : ∀ e, s.world.ealloc arch = some e →
    e.Numbered ∧ ∀ id ∈ (s.roll arch).created, e.Issued id
  pending : ∀ op ∈ s.pending, op.arch = arch → op.entity ∈ (s.roll arch).created
  ready : ∀ id ∈ (s.roll arch).ready, id ∈ (s.roll arch).created
  waiting : ∀ id, (s.roll arch).live.count id ≤
    (s.roll arch).ready.count id + (creates arch s.pending).count id

/-- The allocator of an archetype keeps the issued IDs. -/
def Reissues (arch : DbgTypeId) (s t : Machine w T V) : Prop :=
  ∀ e', t.world.ealloc arch = some e' → ∃ e, s.world.ealloc arch = some e ∧
    (e.Numbered → (∀ id ∈ (s.roll arch).created, e.Issued id) →
      e'.Numbered ∧ ∀ id ∈ (t.roll arch).created, e'.Issued id)

theorem reissues_same (roll : (t.roll arch).created = (s.roll arch).created)
    (ealloc : t.world.ealloc arch = s.world.ealloc arch) : Reissues arch s t := by
  intro e' after
  refine ⟨e', ealloc ▸ after, fun numbered issued => ⟨numbered, ?_⟩⟩
  rw [roll]
  exact issued

/-- A step that changes the allocator of one archetype. -/
theorem reissues_touches {changed : DbgTypeId}
    {R : Archetype (w changed) (T changed) V → Archetype (w changed) (T changed) V → Prop}
    (touches : Touches s.world t.world changed R)
    (others : arch ≠ changed → (t.roll arch).created = (s.roll arch).created)
    (here : arch = changed → ∀ a a', R a a' → a.ealloc.Numbered →
      (∀ id ∈ (s.roll changed).created, a.ealloc.Issued id) →
      a'.ealloc.Numbered ∧ ∀ id ∈ (t.roll changed).created, a'.ealloc.Issued id) :
    Reissues arch s t := by
  by_cases same : arch = changed
  · subst same
    obtain ⟨a, a', before, after, change⟩ := touches.here
    intro e' found
    rw [ealloc_of_lookup after] at found
    cases found
    exact ⟨a.ealloc, ealloc_of_lookup before, here rfl a a' change⟩
  · exact reissues_same (others same) (touches.ealloc_others same)

theorem enroll_created {changed : DbgTypeId} {f : Roll → Roll} (other : arch ≠ changed) :
    ((s.enroll changed f) arch).created = (s.roll arch).created := by
  rw [enroll_other other]

theorem reissues_allocated {e e' : Recycling (w arch) (T arch)} {index id : Nat} {reuse : Bool}
    {created : List Nat} (allocated : Allocated e index reuse (.ok id, e')) (numbered : e.Numbered)
    (issued : ∀ id ∈ created, e.Issued id) : e'.Numbered ∧ ∀ x ∈ id :: created, e'.Issued x := by
  obtain ⟨numbered', new, kept, -⟩ := numbered.allocated allocated
  exact ⟨numbered', List.forall_mem_cons.mpr ⟨new, fun x member => kept x (issued x member)⟩⟩

/-- The allocators after a flush. -/
theorem reissues_forEalloc {world₀ : World w T V}
    {f : ∀ arch, Recycling (w arch) (T arch) → Except Panic (Recycling (w arch) (T arch))}
    (run : world₀.forEalloc f = .ok t.world) (same : world₀.ealloc arch = s.world.ealloc arch)
    (roll : t.roll = s.roll)
    (keeps : ∀ e e', f arch e = .ok e' → e.Numbered → e'.Numbered ∧ e'.top = e.top) :
    Reissues arch s t := by
  intro e' after
  obtain ⟨e, before, flushed⟩ := forEalloc_ealloc run after
  refine ⟨e, same ▸ before, fun numbered issued => ?_⟩
  obtain ⟨numbered', top⟩ := keeps e e' flushed numbered
  refine ⟨numbered', fun id member => ?_⟩
  rw [roll] at member
  rw [Recycling.Issued, top]
  exact issued id member

theorem step_reissues (step : s.Step types label t) (request : Requests ⟨s, label, t⟩)
    (pending : ∀ op ∈ s.pending, op.arch = arch → op.entity ∈ (s.roll arch).created) :
    Reissues arch s t := by
  cases step with
  | create changed shardId hint compMap host run =>
    apply reissues_touches (createWithHint_ok run).1 enroll_created
    rintro rfl a a' ⟨e, allocated, init⟩ numbered issued
    have outcome := allocate_allocated a.ealloc shardId hint
    rw [allocated] at outcome
    rw [init.ealloc]
    simp only [enroll_same]
    exact reissues_allocated outcome numbered issued
  | delete changed id host run =>
    obtain ⟨-, touches⟩ := delete_deleted run
    apply reissues_touches touches enroll_created
    rintro rfl a a' deleted numbered issued
    rw [deleted.ealloc]
    simp only [enroll_same]
    exact ⟨numbered.markNeedFlush.queueDeallocate (issued id request), issued⟩
  | deleteTerminating changed id host run =>
    obtain ⟨-, touches⟩ := delete_terminating run
    refine reissues_touches touches (fun _ => rfl) fun _ a a' flagged numbered issued => ?_
    rw [flagged.ealloc]
    exact ⟨numbered.markNeedFlush, issued⟩
  | setSimple changed comp id value _ _ run =>
    exact reissues_same rfl ((setSimple_ok run).1.ealloc_same (fun _ _ h => h.ealloc) arch)
  | openIsotope changed comp discrim _ _ run =>
    exact reissues_same rfl ((openIsotope_ok run).1.ealloc_same (fun _ _ h => h.ealloc) arch)
  | setIsotope changed comp discrim id value _ run
  | getIsotope changed comp discrim id value _ _ run =>
    exact reissues_same rfl ((setIsotope_ok run).1.ealloc_same (fun _ _ h => h.ealloc) arch)
  | cloneReference | dropReference | join => exact reissues_same rfl rfl
  | execute assign host flushed =>
    refine reissues_forEalloc flushed rfl rfl fun e e' run numbered => ?_
    obtain ⟨numbered', top, -⟩ := numbered.flushIfMarked run
    exact ⟨numbered', top⟩
  | @createOnline worker changed hint compMap _ _ shardId id world online _ run =>
    apply reissues_touches (createEntityWithHintAndShard_ok run).1 enroll_created
    rintro rfl a a' change numbered issued
    have outcome := shardAllocate_allocated a.ealloc shardId hint
    rw [change.ealloc] at outcome
    simp only [enroll_same]
    exact reissues_allocated outcome numbered issued
  | deleteOnline worker changed id online run =>
    obtain ⟨items, -, rfl⟩ := pushOperation_ok run
    exact reissues_same rfl rfl
  | drainCreate draining run =>
    apply reissues_touches (initEntity_ok run).1 enroll_created
    rintro rfl a a' init numbered issued
    rw [init.ealloc]
    simp only [enroll_same]
    exact ⟨numbered, issued⟩
  | @drainDelete changed id todo newQueue world draining run =>
    have touches := flagDeleteEntity_deleted run
    apply reissues_touches touches enroll_created
    rintro rfl a a' deleted numbered issued
    have listed : .deleteEntity arch id ∈ s.pending := by
      rw [pending_draining draining]
      exact .head _
    rw [deleted.ealloc]
    simp only [enroll_same]
    exact ⟨numbered.queueDeallocate (issued id (pending _ listed rfl)), issued⟩
  | drainRerun draining run =>
    have touches := flagDeleteEntity_terminating run
    exact reissues_same rfl (touches.ealloc_same (fun _ _ h => h.ealloc) arch)
  | flush drained run =>
    refine reissues_forEalloc run rfl rfl fun e e' run numbered => ?_
    obtain ⟨numbered', top, -⟩ := numbered.flush run
    exact ⟨numbered', top⟩

section
variable {changed : DbgTypeId} {id : Nat} (numbers : Numbers arch s)
  (alloc : ∀ e', t.world.ealloc arch = some e' →
    e'.Numbered ∧ ∀ id ∈ (t.roll arch).created, e'.Issued id)
include numbers alloc

/-- A step that leaves the entities of the archetype alone, and takes no creation of
one away. -/
theorem Numbers.same_roll (roll : t.roll arch = s.roll arch)
    (pending : ∀ op ∈ t.pending, op.arch = arch → op ∈ s.pending ∨ op.entity ∈ (s.roll arch).created)
    (kept : ∀ id, (creates arch s.pending).count id ≤ (creates arch t.pending).count id) :
    Numbers arch t := by
  refine ⟨alloc, fun op member own => ?_, by rw [roll]; exact numbers.ready, fun id => ?_⟩
  · rw [roll]
    rcases pending op member own with old | created
    · exact numbers.pending op old own
    · exact created
  · have := numbers.waiting id
    have := kept id
    rw [roll]
    omega

theorem Numbers.create (roll : t.roll = s.enroll changed fun r => (r.create id).init id)
    (pending : t.pending = s.pending) : Numbers arch t := by
  by_cases same : arch = changed
  · subst same
    refine ⟨alloc, ?_, ?_, fun x => ?_⟩
    · rw [roll, enroll_same, pending]
      exact fun op member own => .tail _ (numbers.pending op member own)
    · rw [roll, enroll_same]
      exact List.forall_mem_cons.mpr ⟨.head _, fun x member => .tail _ (numbers.ready x member)⟩
    · have := numbers.waiting x
      rw [roll, enroll_same, pending]
      simp only [Roll.init, Roll.create, List.count_cons]
      omega
  · apply numbers.same_roll alloc
    · rw [roll, enroll_other same]
    · intro op member _
      rw [pending] at member
      exact .inl member
    · intro id
      rw [pending]

theorem Numbers.createOnline {rc : Nat} {compMap : CompMap V}
    (roll : t.roll = s.enroll changed (·.create id))
    (pending : t.pending.Perm (.createEntity changed id rc compMap :: s.pending)) :
    Numbers arch t := by
  by_cases same : arch = changed
  · subst same
    refine ⟨alloc, fun op member own => ?_, ?_, fun x => ?_⟩
    · rw [roll, enroll_same]
      rcases List.mem_cons.mp (pending.mem_iff.mp member) with rfl | old
      · exact .head _
      · exact .tail _ (numbers.pending op old own)
    · rw [roll, enroll_same]
      exact fun x member => .tail _ (numbers.ready x member)
    · have := numbers.waiting x
      rw [roll, enroll_same, (creates_perm arch pending).count_eq, count_creates_cons,
        count_creates_create]
      simp only [Roll.create, List.count_cons, beq_iff_eq, true_and, eq_comm (a := id)]
      omega
  · apply numbers.same_roll alloc
    · rw [roll, enroll_other same]
    · intro op member own
      rcases List.mem_cons.mp (pending.mem_iff.mp member) with rfl | old
      · exact absurd own.symm same
      · exact .inl old
    · intro x
      rw [(creates_perm arch pending).count_eq, count_creates_cons]
      exact Nat.le_add_left _ _

theorem Numbers.init {rc : Nat} {compMap : CompMap V}
    (roll : t.roll = s.enroll changed (·.init id))
    (pending : s.pending = .createEntity changed id rc compMap :: t.pending) :
    Numbers arch t := by
  have fewer : ∀ op ∈ t.pending, op ∈ s.pending := fun op member => by
    rw [pending]
    exact .tail _ member
  by_cases same : arch = changed
  · subst same
    refine ⟨alloc, ?_, ?_, fun x => ?_⟩
    · rw [roll, enroll_same]
      exact fun op member => numbers.pending op (fewer op member)
    · rw [roll, enroll_same]
      have listed : .createEntity arch id rc compMap ∈ s.pending := by
        rw [pending]
        exact .head _
      exact List.forall_mem_cons.mpr ⟨numbers.pending _ listed rfl, numbers.ready⟩
    · have := numbers.waiting x
      rw [pending, count_creates_cons, count_creates_create] at this
      rw [roll, enroll_same]
      simp only [Roll.init, List.count_cons, beq_iff_eq, true_and, eq_comm (a := id)] at this ⊢
      omega
  · apply numbers.same_roll alloc
    · rw [roll, enroll_other same]
    · exact fun op member _ => .inl (fewer op member)
    · intro x
      rw [pending, count_creates_cons, count_creates_create]
      simp only [same, false_and, if_false]
      omega

theorem Numbers.free {label : Label Hint V} (roll : t.roll = s.enroll changed (·.free id))
    (completes : Completes s label t changed id) : Numbers arch t := by
  have fewer : (∀ op ∈ t.pending, op ∈ s.pending) ∧
      ∀ x, (creates arch t.pending).count x = (creates arch s.pending).count x := by
    rcases completes with ⟨-, same⟩ | ⟨-, todo, newQueue, draining, same⟩
    · rw [same]
      exact ⟨fun _ member => member, fun _ => rfl⟩
    · rw [same, pending_draining draining, List.cons_append]
      refine ⟨fun op member => .tail _ member, fun x => ?_⟩
      rw [count_creates_cons, count_creates_delete, Nat.zero_add]
  by_cases same : arch = changed
  · subst same
    refine ⟨alloc, ?_, ?_, fun x => ?_⟩
    · rw [roll, enroll_same]
      exact fun op member => numbers.pending op (fewer.1 op member)
    · rw [roll, enroll_same]
      exact fun x member => numbers.ready x (List.mem_of_mem_erase member)
    · have := numbers.waiting x
      rw [roll, enroll_same, fewer.2]
      simp only [Roll.free, List.count_erase, beq_iff_eq]
      split
      · omega
      · omega
  · apply numbers.same_roll alloc
    · rw [roll, enroll_other same]
    · exact fun op member _ => .inl (fewer.1 op member)
    · exact fun x => Nat.le_of_eq (fewer.2 x).symm

end

theorem numbers_step (step : s.Step types label t) (request : Requests ⟨s, label, t⟩)
    (buffered : s.Buffered) (numbers : Numbers arch s) : Numbers arch t := by
  have alloc : ∀ e', t.world.ealloc arch = some e' →
      e'.Numbered ∧ ∀ id ∈ (t.roll arch).created, e'.Issued id := by
    intro e' after
    obtain ⟨e, before, kept⟩ := step_reissues step request numbers.pending e' after
    obtain ⟨numbered, issued⟩ := numbers.alloc e before
    exact kept numbered issued
  cases step_traffic step buffered with
  | keep roll pending =>
    apply numbers.same_roll alloc
    · rw [roll]
    · exact fun op member _ => .inl (pending.mem_iff.mp member)
    · intro id
      rw [(creates_perm arch pending).count_eq]
  | create changed id roll pending => exact numbers.create alloc roll pending
  | createOnline changed id rc compMap roll pending =>
    exact numbers.createOnline alloc roll pending
  | init changed id rc compMap roll pending => exact numbers.init alloc roll pending
  | request changed id roll pending asked =>
    have created : id ∈ (s.roll changed).created := by
      rcases asked with rfl | ⟨worker, rfl⟩
      · exact request
      · exact request
    apply numbers.same_roll alloc
    · rw [roll]
    · intro op member own
      rcases List.mem_cons.mp (pending.mem_iff.mp member) with rfl | old
      · cases own
        exact .inr created
      · exact .inl old
    · intro x
      rw [(creates_perm arch pending).count_eq, count_creates_cons]
      exact Nat.le_add_left _ _
  | free changed id roll final completes => exact numbers.free alloc roll completes

theorem numbers_start (width : 0 < w arch) (b : Builder U V) :
    Numbers arch (.start b : Machine w T V) := by
  refine ⟨fun e found => ⟨?_, nofun⟩, fun op member => ?_, nofun, fun id => Nat.zero_le _⟩
  · change (b.build : World w T V).ealloc arch = _ at found
    rw [ealloc, build_lookup, Option.map_map] at found
    obtain ⟨typed, -, rfl⟩ := Option.map_eq_some_iff.mp found
    exact Recycling.numbered_new width _
  · change op ∈ (b.build : World w T V).offlineBuffer.operations at member
    rw [build_operations] at member
    cases member

/-! ## Runs -/

/-- No initialized entity is free according to the snapshot from which a storage
is created: that of the allocator when a new entity introduces a discriminant,
and that of the cycle for accessors. -/
def Covered (arch comp : DbgTypeId) (t : Machine.Transition w T Hint V) : Prop :=
  ∀ a, t.before.world.archetypes.lookup arch = some a →
    match t.label with
    | .create changed _ _ compMap => changed = arch → a.typed.Introduces comp compMap →
        ∀ id ∈ (t.before.roll arch).ready, id ∉ a.ealloc.recyclable
    | .drain => ∀ id rc compMap todo newQueue,
        t.before.phase = .draining (.createEntity arch id rc compMap :: todo) newQueue →
        a.typed.Introduces comp compMap →
        ∀ id ∈ (t.before.roll arch).ready, id ∉ a.ealloc.recyclable
    | .execute _ => ∀ id ∈ (t.before.roll arch).ready, id ∉ a.ealloc.flushedIfMarked
    | _ => True

/-- Systems never remove a value of the isotope type. -/
def KeepsValues (arch comp : DbgTypeId) (t : Machine.Transition w T Hint V) : Prop :=
  ∀ discrim id, t.label ≠ .setIsotope arch comp discrim id none

/-- The entities that were live when the cycle started. -/
def startedWith (arch : DbgTypeId) : List (Machine.Transition w T Hint V) → List Nat
  | [] => []
  | t :: trace =>
    match t.label with
    | .execute _ => (t.before.roll arch).live
    | _ => startedWith arch trace

def TotalAt (arch comp : DbgTypeId) (s : Machine w T V) : Prop :=
  ∀ a, s.world.archetypes.lookup arch = some a → a.typed.Total comp (s.roll arch).ready

/-- While systems run, the snapshot lists every initialized entity. -/
def Enumerated (arch : DbgTypeId) (s : Machine w T V) : Prop :=
  ∀ assign snapshots, s.phase = .online assign snapshots →
    ∀ snapshot, snapshots.lookup arch = some snapshot →
      ∃ ids, allocatedIds (w arch) snapshot = .ok ids ∧ ∀ id ∈ (s.roll arch).ready, id ∈ ids

theorem totalAt_touches {changed : DbgTypeId}
    {R : Archetype (w changed) (T changed) V → Archetype (w changed) (T changed) V → Prop}
    (touches : Touches s.world t.world changed R) (total : TotalAt arch comp s)
    (others : arch ≠ changed → (t.roll arch).ready = (s.roll arch).ready)
    (here : arch = changed → ∀ a a', s.world.archetypes.lookup changed = some a → R a a' →
      a.typed.Total comp (s.roll changed).ready → a'.typed.Total comp (t.roll changed).ready) :
    TotalAt arch comp t := by
  by_cases same : arch = changed
  · subst same
    obtain ⟨a, a', before, after, change⟩ := touches.here
    intro a'' found
    cases after.symm.trans found
    exact here rfl a a' before change (total a before)
  · intro a found
    rw [touches.others arch same] at found
    rw [others same]
    exact total a found

theorem totalAt_forEalloc {world₀ : World w T V}
    {f : ∀ arch, Recycling (w arch) (T arch) → Except Panic (Recycling (w arch) (T arch))}
    (run : world₀.forEalloc f = .ok t.world) (same : world₀.archetypes = s.world.archetypes)
    (roll : t.roll = s.roll) (total : TotalAt arch comp s) : TotalAt arch comp t := by
  intro a' found
  obtain ⟨known, unknown⟩ := (forEalloc_ok run).1 arch
  rw [same] at known unknown
  cases before : s.world.archetypes.lookup arch with
  | none =>
    rw [unknown before] at found
    cases found
  | some a =>
    obtain ⟨a'', after, change⟩ := known a before
    cases after.symm.trans found
    rw [change.typed, roll]
    exact total a before

theorem enroll_ready {changed : DbgTypeId} {f : Roll → Roll} (other : arch ≠ changed) :
    ((s.enroll changed f) arch).ready = (s.roll arch).ready := by
  rw [enroll_other other]

theorem Deleted.isotopes {references : List Nat} {id : Nat} {e : Recycling (w arch) (T arch)}
    {a a' : Archetype (w arch) (T arch) V}
    (h : Deleted types references id { a with ealloc := e } a') :
    a'.typed.isotopeStorageMaps = a.typed.isotopeStorageMaps := by
  obtain ⟨flagged, eq, set, -⟩ := h.typed
  rw [eq]
  change flagged.isotopeStorageMaps = _
  exact (Typed.setSimple_ok set).2.1

theorem Deleted.total {references : List Nat} {id : Nat} {e : Recycling (w arch) (T arch)}
    {a a' : Archetype (w arch) (T arch) V}
    (h : Deleted types references id { a with ealloc := e } a') {r : Roll}
    (total : a.typed.Total comp r.ready) : a'.typed.Total comp (r.free id).ready := by
  apply (total.congr h.isotopes).sub
  intro x member
  exact List.mem_of_mem_erase member

/-- The IDs of a snapshot of an allocator. -/
theorem snapshotIds_covers {e : Recycling (w arch) (T arch)} (numbered : e.Numbered)
    {ids : List Nat} (issued : ∀ id ∈ ids, e.Issued id ∧ id ∉ e.recyclable) :
    ∀ all, IsotopeMap.snapshotIds e = .ok all → ∀ id ∈ ids, id ∈ all := by
  intro all listed id member
  obtain ⟨snapshot, taken, listed⟩ := bind_eq_ok.mp listed
  obtain ⟨-, chunks, run, exact'⟩ := numbered.snapshot taken
  rw [allocatedIds, run] at listed
  cases listed
  exact (exact' id).mpr (issued id member)

theorem total_step (step : s.Step types label t) {initer : List V → V}
    (auto : (types.isotopeOf arch comp).initStrategy = .auto [] initer) (numbers : Numbers arch s)
    (keeps : KeepsValues arch comp ⟨s, label, t⟩) (covered : Covered arch comp ⟨s, label, t⟩)
    (enumerated : Enumerated arch s) (total : TotalAt arch comp s) : TotalAt arch comp t := by
  cases step with
  | create changed shardId hint compMap host run =>
    apply totalAt_touches (createWithHint_ok run).1 total enroll_ready
    rintro rfl a a' found ⟨e, allocated, init⟩ total
    simp only [enroll_same]
    obtain ⟨numbered, issued⟩ := numbers.alloc a.ealloc (ealloc_of_lookup found)
    have outcome := allocate_allocated a.ealloc shardId hint
    rw [allocated] at outcome
    obtain ⟨numbered', -, kept, recyclable⟩ := numbered.allocated outcome
    apply total.init auto (Typed.initEntity_ok init.typed)
    intro introduces
    refine snapshotIds_covers numbered' fun id member => ⟨kept id (issued id ?_), ?_⟩
    · exact numbers.ready id member
    · rw [recyclable]
      exact covered a found rfl introduces id member
  | delete changed id host run =>
    obtain ⟨-, touches⟩ := delete_deleted run
    apply totalAt_touches touches total enroll_ready
    rintro rfl a a' - deleted total
    simp only [enroll_same]
    exact deleted.total total
  | deleteTerminating changed id host run =>
    obtain ⟨-, touches⟩ := delete_terminating run
    refine totalAt_touches touches total (fun _ => rfl) fun _ a a' _ flagged total => ?_
    exact total.congr (Typed.setSimple_ok flagged.typed).2.1
  | setSimple changed c id value _ _ run =>
    refine totalAt_touches (setSimple_ok run).1 total (fun _ => rfl) fun _ a a' _ accessed total => ?_
    exact total.congr (Typed.setSimple_ok accessed.typed).2.1
  | openIsotope changed c discrim online taken run =>
    refine totalAt_touches (openIsotope_ok run).1 total (fun _ => rfl) ?_
    rintro rfl a a' - accessed total
    obtain ⟨map, storage, map', found, created, same⟩ := accessed.typed
    rw [same]
    apply total.openIsotope auto found created
    intro all listed
    obtain ⟨ids, listed', sub⟩ := enumerated _ _ online _ taken
    cases listed.symm.trans listed'
    exact sub
  | setIsotope changed c discrim id value online run =>
    refine totalAt_touches (setIsotope_ok run).1 total (fun _ => rfl) ?_
    rintro rfl a a' - accessed total
    obtain ⟨map, storage, found, opened, same⟩ := accessed.typed
    rw [same]
    apply total.setIsotope found opened
    intro own
    subst own
    cases value with
    | none => exact absurd rfl (keeps discrim id)
    | some value => rfl
  | getIsotope changed c discrim id value _ _ run =>
    refine totalAt_touches (setIsotope_ok run).1 total (fun _ => rfl) ?_
    rintro rfl a a' - accessed total
    obtain ⟨map, storage, found, opened, same⟩ := accessed.typed
    rw [same]
    exact total.setIsotope found opened fun _ => rfl
  | cloneReference | dropReference | join => exact total
  | execute assign host flushed => exact totalAt_forEalloc flushed rfl rfl total
  | createOnline worker changed hint compMap online _ run =>
    apply totalAt_touches (createEntityWithHintAndShard_ok run).1 total enroll_ready
    rintro rfl a a' - change total
    simp only [enroll_same]
    rw [change.typed]
    exact total
  | deleteOnline worker changed id online run =>
    obtain ⟨items, -, rfl⟩ := pushOperation_ok run
    exact total
  | drainCreate draining run =>
    apply totalAt_touches (initEntity_ok run).1 total enroll_ready
    rintro rfl a a' found init total
    simp only [enroll_same]
    obtain ⟨numbered, issued⟩ := numbers.alloc a.ealloc (ealloc_of_lookup found)
    apply total.init auto (Typed.initEntity_ok init.typed)
    intro introduces
    refine snapshotIds_covers numbered fun id member => ⟨issued id (numbers.ready id member), ?_⟩
    exact covered a found _ _ _ _ _ draining introduces id member
  | drainDelete draining run =>
    have touches := flagDeleteEntity_deleted run
    apply totalAt_touches touches total enroll_ready
    rintro rfl a a' - deleted total
    simp only [enroll_same]
    exact Deleted.total (e := a.ealloc) deleted total
  | drainRerun draining run =>
    have touches := flagDeleteEntity_terminating run
    refine totalAt_touches touches total (fun _ => rfl) fun _ a a' _ flagged total => ?_
    exact total.congr (Typed.setSimple_ok flagged.typed).2.1
  | flush drained run => exact totalAt_forEalloc run rfl rfl total

theorem Enumerated.same (enumerated : Enumerated arch s) (phase : t.phase = s.phase)
    (ready : (t.roll arch).ready = (s.roll arch).ready) : Enumerated arch t := by
  intro assign snapshots online
  rw [ready]
  exact enumerated assign snapshots (phase ▸ online)

theorem enumerated_other (other : ∀ assign snapshots, t.phase ≠ .online assign snapshots) :
    Enumerated arch t :=
  fun assign snapshots online => absurd online (other assign snapshots)

theorem enumerated_step (step : s.Step types label t) (numbers : Numbers arch s)
    (covered : Covered arch comp ⟨s, label, t⟩) (enumerated : Enumerated arch s) :
    Enumerated arch t := by
  cases step with
  | create _ _ _ _ host | delete _ _ host | deleteTerminating _ _ host
  | getIsotope _ _ _ _ _ host =>
    apply enumerated_other
    intro assign snapshots online
    cases host.symm.trans online
  | setSimple | openIsotope | setIsotope | cloneReference | dropReference | deleteOnline =>
    exact enumerated.same rfl rfl
  | createOnline worker changed hint compMap online =>
    refine enumerated.same rfl ?_
    by_cases same : arch = changed
    · subst same
      simp only [enroll_same]
      rfl
    · exact enroll_ready same
  | join | drainCreate | drainDelete | drainRerun | flush =>
    exact enumerated_other fun _ _ online => nomatch online
  | execute assign host flushed shards =>
    rintro _ _ ⟨⟩ snapshot taken
    obtain ⟨a', after, snapped⟩ := snapshots_known shards taken
    obtain ⟨e, before, run⟩ := forEalloc_ealloc flushed (ealloc_of_lookup after)
    obtain ⟨a, found, rfl⟩ := Option.map_eq_some_iff.mp before
    obtain ⟨numbered, issued⟩ := numbers.alloc a.ealloc before
    obtain ⟨numbered', top, recyclable⟩ := numbered.flushIfMarked run
    obtain ⟨-, chunks, listed, exact'⟩ := numbered'.snapshot snapped
    refine ⟨rangeIds chunks, by rw [allocatedIds, listed]; rfl, fun id member => ?_⟩
    refine (exact' id).mpr ⟨?_, ?_⟩
    · rw [Recycling.Issued, top]
      exact issued id (numbers.ready id member)
    · rw [recyclable]
      exact covered a found id member

/-- At the start of a cycle every live entity is initialized, and while systems
run none is initialized or deleted. -/
def StillReady (arch : DbgTypeId) (trace : List (Machine.Transition w T Hint V))
    (s : Machine w T V) : Prop :=
  ∀ assign snapshots, s.phase = .online assign snapshots →
    ∀ id ∈ startedWith arch trace, id ∈ (s.roll arch).ready

theorem Numbers.live_ready (numbers : Numbers arch s) (buffered : s.Buffered)
    (host : s.phase = .host) : ∀ id ∈ (s.roll arch).live, id ∈ (s.roll arch).ready := by
  intro id live
  have none : creates arch s.pending = [] := by
    simp only [Machine.Buffered, host] at buffered
    simp only [Machine.pending, host, Buffer.operations, buffered.1, List.append_nil]
    exact buffered.2 arch
  have waiting := numbers.waiting id
  have positive := List.count_pos_iff.mpr live
  rw [none, List.count_nil] at waiting
  exact List.count_pos_iff.mp (by omega)

theorem stillReady_step (step : s.Step types label t) (numbers : Numbers arch s)
    (buffered : s.Buffered) {trace : List (Machine.Transition w T Hint V)}
    (still : StillReady arch trace s) : StillReady arch (⟨s, label, t⟩ :: trace) t := by
  intro assign snapshots online
  cases step with
  | create _ _ _ _ host | delete _ _ host | deleteTerminating _ _ host
  | getIsotope _ _ _ _ _ host => cases host.symm.trans online
  | setSimple | openIsotope | setIsotope | cloneReference | dropReference | deleteOnline =>
    exact still assign snapshots online
  | createOnline worker changed hint compMap =>
    intro id member
    have ready := still assign snapshots online id member
    by_cases same : arch = changed
    · subst same
      simp only [enroll_same]
      exact ready
    · simp only [enroll_other same]
      exact ready
  | join | drainCreate | drainDelete | drainRerun | flush => cases online
  | execute _ host => exact numbers.live_ready buffered host

structure TotalInv (arch comp : DbgTypeId) (trace : List (Machine.Transition w T Hint V))
    (s : Machine w T V) : Prop where
  numbers : Numbers arch s
  enumerated : Enumerated arch s
  still : StillReady arch trace s
  total : TotalAt arch comp s

theorem total_run {b : Builder U V} {trace : List (Machine.Transition w T Hint V)}
    (run : Machine.Run types (.start b) trace s) (width : 0 < w arch) {initer : List V → V}
    (auto : (types.isotopeOf arch comp).initStrategy = .auto [] initer)
    (requests : ∀ t ∈ trace, Requests t) (keeps : ∀ t ∈ trace, KeepsValues arch comp t)
    (covered : ∀ t ∈ trace, Covered arch comp t) : TotalInv arch comp trace s := by
  induction run with
  | start => exact ⟨numbers_start width b, nofun, nofun, fun a _ => fun _ _ _ _ _ _ => nofun⟩
  | @next trace s label t run step ih =>
    obtain ⟨request, requests⟩ := List.forall_mem_cons.mp requests
    obtain ⟨keep, keeps⟩ := List.forall_mem_cons.mp keeps
    obtain ⟨cover, covered⟩ := List.forall_mem_cons.mp covered
    have inv := ih requests keeps covered
    have buffered := buffered_run run
    exact ⟨numbers_step step request buffered inv.numbers,
      enumerated_step step inv.numbers cover inv.enumerated,
      stillReady_step step inv.numbers buffered inv.still,
      total_step step auto inv.numbers keep cover inv.enumerated inv.total⟩

/-- A storage of a type with an initializer can be created from a list of IDs. -/
theorem getOrCreate_total {ty : IsotopeType V} {initer : List V → V} {map : IsotopeMap V}
    {entities : List Nat} (auto : ty.initStrategy = .auto [] initer) (discrim : Discrim) :
    ∃ storage map', map.getOrCreate ty discrim (.ok entities) = .ok (storage, map') := by
  unfold IsotopeMap.getOrCreate
  cases map.lookup discrim with
  | some storage => exact ⟨storage, map, rfl⟩
  | none =>
    have filled : ∃ storage, IsotopeMap.newStorage ty (.ok entities) = .ok storage := by
      rw [IsotopeMap.newStorage, auto]
      dsimp only
      rw [ok_bind]
      obtain ⟨storage, run, -⟩ := foldlM_returns (l := entities)
        (f := fun (storage : Storage V) entity => if ([] : List DbgTypeId) = [] then
          .ok (storage.set entity (some (initer []))) else .error Panic.isotopeDependency)
        (s := .empty) (fun _ => True) trivial fun entity _ storage _ => ⟨_, if_pos rfl, trivial⟩
      exact ⟨storage, run⟩
    obtain ⟨storage, created⟩ := filled
    refine ⟨storage, map.insert discrim storage, ?_⟩
    simp only [created, ok_bind, pure_eq_ok]

/-- **Isotopes with initializers.** Take an isotope type whose initializer has
no dependencies, and a run in which no value of it is removed and no storage of
it is created from a snapshot that lacks an initialized entity. Then every
initialized entity has a value in every storage, and while systems run, entities
that were live at the start of the cycle can be accessed for every
discriminant. -/
theorem isotopes_total {b : Builder U V} {trace : List (Machine.Transition w T Hint V)}
    (run : Machine.Run types (.start b) trace s) (width : 0 < w arch) {initer : List V → V}
    (auto : (types.isotopeOf arch comp).initStrategy = .auto [] initer)
    (requests : ∀ t ∈ trace, Requests t) (keeps : ∀ t ∈ trace, KeepsValues arch comp t)
    (covered : ∀ t ∈ trace, Covered arch comp t) :
    (∀ a map d storage, s.world.archetypes.lookup arch = some a →
      a.typed.isotopeStorageMaps.lookup comp = some map → map.lookup d = some storage →
      ∀ id ∈ (s.roll arch).ready, (storage id).isSome = true) ∧
    ∀ assign snapshots snapshot a map, s.phase = .online assign snapshots →
      snapshots.lookup arch = some snapshot → s.world.archetypes.lookup arch = some a →
      a.typed.isotopeStorageMaps.lookup comp = some map →
      ∀ id ∈ startedWith arch trace, ∀ discrim, ∃ value world,
        s.world.accessIsotope types snapshot arch comp discrim id = .ok (value, world) := by
  have inv := total_run run width auto requests keeps covered
  refine ⟨fun a map d storage found known opened => inv.total a found map known d storage opened, ?_⟩
  intro assign snapshots snapshot a map online taken found known id member discrim
  have ready := inv.still assign snapshots online id member
  obtain ⟨ids, listed, sub⟩ := inv.enumerated assign snapshots online snapshot taken
  obtain ⟨storage, map', created⟩ := @getOrCreate_total _ _ _ map ids auto discrim
  have kept := (inv.total a found).openIsotope auto known created fun all same => by
    cases same
    exact sub
  have opened := (IsotopeMap.getOrCreate_ok created).2 discrim
  rw [if_pos rfl] at opened
  obtain ⟨value, has⟩ := Option.isSome_iff_exists.mp
    (kept map' (AList.lookup_insert _) discrim storage opened id ready)
  have access : s.world.openIsotope types snapshot arch comp discrim =
      .ok (s.world.setArchetype arch { a with typed := { a.typed with
        isotopeStorageMaps := a.typed.isotopeStorageMaps.insert comp map' } }) := by
    simp only [openIsotope, archetype_ok.mpr found, ok_bind, known, expect_some, listed, created,
      pure_eq_ok]
  have read : (s.world.setArchetype arch { a with typed := { a.typed with
      isotopeStorageMaps := a.typed.isotopeStorageMaps.insert comp map' } }).getIsotope arch comp
        discrim id = some value := by
    rw [getIsotope_lookup (AList.lookup_insert _), Typed.getIsotope_insert, if_pos rfl, opened]
    exact has
  exists value
  simp only [accessIsotope, access, ok_bind, read, expect_some, pure_eq_ok]
  exact ⟨_, rfl⟩

/-- An isotope component with an initializer. -/
def filledTypes : Types Nat :=
  { plainTypes with isotopeOf := fun _ _ => ⟨.required, .auto [] fun _ => 3⟩ }

def filling : Builder Nat Nat :=
  ((Builder.new filledTypes 0).schedule filledTypes tagger).toOption.get rfl

/-- A system accesses a new discriminant for the entity that host code
created. -/
theorem isotopes_total_new : ∃ (trace : PlainTrace) (s : PlainMachine) (snapshot : Snapshot)
    (value : Nat) (world : World _ _ Nat),
    Machine.Run filledTypes (.start filling) trace s ∧ startedWith ⟨0⟩ trace = [1] ∧
    s.world.accessIsotope filledTypes snapshot ⟨0⟩ ⟨2⟩ 5 1 = .ok (value, world) := by
  have run : ∃ (trace : PlainTrace) (s : PlainMachine) (assign : DbgTypeId → List Nat)
      (snapshots : HashMap DbgTypeId Snapshot) (snapshot : Snapshot) (a : Archetype 16 (List Nat) Nat)
      (map : IsotopeMap Nat),
      Machine.Run filledTypes (.start filling) trace s ∧ startedWith ⟨0⟩ trace = [1] ∧
      s.phase = .online assign snapshots ∧ snapshots.lookup ⟨0⟩ = some snapshot ∧
      s.world.archetypes.lookup ⟨0⟩ = some a ∧
      a.typed.isotopeStorageMaps.lookup ⟨2⟩ = some map ∧
      (∀ t ∈ trace, Requests t) ∧ (∀ t ∈ trace, KeepsValues ⟨0⟩ ⟨2⟩ t) ∧
      ∀ t ∈ trace, Covered ⟨0⟩ ⟨2⟩ t := by
    refine ⟨_, _, _, _, _, _, _, .next (.next .start (.create ⟨0⟩ 0 () tagged rfl rfl))
      (.execute (fun _ => [0]) rfl rfl rfl (by decide)), rfl, rfl, rfl, rfl, rfl, ?_, ?_, ?_⟩
    · rintro t (_ | ⟨_, _ | ⟨_, ⟨⟩⟩⟩)
      · trivial
      · trivial
    · rintro t (_ | ⟨_, _ | ⟨_, ⟨⟩⟩⟩)
      · exact nofun
      · exact nofun
    · rintro t (_ | ⟨_, _ | ⟨_, ⟨⟩⟩⟩)
      · rintro a ⟨⟩ id -
        exact nofun
      · rintro a ⟨⟩ - - id ⟨⟩
  obtain ⟨trace, s, assign, snapshots, snapshot, a, map, run, started, online, taken, found, known,
    requests, keeps, covered⟩ := run
  obtain ⟨value, world, access⟩ := (isotopes_total run (by decide) rfl requests keeps covered).2
    assign snapshots snapshot a map online taken found known 1 (by rw [started]; exact .head _) 5
  exact ⟨trace, s, snapshot, value, world, run, started, access⟩

/-- A new entity introduces a discriminant while a reused ID still counts as
free. The entity with that ID gets no value, and in the next cycle systems cannot
access it, for that discriminant or for a new one. -/
theorem isotopes_total_reused : ∃ (trace : PlainTrace) (s t : PlainMachine)
    (assign : DbgTypeId → List Nat) (snapshots : HashMap DbgTypeId Snapshot) (snapshot : Snapshot),
    Machine.Run filledTypes (.start filling) trace s ∧ s.phase = .host ∧
    1 ∈ (s.roll ⟨0⟩).ready ∧ s.world.getIsotope ⟨0⟩ ⟨2⟩ 0 2 = some 7 ∧
    s.world.getIsotope ⟨0⟩ ⟨2⟩ 0 1 = none ∧
    s.Step filledTypes (.execute (fun _ => [0]) : Label (fun _ => Unit) Nat) t ∧
    t.phase = .online assign snapshots ∧ snapshots.lookup ⟨0⟩ = some snapshot ∧
    t.world.accessIsotope filledTypes snapshot ⟨0⟩ ⟨2⟩ 0 1 = .error .noInitializer ∧
    t.world.accessIsotope filledTypes snapshot ⟨0⟩ ⟨2⟩ 5 1 = .error .noInitializer := by
  refine ⟨_, _, _, _, _, _, .next (.next (.next (.next (.next (.next (.next (.next .start
    (.create ⟨0⟩ 0 () noComponents rfl rfl)) (.dropReference 0 trivial)) (.delete ⟨0⟩ 1 rfl rfl))
    (.execute (fun _ => [0]) rfl rfl rfl (by decide))) (.join rfl)) (.flush rfl rfl))
    (.create ⟨0⟩ 0 () noComponents rfl rfl)) (.create ⟨0⟩ 0 () tagged rfl rfl),
    rfl, ?_, rfl, rfl, .execute (fun _ => [0]) rfl rfl rfl (by decide), rfl, rfl, rfl, rfl⟩
  exact .tail _ (.head _)

end Dynec.World
