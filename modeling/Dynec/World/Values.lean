import Dynec.World.Init

/-! What the operations on the storages of an archetype do to the component
values of each entity. -/

namespace Dynec.World

open Fallible
open Entity (Recycling)

variable {V : Type} {types : Types V} {arch : DbgTypeId}

@[simp] theorem Storage.set_apply (storage : Storage V) (id i : Nat) (value : Option V) :
    storage.set id value i = if i = id then value else storage i := Function.update_apply ..

namespace Typed

variable {typed typed' : Typed V}

theorem setSimple_ok {missing : Panic} {comp : DbgTypeId} {id : Nat} {value : Option V}
    (h : typed.setSimple missing comp id value = .ok typed') :
    typed'.simpleStorages.order = typed.simpleStorages.order ∧
    typed'.isotopeStorageMaps = typed.isotopeStorageMaps ∧
    comp ∈ typed.simpleStorages.order ∧
    ∀ c i, typed'.getSimple c i =
      if c = comp ∧ i = id then value else typed.getSimple c i := by
  obtain ⟨simple, found, h⟩ := bind_eq_ok.mp h
  rw [expect_eq_ok] at found
  have known : comp ∈ typed.simpleStorages.order := by
    rw [IndexMap.mem_order_iff, found]
    rfl
  cases h
  refine ⟨IndexMap.order_insert_of_mem _ known _, rfl, known, fun c i => ?_⟩
  simp only [getSimple, valueIn, IndexMap.get_insert, Option.bind_eq_bind]
  by_cases same : c = comp
  · subst same
    simp [found]
  · simp [same]

theorem clearEntry_order (typed : Typed V) (id : Nat) :
    (typed.clearEntry id).simpleStorages.order = typed.simpleStorages.order := rfl

theorem clearEntry_getSimple (typed : Typed V) (id : Nat) (c : DbgTypeId) (i : Nat) :
    (typed.clearEntry id).getSimple c i = if i = id then none else typed.getSimple c i := by
  simp only [getSimple, valueIn, clearEntry, IndexMap.get_mapValues, Option.bind_eq_bind]
  cases typed.simpleStorages.get c with
  | none => simp
  | some simple => simp

theorem clearEntry_getIsotope (typed : Typed V) (id : Nat) (c : DbgTypeId) (d : Discrim)
    (i : Nat) : (typed.clearEntry id).getIsotope c d i = typed.getIsotope c d i := rfl

theorem getIsotope_congr (h : typed'.isotopeStorageMaps = typed.isotopeStorageMaps)
    (c : DbgTypeId) (d : Discrim) (i : Nat) :
    typed'.getIsotope c d i = typed.getIsotope c d i := by
  rw [getIsotope, getIsotope, h]

theorem getSimple_known {c : DbgTypeId} {i : Nat} {v : V} (h : typed.getSimple c i = some v) :
    c ∈ typed.simpleStorages.order := by
  rw [IndexMap.mem_order_iff]
  cases found : typed.simpleStorages.get c with
  | none => simp [getSimple, valueIn, found] at h
  | some simple => rfl

theorem hasFinalizer_iff {id : Nat} : typed.hasFinalizer types arch id = true ↔
    ∃ c, (types.simple arch c).isFinalizer = true ∧ (typed.getSimple c id).isSome = true := by
  simp only [hasFinalizer, List.any_eq_true, Bool.and_eq_true]
  constructor
  · rintro ⟨c, -, h⟩
    exact ⟨c, h⟩
  · rintro ⟨c, final, present⟩
    obtain ⟨v, hv⟩ := Option.isSome_iff_exists.mp present
    exact ⟨c, getSimple_known hv, final, present⟩

/-- The deletion flag is no finalizer. -/
theorem hasFinalizer_flag {missing : Panic} {id : Nat} {value : Option V}
    (h : typed.setSimple missing types.flag id value = .ok typed') :
    typed'.hasFinalizer types arch id = typed.hasFinalizer types arch id := by
  rw [Bool.eq_iff_iff, hasFinalizer_iff, hasFinalizer_iff]
  have values := (setSimple_ok h).2.2.2
  apply exists_congr
  intro c
  apply and_congr_right
  intro final
  have other : c ≠ types.flag := by
    rintro rfl
    simp [Types.simple] at final
  rw [values c id, if_neg fun both => other both.1]

end Typed

/-! ## Initialization of simple components -/

/-- The arguments of an initializer are the values of its dependencies. -/
theorem DepGetter.args_ok {g : DepGetter V} {comp : DbgTypeId} {locked deps : List DbgTypeId}
    {args : List V} (h : g.args arch comp locked deps = .ok args) :
    List.Forall₂ (fun dep arg => Typed.valueIn g.simpleStorages dep g.entity = some arg) deps args ∧
      ∀ index, g.index = some index → ∀ dep ∈ deps, g.simpleStorages.indexOf dep < index := by
  induction deps generalizing locked args with
  | nil =>
    cases h
    exact ⟨.nil, by simp⟩
  | cons dep deps ih =>
    obtain ⟨storage, got, h⟩ := bind_eq_ok.mp h
    split at h
    · cases h
    · obtain ⟨value, present, h⟩ := bind_eq_ok.mp h
      obtain ⟨values, rest, h⟩ := bind_eq_ok.mp h
      cases h
      obtain ⟨simple, found, got⟩ := bind_eq_ok.mp got
      rw [expect_eq_ok] at found present
      obtain ⟨values, below⟩ := ih rest
      have taken : storage = simple.storage ∧
          ∀ index, g.index = some index → g.simpleStorages.indexOf dep < index := by
        split at got
        · rename_i index here
          split at got
          · rename_i less
            cases got
            refine ⟨rfl, fun index' here' => ?_⟩
            rw [here] at here'
            cases here'
            exact less
          · cases got
        · rename_i none
          cases got
          exact ⟨rfl, fun index here => by simp [none] at here⟩
      refine ⟨.cons ?_ values, fun index here => ?_⟩
      · rw [Typed.valueIn, found]
        rw [taken.1] at present
        exact present
      · rw [List.forall_mem_cons]
        exact ⟨taken.2 index here, below index here⟩

/-- Where the value of a simple component comes from: it was given, or computed
by the initializer from the values of its dependencies, or there already. -/
def SimpleSource (types : Types V) (arch : DbgTypeId) (entity : Nat) (compMap : CompMap V)
    (before after : IndexMap DbgTypeId (Simple V)) (comp : DbgTypeId) : Prop :=
  match compMap.removeSimple comp with
  | some value => Typed.valueIn after comp entity = some value
  | none =>
    match (types.simple arch comp).initStrategy with
    | .auto deps init => ∃ args,
        List.Forall₂ (fun dep arg => Typed.valueIn after dep entity = some arg) deps args ∧
        Typed.valueIn after comp entity = some (init args)
    | .none => Typed.valueIn after comp entity = Typed.valueIn before comp entity

/-- The components that the initializer of a component reads. -/
def InitStrategy.deps : InitStrategy V → List DbgTypeId
  | .none => []
  | .auto deps _ => deps

theorem SimpleSource.congr {entity : Nat} {compMap : CompMap V}
    {before before' after after' : IndexMap DbgTypeId (Simple V)} {comp : DbgTypeId}
    (h : SimpleSource types arch entity compMap before after comp)
    (old : Typed.valueIn before' comp entity = Typed.valueIn before comp entity)
    (new : Typed.valueIn after' comp entity = Typed.valueIn after comp entity)
    (deps : compMap.removeSimple comp = none → ∀ dep ∈ (types.simple arch comp).initStrategy.deps,
      Typed.valueIn after' dep entity = Typed.valueIn after dep entity) :
    SimpleSource types arch entity compMap before' after' comp := by
  unfold SimpleSource at *
  cases given : compMap.removeSimple comp with
  | some value =>
    rw [given] at h
    exact new.trans h
  | none =>
    rw [given] at h
    cases strategy : (types.simple arch comp).initStrategy with
    | none =>
      rw [strategy] at h
      exact new.trans (h.trans old.symm)
    | auto inputs init =>
      rw [strategy] at h
      obtain ⟨args, values, value⟩ := h
      refine ⟨args, ?_, new.trans value⟩
      have same := deps given
      rw [strategy] at same
      refine (List.forall₂_iff_zip.mpr ⟨values.length_eq, fun {dep arg} pair => ?_⟩)
      rw [same dep (List.of_mem_zip pair).1]
      exact (List.forall₂_iff_zip.mp values).2 pair

/-- The three ways to initialize a simple component. -/
inductive FilledSimple (types : Types V) (arch comp : DbgTypeId) (entity : Nat)
    (compMap : CompMap V) (depGetter : DepGetter V) (storage : Storage V) : Storage V → Prop
  | given (value : V) (passed : compMap.removeSimple comp = some value) :
      FilledSimple types arch comp entity compMap depGetter storage
        (storage.set entity (some value))
  | auto (deps : List DbgTypeId) (init : List V → V) (args : List V)
      (missing : compMap.removeSimple comp = none)
      (strategy : (types.simple arch comp).initStrategy = .auto deps init)
      (computed : depGetter.args arch comp [] deps = .ok args) :
      FilledSimple types arch comp entity compMap depGetter storage
        (storage.set entity (some (init args)))
  | kept (missing : compMap.removeSimple comp = none)
      (strategy : (types.simple arch comp).initStrategy = .none) :
      FilledSimple types arch comp entity compMap depGetter storage storage

theorem fillInitSimple_filled {comp : DbgTypeId} {entity : Nat} {compMap : CompMap V}
    {depGetter : DepGetter V} {storage storage' : Storage V}
    (fill : storage.fillInitSimple types arch comp entity compMap depGetter = .ok storage') :
    FilledSimple types arch comp entity compMap depGetter storage storage' := by
  unfold Storage.fillInitSimple at fill
  split at fill
  · rename_i value passed
    cases fill
    exact .given value passed
  · rename_i missing
    split at fill
    · rename_i deps init strategy
      obtain ⟨args, computed, fill⟩ := bind_eq_ok.mp fill
      cases fill
      exact .auto deps init args missing strategy computed
    · rename_i strategy
      split at fill
      · cases fill
      · cases fill
        exact .kept missing strategy

theorem FilledSimple.frame {comp : DbgTypeId} {entity : Nat} {compMap : CompMap V}
    {depGetter : DepGetter V} {storage storage' : Storage V}
    (filled : FilledSimple types arch comp entity compMap depGetter storage storage') {i : Nat}
    (other : i ≠ entity) : storage' i = storage i := by
  cases filled with
  | given | auto => rw [Storage.set_apply, if_neg other]
  | kept => rfl

/-- One round of the loop over the simple storages. -/
theorem initSimple_ok {entity : Nat} {compMap : CompMap V}
    {st st' : IndexMap DbgTypeId (Simple V)} {comp : DbgTypeId}
    (h : Typed.initSimple types arch entity compMap st comp = .ok st') :
    st'.order = st.order ∧
    (∀ c i, c ≠ comp ∨ i ≠ entity → Typed.valueIn st' c i = Typed.valueIn st c i) ∧
    SimpleSource types arch entity compMap st st' comp ∧
    (compMap.removeSimple comp = none → ∀ dep ∈ (types.simple arch comp).initStrategy.deps,
      st.indexOf dep < st.indexOf comp) := by
  obtain ⟨simple, found, h⟩ := bind_eq_ok.mp h
  obtain ⟨storage, fill, h⟩ := bind_eq_ok.mp h
  rw [expect_eq_ok] at found
  have known : comp ∈ st.order := by
    rw [IndexMap.mem_order_iff, found]
    rfl
  cases h
  have value : ∀ storage c i, Typed.valueIn (st.insert comp { simple with storage }) c i =
      if c = comp then storage i else Typed.valueIn st c i := by
    intro storage c i
    simp only [Typed.valueIn, IndexMap.get_insert, Option.bind_eq_bind]
    split <;> simp
  have before : ∀ i, Typed.valueIn st comp i = simple.storage i := by
    intro i
    rw [Typed.valueIn, found]
    rfl
  have filled := fillInitSimple_filled fill
  refine ⟨IndexMap.order_insert_of_mem _ known _, fun c i other => ?_, ?_⟩
  · rw [value]
    by_cases same : c = comp
    · subst same
      rw [if_pos rfl, before]
      exact filled.frame (other.resolve_left fun differ => differ rfl)
    · rw [if_neg same]
  · unfold SimpleSource
    cases filled with
    | given v passed =>
      rw [passed]
      exact ⟨by simp [value], nofun⟩
    | auto deps init args missing strategy computed =>
      obtain ⟨values, below⟩ := DepGetter.args_ok computed
      have earlier : ∀ dep ∈ deps, st.indexOf dep < st.indexOf comp := below _ rfl
      rw [missing, strategy]
      refine ⟨⟨args, ?_, by simp [value]⟩, fun _ => earlier⟩
      refine List.forall₂_iff_zip.mpr ⟨values.length_eq, fun {dep arg} pair => ?_⟩
      have differ : dep ≠ comp := by
        rintro rfl
        exact Nat.lt_irrefl _ (earlier dep (List.of_mem_zip pair).1)
      rw [value, if_neg differ]
      exact (List.forall₂_iff_zip.mp values).2 pair
    | kept missing strategy =>
      rw [missing, strategy]
      refine ⟨?_, fun _ => by simp [InitStrategy.deps]⟩
      rw [value, if_pos rfl, before]

/-- The whole loop over the simple storages. Dependencies come earlier, so an
initializer reads the final values of its dependencies. -/
theorem initSimples_ok {entity : Nat} {compMap : CompMap V}
    {st st' : IndexMap DbgTypeId (Simple V)}
    (h : st.order.foldlM (Typed.initSimple types arch entity compMap) st = .ok st') :
    st'.order = st.order ∧
    (∀ c i, i ≠ entity → Typed.valueIn st' c i = Typed.valueIn st c i) ∧
    ∀ c ∈ st.order, SimpleSource types arch entity compMap st st' c := by
  have swept := foldlM_ok_split h (fun past now => now.order = st.order ∧
    (∀ c i, c ∉ past ∨ i ≠ entity → Typed.valueIn now c i = Typed.valueIn st c i) ∧
    ∀ c ∈ past, SimpleSource types arch entity compMap st now c ∧
      (compMap.removeSimple c = none →
        ∀ dep ∈ (types.simple arch c).initStrategy.deps, dep ∈ past))
    ⟨rfl, fun _ _ _ => rfl, by simp⟩ ?_
  · exact ⟨swept.1, fun c i other => swept.2.1 c i (.inr other), fun c hc => (swept.2.2 c hc).1⟩
  intro past comp rest now now' split ⟨order, frame, sources⟩ run
  obtain ⟨order', frame', source, earlier⟩ := initSimple_ok run
  have fresh : comp ∉ past := by
    have nodup := st.nodup
    rw [split, List.nodup_append] at nodup
    exact fun old => nodup.2.2 comp old comp List.mem_cons_self rfl
  have done : ∀ dep, now.indexOf dep < now.indexOf comp → dep ∈ past := by
    intro dep less
    rw [IndexMap.indexOf, IndexMap.indexOf, order, split] at less
    by_contra other
    rw [List.idxOf_append_of_notMem other, List.idxOf_append_of_notMem fresh,
      List.idxOf_cons_self] at less
    omega
  refine ⟨order'.trans order, fun c i other => ?_, fun c hc => ?_⟩
  · simp only [List.mem_append, List.mem_singleton, not_or] at other
    rw [frame' c i (other.imp_left And.right), frame c i (other.imp_left And.left)]
  · rcases List.mem_append.mp hc with old | new
    · obtain ⟨known, inputs⟩ := sources c old
      have differ : ∀ x ∈ past, x ≠ comp := by
        rintro x hx rfl
        exact fresh hx
      refine ⟨known.congr rfl (frame' c entity (.inl (differ c old))) fun missing dep hdep => ?_,
        fun missing dep hdep => List.mem_append_left _ (inputs missing dep hdep)⟩
      exact frame' dep entity (.inl (differ dep (inputs missing dep hdep)))
    · cases List.mem_singleton.mp new
      refine ⟨source.congr (frame comp entity (.inl fresh)).symm rfl fun _ _ _ => rfl,
        fun missing dep hdep => List.mem_append_left _ (done dep (earlier missing dep hdep))⟩

/-! ## Initialization of isotope components -/

namespace IsotopeMap

/-- A new storage holds what initializers without dependencies compute. -/
theorem newStorage_ok {ty : IsotopeType V} {entities : Except Panic (List Nat)}
    {storage : Storage V} (h : newStorage ty entities = .ok storage) :
    match ty.initStrategy with
    | .none => storage = .empty
    | .auto deps init => ∃ ids, entities = .ok ids ∧ (ids = [] ∨ deps = []) ∧
        ∀ i, storage i = if i ∈ ids then some (init []) else none := by
  unfold newStorage at h
  cases strategy : ty.initStrategy with
  | none =>
    rw [strategy] at h
    cases h
    rfl
  | auto deps init =>
    rw [strategy] at h
    obtain ⟨ids, listed, h⟩ := bind_eq_ok.mp h
    refine ⟨ids, listed, ?_⟩
    refine foldlM_ok h (fun past storage => (past = [] ∨ deps = []) ∧
      ∀ i, storage i = if i ∈ past then some (init []) else none)
      ⟨.inl rfl, fun i => rfl⟩ ?_
    intro past entity st st' _ ⟨_, values⟩ run
    split at run
    · rename_i free
      cases run
      refine ⟨.inr free, fun i => ?_⟩
      rw [Storage.set_apply, values i]
      by_cases same : i = entity
      · simp [same]
      · simp [same]
    · cases run

/-- The storage that a discriminant has, or gets when it has none. -/
def Opened (ty : IsotopeType V) (entities : Except Panic (List Nat)) (self : IsotopeMap V)
    (discrim : Discrim) (storage : Storage V) : Prop :=
  self.lookup discrim = some storage ∨
    self.lookup discrim = none ∧ newStorage ty entities = .ok storage

theorem getOrCreate_ok {ty : IsotopeType V} {discrim : Discrim}
    {entities : Except Panic (List Nat)} {map map' : IsotopeMap V} {storage : Storage V}
    (h : map.getOrCreate ty discrim entities = .ok (storage, map')) :
    Opened ty entities map discrim storage ∧
      ∀ d, map'.lookup d = if d = discrim then some storage else map.lookup d := by
  unfold getOrCreate at h
  split at h
  · rename_i found
    cases h
    refine ⟨.inl found, fun d => ?_⟩
    split
    · rename_i same
      rw [same, found]
    · rfl
  · rename_i missing
    obtain ⟨new, created, h⟩ := bind_eq_ok.mp h
    cases h
    exact ⟨.inr ⟨missing, created⟩, fun d => HashMap.lookup_insert_ite _ _ _ _⟩

variable {w : Nat} {T : Type} {ty : IsotopeType V} {entity : Nat} {ealloc : Recycling w T}
  {map map' : IsotopeMap V}

/-- The IDs that a storage created now is filled for. -/
def snapshotIds (ealloc : Recycling w T) : Except Panic (List Nat) := do
  let snapshot ← ealloc.snapshot
  allocatedIds w snapshot

theorem fillGiven_ok {given : Discrim × V}
    (h : fillGiven ty entity ealloc map given = .ok map') :
    ∃ storage, Opened ty (snapshotIds ealloc) map given.1 storage ∧
      ∀ d, map'.lookup d =
        if d = given.1 then some (storage.set entity (some given.2)) else map.lookup d := by
  obtain ⟨snapshot, taken, h⟩ := bind_eq_ok.mp h
  obtain ⟨⟨storage, opened⟩, created, h⟩ := bind_eq_ok.mp h
  cases h
  obtain ⟨source, others⟩ := getOrCreate_ok created
  have ids : snapshotIds ealloc = allocatedIds w snapshot := by
    rw [snapshotIds, taken]
    rfl
  refine ⟨storage, ids ▸ source, fun d => ?_⟩
  rw [HashMap.lookup_insert_ite, others]
  split <;> rfl

/-- What the given values do to the storage of one discriminant. -/
theorem fillGivens_ok {values : List (Discrim × V)}
    (h : values.foldlM (fillGiven ty entity ealloc) map = .ok map') (d : Discrim) :
    (d ∉ values.map Prod.fst → map'.lookup d = map.lookup d) ∧
    (d ∈ values.map Prod.fst → ∃ old storage, Opened ty (snapshotIds ealloc) map d old ∧
      map'.lookup d = some storage ∧ (∀ i, i ≠ entity → storage i = old i) ∧
      ∃ value, (d, value) ∈ values ∧ storage entity = some value) := by
  refine foldlM_ok h (fun past now => (d ∉ past.map Prod.fst → now.lookup d = map.lookup d) ∧
    (d ∈ past.map Prod.fst → ∃ old storage, Opened ty (snapshotIds ealloc) map d old ∧
      now.lookup d = some storage ∧ (∀ i, i ≠ entity → storage i = old i) ∧
      ∃ value, (d, value) ∈ past ∧ storage entity = some value)) ⟨fun _ => rfl, by simp⟩ ?_
  intro past given now now' _ ⟨absent, present⟩ run
  obtain ⟨storage, opened, lookups⟩ := fillGiven_ok run
  rw [lookups, List.map_append, List.map_singleton]
  by_cases same : d = given.1
  · subst same
    refine ⟨fun other => by simp at other, fun _ => ?_⟩
    rw [if_pos rfl]
    by_cases old : given.1 ∈ past.map Prod.fst
    · obtain ⟨first, last, source, found, frame, -⟩ := present old
      rcases opened with opened | ⟨none, -⟩
      · rw [found] at opened
        cases opened
        refine ⟨first, _, source, rfl, fun i other => ?_, given.2, by simp, by simp⟩
        rw [Storage.set_apply, if_neg other, frame i other]
      · rw [found] at none
        cases none
    · rw [Opened, absent old] at opened
      refine ⟨storage, _, opened, rfl, fun i other => ?_, given.2, by simp, by simp⟩
      rw [Storage.set_apply, if_neg other]
  · rw [if_neg same]
    simp only [List.mem_append, List.mem_singleton, same, or_false]
    refine ⟨absent, fun old => ?_⟩
    obtain ⟨first, last, source, found, frame, value, listed, here⟩ := present old
    exact ⟨first, last, source, found, frame, value, .inl listed, here⟩

theorem fillMissing_ok {comp : DbgTypeId} {deps : List DbgTypeId} {init : List V → V}
    {depGetter : DepGetter V}
    (h : fillMissing arch comp deps init entity depGetter map = .ok map') (d : Discrim) :
    (map.lookup d = none → map'.lookup d = none) ∧
    ∀ old, map.lookup d = some old → ∃ storage, map'.lookup d = some storage ∧
      (∀ i, i ≠ entity → storage i = old i) ∧
      ((∃ value, old entity = some value ∧ storage entity = some value) ∨
        old entity = none ∧ ∃ args, depGetter.args arch comp [] deps = .ok args ∧
          storage entity = some (init args)) := by
  obtain ⟨known, unknown⟩ := HashMap.updateM_ok h d
  refine ⟨unknown, fun old found => ?_⟩
  obtain ⟨storage, run, found'⟩ := known old found
  refine ⟨storage, found', ?_⟩
  cases value : old entity with
  | some v =>
    simp only [value, Option.isNone_some, Bool.false_eq_true, if_false, pure_eq_ok] at run
    cases run
    exact ⟨fun _ _ => rfl, .inl ⟨v, rfl, value⟩⟩
  | none =>
    simp only [value, Option.isNone_none, if_true] at run
    obtain ⟨args, computed, run⟩ := bind_eq_ok.mp run
    cases run
    exact ⟨fun i other => by simp [other], .inr ⟨rfl, args, computed, by simp⟩⟩

end IsotopeMap

/-- Where the value of an isotope component comes from: it was given, or was
there already, or was computed by the initializer. -/
def IsotopeSource (ty : IsotopeType V) (entity : Nat) (values : List (Discrim × V))
    (simpleStorages : IndexMap DbgTypeId (Simple V)) (d : Discrim) (old new : Option V) : Prop :=
  (∃ value, (d, value) ∈ values ∧ new = some value) ∨
  d ∉ values.map Prod.fst ∧
    match ty.initStrategy with
    | .none => new = old
    | .auto deps init => (∃ value, old = some value ∧ new = some value) ∨
        old = none ∧ ∃ args, List.Forall₂
          (fun dep arg => Typed.valueIn simpleStorages dep entity = some arg) deps args ∧
          new = some (init args)

/-- What the initialization of an entity does to the storages of one isotope
type. -/
structure IsotopeFilled (ty : IsotopeType V) (entity : Nat) (values : List (Discrim × V))
    (simpleStorages : IndexMap DbgTypeId (Simple V)) (entities : Except Panic (List Nat))
    (map map' : IsotopeMap V) : Prop where
  absent : ∀ d, map'.lookup d = none ↔ map.lookup d = none ∧ d ∉ values.map Prod.fst
  present : ∀ d storage, map'.lookup d = some storage →
    ∃ old, IsotopeMap.Opened ty entities map d old ∧ (∀ i, i ≠ entity → storage i = old i) ∧
      IsotopeSource ty entity values simpleStorages d (old entity) (storage entity)

/-- What the given values do to the storages of one isotope type. -/
structure IsotopeGiven (ty : IsotopeType V) (entity : Nat) (values : List (Discrim × V))
    (entities : Except Panic (List Nat)) (map given : IsotopeMap V) : Prop where
  absent : ∀ d, given.lookup d = none ↔ map.lookup d = none ∧ d ∉ values.map Prod.fst
  present : ∀ d storage, given.lookup d = some storage →
    ∃ old, IsotopeMap.Opened ty entities map d old ∧ (∀ i, i ≠ entity → storage i = old i) ∧
      ((∃ value, (d, value) ∈ values ∧ storage entity = some value) ∨
        d ∉ values.map Prod.fst ∧ storage entity = old entity)

section
variable {w : Nat} {T : Type} {ty : IsotopeType V} {comp : DbgTypeId} {entity : Nat}
  {values : List (Discrim × V)} {simpleStorages : IndexMap DbgTypeId (Simple V)}
  {ealloc : Recycling w T} {map map' given : IsotopeMap V}

theorem fillGivens_given
    (run : values.foldlM (IsotopeMap.fillGiven ty entity ealloc) map = .ok given) :
    IsotopeGiven ty entity values (IsotopeMap.snapshotIds ealloc) map given := by
  have givens := IsotopeMap.fillGivens_ok run
  constructor
  · intro d
    by_cases listed : d ∈ values.map Prod.fst
    · obtain ⟨old, storage, -, found, -⟩ := (givens d).2 listed
      simp [found, listed]
    · rw [(givens d).1 listed]
      exact ⟨fun none => ⟨none, listed⟩, And.left⟩
  · intro d storage found
    by_cases listed : d ∈ values.map Prod.fst
    · obtain ⟨old, storage', source, found', frame, value⟩ := (givens d).2 listed
      rw [found] at found'
      cases found'
      exact ⟨old, source, frame, .inl value⟩
    · rw [(givens d).1 listed] at found
      exact ⟨storage, .inl found, fun _ _ => rfl, .inr ⟨listed, rfl⟩⟩

/-- Without an initializer the given values are all. -/
theorem IsotopeGiven.kept {entities : Except Panic (List Nat)}
    (h : IsotopeGiven ty entity values entities map given) (strategy : ty.initStrategy = .none) :
    IsotopeFilled ty entity values simpleStorages entities map given := by
  refine ⟨h.absent, fun d storage found => ?_⟩
  obtain ⟨old, source, frame, here⟩ := h.present d storage found
  refine ⟨old, source, frame, here.imp_right fun ⟨unlisted, same⟩ => ⟨unlisted, ?_⟩⟩
  rw [strategy]
  exact same

/-- The initializer runs for the storages that have no value. -/
theorem IsotopeGiven.fillMissing {entities : Except Panic (List Nat)} {deps : List DbgTypeId}
    {init : List V → V} (h : IsotopeGiven ty entity values entities map given)
    (strategy : ty.initStrategy = .auto deps init)
    (run : IsotopeMap.fillMissing arch comp deps init entity ⟨simpleStorages, none, entity⟩ given =
      .ok map') :
    IsotopeFilled ty entity values simpleStorages entities map map' := by
  have fill := IsotopeMap.fillMissing_ok run
  constructor
  · intro d
    rw [← h.absent d]
    constructor
    · intro none
      cases found : given.lookup d with
      | none => rfl
      | some old =>
        obtain ⟨storage, found', -⟩ := (fill d).2 old found
        rw [none] at found'
        cases found'
    · exact (fill d).1
  · intro d storage found
    cases middle : given.lookup d with
    | none =>
      rw [(fill d).1 middle] at found
      cases found
    | some inner =>
      obtain ⟨storage', found', frame', values⟩ := (fill d).2 inner middle
      rw [found] at found'
      cases found'
      obtain ⟨old, source, frame, here⟩ := h.present d inner middle
      refine ⟨old, source, fun i other => (frame' i other).trans (frame i other), ?_⟩
      rcases here with ⟨value, listed, set⟩ | ⟨unlisted, same⟩
      · rcases values with ⟨v, had, has⟩ | ⟨none, -⟩
        · rw [set] at had
          cases had
          exact .inl ⟨value, listed, has⟩
        · rw [set] at none
          cases none
      · refine .inr ⟨unlisted, ?_⟩
        rw [strategy]
        rcases values with ⟨v, had, has⟩ | ⟨none, args, computed, has⟩
        · exact .inl ⟨v, same ▸ had, has⟩
        · exact .inr ⟨same ▸ none, args, (DepGetter.args_ok computed).1, has⟩

theorem fillInitIsotope_ok {compMap : CompMap V}
    (h : IsotopeMap.fillInitIsotope types arch comp map entity compMap
      ⟨simpleStorages, none, entity⟩ ealloc = .ok map') :
    IsotopeFilled (types.isotopeOf arch comp) entity (compMap.removeIsotope comp) simpleStorages
      (IsotopeMap.snapshotIds ealloc) map map' := by
  obtain ⟨given, run, h⟩ := bind_eq_ok.mp h
  have givens := fillGivens_given run
  cases strategy : (types.isotopeOf arch comp).initStrategy with
  | auto deps init =>
    simp only [strategy] at h
    exact givens.fillMissing strategy h
  | none =>
    have kept : map' = given := by
      simp only [strategy] at h
      split at h
      · split at h
        · cases h
        · cases h
          rfl
      · cases h
        rfl
    subst kept
    exact givens.kept strategy

end

/-- What the initialization of an entity does to the storages of an
archetype. -/
structure Typed.InitFilled {w : Nat} {T : Type} (types : Types V) (arch : DbgTypeId)
    (entity : Nat) (compMap : CompMap V) (ealloc : Recycling w T) (typed typed' : Typed V) :
    Prop where
  order : typed'.simpleStorages.order = typed.simpleStorages.order
  frame : ∀ c i, i ≠ entity → typed'.getSimple c i = typed.getSimple c i
  simple : ∀ c ∈ typed.simpleStorages.order,
    SimpleSource types arch entity compMap typed.simpleStorages typed'.simpleStorages c
  unknown : ∀ c, typed.isotopeStorageMaps.lookup c = none →
    typed'.isotopeStorageMaps.lookup c = none
  isotope : ∀ c map, typed.isotopeStorageMaps.lookup c = some map →
    ∃ map', typed'.isotopeStorageMaps.lookup c = some map' ∧
      IsotopeFilled (types.isotopeOf arch c) entity (compMap.removeIsotope c)
        typed'.simpleStorages (IsotopeMap.snapshotIds ealloc) map map'

theorem Typed.initEntity_ok {w : Nat} {T : Type} {entity : Nat} {compMap : CompMap V}
    {ealloc : Recycling w T} {typed typed' : Typed V}
    (h : typed.initEntity types arch entity compMap ealloc = .ok typed') :
    Typed.InitFilled types arch entity compMap ealloc typed typed' := by
  obtain ⟨simpleStorages, simples, h⟩ := bind_eq_ok.mp h
  obtain ⟨maps, isotopes, h⟩ := bind_eq_ok.mp h
  cases h
  obtain ⟨order, frame, sources⟩ := initSimples_ok simples
  refine ⟨order, frame, sources, fun c => (HashMap.updateM_ok isotopes c).2, fun c map found => ?_⟩
  obtain ⟨map', run, found'⟩ := (HashMap.updateM_ok isotopes c).1 map found
  exact ⟨map', found', fillInitIsotope_ok run⟩

end Dynec.World
