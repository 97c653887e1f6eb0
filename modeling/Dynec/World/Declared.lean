import Mathlib.Logic.Relation
import Dynec.World.Registered

/-!
# Initial values do not depend on the order of registration

Registration lists a component after the components that its initializer
reads. The loop over the storages then finds every dependency initialized, and
gives each component the value that the declarations of the components give it.
-/

namespace Dynec.World

open Fallible
open Entity (Recycling)
open Relation (ReflTransGen)

variable {V : Type} {types : Types V} {arch : DbgTypeId}

/-! ## The order of the storages -/

theorem firstDuplicate_none {seen l : List DbgTypeId} :
    firstDuplicate seen l = none ↔ l.Nodup ∧ ∀ ty ∈ l, ty ∉ seen := by
  induction l generalizing seen with
  | nil => simp [firstDuplicate]
  | cons ty l ih =>
    unfold firstDuplicate
    split
    · rename_i known
      simp [known]
    · rename_i fresh
      rw [ih, List.nodup_cons, List.forall_mem_cons]
      constructor
      · rintro ⟨nodup, unseen⟩
        exact ⟨⟨fun again => unseen ty again (.head _), nodup⟩, fresh,
          fun x member known => unseen x member (.tail _ known)⟩
      · rintro ⟨⟨once, nodup⟩, -, unseen⟩
        refine ⟨nodup, fun x member => List.not_mem_cons_of_ne_of_not_mem ?_ (unseen x member)⟩
        rintro rfl
        exact once member

theorem checkedDeps_ok {strategy : InitStrategy V} {deps : List DbgTypeId} :
    strategy.checkedDeps = .ok deps ↔ deps = strategy.deps ∧ deps.Nodup := by
  cases found : firstDuplicate [] strategy.deps with
  | some dup =>
    have failed : strategy.checkedDeps = .error (.duplicateDependency dup) := by
      cases strategy <;>
        simp only [InitStrategy.deps] at found <;> simp only [InitStrategy.checkedDeps, found]
    rw [failed]
    constructor
    · intro returned
      cases returned
    · rintro ⟨rfl, nodup⟩
      rw [firstDuplicate_none.mpr ⟨nodup, fun _ _ => List.not_mem_nil⟩] at found
      cases found
  | none =>
    have passed : strategy.checkedDeps = .ok strategy.deps := by
      cases strategy <;>
        simp only [InitStrategy.deps] at found <;>
          simp only [InitStrategy.checkedDeps, InitStrategy.deps, found]
    have nodup := (firstDuplicate_none.mp found).1
    rw [passed]
    constructor
    · rintro ⟨⟩
      exact ⟨rfl, nodup⟩
    · rintro ⟨rfl, -⟩
      rfl

/-- The initializer of the first component reads the second. -/
def Reads (types : Types V) (arch comp dep : DbgTypeId) : Prop :=
  dep ∈ (types.simple arch comp).initStrategy.deps

/-- Every component stands after those that its initializer reads. -/
def DepsFirst (types : Types V) (arch : DbgTypeId) (order : List DbgTypeId) : Prop :=
  ∀ past comp rest, order = past ++ comp :: rest →
    (types.simple arch comp).initStrategy.deps.Nodup ∧ ∀ dep, Reads types arch comp dep → dep ∈ past

theorem DepsFirst.closed {order : List DbgTypeId} (h : DepsFirst types arch order)
    {comp dep : DbgTypeId} (member : comp ∈ order) (reads : ReflTransGen (Reads types arch) comp dep) :
    dep ∈ order := by
  induction reads with
  | refl => exact member
  | tail _ reads ih =>
    obtain ⟨past, rest, split⟩ := List.append_of_mem ih
    rw [split]
    exact List.mem_append_left _ ((h past _ rest split).2 _ reads)

/-- A dependency has a smaller index. -/
theorem DepsFirst.idxOf_lt {order : List DbgTypeId} (h : DepsFirst types arch order)
    (nodup : order.Nodup) {comp dep : DbgTypeId} (member : comp ∈ order)
    (reads : Reads types arch comp dep) : dep ∈ order ∧ order.idxOf dep < order.idxOf comp := by
  obtain ⟨past, rest, rfl⟩ := List.append_of_mem member
  have earlier := (h past comp rest rfl).2 dep reads
  have fresh : comp ∉ past := by
    intro member
    exact (List.nodup_append.mp nodup).2.2 comp member comp (.head _) rfl
  refine ⟨List.mem_append_left _ earlier, ?_⟩
  rw [List.idxOf_append_of_mem earlier, List.idxOf_append_of_notMem fresh]
  exact Nat.lt_add_right _ (List.idxOf_lt_length_of_mem earlier)

theorem DepsFirst.concat {order : List DbgTypeId} (h : DepsFirst types arch order)
    {comp : DbgTypeId} (nodup : (types.simple arch comp).initStrategy.deps.Nodup)
    (known : ∀ dep, Reads types arch comp dep → dep ∈ order) :
    DepsFirst types arch (order ++ [comp]) := by
  intro past c rest split
  rcases List.eq_nil_or_concat rest with rfl | ⟨rest, last, rfl⟩
  · obtain ⟨rfl, same⟩ := List.append_inj' split rfl
    cases same
    exact ⟨nodup, known⟩
  · rw [List.concat_eq_append, ← List.cons_append, ← List.append_assoc] at split
    obtain ⟨split, -⟩ := List.append_inj' split rfl
    exact h past c rest split

theorem depsFirst_builder : DepsFirst types arch (Typed.builder types).simpleStorages.order := by
  have flag : (types.simple arch types.flag).initStrategy = .none := by simp [Types.simple]
  have empty : DepsFirst types arch [] := fun past comp rest split => by simp at split
  apply empty.concat
  · simp [flag, InitStrategy.deps]
  · intro dep reads
    simp [Reads, flag, InitStrategy.deps] at reads

/-- What the registration of a component does to the order of the storages. -/
structure Extends (types : Types V) (arch component : DbgTypeId) (typed typed' : Typed V) :
    Prop where
  first : DepsFirst types arch typed'.simpleStorages.order
  kept : ∀ c ∈ typed.simpleStorages.order, c ∈ typed'.simpleStorages.order
  known : component ∈ typed'.simpleStorages.order
  added : ∀ c ∈ typed'.simpleStorages.order,
    c ∈ typed.simpleStorages.order ∨ ReflTransGen (Reads types arch) component c
  isotopes : typed'.isotopeStorageMaps = typed.isotopeStorageMaps

/-- What the registration of several components does. -/
structure ExtendsAll (types : Types V) (arch : DbgTypeId) (components : List DbgTypeId)
    (typed typed' : Typed V) : Prop where
  first : DepsFirst types arch typed'.simpleStorages.order
  kept : ∀ c ∈ typed.simpleStorages.order, c ∈ typed'.simpleStorages.order
  known : ∀ c ∈ components, c ∈ typed'.simpleStorages.order
  added : ∀ c ∈ typed'.simpleStorages.order, c ∈ typed.simpleStorages.order ∨
    ∃ component ∈ components, ReflTransGen (Reads types arch) component c
  isotopes : typed'.isotopeStorageMaps = typed.isotopeStorageMaps

theorem extendsAll_foldlM {f : Typed V → DbgTypeId → Except Panic (Typed V)}
    (step : ∀ component typed typed', f typed component = .ok typed' →
      DepsFirst types arch typed.simpleStorages.order → Extends types arch component typed typed')
    {components : List DbgTypeId} {typed typed' : Typed V}
    (h : components.foldlM f typed = .ok typed')
    (first : DepsFirst types arch typed.simpleStorages.order) :
    ExtendsAll types arch components typed typed' := by
  refine foldlM_ok h (fun past now => ExtendsAll types arch past typed now)
    ⟨first, fun _ member => member, nofun, fun _ member => .inl member, rfl⟩ ?_
  intro past component now next _ all run
  have one := step component now next run all.first
  refine ⟨one.first, fun c member => one.kept c (all.kept c member), fun c member => ?_,
    fun c member => ?_, one.isotopes.trans all.isotopes⟩
  · rcases List.mem_append.mp member with old | new
    · exact one.kept c (all.known c old)
    · cases List.mem_singleton.mp new
      exact one.known
  · rcases one.added c member with old | new
    · apply (all.added c old).imp_right
      rintro ⟨r, listed, reads⟩
      exact ⟨r, List.mem_append_left _ listed, reads⟩
    · exact .inr ⟨component, by simp, new⟩

theorem addSimpleStorageIfMissing_extends {depth : Nat} {typed typed' : Typed V}
    {component : DbgTypeId}
    (h : typed.addSimpleStorageIfMissing types arch depth component = .ok typed')
    (first : DepsFirst types arch typed.simpleStorages.order) :
    Extends types arch component typed typed' := by
  induction depth generalizing typed typed' component with
  | zero => cases h
  | succ depth ih =>
    unfold Typed.addSimpleStorageIfMissing at h
    split at h
    · rename_i known
      cases h
      exact ⟨first, fun _ member => member, known, fun _ member => .inl member, rfl⟩
    · obtain ⟨deps, checked, h⟩ := bind_eq_ok.mp h
      obtain ⟨inner, run, h⟩ := bind_eq_ok.mp h
      cases h
      obtain ⟨rfl, nodup⟩ := checkedDeps_ok.mp checked
      have all := extendsAll_foldlM (fun _ _ _ run first => ih run first) run first
      refine ⟨?_, fun c member => ?_, ?_, fun c member => ?_, all.isotopes⟩
      · change DepsFirst types arch
          (if component ∈ inner.simpleStorages.order then inner.simpleStorages.order
            else inner.simpleStorages.order ++ [component])
        split
        · exact all.first
        · exact all.first.concat nodup all.known
      · exact (IndexMap.mem_order_insert ..).mpr (.inr (all.kept c member))
      · exact (IndexMap.mem_order_insert ..).mpr (.inl rfl)
      · rcases (IndexMap.mem_order_insert ..).mp member with rfl | old
        · exact .inr .refl
        · rcases all.added c old with before | ⟨dep, reads, rest⟩
          · exact .inl before
          · exact .inr (.head reads rest)

/-- Registration returns if the initializers read each other in no circle, for
a stack as deep as their longest chain. -/
theorem addSimpleStorageIfMissing_total {rank : DbgTypeId → Nat}
    (falls : ∀ comp dep, Reads types arch comp dep → rank dep < rank comp)
    (nodup : ∀ comp, (types.simple arch comp).initStrategy.deps.Nodup) {depth : Nat}
    (typed : Typed V) {component : DbgTypeId} (deep : rank component < depth) :
    ∃ typed', typed.addSimpleStorageIfMissing types arch depth component = .ok typed' := by
  induction depth generalizing typed component with
  | zero => exact absurd deep (Nat.not_lt_zero _)
  | succ depth ih =>
    unfold Typed.addSimpleStorageIfMissing
    split
    · exact ⟨typed, rfl⟩
    · rw [checkedDeps_ok.mpr ⟨rfl, nodup component⟩]
      obtain ⟨inner, run, -⟩ := foldlM_returns
        (f := Typed.addSimpleStorageIfMissing types arch depth)
        (l := (types.simple arch component).initStrategy.deps) (s := typed)
        (fun _ => True) trivial fun dep reads now _ => by
          have shallow : rank dep < depth :=
            Nat.lt_of_lt_of_le (falls component dep reads) (Nat.le_of_lt_succ deep)
          obtain ⟨next, run⟩ := ih now shallow
          exact ⟨next, run, trivial⟩
      rw [ok_bind, run]
      exact ⟨_, rfl⟩

/-- Which components are registered, and in which order. -/
theorem registered_order {components : List DbgTypeId} {typed : Typed V}
    (h : components.foldlM (Typed.addSimpleStorageIfMissing types arch types.stack)
      (.builder types) = .ok typed) :
    DepsFirst types arch typed.simpleStorages.order ∧ typed.isotopeStorageMaps = ∅ ∧
    ∀ c, c ∈ typed.simpleStorages.order ↔
      c = types.flag ∨ ∃ component ∈ components, ReflTransGen (Reads types arch) component c := by
  have all := extendsAll_foldlM (fun _ _ _ run first => addSimpleStorageIfMissing_extends run first)
    h depsFirst_builder
  have only : ∀ c, c ∈ (Typed.builder types).simpleStorages.order ↔ c = types.flag := fun c => by
    rw [Typed.builder, IndexMap.mem_order_insert]
    simp [IndexMap.empty]
  refine ⟨all.first, all.isotopes, fun c => ⟨fun member => ?_, ?_⟩⟩
  · exact (all.added c member).imp_left (only c).mp
  · rintro (rfl | ⟨component, listed, reads⟩)
    · exact all.kept _ ((only _).mpr rfl)
    · exact all.first.closed (all.known component listed) reads

/-! ## The declared values -/

/-- The value that the declarations give a component: the one that was passed,
or the one that its initializer computes from the values of its dependencies. -/
inductive Declared (types : Types V) (arch : DbgTypeId) (compMap : CompMap V) :
    DbgTypeId → V → Prop
  | given {comp value} (given : compMap.removeSimple comp = some value) :
      Declared types arch compMap comp value
  | auto {comp deps init args} (absent : compMap.removeSimple comp = none)
      (strategy : (types.simple arch comp).initStrategy = .auto deps init)
      (length : deps.length = args.length)
      (values : ∀ {dep arg}, (dep, arg) ∈ deps.zip args → Declared types arch compMap dep arg) :
      Declared types arch compMap comp (init args)

/-- The component was not passed, and it has an initializer with a dependency
that has no value, or it is required and has no initializer. -/
def Missing (types : Types V) (arch : DbgTypeId) (compMap : CompMap V) (comp : DbgTypeId) : Prop :=
  compMap.removeSimple comp = none ∧
    match (types.simple arch comp).initStrategy with
    | .auto deps _ => ∃ dep ∈ deps, ∀ value, ¬ Declared types arch compMap dep value
    | .none => (types.simple arch comp).presence = .required

/-- The panic for a missing component. -/
def Reports (arch comp : DbgTypeId) (e : Panic) : Prop :=
  e = .missingRequired arch comp ∨ ∃ dep, e = .missingDependency arch comp dep

/-- An initializer whose dependencies stand before it gets its arguments unless
one of them has no value. -/
theorem DepGetter.args_total {g : DepGetter V} {comp : DbgTypeId} {locked deps : List DbgTypeId}
    (nodup : deps.Nodup) (free : ∀ dep ∈ deps, dep ∉ locked)
    (found : ∀ dep ∈ deps, dep ∈ g.simpleStorages.order ∧
      ∀ index, g.index = some index → g.simpleStorages.indexOf dep < index) :
    (∃ args, g.args arch comp locked deps = .ok args) ∨
    ∃ dep ∈ deps, Typed.valueIn g.simpleStorages dep g.entity = none ∧
      g.args arch comp locked deps = .error (.missingDependency arch comp dep) := by
  induction deps generalizing locked with
  | nil => exact .inl ⟨[], rfl⟩
  | cons dep deps ih =>
    obtain ⟨fresh, nodup⟩ := List.nodup_cons.mp nodup
    obtain ⟨known, earlier⟩ := found dep (.head _)
    obtain ⟨simple, stored⟩ := Option.isSome_iff_exists.mp
      ((IndexMap.mem_order_iff _ _).mp known)
    have got : g.get dep = .ok simple.storage := by
      unfold DepGetter.get
      rw [stored]
      cases here : g.index with
      | none => rfl
      | some index => exact if_pos (earlier index here)
    have value : Typed.valueIn g.simpleStorages dep g.entity = simple.storage g.entity := by
      rw [Typed.valueIn, stored]
      rfl
    cases present : simple.storage g.entity with
    | none =>
      refine .inr ⟨dep, .head _, value.trans present, ?_⟩
      simp [DepGetter.args, got, free dep (.head _), present]
    | some v =>
      have others : ∀ d ∈ deps, d ∉ dep :: locked := by
        intro d member
        simp only [List.mem_cons, not_or]
        refine ⟨?_, free d (.tail _ member)⟩
        rintro rfl
        exact fresh member
      rcases ih nodup others fun d member => found d (.tail _ member) with
        ⟨args, run⟩ | ⟨d, member, absent, run⟩
      · refine .inl ⟨v :: args, ?_⟩
        simp [DepGetter.args, got, free dep (.head _), present, run]
      · refine .inr ⟨d, .tail _ member, absent, ?_⟩
        simp [DepGetter.args, got, free dep (.head _), present, run]

/-! ## The loop over the storages -/

section

variable {entity : Nat} {compMap : CompMap V}

theorem declared_given {comp : DbgTypeId} {given value : V}
    (passed : compMap.removeSimple comp = some given) :
    Declared types arch compMap comp value ↔ given = value := by
  constructor
  · intro declared
    cases declared with
    | given passed' => exact Option.some.inj (passed.symm.trans passed')
    | auto absent => simp [passed] at absent
  · rintro rfl
    exact .given passed

theorem declared_none {comp : DbgTypeId} {value : V} (absent : compMap.removeSimple comp = none)
    (strategy : (types.simple arch comp).initStrategy = .none) :
    ¬ Declared types arch compMap comp value := by
  intro declared
  cases declared with
  | given passed => simp [passed] at absent
  | auto _ auto => simp [strategy] at auto

theorem declared_auto {comp : DbgTypeId} {deps : List DbgTypeId} {init : List V → V} {value : V}
    (absent : compMap.removeSimple comp = none)
    (strategy : (types.simple arch comp).initStrategy = .auto deps init) :
    Declared types arch compMap comp value ↔
      ∃ args, List.Forall₂ (Declared types arch compMap) deps args ∧ init args = value := by
  constructor
  · intro declared
    cases declared with
    | given passed => simp [passed] at absent
    | auto _ auto length values =>
      rw [strategy] at auto
      cases auto
      exact ⟨_, List.forall₂_iff_zip.mpr ⟨length, values⟩, rfl⟩
  · rintro ⟨args, values, rfl⟩
    obtain ⟨length, values⟩ := List.forall₂_iff_zip.mp values
    exact .auto absent strategy length values

/-- The values of the dependencies are unique. -/
theorem forall₂_value_unique {f : DbgTypeId → Option V} {deps : List DbgTypeId} {args args' : List V}
    (values : List.Forall₂ (fun dep arg => f dep = some arg) deps args)
    (values' : List.Forall₂ (fun dep arg => f dep = some arg) deps args') : args = args' := by
  induction values generalizing args' with
  | nil =>
    cases values'
    rfl
  | cons found _ ih =>
    cases values' with
    | cons found' rest =>
      rw [ih rest, Option.some.inj (found.symm.trans found')]

theorem forall₂_left {R : DbgTypeId → V → Prop} {deps : List DbgTypeId} {args : List V}
    (values : List.Forall₂ R deps args) : ∀ dep ∈ deps, ∃ arg, R dep arg := by
  induction values with
  | nil => exact nofun
  | cons value _ ih => exact List.forall_mem_cons.mpr ⟨⟨_, value⟩, ih⟩

/-- The dependencies hold the values that they are declared to have. -/
theorem declared_args {st : IndexMap DbgTypeId (Simple V)} {deps : List DbgTypeId}
    (done : ∀ dep ∈ deps, ∀ value, Typed.valueIn st dep entity = some value ↔
      Declared types arch compMap dep value) (args : List V) :
    List.Forall₂ (Declared types arch compMap) deps args ↔
      List.Forall₂ (fun dep arg => Typed.valueIn st dep entity = some arg) deps args := by
  rw [List.forall₂_iff_zip, List.forall₂_iff_zip]
  apply and_congr_right
  intro _
  constructor
  · intro declared dep arg pair
    exact (done dep (List.of_mem_zip pair).1 arg).mpr (declared pair)
  · intro values dep arg pair
    exact (done dep (List.of_mem_zip pair).1 arg).mp (values pair)

/-- The initializer of a component computes its declared value from the values
of the components that stand before, or reports one that is missing. -/
theorem initArgs_declared {st : IndexMap DbgTypeId (Simple V)} {past rest : List DbgTypeId}
    {comp : DbgTypeId} (split : st.order = past ++ comp :: rest)
    (first : DepsFirst types arch st.order)
    (done : ∀ c ∈ past, ∀ value, Typed.valueIn st c entity = some value ↔
      Declared types arch compMap c value)
    (passed : compMap.removeSimple comp = none) {deps : List DbgTypeId} {init : List V → V}
    (strategy : (types.simple arch comp).initStrategy = .auto deps init) :
    (∃ dep ∈ deps, DepGetter.args ⟨st, some (st.indexOf comp), entity⟩ arch comp [] deps =
        .error (.missingDependency arch comp dep) ∧
      ∀ value, ¬ Declared types arch compMap dep value) ∨
    ∃ args, DepGetter.args ⟨st, some (st.indexOf comp), entity⟩ arch comp [] deps = .ok args ∧
      (∀ dep ∈ deps, ∃ value, Declared types arch compMap dep value) ∧
      ∀ value, Declared types arch compMap comp value ↔ init args = value := by
  have known : comp ∈ st.order := by simp [split]
  obtain ⟨nodup, reads⟩ := first past comp rest split
  have earlier : ∀ dep ∈ deps, dep ∈ st.order ∧
      ∀ index, some (st.indexOf comp) = some index → st.indexOf dep < index := by
    intro dep member
    have below := first.idxOf_lt st.nodup known (show Reads types arch comp dep by
      rw [Reads, strategy]
      exact member)
    refine ⟨below.1, fun index here => ?_⟩
    cases here
    exact below.2
  simp only [Reads, strategy, InitStrategy.deps] at nodup reads
  have total : (∃ args, DepGetter.args ⟨st, some (st.indexOf comp), entity⟩ arch comp [] deps =
      .ok args) ∨ _ :=
    DepGetter.args_total nodup (fun _ _ => List.not_mem_nil) earlier
  rcases total with ⟨args, run⟩ | ⟨dep, member, absent, run⟩
  · have values := (DepGetter.args_ok run).1
    have agree := declared_args fun dep (member : dep ∈ deps) => done dep (reads dep member)
    refine .inr ⟨args, run, forall₂_left ((agree args).mpr values), fun value => ?_⟩
    rw [declared_auto passed strategy]
    constructor
    · rintro ⟨args', values', rfl⟩
      rw [forall₂_value_unique values ((agree args').mp values')]
    · rintro rfl
      exact ⟨args, (agree args).mpr values, rfl⟩
  · refine .inl ⟨dep, member, run, fun value declared => ?_⟩
    rw [← done dep (reads dep member)] at declared
    simp [absent] at declared

/-- One round of the loop, after the components that stand before. -/
theorem initSimple_declared {st : IndexMap DbgTypeId (Simple V)} {past rest : List DbgTypeId}
    {comp : DbgTypeId} (split : st.order = past ++ comp :: rest)
    (first : DepsFirst types arch st.order)
    (done : ∀ c ∈ past, ∀ value, Typed.valueIn st c entity = some value ↔
      Declared types arch compMap c value) (todo : Typed.valueIn st comp entity = none) :
    (∃ e, Typed.initSimple types arch entity compMap st comp = .error e ∧
      Missing types arch compMap comp ∧ Reports arch comp e) ∨
    ∃ st', Typed.initSimple types arch entity compMap st comp = .ok st' ∧
      ¬ Missing types arch compMap comp ∧
      ∀ value, Typed.valueIn st' comp entity = some value ↔
        Declared types arch compMap comp value := by
  have known : comp ∈ st.order := by simp [split]
  obtain ⟨simple, found⟩ := Option.isSome_iff_exists.mp ((IndexMap.mem_order_iff _ _).mp known)
  have present : ∀ storage i, Typed.valueIn (st.insert comp { simple with storage }) comp i =
      storage i := by
    intro storage i
    simp [Typed.valueIn, IndexMap.get_insert]
  have absent : simple.storage entity = none := by
    rw [Typed.valueIn, found] at todo
    exact todo
  simp only [Typed.initSimple, found, expect_some, ok_bind, Storage.fillInitSimple]
  cases passed : compMap.removeSimple comp with
  | some given =>
    refine .inr ⟨_, rfl, fun missing => ?_, fun value => ?_⟩
    · cases passed.symm.trans missing.1
    · rw [present, declared_given passed]
      simp
  | none =>
    cases strategy : (types.simple arch comp).initStrategy with
    | none =>
      cases presence : (types.simple arch comp).presence with
      | required =>
        refine .inl ⟨_, rfl, ⟨passed, ?_⟩, .inl rfl⟩
        rw [strategy]
        exact presence
      | optional =>
        refine .inr ⟨_, rfl, fun missing => ?_, fun value => ?_⟩
        · have required := missing.2
          rw [strategy] at required
          simp [presence] at required
        · rw [present, absent]
          simpa using declared_none passed strategy
    | auto deps init =>
      rcases initArgs_declared split first done passed strategy with
        ⟨dep, member, run, none⟩ | ⟨args, run, values, declared⟩
      · refine .inl ⟨_, by simp [run], ⟨passed, ?_⟩, .inr ⟨dep, rfl⟩⟩
        rw [strategy]
        exact ⟨dep, member, none⟩
      · refine .inr ⟨st.insert comp ⟨simple.depList, simple.storage.set entity (some (init args))⟩,
          by simp [run], fun missing => ?_, fun value => ?_⟩
        · have lacks := missing.2
          rw [strategy] at lacks
          obtain ⟨dep, member, none⟩ := lacks
          obtain ⟨value, present⟩ := values dep member
          exact none value present
        · rw [present, declared value, Storage.set_apply, if_pos rfl, Option.some.injEq]

/-- The whole loop returns, or fails at a missing component. -/
theorem initSimples_declared (compMap : CompMap V) {st : IndexMap DbgTypeId (Simple V)}
    (first : DepsFirst types arch st.order) (fresh : ∀ c, Typed.valueIn st c entity = none) :
    (∃ e, st.order.foldlM (Typed.initSimple types arch entity compMap) st = .error e ∧
      ∃ c ∈ st.order, Missing types arch compMap c ∧ Reports arch c e) ∨
    ∃ st', st.order.foldlM (Typed.initSimple types arch entity compMap) st = .ok st' ∧
      ∀ c ∈ st.order, ¬ Missing types arch compMap c ∧
        ∀ value, Typed.valueIn st' c entity = some value ↔
          Declared types arch compMap c value := by
  have swept := foldlM_cases (f := Typed.initSimple types arch entity compMap) (l := st.order)
    (fun past now => now.order = st.order ∧ (∀ c ∉ past, Typed.valueIn now c entity = none) ∧
      ∀ c ∈ past, ¬ Missing types arch compMap c ∧ ∀ value,
        Typed.valueIn now c entity = some value ↔ Declared types arch compMap c value)
    (fun c e => Missing types arch compMap c ∧ Reports arch c e)
    ⟨rfl, fun c _ => fresh c, nofun⟩ ?_
  · exact swept.imp id fun ⟨st', run, _, _, done⟩ => ⟨st', run, done⟩
  intro past comp rest now split ⟨order, todo, done⟩
  have unseen : comp ∉ past := by
    have nodup := st.nodup
    rw [split, List.nodup_append] at nodup
    exact fun old => nodup.2.2 comp old comp (.head _) rfl
  have round := initSimple_declared (order.trans split) (order ▸ first)
    (fun c member => (done c member).2) (todo comp unseen)
  refine round.imp id fun ⟨now', run, present, value⟩ => ⟨now', run, ?_⟩
  obtain ⟨order', frame, -⟩ := initSimple_ok run
  refine ⟨order'.trans order, fun c other => ?_, fun c member => ?_⟩
  · simp only [List.mem_append, List.mem_singleton, not_or] at other
    rw [frame c entity (.inl other.2)]
    exact todo c other.1
  · rcases List.mem_append.mp member with old | new
    · rw [frame c entity (.inl ?_)]
      · exact done c old
      · rintro rfl
        exact unseen old
    · cases List.mem_singleton.mp new
      exact ⟨present, value⟩

/-! ## Initialization of an entity -/

/-- The components were registered in the given order, and the entity has none
of them. -/
structure Prepared (types : Types V) (arch : DbgTypeId) (components : List DbgTypeId)
    (entity : Nat) (typed : Typed V) : Prop where
  registered : ∃ registered : Typed V,
    components.foldlM (Typed.addSimpleStorageIfMissing types arch types.stack) (.builder types) =
      .ok registered ∧ typed.simpleStorages.order = registered.simpleStorages.order ∧
      typed.isotopeStorageMaps = registered.isotopeStorageMaps
  fresh : ∀ c, typed.getSimple c entity = none

variable {w : Nat} {T : Type}

theorem Prepared.init {components : List DbgTypeId} {typed : Typed V}
    (prepared : Prepared types arch components entity typed) (compMap : CompMap V)
    (ealloc : Recycling w T) :
    (∃ e, typed.initEntity types arch entity compMap ealloc = .error e ∧
      ∃ c ∈ typed.simpleStorages.order, Missing types arch compMap c ∧ Reports arch c e) ∨
    ∃ typed', typed.initEntity types arch entity compMap ealloc = .ok typed' ∧
      ∀ c ∈ typed.simpleStorages.order, ¬ Missing types arch compMap c ∧
        ∀ value, typed'.getSimple c entity = some value ↔
          Declared types arch compMap c value := by
  obtain ⟨registered, run, order, isotopes⟩ := prepared.registered
  obtain ⟨first, empty, -⟩ := registered_order run
  have loop := initSimples_declared compMap (order ▸ first) prepared.fresh
  unfold Typed.initEntity
  rw [isotopes, empty]
  rcases loop with ⟨e, failed, why⟩ | ⟨st, ran, done⟩
  · exact .inl ⟨e, by rw [failed]; rfl, why⟩
  · exact .inr ⟨⟨st, ∅⟩, by rw [ran]; rfl, done⟩

/-- Which components an entity is initialized with. -/
theorem Prepared.registered_iff {components : List DbgTypeId} {typed : Typed V}
    (prepared : Prepared types arch components entity typed) (c : DbgTypeId) :
    c ∈ typed.simpleStorages.order ↔
      c = types.flag ∨ ∃ component ∈ components, ReflTransGen (Reads types arch) component c := by
  obtain ⟨registered, run, order, -⟩ := prepared.registered
  rw [order]
  exact (registered_order run).2.2 c

theorem initEntity_unknown {typed typed' : Typed V} {ealloc : Recycling w T}
    (run : typed.initEntity types arch entity compMap ealloc = .ok typed') {c : DbgTypeId}
    (other : c ∉ typed.simpleStorages.order) : typed'.getSimple c entity = none := by
  rw [← (Typed.initEntity_ok run).order] at other
  exact Option.eq_none_iff_forall_ne_some.mpr fun value present =>
    other (Typed.getSimple_known present)

theorem Prepared.fails_iff {components : List DbgTypeId} {typed : Typed V}
    (prepared : Prepared types arch components entity typed) (compMap : CompMap V)
    (ealloc : Recycling w T) :
    (∃ e, typed.initEntity types arch entity compMap ealloc = .error e) ↔
      ∃ c ∈ typed.simpleStorages.order, Missing types arch compMap c := by
  rcases prepared.init compMap ealloc with ⟨e, run, c, member, missing, -⟩ | ⟨typed', run, done⟩
  · exact ⟨fun _ => ⟨c, member, missing⟩, fun _ => ⟨e, run⟩⟩
  · constructor
    · rintro ⟨e, failed⟩
      cases run.symm.trans failed
    · rintro ⟨c, member, missing⟩
      exact absurd missing (done c member).1

/-- Two types with the same components initialize an entity alike. -/
theorem Prepared.lockstep {components components' : List DbgTypeId} {typed other : Typed V}
    (prepared : Prepared types arch components entity typed)
    (prepared' : Prepared types arch components' entity other)
    (equal : ∀ c, c ∈ typed.simpleStorages.order ↔ c ∈ other.simpleStorages.order)
    (compMap : CompMap V) (ealloc ealloc' : Recycling w T) :
    Lockstep (fun typed' other' => ∀ c, typed'.getSimple c entity = other'.getSimple c entity)
      (typed.initEntity types arch entity compMap ealloc)
      (other.initEntity types arch entity compMap ealloc') := by
  have init := prepared.init compMap ealloc
  have init' := prepared'.init compMap ealloc'
  rcases init with ⟨e, run, c, member, missing, -⟩ | ⟨typed', run, done⟩
  · rcases init' with ⟨e', run', -⟩ | ⟨other', -, done'⟩
    · rw [run, run']
      exact .error e e'
    · exact absurd missing (done' c ((equal c).mp member)).1
  · rcases init' with ⟨e', -, c, member, missing, -⟩ | ⟨other', run', done'⟩
    · exact absurd missing (done c ((equal c).mpr member)).1
    · have nowhere := fun c => initEntity_unknown run (c := c)
      have nowhere' := fun c => initEntity_unknown run' (c := c)
      rw [run, run']
      refine .ok fun c => ?_
      by_cases member : c ∈ typed.simpleStorages.order
      · apply Option.ext
        intro value
        exact ((done c member).2 value).trans ((done' c ((equal c).mp member)).2 value).symm
      · rw [nowhere c member, nowhere' c fun known => member ((equal c).mpr known)]

/-- **Initial values.** Initialization panics exactly when a registered
component is missing. Otherwise every registered component holds the value it
was given, or what its initializer computes from the final values of its
dependencies, or nothing. The order of registration makes no difference. -/
theorem init_entity_declared {components components' : List DbgTypeId}
    (same : ∀ c, c ∈ components ↔ c ∈ components') {typed other : Typed V}
    (prepared : Prepared types arch components entity typed)
    (prepared' : Prepared types arch components' entity other) (compMap : CompMap V)
    (ealloc ealloc' : Recycling w T) :
    ((∃ e, typed.initEntity types arch entity compMap ealloc = .error e) ↔
      ∃ c ∈ typed.simpleStorages.order, Missing types arch compMap c) ∧
    (∀ e, typed.initEntity types arch entity compMap ealloc = .error e →
      ∃ c ∈ typed.simpleStorages.order, Missing types arch compMap c ∧ Reports arch c e) ∧
    (∀ typed', typed.initEntity types arch entity compMap ealloc = .ok typed' →
      ∀ c ∈ typed.simpleStorages.order,
        SimpleSource types arch entity compMap .empty typed'.simpleStorages c ∧
        ∀ value, typed'.getSimple c entity = some value ↔ Declared types arch compMap c value) ∧
    (∀ c, c ∈ typed.simpleStorages.order ↔
      c = types.flag ∨ ∃ component ∈ components, ReflTransGen (Reads types arch) component c) ∧
    Lockstep (fun typed' other' => ∀ c, typed'.getSimple c entity = other'.getSimple c entity)
      (typed.initEntity types arch entity compMap ealloc)
      (other.initEntity types arch entity compMap ealloc') := by
  have equal : ∀ c, c ∈ typed.simpleStorages.order ↔ c ∈ other.simpleStorages.order := by
    intro c
    rw [prepared.registered_iff, prepared'.registered_iff]
    simp only [same]
  have init := prepared.init compMap ealloc
  refine ⟨prepared.fails_iff compMap ealloc, ?_, ?_, prepared.registered_iff,
    prepared.lockstep prepared' equal compMap ealloc ealloc'⟩
  · intro e failed
    rcases init with ⟨e', run, why⟩ | ⟨typed', run, -⟩
    · cases run.symm.trans failed
      exact why
    · cases run.symm.trans failed
  · intro typed' returned c member
    rcases init with ⟨e, run, -⟩ | ⟨typed'', run, done⟩
    · cases run.symm.trans returned
    · cases run.symm.trans returned
      have source := (Typed.initEntity_ok run).simple c member
      exact ⟨source.congr (prepared.fresh c).symm rfl fun _ _ _ => rfl, (done c member).2⟩

end

/-- Component 2 is initialized from component 1. -/
def chainTypes : Types Nat where
  flag := ⟨100⟩
  flagValue := 0
  generations := ⟨101⟩
  simpleOf _ comp :=
    if comp = ⟨2⟩ then ⟨.required, .auto [⟨1⟩] fun args => args.sum + 1, false⟩
    else ⟨.optional, .none, false⟩
  isotopeOf _ _ := ⟨.optional, .none⟩
  stack := 4
  entityRc := true

/-- The storages after registering the components in the given order. -/
def chained (components : List DbgTypeId) : Typed Nat :=
  ⟨components.foldl (fun st comp => st.insert comp ⟨if comp = ⟨2⟩ then [⟨1⟩] else [], .empty⟩)
    (Typed.builder chainTypes).simpleStorages, ∅⟩

theorem init_entity_declared_chain :
    Lockstep (fun typed other => ∀ c, typed.getSimple c 1 = other.getSimple c 1)
      ((chained [⟨1⟩, ⟨2⟩, ⟨3⟩]).initEntity chainTypes ⟨0⟩ 1 ⟨AList.insert ⟨1⟩ 5 ∅, ∅⟩
        (Recycling.new (T := List Nat) 32 1))
      ((chained [⟨3⟩, ⟨1⟩, ⟨2⟩]).initEntity chainTypes ⟨0⟩ 1 ⟨AList.insert ⟨1⟩ 5 ∅, ∅⟩
        (Recycling.new (T := List Nat) 32 1)) := by
  have first : Prepared chainTypes ⟨0⟩ [⟨2⟩, ⟨3⟩] 1 (chained [⟨1⟩, ⟨2⟩, ⟨3⟩]) := by
    have both : (chained [⟨1⟩, ⟨2⟩]).addSimpleStorageIfMissing chainTypes ⟨0⟩ 4 ⟨3⟩ =
      .ok (chained [⟨1⟩, ⟨2⟩, ⟨3⟩]) := rfl
    refine ⟨⟨_, rfl, rfl, rfl⟩, fun c => ?_⟩
    exact (Typed.Registered.simple 4 ⟨3⟩ both (.simple 4 ⟨2⟩ rfl .builder)).blank.simple c 1
  have second : Prepared chainTypes ⟨0⟩ [⟨3⟩, ⟨2⟩] 1 (chained [⟨3⟩, ⟨1⟩, ⟨2⟩]) := by
    have both : (chained [⟨3⟩]).addSimpleStorageIfMissing chainTypes ⟨0⟩ 4 ⟨2⟩ =
      .ok (chained [⟨3⟩, ⟨1⟩, ⟨2⟩]) := rfl
    refine ⟨⟨_, rfl, rfl, rfl⟩, fun c => ?_⟩
    exact (Typed.Registered.simple 4 ⟨2⟩ both (.simple 4 ⟨3⟩ rfl .builder)).blank.simple c 1
  exact (init_entity_declared (fun c => by simp [or_comm]) first second _ _ _).2.2.2.2

end Dynec.World
