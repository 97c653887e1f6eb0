import Dynec.World.Declared

/-!
# Registration of component types

The storages are listed in a topological order, and a component keeps its place.
Registration recurses into the dependencies of a component before the component
counts as registered: it never ends if it comes back to a component that it is
still inside.
-/

namespace Dynec.World

open Fallible
open Relation (ReflTransGen TransGen)

variable {V : Type} {types : Types V} {arch : DbgTypeId} {typed typed' : Typed V}
  {component : DbgTypeId} {depth : Nat}

/-! ## The order of the storages -/

/-- A call that returns. -/
inductive Typed.Registers (types : Types V) (arch : DbgTypeId) : Typed V → Typed V → Prop
  | simple {old new : Typed V} (depth : Nat) (component : DbgTypeId)
      (run : old.addSimpleStorageIfMissing types arch depth component = .ok new) :
      Registers types arch old new
  | isotope {old : Typed V} (component : DbgTypeId) :
      Registers types arch old (old.addIsotopeMapIfMissing component)

theorem prefix_insert (st : IndexMap DbgTypeId (Simple V)) (component : DbgTypeId)
    (simple : Simple V) : st.order <+: (st.insert component simple).order := by
  change st.order <+: if component ∈ st.order then st.order else st.order ++ [component]
  split
  · exact List.prefix_rfl
  · exact List.prefix_append ..

theorem addSimpleStorageIfMissing_prefix
    (run : typed.addSimpleStorageIfMissing types arch depth component = .ok typed') :
    typed.simpleStorages.order <+: typed'.simpleStorages.order := by
  induction depth generalizing typed typed' component with
  | zero => cases run
  | succ depth ih =>
    unfold Typed.addSimpleStorageIfMissing at run
    split at run
    · cases run
      exact List.prefix_rfl
    · obtain ⟨deps, -, run⟩ := bind_eq_ok.mp run
      obtain ⟨inner, inside, run⟩ := bind_eq_ok.mp run
      cases run
      have kept : typed.simpleStorages.order <+: inner.simpleStorages.order :=
        foldlM_ok inside (fun _ now => typed.simpleStorages.order <+: now.simpleStorages.order)
          List.prefix_rfl fun _ _ _ _ _ kept run => kept.trans (ih run)
      exact kept.trans (prefix_insert ..)

theorem addIsotopeMapIfMissing_simple (typed : Typed V) (component : DbgTypeId) :
    (typed.addIsotopeMapIfMissing component).simpleStorages = typed.simpleStorages := by
  unfold Typed.addIsotopeMapIfMissing
  split
  · rfl
  · rfl

theorem Typed.Registers.step (call : Typed.Registers types arch typed typed')
    (first : DepsFirst types arch typed.simpleStorages.order) :
    DepsFirst types arch typed'.simpleStorages.order ∧
      typed.simpleStorages.order <+: typed'.simpleStorages.order := by
  cases call with
  | simple depth component run =>
    exact ⟨(addSimpleStorageIfMissing_extends run first).first, addSimpleStorageIfMissing_prefix run⟩
  | isotope component =>
    rw [addIsotopeMapIfMissing_simple]
    exact ⟨first, List.prefix_rfl⟩

theorem registers_run (calls : ReflTransGen (Typed.Registers types arch) typed typed')
    (first : DepsFirst types arch typed.simpleStorages.order) :
    DepsFirst types arch typed'.simpleStorages.order ∧
      typed.simpleStorages.order <+: typed'.simpleStorages.order := by
  induction calls with
  | refl => exact ⟨first, List.prefix_rfl⟩
  | tail _ call ih =>
    obtain ⟨first, kept⟩ := ih
    obtain ⟨first, last⟩ := call.step first
    exact ⟨first, kept.trans last⟩

/-- **Topological order.** After any calls that return, each component is listed once
and after its dependencies, and calls after that do not move it. -/
theorem storages_sorted
    (earlier : ReflTransGen (Typed.Registers types arch) (.builder types) typed)
    (later : ReflTransGen (Typed.Registers types arch) typed typed') :
    typed'.simpleStorages.order.Nodup ∧
    (∀ comp ∈ typed'.simpleStorages.order, ∀ dep, Reads types arch comp dep →
      dep ∈ typed'.simpleStorages.order ∧
      typed'.simpleStorages.indexOf dep < typed'.simpleStorages.indexOf comp) ∧
    ∀ comp ∈ typed.simpleStorages.order, comp ∈ typed'.simpleStorages.order ∧
      typed'.simpleStorages.indexOf comp = typed.simpleStorages.indexOf comp := by
  obtain ⟨first, -⟩ := registers_run earlier depsFirst_builder
  obtain ⟨first, rest, split⟩ := registers_run later first
  refine ⟨typed'.simpleStorages.nodup, fun comp member dep reads => ?_, fun comp member => ?_⟩
  · exact first.idxOf_lt typed'.simpleStorages.nodup member reads
  · rw [IndexMap.indexOf, IndexMap.indexOf, ← split, List.idxOf_append_of_mem member]
    exact ⟨List.mem_append_left _ member, rfl⟩

theorem storages_sorted_chain : ∃ typed typed' : Typed Nat,
    ReflTransGen (Typed.Registers chainTypes ⟨0⟩) (.builder chainTypes) typed ∧
    ReflTransGen (Typed.Registers chainTypes ⟨0⟩) typed typed' ∧
    typed'.simpleStorages.order = [⟨100⟩, ⟨1⟩, ⟨2⟩, ⟨3⟩] ∧
    typed'.simpleStorages.indexOf ⟨1⟩ < typed'.simpleStorages.indexOf ⟨2⟩ ∧
    typed'.simpleStorages.indexOf ⟨2⟩ = typed.simpleStorages.indexOf ⟨2⟩ := by
  have earlier : ReflTransGen (Typed.Registers chainTypes ⟨0⟩) (.builder chainTypes)
      (chained [⟨1⟩, ⟨2⟩]) := .single (.simple 4 ⟨2⟩ rfl)
  have later : ReflTransGen (Typed.Registers chainTypes ⟨0⟩) (chained [⟨1⟩, ⟨2⟩])
      (chained [⟨1⟩, ⟨2⟩, ⟨3⟩]) := .single (.simple 4 ⟨3⟩ rfl)
  obtain ⟨-, sorted, kept⟩ := storages_sorted earlier later
  refine ⟨_, _, earlier, later, rfl, ?_, ?_⟩
  · exact (sorted ⟨2⟩ (by decide) ⟨1⟩ (.head _)).2
  · exact (kept ⟨2⟩ (by decide)).2

/-! ## Termination -/

section Termination

variable (types arch) (order : List DbgTypeId)

/-- A dependency that is not registered, of a component that is not registered. -/
def Visits (comp dep : DbgTypeId) : Prop :=
  comp ∉ order ∧ dep ∉ order ∧ Reads types arch comp dep

/-- Below the component no dependency is listed twice, and no component depends on
itself. -/
def Sound (comp : DbgTypeId) : Prop :=
  ∀ c, ReflTransGen (Visits types arch order) comp c → c ∉ order →
    (types.simple arch c).initStrategy.deps.Nodup ∧ ¬ TransGen (Visits types arch order) c c

/-- The registration of the component gets to that of the dependency. -/
def Enters (comp dep : DbgTypeId) : Prop :=
  comp ∉ order ∧ dep ∉ order ∧ (types.simple arch comp).initStrategy.deps.Nodup ∧
    ∃ before after, (types.simple arch comp).initStrategy.deps = before ++ dep :: after ∧
      ∀ d ∈ before, Sound types arch order d

/-- The registration of the component gets to a component that it is still inside. -/
def Circles (comp : DbgTypeId) : Prop :=
  ∃ c, ReflTransGen (Enters types arch order) comp c ∧ TransGen (Enters types arch order) c c

/-- What was registered since `order`. -/
structure Grown (order' : List DbgTypeId) : Prop where
  kept : ∀ c ∈ order, c ∈ order'
  sound : ∀ c ∈ order', c ∉ order → Sound types arch order c

variable {types arch order} {comp dep : DbgTypeId}

theorem Enters.visits (enters : Enters types arch order comp dep) :
    Visits types arch order comp dep := by
  obtain ⟨outside, outside', -, before, after, split, -⟩ := enters
  refine ⟨outside, outside', ?_⟩
  rw [Reads, split]
  exact List.mem_append_right _ (.head _)

theorem sound_of_mem (member : comp ∈ order) : Sound types arch order comp := by
  intro c path outside
  rcases path.cases_head with rfl | ⟨_, ⟨unknown, -⟩, -⟩
  · exact absurd member outside
  · exact absurd member unknown

theorem Sound.below (sound : Sound types arch order comp) (outside : comp ∉ order)
    (reads : Reads types arch comp dep) : Sound types arch order dep := by
  by_cases member : dep ∈ order
  · exact sound_of_mem member
  · intro c path
    exact sound c (.head ⟨outside, member, reads⟩ path)

theorem Sound.of_deps (nodup : (types.simple arch comp).initStrategy.deps.Nodup)
    (deps : ∀ dep, Reads types arch comp dep → Sound types arch order dep) :
    Sound types arch order comp := by
  intro c path outside
  have acyclic : ¬ TransGen (Visits types arch order) comp comp := by
    intro circle
    obtain ⟨dep, visits, back⟩ := TransGen.head'_iff.mp circle
    exact (deps dep visits.2.2 comp back visits.1).2 circle
  rcases path.cases_head with rfl | ⟨dep, visits, path⟩
  · exact ⟨nodup, acyclic⟩
  · exact deps dep visits.2.2 c path outside

theorem Circles.next (circles : Circles types arch order comp) :
    ∃ dep, Enters types arch order comp dep ∧ Circles types arch order dep := by
  obtain ⟨c, path, circle⟩ := circles
  rcases path.cases_head with rfl | ⟨dep, enters, path⟩
  · obtain ⟨dep, enters, back⟩ := TransGen.head'_iff.mp circle
    exact ⟨dep, enters, comp, back, circle⟩
  · exact ⟨dep, enters, c, path, circle⟩

theorem Circles.not_sound (circles : Circles types arch order comp) :
    ¬ Sound types arch order comp := by
  intro sound
  obtain ⟨c, path, circle⟩ := circles
  obtain ⟨dep, enters, -⟩ := TransGen.head'_iff.mp circle
  have reached := path.lift id fun _ _ => Enters.visits
  exact (sound c reached enters.1).2 (circle.lift id fun _ _ => Enters.visits)

theorem Grown.refl (order : List DbgTypeId) : Grown types arch order order :=
  ⟨fun _ member => member, fun _ member outside => absurd member outside⟩

theorem Grown.insert {st : IndexMap DbgTypeId (Simple V)} (grown : Grown types arch order st.order)
    (sound : Sound types arch order comp) (simple : Simple V) :
    Grown types arch order (st.insert comp simple).order := by
  refine ⟨fun c member => (prefix_insert ..).subset (grown.kept c member), fun c member => ?_⟩
  rcases (IndexMap.mem_order_insert ..).mp member with rfl | old
  · exact fun _ => sound
  · exact grown.sound c old

theorem Grown.sound_of_mem {order' : List DbgTypeId} (grown : Grown types arch order order')
    (member : comp ∈ order') : Sound types arch order comp := by
  by_cases known : comp ∈ order
  · exact World.sound_of_mem known
  · exact grown.sound comp member known

theorem checkedDeps_cases (strategy : InitStrategy V) :
    strategy.checkedDeps = .ok strategy.deps ∧ strategy.deps.Nodup ∨
      ¬ strategy.deps.Nodup ∧ ∃ dup, strategy.checkedDeps = .error (.duplicateDependency dup) := by
  by_cases nodup : strategy.deps.Nodup
  · exact .inl ⟨checkedDeps_ok.mpr ⟨rfl, nodup⟩, nodup⟩
  · refine .inr ⟨nodup, ?_⟩
    cases run : strategy.checkedDeps with
    | ok deps =>
      obtain ⟨rfl, distinct⟩ := checkedDeps_ok.mp run
      exact absurd distinct nodup
    | error e =>
      unfold InitStrategy.checkedDeps at run
      dsimp only at run
      split at run
      · cases run
        exact ⟨_, rfl⟩
      · cases run

/-- Dependencies that are registered one by one, unless one of them fails. -/
theorem deps_cases (depth : Nat) (deps : List DbgTypeId) {typed : Typed V}
    (fails : Panic → Prop) (Q : DbgTypeId → Prop)
    (grown : Grown types arch order typed.simpleStorages.order)
    (each : ∀ past dep rest (now : Typed V), deps = past ++ dep :: rest →
      Grown types arch order now.simpleStorages.order → (∀ d ∈ past, Q d) →
      (∃ e, now.addSimpleStorageIfMissing types arch depth dep = .error e ∧ fails e) ∨
      ∃ next, now.addSimpleStorageIfMissing types arch depth dep = .ok next ∧
        Grown types arch order next.simpleStorages.order ∧ Q dep) :
    (∃ e, deps.foldlM (Typed.addSimpleStorageIfMissing types arch depth) typed = .error e ∧
      fails e) ∨
    ∃ inner, deps.foldlM (Typed.addSimpleStorageIfMissing types arch depth) typed = .ok inner ∧
      Grown types arch order inner.simpleStorages.order ∧ ∀ d ∈ deps, Q d := by
  obtain ⟨e, failed, _, _, report⟩ | done := foldlM_cases
    (f := Typed.addSimpleStorageIfMissing types arch depth) (l := deps) (s := typed)
    (fun past now => Grown types arch order now.simpleStorages.order ∧ ∀ d ∈ past, Q d)
    (fun _ => fails) ⟨grown, fun d listed => absurd listed List.not_mem_nil⟩ (by
      rintro past dep rest now split ⟨grown, before⟩
      rcases each past dep rest now split grown before with failed | ⟨next, run, grown', here⟩
      · exact .inl failed
      · refine .inr ⟨next, run, grown', fun d listed => ?_⟩
        rcases List.mem_append.mp listed with early | last
        · exact before d early
        · cases List.mem_singleton.mp last
          exact here)
  · exact .inl ⟨e, failed, report⟩
  · exact .inr done

/-- Dependencies that are registered one by one, unless the stack is too small. -/
theorem sound_deps {depth : Nat} {deps : List DbgTypeId} {typed : Typed V}
    (grown : Grown types arch order typed.simpleStorages.order)
    (each : ∀ dep ∈ deps, ∀ now : Typed V, Grown types arch order now.simpleStorages.order →
      now.addSimpleStorageIfMissing types arch depth dep = .error .stackOverflow ∨
      ∃ next, now.addSimpleStorageIfMissing types arch depth dep = .ok next ∧
        Grown types arch order next.simpleStorages.order) :
    deps.foldlM (Typed.addSimpleStorageIfMissing types arch depth) typed = .error .stackOverflow ∨
    ∃ inner, deps.foldlM (Typed.addSimpleStorageIfMissing types arch depth) typed = .ok inner ∧
      Grown types arch order inner.simpleStorages.order := by
  have run := deps_cases depth deps (· = .stackOverflow) (fun _ => True) grown (by
    intro past dep rest now split grown _
    have listed : dep ∈ deps := by
      rw [split]
      exact List.mem_append_right _ (.head _)
    rcases each dep listed now grown with failed | ⟨next, run, grown⟩
    · exact .inl ⟨_, failed, rfl⟩
    · exact .inr ⟨next, run, grown, trivial⟩)
  rcases run with ⟨e, failed, rfl⟩ | ⟨inner, run, grown, -⟩
  · exact .inl failed
  · exact .inr ⟨inner, run, grown⟩

/-- A sound component is registered, unless the stack is too small. -/
theorem sound_run (depth : Nat) {typed : Typed V} (sound : Sound types arch order comp)
    (grown : Grown types arch order typed.simpleStorages.order) :
    typed.addSimpleStorageIfMissing types arch depth comp = .error .stackOverflow ∨
    ∃ typed', typed.addSimpleStorageIfMissing types arch depth comp = .ok typed' ∧
      Grown types arch order typed'.simpleStorages.order := by
  induction depth generalizing typed comp with
  | zero => exact .inl rfl
  | succ depth ih =>
    unfold Typed.addSimpleStorageIfMissing
    by_cases known : comp ∈ typed.simpleStorages.order
    · exact .inr ⟨typed, by rw [if_pos known], grown⟩
    · have outside : comp ∉ order := fun member => known (grown.kept comp member)
      have nodup := (sound comp .refl outside).1
      rw [if_neg known, checkedDeps_ok.mpr ⟨rfl, nodup⟩, ok_bind]
      rcases sound_deps grown fun dep listed now grown => ih (sound.below outside listed) grown with
        failed | ⟨inner, run, grown'⟩
      · rw [failed, error_bind]
        exact .inl rfl
      · rw [run, ok_bind]
        exact .inr ⟨_, rfl, grown'.insert sound _⟩

/-- No stack is large enough to come back to a component. -/
theorem circles_run (depth : Nat) {typed : Typed V} (circles : Circles types arch order comp)
    (grown : Grown types arch order typed.simpleStorages.order) :
    typed.addSimpleStorageIfMissing types arch depth comp = .error .stackOverflow := by
  induction depth generalizing typed comp with
  | zero => rfl
  | succ depth ih =>
    obtain ⟨dep, ⟨-, -, nodup, before, after, split, sound⟩, inside⟩ := circles.next
    have unknown : comp ∉ typed.simpleStorages.order :=
      fun member => circles.not_sound (grown.sound_of_mem member)
    unfold Typed.addSimpleStorageIfMissing
    rw [if_neg unknown, checkedDeps_ok.mpr ⟨rfl, nodup⟩, ok_bind, split, List.foldlM_append]
    rcases sound_deps grown fun d listed now grown => sound_run depth (sound d listed) grown with
      failed | ⟨inner, run, grown'⟩
    · rw [failed]
      rfl
    · rw [run, ok_bind, List.foldlM_cons, ih inside grown']
      rfl

section Returns

variable {all : List DbgTypeId} {root : DbgTypeId}
  (closed : ∀ c ∈ all, ∀ dep, Reads types arch c dep → dep ∈ all)
  (straight : ¬ Circles types arch order root)

include closed straight in
/-- Registration that does not come back to a component ends. `stack` lists the
components that it is inside. -/
theorem straight_run (depth : Nat) {stack : List DbgTypeId} {typed : Typed V}
    (grown : Grown types arch order typed.simpleStorages.order)
    (path : comp ∉ order → ReflTransGen (Enters types arch order) root comp ∧
      ∀ c ∈ stack, TransGen (Enters types arch order) c comp)
    (nodup : stack.Nodup) (inside : ∀ c ∈ stack, c ∈ all) (member : comp ∈ all)
    (deep : all.length < depth + stack.length) :
    (∃ e, typed.addSimpleStorageIfMissing types arch depth comp = .error e ∧
      ∃ dup, e = .duplicateDependency dup ∧
        ∃ c ∈ all, ¬ (types.simple arch c).initStrategy.deps.Nodup) ∨
    ∃ typed', typed.addSimpleStorageIfMissing types arch depth comp = .ok typed' ∧
      Grown types arch order typed'.simpleStorages.order ∧ Sound types arch order comp := by
  induction depth generalizing stack typed comp with
  | zero =>
    have := (nodup.subperm inside).length_le
    omega
  | succ depth ih =>
    unfold Typed.addSimpleStorageIfMissing
    by_cases known : comp ∈ typed.simpleStorages.order
    · exact .inr ⟨typed, by rw [if_pos known], grown, grown.sound_of_mem known⟩
    have outside : comp ∉ order := fun member => known (grown.kept comp member)
    obtain ⟨reached, above⟩ := path outside
    have fresh : comp ∉ stack := fun again => straight ⟨comp, reached, above comp again⟩
    rw [if_neg known]
    rcases checkedDeps_cases (types.simple arch comp).initStrategy with
      ⟨checked, distinct⟩ | ⟨twice, dup, failed⟩
    · rw [checked, ok_bind]
      have deps := deps_cases depth (types.simple arch comp).initStrategy.deps
        (fun e => ∃ dup, e = .duplicateDependency dup ∧
          ∃ c ∈ all, ¬ (types.simple arch c).initStrategy.deps.Nodup)
        (Sound types arch order) grown (by
          intro past dep rest now split grown sound
          have reads : Reads types arch comp dep := by
            rw [Reads, split]
            exact List.mem_append_right _ (.head _)
          have enters : dep ∉ order → Enters types arch order comp dep :=
            fun outside' => ⟨outside, outside', distinct, past, rest, split, sound⟩
          have path' : dep ∉ order → ReflTransGen (Enters types arch order) root dep ∧
              ∀ c ∈ comp :: stack, TransGen (Enters types arch order) c dep := by
            intro outside'
            refine ⟨reached.tail (enters outside'), List.forall_mem_cons.mpr ⟨?_, fun c listed => ?_⟩⟩
            · exact .single (enters outside')
            · exact (above c listed).tail (enters outside')
          exact ih grown path' (List.nodup_cons.mpr ⟨fresh, nodup⟩)
            (List.forall_mem_cons.mpr ⟨member, inside⟩) (closed comp member dep reads)
            (by rw [List.length_cons]; omega))
      rcases deps with ⟨e, failed, report⟩ | ⟨inner, run, grown', sound⟩
      · rw [failed, error_bind]
        exact .inl ⟨e, rfl, report⟩
      · have sound : Sound types arch order comp := .of_deps distinct sound
        rw [run, ok_bind]
        exact .inr ⟨_, rfl, grown'.insert sound _, sound⟩
    · rw [failed, error_bind]
      exact .inl ⟨_, rfl, dup, rfl, comp, member, twice⟩

include closed in
/-- With distinct dependencies, registration comes back to a component if and only if
some component below depends on itself. -/
theorem circles_iff (member : comp ∈ all)
    (distinct : ∀ c ∈ all, (types.simple arch c).initStrategy.deps.Nodup) :
    Circles types arch typed.simpleStorages.order comp ↔
    ∃ c, ReflTransGen (Visits types arch typed.simpleStorages.order) comp c ∧
      TransGen (Visits types arch typed.simpleStorages.order) c c := by
  constructor
  · rintro ⟨c, path, circle⟩
    exact ⟨c, path.lift id fun _ _ => Enters.visits, circle.lift id fun _ _ => Enters.visits⟩
  · rintro ⟨c, path, circle⟩
    by_contra straight
    rcases straight_run closed straight (all.length + 1) (.refl typed.simpleStorages.order)
      (fun _ => ⟨.refl, by simp⟩) List.nodup_nil (by simp) member (Nat.lt_succ_self _) with
      ⟨_, -, dup, -, c', listed, twice⟩ | ⟨_, -, -, sound⟩
    · exact twice (distinct c' listed)
    · obtain ⟨dep, visits, -⟩ := TransGen.head'_iff.mp circle
      exact (sound c path visits.1).2 circle

/-- **Registration.** For finitely many component types, the registration of a
component ends, with the component and all that it depends on registered or with a
panic about a dependency that is listed twice, if and only if it does not get to a
component that it is still inside. -/
theorem registration_ends (closed : ∀ c ∈ all, ∀ dep, Reads types arch c dep → dep ∈ all)
    (member : component ∈ all)
    (calls : ReflTransGen (Typed.Registers types arch) (.builder types) typed) :
    (∃ depth,
      (∃ typed', typed.addSimpleStorageIfMissing types arch depth component = .ok typed' ∧
        ∀ c, ReflTransGen (Reads types arch) component c → c ∈ typed'.simpleStorages.order) ∨
      ∃ dup, typed.addSimpleStorageIfMissing types arch depth component =
        .error (.duplicateDependency dup)) ↔
    ¬ Circles types arch typed.simpleStorages.order component := by
  constructor
  · rintro ⟨depth, ⟨typed', run, -⟩ | ⟨dup, run⟩⟩ circles
    · cases (circles_run depth circles (.refl _)).symm.trans run
    · cases (circles_run depth circles (.refl _)).symm.trans run
  · intro straight
    refine ⟨all.length + 1, ?_⟩
    rcases straight_run closed straight (all.length + 1) (.refl typed.simpleStorages.order)
      (fun _ => ⟨.refl, by simp⟩) List.nodup_nil (by simp) member (Nat.lt_succ_self _) with
      ⟨_, failed, dup, rfl, -⟩ | ⟨typed', run, -⟩
    · exact .inr ⟨dup, failed⟩
    · have added := addSimpleStorageIfMissing_extends run (registers_run calls depsFirst_builder).1
      exact .inl ⟨typed', run, fun c reads => added.first.closed added.known reads⟩

end Returns

end Termination

theorem registration_ends_chain : ∃ depth typed',
    (Typed.builder chainTypes).addSimpleStorageIfMissing chainTypes ⟨0⟩ depth ⟨2⟩ = .ok typed' ∧
    ∀ c, ReflTransGen (Reads chainTypes ⟨0⟩) ⟨2⟩ c → c ∈ typed'.simpleStorages.order := by
  have closed : ∀ c ∈ [DbgTypeId.mk 1, ⟨2⟩], ∀ dep, Reads chainTypes ⟨0⟩ c dep →
      dep ∈ [DbgTypeId.mk 1, ⟨2⟩] := by
    intro c member dep reads
    rcases List.mem_cons.mp member with rfl | member
    · cases reads
    · cases List.mem_singleton.mp member
      cases List.mem_singleton.mp reads
      exact .head _
  have leaf : ∀ dep, ¬ Reads chainTypes ⟨0⟩ ⟨1⟩ dep := nofun
  have straight : ¬ Circles chainTypes ⟨0⟩ (Typed.builder chainTypes).simpleStorages.order ⟨2⟩ := by
    intro circles
    obtain ⟨dep, enters, circles⟩ := circles.next
    cases List.mem_singleton.mp enters.visits.2.2
    obtain ⟨dep, enters, -⟩ := circles.next
    exact leaf dep enters.visits.2.2
  obtain ⟨depth, ⟨typed', run, known⟩ | ⟨dup, run⟩⟩ :=
    (registration_ends closed (by decide) .refl).mpr straight
  · exact ⟨depth, typed', run, known⟩
  · match depth with
    | 0 => cases run
    | 1 => cases run
    | depth + 2 => cases run

/-- Component 1 is initialized from itself. -/
def circularTypes : Types Nat := { chainTypes with
  simpleOf := fun _ _ => ⟨.optional, .auto [⟨1⟩] fun args => args.sum, false⟩ }

/-- No stack is large enough to register a component that depends on itself. -/
theorem registration_ends_circular :
    ¬ ∃ depth,
      (∃ typed', (Typed.builder circularTypes).addSimpleStorageIfMissing circularTypes ⟨0⟩ depth
        ⟨1⟩ = .ok typed') ∨
      ∃ dup, (Typed.builder circularTypes).addSimpleStorageIfMissing circularTypes ⟨0⟩ depth
        ⟨1⟩ = .error (.duplicateDependency dup) := by
  have enters : Enters circularTypes ⟨0⟩ (Typed.builder circularTypes).simpleStorages.order ⟨1⟩
      ⟨1⟩ := ⟨by decide, by decide, by decide, [], [], rfl, nofun⟩
  have overflows := fun depth => circles_run depth ⟨⟨1⟩, .refl, .single enters⟩ (.refl _)
  rintro ⟨depth, ⟨typed', run⟩ | ⟨dup, run⟩⟩
  · cases (overflows depth).symm.trans run
  · cases (overflows depth).symm.trans run

end Dynec.World
