import Dynec.Entity.Referrer

/-!
# The references in a value

`visit_mut` walks a value of a type that implements `Referrer` and hands every
reference in it to a visitor, once and in order. Of the strong ones it meets
only archetypes that `visit_type` finds for the type (`visit_mut_exact`).
-/

namespace Dynec.Referrer

open Marking

inductive Size where
  | one
  | many

/-- A value, or the values of a collection. Values of a map are in the order of
its iteration, and of a derived type there are the fields with the attribute. -/
inductive Value : Size → Type
  | entity (arch : DbgTypeId) (raw rc : Nat) : Value .one
  | weak (arch : DbgTypeId) (raw rc : Nat) : Value .one
  | none : Value .one
  | some (value : Value .one) : Value .one
  | box (value : Value .one) : Value .one
  | vec (values : Value .many) : Value .one
  | vecDeque (values : Value .many) : Value .one
  | linkedList (values : Value .many) : Value .one
  | array (values : Value .many) : Value .one
  | bTreeMap (values : Value .many) : Value .one
  | hashMap (values : Value .many) : Value .one
  | derived (variant : Nat) (fields : Value .many) : Value .one
  | nil : Value .many
  | cons (head : Value .one) (tail : Value .many) : Value .many

/-- The methods of a visitor. They may put another ID and another counter in the
place of those they are given. -/
structure VisitMutArg (σ : Type) where
  visitStrong : DbgTypeId → Nat → Nat → σ → (Nat × Nat) × σ
  visitWeak : DbgTypeId → Nat → Nat → σ → (Nat × Nat) × σ

def Value.visitMut {σ : Type} (arg : VisitMutArg σ) : {size : Size} → Value size → σ →
    Value size × σ
  | _, .entity arch raw rc, state =>
    let ((raw, rc), state) := arg.visitStrong arch raw rc state
    (.entity arch raw rc, state)
  | _, .weak arch raw rc, state =>
    let ((raw, rc), state) := arg.visitWeak arch raw rc state
    (.weak arch raw rc, state)
  | _, .none, state => (.none, state)
  | _, .some value, state =>
    let (value, state) := value.visitMut arg state
    (.some value, state)
  | _, .box value, state =>
    let (value, state) := value.visitMut arg state
    (.box value, state)
  | _, .vec values, state =>
    let (values, state) := values.visitMut arg state
    (.vec values, state)
  | _, .vecDeque values, state =>
    let (values, state) := values.visitMut arg state
    (.vecDeque values, state)
  | _, .linkedList values, state =>
    let (values, state) := values.visitMut arg state
    (.linkedList values, state)
  | _, .array values, state =>
    let (values, state) := values.visitMut arg state
    (.array values, state)
  | _, .bTreeMap values, state =>
    let (values, state) := values.visitMut arg state
    (.bTreeMap values, state)
  | _, .hashMap values, state =>
    let (values, state) := values.visitMut arg state
    (.hashMap values, state)
  | _, .derived variant fields, state =>
    let (fields, state) := fields.visitMut arg state
    (.derived variant fields, state)
  | _, .nil, state => (.nil, state)
  | _, .cons head tail, state =>
    let (head, state) := head.visitMut arg state
    let (tail, state) := tail.visitMut arg state
    (.cons head tail, state)

/-! ## References -/

inductive Reference where
  | strong (arch : DbgTypeId) (raw rc : Nat)
  | weak (arch : DbgTypeId) (raw rc : Nat)
  deriving DecidableEq, Repr

/-- The references in a value, from left to right. -/
def Value.references : {size : Size} → Value size → List Reference
  | _, .entity arch raw rc => [.strong arch raw rc]
  | _, .weak arch raw rc => [.weak arch raw rc]
  | _, .none | _, .nil => []
  | _, .some value | _, .box value => value.references
  | _, .vec values | _, .vecDeque values | _, .linkedList values | _, .array values
  | _, .bTreeMap values | _, .hashMap values => values.references
  | _, .derived _ fields => fields.references
  | _, .cons head tail => head.references ++ tail.references

namespace VisitMutArg

variable {σ : Type} (arg : VisitMutArg σ)

def visit : Reference → σ → Reference × σ
  | .strong arch raw rc, state =>
    let ((raw, rc), state) := arg.visitStrong arch raw rc state
    (.strong arch raw rc, state)
  | .weak arch raw rc, state =>
    let ((raw, rc), state) := arg.visitWeak arch raw rc state
    (.weak arch raw rc, state)

/-- Each reference is visited once, from left to right. -/
def visitAll : List Reference → σ → List Reference × σ
  | [], state => ([], state)
  | reference :: references, state =>
    let (reference, state) := arg.visit reference state
    let (references, state) := visitAll references state
    (reference :: references, state)

theorem visitAll_append (l l' : List Reference) (state : σ) :
    arg.visitAll (l ++ l') state =
      ((arg.visitAll l state).1 ++ (arg.visitAll l' (arg.visitAll l state).2).1,
        (arg.visitAll l' (arg.visitAll l state).2).2) := by
  induction l generalizing state with
  | nil => rfl
  | cons reference l ih => simp only [List.cons_append, visitAll, ih]

theorem visitMut_references {size : Size} (value : Value size) (state : σ) :
    ((value.visitMut arg state).1.references, (value.visitMut arg state).2) =
      arg.visitAll value.references state := by
  induction value generalizing state with
  | entity | weak | none | nil => rfl
  | cons head tail ihHead ihTail =>
    rw [Value.references, visitAll_append, ← ihHead, ← ihTail]
    rfl
  | some _ ih | box _ ih | vec _ ih | vecDeque _ ih | linkedList _ ih | array _ ih | bTreeMap _ ih
  | hashMap _ ih | derived _ _ ih => exact ih state

end VisitMutArg

/-! ## Types -/

/-- The variants of a derived type. A struct has one. -/
def Data.variants : Data → List (List Field)
  | .struct fields => [fields]
  | .enum variants => variants
  | .union => []

/-- The values of a list of types. -/
inductive HasType (defs : DbgTypeId → Definition) : {size : Size} → List Ty → Value size → Prop
  | entity (arch : DbgTypeId) (raw rc : Nat) : HasType defs [.entity arch] (.entity arch raw rc)
  | weak (arch : DbgTypeId) (raw rc : Nat) : HasType defs [.weak arch] (.weak arch raw rc)
  | none (ty : Ty) : HasType defs [.option ty] .none
  | some {ty : Ty} {value : Value .one} (inner : HasType defs [ty] value) :
      HasType defs [.option ty] (.some value)
  | box {ty : Ty} {value : Value .one} (inner : HasType defs [ty] value) :
      HasType defs [.box ty] (.box value)
  | vec {ty : Ty} {len : Nat} {values : Value .many}
      (inner : HasType defs (List.replicate len ty) values) : HasType defs [.vec ty] (.vec values)
  | vecDeque {ty : Ty} {len : Nat} {values : Value .many}
      (inner : HasType defs (List.replicate len ty) values) :
      HasType defs [.vecDeque ty] (.vecDeque values)
  | linkedList {ty : Ty} {len : Nat} {values : Value .many}
      (inner : HasType defs (List.replicate len ty) values) :
      HasType defs [.linkedList ty] (.linkedList values)
  | array {ty : Ty} {len : Nat} {values : Value .many}
      (inner : HasType defs (List.replicate len ty) values) :
      HasType defs [.array ty len] (.array values)
  | bTreeMap (key : DbgTypeId) {ty : Ty} {len : Nat} {values : Value .many}
      (inner : HasType defs (List.replicate len ty) values) :
      HasType defs [.bTreeMap key ty] (.bTreeMap values)
  | hashMap (key : DbgTypeId) {ty : Ty} {len : Nat} {values : Value .many}
      (inner : HasType defs (List.replicate len ty) values) :
      HasType defs [.hashMap key ty] (.hashMap values)
  | derived {id : DbgTypeId} {variant : Nat} {fields : List Field} {types : List Ty}
      {values : Value .many} (chosen : (defs id).data.variants[variant]? = Option.some fields)
      (visited : (fields.filter Field.isEntity).map (·.ty) = types.map .referrer)
      (inner : HasType defs types values) : HasType defs [.derived id] (.derived variant values)
  | nil : HasType defs [] .nil
  | cons {ty : Ty} {types : List Ty} {head : Value .one} {tail : Value .many}
      (first : HasType defs [ty] head) (rest : HasType defs types tail) :
      HasType defs (ty :: types) (.cons head tail)

section
variable {defs : DbgTypeId → Definition} {size : Size} {types : List Ty} {value : Value size}

/-- The types of the visited fields of a variant are among those of the whole
definition. -/
theorem Definition.mem_types {d : Definition} {variant : Nat} {fields : List Field}
    (chosen : d.data.variants[variant]? = some fields)
    (visited : (fields.filter Field.isEntity).map (·.ty) = types.map .referrer) {ty : Ty}
    (listed : ty ∈ types) : ty ∈ d.types := by
  obtain ⟨rejected, expanded⟩ := d.expanded
  have all := entityRef_fieldTypes expanded
  have whole : ∀ field ∈ fields, field ∈ d.data.fields := by
    have here := List.mem_of_getElem? chosen
    intro field member
    cases shape : d.data with
    | struct own =>
      rw [shape, Data.variants, List.mem_singleton] at here
      exact here ▸ member
    | enum variants =>
      rw [shape] at here
      exact List.mem_flatten_of_mem here member
    | union =>
      rw [shape] at here
      cases here
  have found : FieldType.referrer ty ∈ (d.data.fields.filter Field.isEntity).map (·.ty) := by
    have mapped : FieldType.referrer ty ∈ types.map .referrer := List.mem_map_of_mem listed
    rw [← visited] at mapped
    obtain ⟨field, member, same⟩ := List.mem_map.mp mapped
    rw [List.mem_filter] at member
    exact List.mem_map.mpr ⟨field, List.mem_filter.mpr ⟨whole field member.1, member.2⟩, same⟩
  simp only at all
  rw [← all] at found
  obtain ⟨ty', member, same⟩ := List.mem_map.mp found
  cases same
  exact member

theorem HasType.visitMut {σ : Type} (arg : VisitMutArg σ) (typed : HasType defs types value)
    (state : σ) : HasType defs types (value.visitMut arg state).1 := by
  induction typed generalizing state with
  | entity arch => exact .entity arch _ _
  | weak arch => exact .weak arch _ _
  | none ty => exact .none ty
  | some _ ih => exact .some (ih state)
  | box _ ih => exact .box (ih state)
  | vec _ ih => exact .vec (ih state)
  | vecDeque _ ih => exact .vecDeque (ih state)
  | linkedList _ ih => exact .linkedList (ih state)
  | array _ ih => exact .array (ih state)
  | bTreeMap key _ ih => exact .bTreeMap key (ih state)
  | hashMap key _ ih => exact .hashMap key (ih state)
  | derived chosen visited _ ih => exact .derived chosen visited (ih state)
  | nil => exact .nil
  | cons _ _ ihFirst ihRest => exact .cons (ihFirst state) (ihRest _)

theorem HasType.reaches (typed : HasType defs types value) {arch : DbgTypeId} {raw rc : Nat}
    (holds : Reference.strong arch raw rc ∈ value.references) :
    ∃ ty ∈ types, Reaches (Ty.next defs) ty (.entity arch) := by
  induction typed with
  | entity =>
    cases List.mem_singleton.mp holds
    exact ⟨_, .head _, .refl⟩
  | weak => cases List.mem_singleton.mp holds
  | none | nil => cases holds
  | some _ ih | box _ ih =>
    obtain ⟨ty, member, path⟩ := ih holds
    cases List.mem_singleton.mp member
    exact ⟨_, .head _, .head (.head _) path⟩
  | vec _ ih | vecDeque _ ih | linkedList _ ih | array _ ih | bTreeMap _ _ ih | hashMap _ _ ih =>
    obtain ⟨ty, member, path⟩ := ih holds
    cases List.eq_of_mem_replicate member
    exact ⟨_, .head _, .head (.head _) path⟩
  | derived chosen visited _ ih =>
    obtain ⟨ty, member, path⟩ := ih holds
    exact ⟨_, .head _, .head (Definition.mem_types chosen visited member) path⟩
  | cons _ _ ihFirst ihRest =>
    obtain first | rest := List.mem_append.mp holds
    · obtain ⟨ty, member, path⟩ := ihFirst first
      cases List.mem_singleton.mp member
      exact ⟨_, .head _, path⟩
    · obtain ⟨ty, member, path⟩ := ihRest rest
      exact ⟨ty, .tail _ member, path⟩

end

/-- **The two walks agree.** For every value of a type and every visitor,
`visit_mut` visits each reference in the value once, from left to right, keeps
the type, and meets strong references of those archetypes only that `visit_type`
finds for the type, whatever was visited before. -/
theorem visit_mut_exact {σ : Type} {defs : DbgTypeId → Definition} {ty : Ty} {value : Value .one}
    (typed : HasType defs [ty] value) (arg : VisitMutArg σ) (state : σ) :
    ((value.visitMut arg state).1.references, (value.visitMut arg state).2) =
      arg.visitAll value.references state ∧
    HasType defs [ty] (value.visitMut arg state).1 ∧
    ∀ (before after : VisitTypeArg) (depth : Nat), Visited defs before →
      visitType defs depth ty before = .ok after →
      ∀ arch raw rc, .strong arch raw rc ∈ value.references → arch ∈ after.foundArchs := by
  refine ⟨arg.visitMut_references value state, typed.visitMut arg state, ?_⟩
  intro before after depth visited run arch raw rc holds
  obtain ⟨ty', member, path⟩ := typed.reaches holds
  cases List.mem_singleton.mp member
  rw [(visited.visit run).tracks arch, (visitType_ok run).2.mem_iff visited.closed]
  exact .inr ⟨ty, member, path⟩

/-- A link without further nodes. -/
def linked : Value .one :=
  .derived 1 (.cons (.vec .nil) (.cons (.entity archetype 3 0) .nil))

/-- The visitor that moves every entity one place up and counts the strong
references. -/
def shifting : VisitMutArg Nat where
  visitStrong _ raw rc count := ((raw + 1, rc), count + 1)
  visitWeak _ raw rc count := ((raw + 1, rc), count)

example : linked.visitMut shifting 0 =
    (.derived 1 (.cons (.vec .nil) (.cons (.entity archetype 4 0) .nil)), 1) := rfl

theorem visit_mut_exact_link : ∃ after, visitType cyclic 7 (.derived ⟨1⟩) .new = .ok after ∧
    (linked.visitMut shifting 0).1.references = [.strong archetype 4 0] ∧
    archetype ∈ after.foundArchs := by
  have typed : HasType cyclic [.derived ⟨1⟩] linked :=
    @HasType.derived cyclic ⟨1⟩ 1
      [⟨[.entity], .referrer (.vec (.derived ⟨0⟩))⟩, ⟨[.entity], .referrer (.entity archetype)⟩]
      [.vec (.derived ⟨0⟩), .entity archetype] _ rfl rfl
      (.cons (@HasType.vec cyclic (.derived ⟨0⟩) 0 _ .nil)
        (.cons (.entity archetype 3 0) .nil))
  obtain ⟨walk, -, found⟩ := visit_mut_exact typed shifting 0
  obtain ⟨after, run⟩ : ∃ after, visitType cyclic 7 (.derived ⟨1⟩) .new = .ok after := ⟨_, rfl⟩
  refine ⟨after, run, ?_, ?_⟩
  · exact congrArg Prod.fst walk
  · exact found .new after 7 .new run archetype 3 0 (.head _)

end Dynec.Referrer
