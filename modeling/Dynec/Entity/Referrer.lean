import Dynec.Panic
import Dynec.Lib.Fallible
import Dynec.Lib.Marking
import Mathlib.Data.List.Perm.Basic

/-!
# The strong references below a type

`visit_type` walks the types below a component or a global and collects the
archetypes of its strong references, which order the systems that hold them
against the creation of entities. The graph of types may be cyclic: a guard that
all branches of the walk share keeps a type from being visited twice. The walk
collects exactly the archetypes it can reach (`visit_type_exact`).
-/

namespace Dynec.Referrer

open Fallible Marking

/-- A type that implements `Referrer`, under its `TypeId`. -/
inductive Ty where
  | entity (arch : DbgTypeId)
  | weak (arch : DbgTypeId)
  | option (ty : Ty)
  | box (ty : Ty)
  | vec (ty : Ty)
  | vecDeque (ty : Ty)
  | linkedList (ty : Ty)
  | array (ty : Ty) (len : Nat)
  | bTreeMap (key : DbgTypeId) (value : Ty)
  | hashMap (key : DbgTypeId) (value : Ty)
  | derived (id : DbgTypeId)
  deriving DecidableEq, Repr

/-! ## The derived implementation -/

inductive Attr where
  | entity
  | notEntity
  | other (path : String)
  deriving DecidableEq, Repr

inductive FieldType where
  | referrer (ty : Ty)
  | other (ty : DbgTypeId)
  deriving DecidableEq, Repr

structure Field where
  attrs : List Attr
  ty : FieldType

inductive Data where
  | struct (fields : List Field)
  | enum (variants : List (List Field))
  | union

def Data.fields : Data → List Field
  | .struct fields => fields
  | .enum variants => variants.flatten
  | .union => []

def drainAttr (vec : List Attr) (ident : Attr) : Bool × List Attr :=
  match vec.findIdx? (· = ident) with
  | some index => (true, vec.eraseIdx index)
  | none => (false, vec)

/-- What the expansion says about the types of the fields: those that
`visit_type` visits, and those that must not implement `Referrer`. -/
structure EntityRef where
  fieldTypes : List FieldType
  assertNotReferrerTypes : List FieldType
  deriving DecidableEq, Repr

def EntityRef.push (out : EntityRef) (field : Field) : EntityRef :=
  match drainAttr field.attrs .entity with
  | (true, _) => { out with fieldTypes := out.fieldTypes ++ [field.ty] }
  | (false, attrs) =>
    if (drainAttr attrs .notEntity).1 then out
    else { out with assertNotReferrerTypes := out.assertNotReferrerTypes ++ [field.ty] }

def entityRef : Data → Except String EntityRef
  | .struct fields => .ok (fields.foldl EntityRef.push ⟨[], []⟩)
  | .enum variants =>
    .ok (variants.foldl (fun out fields => fields.foldl EntityRef.push out) ⟨[], []⟩)
  | .union => .error "only structs and enums are supported"

/-- A derived type that compiles. -/
structure Definition where
  data : Data
  types : List Ty
  expanded : ∃ rejected : List DbgTypeId,
    entityRef data = .ok ⟨types.map .referrer, rejected.map .other⟩

def Field.isEntity (field : Field) : Bool := (drainAttr field.attrs .entity).1

theorem EntityRef.push_fieldTypes (out : EntityRef) (field : Field) :
    (out.push field).fieldTypes = out.fieldTypes ++ ([field].filter Field.isEntity).map (·.ty) := by
  unfold EntityRef.push
  split
  next drained => simp [Field.isEntity, drained]
  next drained =>
    split <;> simp [Field.isEntity, drained]

theorem EntityRef.foldl_fieldTypes (fields : List Field) (out : EntityRef) :
    (fields.foldl EntityRef.push out).fieldTypes =
      out.fieldTypes ++ (fields.filter Field.isEntity).map (·.ty) := by
  induction fields generalizing out with
  | nil => simp
  | cons field fields ih =>
    rw [List.foldl_cons, ih, EntityRef.push_fieldTypes, List.append_assoc, ← List.map_append,
      ← List.filter_append, List.singleton_append]

theorem entityRef_fieldTypes {data : Data} {out : EntityRef} (h : entityRef data = .ok out) :
    out.fieldTypes = (data.fields.filter Field.isEntity).map (·.ty) := by
  cases data with
  | struct fields =>
    cases h
    exact EntityRef.foldl_fieldTypes fields _
  | enum variants =>
    cases h
    rw [← List.foldl_flatten]
    exact EntityRef.foldl_fieldTypes variants.flatten _
  | union => cases h

/-- The order of the fields is the order of the visits, and nothing else. -/
theorem Definition.types_perm {d d' : Definition} (reordered : d'.data.fields.Perm d.data.fields) :
    d'.types.Perm d.types := by
  obtain ⟨_, expanded⟩ := d.expanded
  obtain ⟨_, expanded'⟩ := d'.expanded
  have types := entityRef_fieldTypes expanded
  have types' := entityRef_fieldTypes expanded'
  have perm : (d'.types.map FieldType.referrer).Perm (d.types.map FieldType.referrer) := by
    simp only at types types'
    rw [types, types']
    exact (reordered.filter _).map _
  exact (List.map_perm_map_iff fun _ _ => FieldType.referrer.inj).mp perm

/-! ## The walk -/

structure VisitTypeArg where
  recursionGuard : List Ty
  foundArchs : List DbgTypeId
  deriving DecidableEq, Repr

namespace VisitTypeArg

def new : VisitTypeArg := ⟨[], []⟩

/-- Whether to continue: `ty` was not marked before. -/
def mark (arg : VisitTypeArg) (ty : Ty) : Bool × VisitTypeArg :=
  if ty ∈ arg.recursionGuard then (false, arg)
  else (true, { arg with recursionGuard := ty :: arg.recursionGuard })

def addArchetype (arg : VisitTypeArg) (arch : DbgTypeId) : VisitTypeArg :=
  { arg with foundArchs := arg.foundArchs.insert arch }

def ifMarked (arg : VisitTypeArg) (ty : Ty) (visit : VisitTypeArg → Except Panic VisitTypeArg) :
    Except Panic VisitTypeArg :=
  match arg.mark ty with
  | (true, arg) => visit arg
  | (false, arg) => .ok arg

end VisitTypeArg

/-- The calls nest at most `depth` deep. -/
def visitType (defs : DbgTypeId → Definition) : Nat → Ty → VisitTypeArg → Except Panic VisitTypeArg
  | 0, _, _ => .error .stackOverflow
  | depth + 1, self, arg =>
    match self with
    | .entity arch => arg.ifMarked self fun arg => .ok (arg.addArchetype arch)
    | .weak _ => .ok (arg.mark self).2
    | .option ty => arg.ifMarked self fun arg => visitType defs depth ty arg
    | .box ty => arg.ifMarked self fun arg => visitType defs depth ty arg
    | .vec ty => arg.ifMarked self fun arg => visitType defs depth ty arg
    | .vecDeque ty => arg.ifMarked self fun arg => visitType defs depth ty arg
    | .linkedList ty => arg.ifMarked self fun arg => visitType defs depth ty arg
    | .array ty _ => arg.ifMarked self fun arg => visitType defs depth ty arg
    | .bTreeMap _ value => arg.ifMarked self fun arg => visitType defs depth value arg
    | .hashMap _ value => arg.ifMarked self fun arg => visitType defs depth value arg
    | .derived id =>
      arg.ifMarked self fun arg =>
        (defs id).types.foldlM (fun arg ty => visitType defs depth ty arg) arg

/-- The types of the visited fields. -/
def Ty.next (defs : DbgTypeId → Definition) : Ty → List Ty
  | .entity _ | .weak _ => []
  | .option ty | .box ty | .vec ty | .vecDeque ty | .linkedList ty | .array ty _ => [ty]
  | .bTreeMap _ value | .hashMap _ value => [value]
  | .derived id => (defs id).types

namespace VisitTypeArg

def enter (arg : VisitTypeArg) (ty : Ty) : VisitTypeArg where
  recursionGuard := ty :: arg.recursionGuard
  foundArchs :=
    match ty with
    | .entity arch => arg.foundArchs.insert arch
    | _ => arg.foundArchs

/-- An archetype is found when the type of its strong references is marked. -/
def Tracks (arg : VisitTypeArg) : Prop :=
  ∀ arch, arch ∈ arg.foundArchs ↔ Ty.entity arch ∈ arg.recursionGuard

theorem new_tracks : new.Tracks := by
  intro arch
  simp [new]

theorem enter_tracks {arg : VisitTypeArg} (tracks : arg.Tracks) (ty : Ty) :
    (arg.enter ty).Tracks := by
  intro arch
  have before := tracks arch
  cases ty <;> simp [enter, before]

end VisitTypeArg

section
variable {defs defs' : DbgTypeId → Definition} {depth : Nat} {ty root : Ty}
  {arg arg' : VisitTypeArg} {types : List Ty}

/-- Every implementation marks its type and then visits its fields. -/
theorem visitType_succ (defs : DbgTypeId → Definition) (depth : Nat) (ty : Ty)
    (arg : VisitTypeArg) :
    visitType defs (depth + 1) ty arg =
      if ty ∈ arg.recursionGuard then .ok arg
      else (ty.next defs).foldlM (fun arg ty => visitType defs depth ty arg) (arg.enter ty) := by
  by_cases marked : ty ∈ arg.recursionGuard
  · cases ty <;> simp [visitType, VisitTypeArg.ifMarked, VisitTypeArg.mark, marked]
  · cases ty with
    | entity | weak =>
      simp [visitType, VisitTypeArg.ifMarked, VisitTypeArg.mark, VisitTypeArg.enter,
        VisitTypeArg.addArchetype, Ty.next, marked]
    | _ =>
      simp [visitType, VisitTypeArg.ifMarked, VisitTypeArg.mark, VisitTypeArg.enter, Ty.next,
        marked, -pure_eq_ok]

theorem visitType_ok (h : visitType defs depth ty arg = .ok arg') :
    (arg.Tracks → arg'.Tracks) ∧
      Visits (Ty.next defs) [ty] arg.recursionGuard arg'.recursionGuard := by
  induction depth generalizing ty arg arg' with
  | zero => cases h
  | succ depth ih =>
    rw [visitType_succ] at h
    split at h
    next marked =>
      cases h
      exact ⟨id, .again marked⟩
    next fresh =>
      have fields := foldlM_ok h
        (fun past s => (arg.Tracks → s.Tracks) ∧
          Visits (Ty.next defs) past (ty :: arg.recursionGuard) s.recursionGuard)
        ⟨fun tracks => VisitTypeArg.enter_tracks tracks ty, .nil _⟩
        fun past field s s' _ before run =>
          ⟨fun tracks => (ih run).1 (before.1 tracks), before.2.append (ih run).2⟩
      exact ⟨fields.1, fields.2.enter⟩

/-- A walk over finitely many types ends. -/
theorem visitType_total (finite : ∀ ty ∈ types, ∀ field ∈ ty.next defs, field ∈ types)
    (known : ty ∈ types) (deep : unmarked types arg.recursionGuard < depth) :
    ∃ arg', visitType defs depth ty arg = .ok arg' := by
  induction depth generalizing ty arg with
  | zero => omega
  | succ depth ih =>
    rw [visitType_succ]
    split
    next => exact ⟨arg, rfl⟩
    next fresh =>
      have less : unmarked types (arg.enter ty).recursionGuard < depth := by
        have less := unmarked_lt known fresh
        simp only [VisitTypeArg.enter]
        omega
      obtain ⟨arg', run, -⟩ := foldlM_returns
        (f := fun arg ty => visitType defs depth ty arg) (l := ty.next defs) (s := arg.enter ty)
        (fun s => unmarked types s.recursionGuard < depth) less
        fun field listed s before => by
          obtain ⟨s', run⟩ := ih (finite ty known field listed) before
          have grown : unmarked types s'.recursionGuard ≤ unmarked types s.recursionGuard :=
            unmarked_le (visitType_ok run).2.grows
          exact ⟨s', run, by omega⟩
      exact ⟨arg', run⟩

/-! ## Walks with one argument -/

/-- The arguments that visits of any types leave. -/
inductive Visited (defs : DbgTypeId → Definition) : VisitTypeArg → Prop where
  | new : Visited defs .new
  | visit {depth : Nat} {root : Ty} {arg arg' : VisitTypeArg} (before : Visited defs arg)
      (run : visitType defs depth root arg = .ok arg') : Visited defs arg'

theorem Visited.tracks (visited : Visited defs arg) : arg.Tracks := by
  induction visited with
  | new => exact VisitTypeArg.new_tracks
  | visit before run ih => exact (visitType_ok run).1 ih

theorem Visited.closed (visited : Visited defs arg) :
    Closed (Ty.next defs) arg.recursionGuard := by
  induction visited with
  | new => exact nofun
  | visit before run ih => exact (visitType_ok run).2.closed ih

theorem Ty.mem_next_iff
    (reordered : ∀ id, (defs' id).data.fields.Perm (defs id).data.fields) (ty field : Ty) :
    field ∈ ty.next defs' ↔ field ∈ ty.next defs := by
  cases ty with
  | derived id => exact (Definition.types_perm (reordered id)).mem_iff
  | _ => exact Iff.rfl

/-- The fields of the types may stand in any order, and any types may have been
visited before. -/
theorem visit_type_exact (reordered : ∀ id, (defs' id).data.fields.Perm (defs id).data.fields)
    (finite : ∀ ty ∈ types, ∀ field ∈ ty.next defs, field ∈ types) (known : root ∈ types)
    (visited : Visited defs' arg) (deep : types.length < depth) :
    ∃ arg', visitType defs' depth root arg = .ok arg' ∧
      ∀ arch, arch ∈ arg'.foundArchs ↔
        arch ∈ arg.foundArchs ∨ Reaches (Ty.next defs) root (.entity arch) := by
  have finite' : ∀ ty ∈ types, ∀ field ∈ ty.next defs', field ∈ types :=
    fun ty member field below => finite ty member field ((ty.mem_next_iff reordered field).mp below)
  have bound : unmarked types arg.recursionGuard < depth :=
    Nat.lt_of_le_of_lt List.countP_le_length deep
  obtain ⟨arg', run⟩ := visitType_total finite' known bound
  have same : Reaches (Ty.next defs') = Reaches (Ty.next defs) := by
    unfold Reaches
    congr
    funext ty field
    exact propext (ty.mem_next_iff reordered field)
  refine ⟨arg', run, fun arch => ?_⟩
  have marked : Ty.entity arch ∈ arg'.recursionGuard ↔
      Ty.entity arch ∈ arg.recursionGuard ∨
        ∃ ty ∈ [root], Reaches (Ty.next defs') ty (.entity arch) :=
    (visitType_ok run).2.mem_iff visited.closed
  rw [(visited.visit run).tracks arch, visited.tracks arch, marked, same]
  simp

end

/-! ## A cyclic definition

A node holds its link in a box and knows its owner weakly. A link to further
nodes holds an entity. -/

def archetype : DbgTypeId := ⟨10⟩

def node : Definition where
  data := .struct [⟨[.entity], .referrer (.box (.derived ⟨1⟩))⟩,
    ⟨[.entity], .referrer (.weak ⟨11⟩)⟩, ⟨[], .other ⟨12⟩⟩]
  types := [.box (.derived ⟨1⟩), .weak ⟨11⟩]
  expanded := ⟨[⟨12⟩], rfl⟩

def link : Definition where
  data := .enum [[], [⟨[.entity], .referrer (.vec (.derived ⟨0⟩))⟩,
    ⟨[.entity], .referrer (.entity archetype)⟩]]
  types := [.vec (.derived ⟨0⟩), .entity archetype]
  expanded := ⟨[], rfl⟩

def reversedLink : Definition where
  data := .enum [[⟨[.entity], .referrer (.entity archetype)⟩,
    ⟨[.entity], .referrer (.vec (.derived ⟨0⟩))⟩], []]
  types := [.entity archetype, .vec (.derived ⟨0⟩)]
  expanded := ⟨[], rfl⟩

def cyclic (id : DbgTypeId) : Definition := if id = ⟨0⟩ then node else link

def reversedCyclic (id : DbgTypeId) : Definition := if id = ⟨0⟩ then node else reversedLink

def cyclicTypes : List Ty :=
  [.derived ⟨0⟩, .box (.derived ⟨1⟩), .weak ⟨11⟩, .derived ⟨1⟩, .vec (.derived ⟨0⟩),
    .entity archetype]

theorem visit_type_exact_cyclic :
    ∃ arg', visitType reversedCyclic 7 (.derived ⟨0⟩) ⟨[.weak ⟨11⟩], []⟩ = .ok arg' ∧
      ∀ arch, arch ∈ arg'.foundArchs ↔
        arch ∈ ([] : List DbgTypeId) ∨
          Reaches (Ty.next cyclic) (.derived ⟨0⟩) (.entity arch) := by
  have first : visitType reversedCyclic 1 (.weak ⟨11⟩) .new = .ok ⟨[.weak ⟨11⟩], []⟩ := rfl
  have finite : ∀ ty ∈ cyclicTypes, ∀ field ∈ ty.next cyclic, field ∈ cyclicTypes := by decide
  have reordered : ∀ id, (reversedCyclic id).data.fields.Perm (cyclic id).data.fields := by
    intro id
    unfold reversedCyclic cyclic
    split
    · exact .refl _
    · exact .swap _ _ []
  exact visit_type_exact reordered finite (by decide) (.visit .new first) (by decide)

end Dynec.Referrer
