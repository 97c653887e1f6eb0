import Dynec.Panic
import Dynec.Lib.IndexMap

/-! Component types, component storages and the storages of one archetype, up
to the registration of component types. -/

namespace Dynec.World

inductive Presence where
  | optional
  | required
  deriving DecidableEq, Repr

/-- An initializer is given the components it depends on, in order. -/
inductive InitStrategy (V : Type) where
  | none
  | auto (deps : List DbgTypeId) (init : List V → V)

/-- The constants of an implementation of `comp::Simple`. -/
structure SimpleType (V : Type) where
  presence : Presence
  initStrategy : InitStrategy V
  isFinalizer : Bool

/-- The constants of an implementation of `comp::Isotope`. -/
structure IsotopeType (V : Type) where
  presence : Presence
  initStrategy : InitStrategy V

/-- The types of a program: what each component type of each archetype
implements. `flag` is `deletion::Flag` with its only value, `generations` is
`generation::StoreMap`, `stack` is the depth of the call stack, and `entityRc`
tells whether entity reference counting is compiled in. Component values of all
types live in `V`. -/
structure Types (V : Type) where
  flag : DbgTypeId
  flagValue : V
  generations : DbgTypeId
  simpleOf : DbgTypeId → DbgTypeId → SimpleType V
  isotopeOf : DbgTypeId → DbgTypeId → IsotopeType V
  stack : Nat
  entityRc : Bool

variable {V : Type}

/-- `deletion::Flag` implements `comp::Simple` for every archetype. -/
def Types.simple (types : Types V) (arch comp : DbgTypeId) : SimpleType V :=
  if comp = types.flag then ⟨.optional, .none, false⟩ else types.simpleOf arch comp

/-- `duplicates().next()`: the first item that was seen before. -/
def firstDuplicate (seen : List DbgTypeId) : List DbgTypeId → Option DbgTypeId
  | [] => none
  | ty :: rest => if ty ∈ seen then some ty else firstDuplicate (ty :: seen) rest

/-- The list of dependencies, without duplicates. -/
def InitStrategy.checkedDeps (self : InitStrategy V) : Except Panic (List DbgTypeId) :=
  let deps := match self with
    | .none => []
    | .auto deps _ => deps
  match firstDuplicate [] deps with
  | some dupDep => .error (.duplicateDependency dupDep)
  | Option.none => .ok deps

/-- A component storage is a partial map from entity IDs. -/
abbrev Storage (V : Type) := Nat → Option V

def Storage.empty : Storage V := fun _ => none

def Storage.set (self : Storage V) (id : Nat) (value : Option V) : Storage V :=
  Function.update self id value

/-- Storage and metadata for a simple component. -/
structure Simple (V : Type) where
  depList : List DbgTypeId
  storage : Storage V

abbrev Discrim := Nat

/-- The storages of an isotope component by discriminant. -/
abbrev IsotopeMap (V : Type) := HashMap Discrim (Storage V)

/-- Everything related to an archetype. -/
structure Typed (V : Type) where
  simpleStorages : IndexMap DbgTypeId (Simple V)
  isotopeStorageMaps : HashMap DbgTypeId (IsotopeMap V)

/-- `typed::builder`: the deletion flag is native to every archetype. -/
def Typed.builder (types : Types V) : Typed V :=
  ⟨IndexMap.empty.insert types.flag ⟨[], .empty⟩, ∅⟩

/-- On a call stack of the given depth. A component is inserted after all its
dependencies. -/
def Typed.addSimpleStorageIfMissing (types : Types V) (arch : DbgTypeId) :
    Nat → Typed V → DbgTypeId → Except Panic (Typed V)
  | 0, _, _ => .error .stackOverflow
  | depth + 1, self, component =>
    if component ∈ self.simpleStorages.order then
      .ok self
    else do
      let deps ← (types.simple arch component).initStrategy.checkedDeps
      let self ← deps.foldlM (addSimpleStorageIfMissing types arch depth) self
      return { self with
        simpleStorages := self.simpleStorages.insert component ⟨deps, .empty⟩ }

def Typed.addIsotopeMapIfMissing (self : Typed V) (component : DbgTypeId) : Typed V :=
  match self.isotopeStorageMaps.lookup component with
  | some _ => self
  | none => { self with isotopeStorageMaps := self.isotopeStorageMaps.insert component ∅ }

end Dynec.World
