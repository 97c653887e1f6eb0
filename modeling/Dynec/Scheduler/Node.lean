import Mathlib.Data.PNat.Basic
import Mathlib.Data.Prod.Lex
import Mathlib.Order.Basic

/-! The vocabulary of the scheduler: nodes, their wakeup states, orders and
resource accesses. -/

namespace Dynec

/-- The identity of a Rust type, used for archetypes, components and globals. -/
structure DbgTypeId where
  id : Nat
  deriving DecidableEq, Repr

namespace Scheduler

abbrev SendSystemIndex := Nat
abbrev UnsendSystemIndex := Nat
abbrev PartitionIndex := Nat

/-- A topological node in the schedule of a cycle. -/
inductive Node where
  | sendSystem (index : Nat)
  | unsendSystem (index : Nat)
  | partition (index : Nat)
  deriving DecidableEq, Repr

/-- The derived order of the enumeration: by variant, then by index. -/
def Node.key : Node → Nat ×ₗ Nat
  | .sendSystem i => toLex (0, i)
  | .unsendSystem i => toLex (1, i)
  | .partition i => toLex (2, i)

theorem Node.key_injective : Function.Injective Node.key := by
  intro a b h
  cases a <;> cases b <;> simp [Node.key] at h ⊢ <;> exact h

instance : LinearOrder Node := LinearOrder.lift' Node.key Node.key_injective

def Node.isSystem : Node → Bool
  | .partition _ => false
  | _ => true

inductive WakeupState where
  /-- The node is runnable after being awaken by `count` other nodes. -/
  | blocked (count : ℕ+)
  /-- The node is in the planner queue. -/
  | pending
  /-- The node is scheduled on one of the threads. -/
  | started
  /-- The node has already completed. -/
  | completed
  deriving DecidableEq, Repr

inductive ResourceType where
  | global (ty : DbgTypeId)
  | simple (arch comp : DbgTypeId)
  | isotope (arch comp : DbgTypeId)
  deriving DecidableEq, Repr

structure Order where
  before : Node
  after : Node
  deriving DecidableEq, Repr

structure ResourceAccess where
  mutable : Bool
  discrim : Option (List Nat)
  deriving DecidableEq, Repr

def ResourceAccess.new (mutable : Bool) : ResourceAccess := ⟨mutable, none⟩

def ResourceAccess.withDiscrim (mutable : Bool) (discrim : Option (List Nat)) : ResourceAccess :=
  ⟨mutable, discrim⟩

/-- `{:?}` of a `Vec<usize>`. -/
def debugVec (l : List Nat) : String := "[" ++ ", ".intercalate (l.map toString) ++ "]"

/-- `{:?}` of an `Option<Vec<usize>>`. -/
def debugOptionVec : Option (List Nat) → String
  | some l => "Some(" ++ debugVec l ++ ")"
  | none => "None"

namespace ResourceAccess

/-- The closing match of `check_conflicts_with`: `this` requests unique access,
`that` requests the access named by `thatMutStr`. -/
def checkUnique (this that : Option (List Nat)) (thatMutStr : String) : Except String Unit :=
  match this, that with
  | some thisList, some thatList =>
    match thisList.find? (fun discrim => thatList.contains discrim) with
    | some discrim => .error ("unique access to discriminant " ++ toString discrim ++
        " requested but " ++ thatMutStr ++ " access is requested again in the same system; " ++
        "multiple isotope component requests on the same type are only allowed when they do " ++
        "not overlapped")
    | none => .ok ()
  | some _, none => .error ("unique access to discriminants " ++ debugOptionVec this ++
      " requested but " ++ thatMutStr ++ " access is requested again for the same isotope " ++
      "component in the same system; multiple isotope component requests on the same type " ++
      "are only allowed when they do not overlap")
  | none, some _ => .error ("unique access to all discriminants is requested but " ++
      thatMutStr ++ " access is requested again for the same isotope component in the same " ++
      "system; multiple isotope component requests on the same type are only allowed when " ++
      "they do not overlap")
  | none, none => .error ("unique access is requested but " ++ thatMutStr ++
      " access is requested again in the same system")

def checkConflictsWith (self other : ResourceAccess) : Except String Unit :=
  if !self.mutable && !other.mutable then
    .ok ()
  else
    -- the side that requests unique access comes first, for the error message
    let (this, that, thatMut) :=
      if self.mutable then (self.discrim, other.discrim, other.mutable)
      else (other.discrim, self.discrim, self.mutable)
    checkUnique this that (if thatMut then "unique" else "shared")

/-- `check_conflicts_with` returns an error. -/
def conflictsWith (self other : ResourceAccess) : Bool := !(self.checkConflictsWith other).isOk

/-- An access without a discriminant list touches every discriminant. -/
def Overlap : Option (List Nat) → Option (List Nat) → Prop
  | some a, some b => ∃ d ∈ a, d ∈ b
  | _, _ => True

theorem overlap_symm {a b : Option (List Nat)} (h : Overlap a b) : Overlap b a := by
  cases a <;> cases b <;> try trivial
  obtain ⟨d, ha, hb⟩ := h
  exact ⟨d, hb, ha⟩

theorem checkUnique_iff (this that : Option (List Nat)) (s : String) :
    (checkUnique this that s).isOk = false ↔ Overlap this that := by
  match this, that with
  | some a, some b =>
    have found : (a.find? (fun d => b.contains d)).isSome ↔ ∃ d ∈ a, d ∈ b := by
      simp [List.find?_isSome]
    simp only [checkUnique, Overlap, ← found]
    cases a.find? (fun d => b.contains d) <;> simp [Except.isOk, Except.toBool]
  | some _, none | none, some _ | none, none =>
    simp [checkUnique, Overlap, Except.isOk, Except.toBool]

/-- Two accesses conflict when one is mutable and their discriminants meet. -/
theorem conflictsWith_iff (a b : ResourceAccess) :
    a.conflictsWith b = true ↔
      (a.mutable = true ∨ b.mutable = true) ∧ Overlap a.discrim b.discrim := by
  have symm : Overlap b.discrim a.discrim ↔ Overlap a.discrim b.discrim :=
    ⟨overlap_symm, overlap_symm⟩
  cases ha : a.mutable <;> cases hb : b.mutable
  · simp [conflictsWith, checkConflictsWith, ha, hb, Except.isOk, Except.toBool]
  · simp [conflictsWith, checkConflictsWith, ha, hb, checkUnique_iff, symm]
  · simp [conflictsWith, checkConflictsWith, ha, hb, checkUnique_iff]
  · simp [conflictsWith, checkConflictsWith, ha, hb, checkUnique_iff]

theorem conflictsWith_comm (a b : ResourceAccess) : a.conflictsWith b = b.conflictsWith a := by
  apply Bool.eq_iff_iff.mpr
  rw [conflictsWith_iff, conflictsWith_iff]
  exact ⟨fun ⟨m, o⟩ => ⟨m.symm, overlap_symm o⟩, fun ⟨m, o⟩ => ⟨m.symm, overlap_symm o⟩⟩

end ResourceAccess

end Scheduler

end Dynec
