import Dynec.Entity.Gaps

/-!
# Slices of a snapshot

Parallel iteration splits the range of IDs of a snapshot. The chunks of a slice
start with the range up to the least recyclable ID of the whole snapshot, so
they are right only for a slice that contains this ID or ends at it.
-/

namespace Dynec.Entity

open Fallible

/-- `Raw::sub` -/
def subRaw (a b : Nat) : Except Panic Nat :=
  if a < b then .error .arithmeticOverflow else .ok (a - b)

/-- `Raw::approx_midpoint` on a raw type of width `w`. -/
def approxMidpoint (w a b : Nat) : Except Panic Nat :=
  if 2 ^ w ≤ a + b then .error .arithmeticOverflow else .ok ((a + b) / 2)

structure Slice where
  start : Nat
  stop : Nat
  recyclable : SortedSet Nat

def Snapshot.asSlice (self : Snapshot) : Slice := ⟨1, self.gauge, self.recyclable⟩

/-- `Itertools::tuple_windows` -/
def tupleWindows : List Nat → List (Nat × Nat)
  | a :: b :: rest => (a, b) :: tupleWindows (b :: rest)
  | _ => []

namespace Slice

def midpointForSplit (w : Nat) (self : Slice) : Except Panic (Option Nat) := do
  let midpt ← approxMidpoint w self.start self.stop
  let distance ← subRaw self.stop midpt
  return if 8 ≤ distance then some midpt else none

def splitAt (self : Slice) (midpt : Nat) : Slice × Slice :=
  ({ self with stop := midpt }, { self with start := midpt })

def split (w : Nat) (self : Slice) : Except Panic (Slice × Option Slice) := do
  match ← self.midpointForSplit w with
  | some midpt =>
    let (left, right) := self.splitAt midpt
    return (left, some right)
  | none => return (self, none)

def iterChunks (w : Nat) (self : Slice) : Except Panic (List (Nat × Nat)) :=
  match self.recyclable.first with
  | none => return [(self.start, self.stop)]
  | some first =>
    if self.stop < self.start then
      .error .reversedRange
    else do
      let gaps := self.recyclable.range self.start self.stop ++ [self.stop]
      let pairs ← (tupleWindows gaps).mapM fun pair => do
        let next ← addRaw w pair.1 1
        return (next, pair.2)
      return ((self.start, first) :: pairs).filter fun range => range.1 ≠ range.2

end Slice

/-- How a slice is split further: not at all, by `split`, or by `split_at`. -/
inductive SplitTree where
  | leaf
  | split (left right : SplitTree)
  | splitAt (midpt : Nat) (left right : SplitTree)
  deriving Repr

/-- The leaves from left to right. A slice that `split` does not split is a
leaf. -/
def SplitTree.leaves (w : Nat) : SplitTree → Slice → Except Panic (List Slice)
  | .leaf, slice => return [slice]
  | .split left right, slice => do
    match ← slice.split w with
    | (slice, none) => return [slice]
    | (slice, some other) =>
      let lefts ← left.leaves w slice
      let rights ← right.leaves w other
      return lefts ++ rights
  | .splitAt midpt left right, slice => do
    let (slice, other) := slice.splitAt midpt
    let lefts ← left.leaves w slice
    let rights ← right.leaves w other
    return lefts ++ rights

/-- `EntityIterator::entities` -/
def Snapshot.entities (w : Nat) (self : Snapshot) : Except Panic (List Nat) := do
  let chunks ← self.iterAllocatedChunks w
  return rangeIds chunks

namespace Slice

/-- The slice contains the least recyclable ID or ends at it, if there is one. -/
def Aligned (slice : Slice) : Prop :=
  slice.start ≤ slice.stop ∧
    ∀ first ∈ slice.recyclable.first, slice.start ≤ first ∧ first ≤ slice.stop

/-- The IDs of a slice that are allocated. -/
def allocated (slice : Slice) : List Nat :=
  (List.range' slice.start (slice.stop - slice.start)).filter (· ∉ slice.recyclable)

end Slice

/-- A point at which the slice may be split: there is no recyclable ID, or it
is the least one. -/
def Slice.Splittable (slice : Slice) (midpt : Nat) : Prop :=
  ∀ first ∈ slice.recyclable.first, first = midpt

/-- All splits are at such points, inside the slice, and no midpoint overflows. -/
def SplitTree.Sound (w : Nat) : SplitTree → Slice → Prop
  | .leaf, _ => True
  | .split left right, slice =>
    slice.start + slice.stop < 2 ^ w ∧
      ∀ midpt, midpt = (slice.start + slice.stop) / 2 → 8 ≤ slice.stop - midpt →
        slice.Splittable midpt ∧ left.Sound w (slice.splitAt midpt).1 ∧
          right.Sound w (slice.splitAt midpt).2
  | .splitAt midpt left right, slice =>
    (slice.start ≤ midpt ∧ midpt ≤ slice.stop) ∧ slice.Splittable midpt ∧
      left.Sound w (slice.splitAt midpt).1 ∧ right.Sound w (slice.splitAt midpt).2

theorem Slice.Aligned.splitAt {slice : Slice} {midpt : Nat} (aligned : slice.Aligned)
    (inside : slice.start ≤ midpt ∧ midpt ≤ slice.stop) (splittable : slice.Splittable midpt) :
    (slice.splitAt midpt).1.Aligned ∧ (slice.splitAt midpt).2.Aligned := by
  refine ⟨⟨inside.1, fun first least => ?_⟩, ⟨inside.2, fun first least => ?_⟩⟩
  · have same := splittable first least
    exact ⟨(aligned.2 first least).1, Nat.le_of_eq same⟩
  · have same := splittable first least
    exact ⟨Nat.le_of_eq same.symm, (aligned.2 first least).2⟩

/-- What `split` does when the midpoint does not overflow. -/
theorem Slice.split_eq {w : Nat} {slice : Slice} (bound : slice.start + slice.stop < 2 ^ w)
    (mid : ¬ slice.stop < (slice.start + slice.stop) / 2) :
    slice.split w = .ok (if 8 ≤ slice.stop - (slice.start + slice.stop) / 2 then
      ((slice.splitAt ((slice.start + slice.stop) / 2)).1,
        some (slice.splitAt ((slice.start + slice.stop) / 2)).2)
      else (slice, none)) := by
  simp only [Slice.split, Slice.midpointForSplit, approxMidpoint, subRaw,
    if_neg (Nat.not_le_of_lt bound), if_neg mid, ok_bind]
  split <;> rfl

/-- A `split` that returned had no overflow. -/
theorem Slice.split_ok {w : Nat} {slice left : Slice} {right : Option Slice}
    (run : slice.split w = .ok (left, right)) :
    slice.start + slice.stop < 2 ^ w ∧ ¬ slice.stop < (slice.start + slice.stop) / 2 := by
  obtain ⟨midpt, run, -⟩ := bind_eq_ok.mp run
  obtain ⟨mid, first, run⟩ := bind_eq_ok.mp run
  obtain ⟨distance, second, -⟩ := bind_eq_ok.mp run
  unfold approxMidpoint at first
  unfold subRaw at second
  split at first
  · cases first
  · rename_i bound
    cases first
    split at second
    · cases second
    · rename_i mid
      exact ⟨Nat.lt_of_not_le bound, mid⟩

end Dynec.Entity
