import Dynec.Entity.Slices

/-!
# Repeated splitting of slices

The midpoint of a slice is half the sum of its ends, which may not fit into the
raw type. The sums grow along the right halves, so the rightmost slice that
repeated splitting reaches decides.
-/

namespace Dynec.Entity

open Fallible

/-- The length that is left when a slice is halved, keeping the right half, until
it is too short to be split. -/
def lastLength (length : Nat) : Nat :=
  if length < 15 then length else lastLength ((length + 1) / 2)
termination_by length
decreasing_by omega

theorem lastLength_short {length : Nat} (short : length < 15) : lastLength length = length := by
  rw [lastLength, if_pos short]

theorem lastLength_half {length : Nat} (long : ¬ length < 15) :
    lastLength length = lastLength ((length + 1) / 2) := by
  rw [lastLength, if_neg long]

theorem lastLength_le (length : Nat) : lastLength length ≤ length := by
  induction length using lastLength.induct with
  | case1 length short => exact Nat.le_of_eq (lastLength_short short)
  | case2 length long ih =>
    rw [lastLength_half long]
    omega

namespace Slice

def length (self : Slice) : Nat := self.stop - self.start

/-- The slices that splitting a slice again and again makes, with the number of
splits. -/
inductive Part (w : Nat) (whole : Slice) : Nat → Slice → Prop
  | whole : Part w whole 0 whole
  | left {n : Nat} {slice left right : Slice} :
      Part w whole n slice → slice.split w = .ok (left, some right) → Part w whole (n + 1) left
  | right {n : Nat} {slice left right : Slice} :
      Part w whole n slice → slice.split w = .ok (left, some right) → Part w whole (n + 1) right

/-- Both halves are nonempty, and one follows the other. -/
structure Halves (slice left right : Slice) : Prop where
  start : left.start = slice.start
  middle : left.stop = right.start
  stop : right.stop = slice.stop
  leftNonempty : left.start < left.stop
  rightNonempty : right.start < right.stop

/-- The midpoint of a slice is computed, and is inside. -/
structure Divides (w : Nat) (slice : Slice) : Prop where
  midpoint : ∃ midpt, approxMidpoint w slice.start slice.stop = .ok midpt
  proper : ∃ found, slice.midpointForSplit w = .ok found ∧
    ∀ midpt ∈ found, slice.start < midpt ∧ midpt < slice.stop
  halves : ∃ left right, slice.split w = .ok (left, right) ∧
    ∀ other ∈ right, Halves slice left other

/-- A slice can be split to any depth, and splitting it ends. -/
structure SplitsSafely (w : Nat) (slice : Slice) : Prop where
  divides : ∀ n part, Part w slice n part → Divides w part
  ends : ∀ n part, Part w slice n part → n ≤ slice.length

theorem approxMidpoint_iff (w a b : Nat) :
    (∃ midpt, approxMidpoint w a b = .ok midpt) ↔ a + b < 2 ^ w := by
  unfold approxMidpoint
  split
  · rename_i overflow
    exact iff_of_false (fun ⟨_, returned⟩ => nomatch returned) (Nat.not_lt_of_le overflow)
  · rename_i fits
    exact iff_of_true ⟨_, rfl⟩ (Nat.lt_of_not_le fits)

variable {w : Nat} {slice left right : Slice}

/-- A slice is split exactly if it is long enough. -/
theorem split_cases (le : slice.start ≤ slice.stop) (fits : slice.start + slice.stop < 2 ^ w) :
    (slice.length < 15 ∧ slice.midpointForSplit w = .ok none ∧ slice.split w = .ok (slice, none)) ∨
    (15 ≤ slice.length ∧ ∃ midpt, midpt = slice.start + slice.length / 2 ∧
      slice.midpointForSplit w = .ok (some midpt) ∧
      slice.split w = .ok ((slice.splitAt midpt).1, some (slice.splitAt midpt).2)) := by
  have mid : ¬ slice.stop < (slice.start + slice.stop) / 2 := by omega
  have midpoint : slice.midpointForSplit w =
      .ok (if 8 ≤ slice.stop - (slice.start + slice.stop) / 2 then
        some ((slice.start + slice.stop) / 2) else none) := by
    simp only [midpointForSplit, approxMidpoint, subRaw, if_neg (Nat.not_le_of_lt fits),
      if_neg mid, ok_bind]
    rfl
  have split := split_eq fits mid
  have length : slice.length = slice.stop - slice.start := rfl
  by_cases far : 8 ≤ slice.stop - (slice.start + slice.stop) / 2
  · rw [if_pos far] at midpoint split
    exact .inr ⟨by omega, _, by omega, midpoint, split⟩
  · rw [if_neg far] at midpoint split
    exact .inl ⟨by omega, midpoint, split⟩

/-- What a split that returns two halves has done. -/
theorem split_halves (le : slice.start ≤ slice.stop)
    (run : slice.split w = .ok (left, some right)) :
    slice.start + slice.stop < 2 ^ w ∧ 15 ≤ slice.length ∧ Halves slice left right ∧
      left.length = slice.length / 2 ∧ right.length = (slice.length + 1) / 2 := by
  obtain ⟨fits, -⟩ := split_ok run
  rcases split_cases le fits with ⟨-, -, split⟩ | ⟨long, midpt, inside, -, split⟩
  · cases split.symm.trans run
  · cases split.symm.trans run
    have length : slice.length = slice.stop - slice.start := rfl
    refine ⟨fits, long, ⟨rfl, rfl, rfl, ?_, ?_⟩, ?_, ?_⟩ <;>
      simp only [splitAt, Slice.length] at * <;> omega

/-- The rightmost sum fits into the raw type. -/
def Fits (w : Nat) (slice : Slice) : Prop :=
  slice.start ≤ slice.stop ∧ 2 * slice.stop < 2 ^ w + lastLength slice.length

theorem Fits.sum (h : Fits w slice) : slice.start + slice.stop < 2 ^ w := by
  obtain ⟨le, fits⟩ := h
  have := lastLength_le slice.length
  have length : slice.length = slice.stop - slice.start := rfl
  omega

theorem Fits.split (h : Fits w slice) (run : slice.split w = .ok (left, some right)) :
    Fits w left ∧ Fits w right := by
  have sum := h.sum
  obtain ⟨le, fits⟩ := h
  obtain ⟨-, long, halves, lefts, rights⟩ := split_halves le run
  have length : slice.length = slice.stop - slice.start := rfl
  have length' : left.length = left.stop - left.start := rfl
  have := halves.start
  refine ⟨⟨Nat.le_of_lt halves.leftNonempty, ?_⟩, Nat.le_of_lt halves.rightNonempty, ?_⟩
  · have := halves.leftNonempty
    omega
  · rw [halves.stop, rights, ← lastLength_half (Nat.not_lt_of_le long)]
    exact fits

theorem Fits.part (h : Fits w slice) {n : Nat} {part : Slice} (made : Part w slice n part) :
    Fits w part := by
  induction made with
  | whole => exact h
  | left _ run ih => exact (ih.split run).1
  | right _ run ih => exact (ih.split run).2

/-- The sum of the ends decides about the midpoint. -/
theorem divides_iff (le : slice.start ≤ slice.stop) :
    Divides w slice ↔ slice.start + slice.stop < 2 ^ w := by
  have midpoint := approxMidpoint_iff w slice.start slice.stop
  refine ⟨fun divides => midpoint.mp divides.midpoint, fun sum => ?_⟩
  rcases split_cases le sum with ⟨-, found, split⟩ | ⟨long, midpt, inside, found, split⟩
  · exact ⟨midpoint.mpr sum, ⟨none, found, nofun⟩, slice, none, split, nofun⟩
  · obtain ⟨-, -, halves, -⟩ := split_halves le split
    have first := halves.leftNonempty
    have last := halves.rightNonempty
    refine ⟨midpoint.mpr sum, ⟨some midpt, found, ?_⟩, _, _, split, ?_⟩
    · rintro _ ⟨⟩
      exact ⟨first, last⟩
    · rintro _ ⟨⟩
      exact halves

/-- Every split makes the slices shorter. -/
theorem Part.shorter {n : Nat} {part : Slice} (made : Part w slice n part)
    (le : slice.start ≤ slice.stop) : part.start ≤ part.stop ∧ n + part.length ≤ slice.length := by
  induction made with
  | whole => exact ⟨le, Nat.le_of_eq (Nat.zero_add _)⟩
  | left _ run ih =>
    obtain ⟨-, long, halves, lefts, -⟩ := split_halves ih.1 run
    exact ⟨Nat.le_of_lt halves.leftNonempty, by omega⟩
  | right _ run ih =>
    obtain ⟨-, long, halves, -, rights⟩ := split_halves ih.1 run
    exact ⟨Nat.le_of_lt halves.rightNonempty, by omega⟩

theorem Part.of_right {n : Nat} {part : Slice} (run : slice.split w = .ok (left, some right))
    (made : Part w right n part) : Part w slice (n + 1) part := by
  induction made with
  | whole => exact .right .whole run
  | left _ run' ih => exact .left ih run'
  | right _ run' ih => exact .right ih run'

/-- The sums that were computed along the right halves fit. -/
theorem fits_of_divides (le : slice.start ≤ slice.stop)
    (divides : ∀ n part, Part w slice n part → Divides w part) : Fits w slice := by
  induction size : slice.length using Nat.strong_induction_on generalizing slice with
  | _ n ih =>
    have sum := (divides_iff le).mp (divides 0 slice .whole)
    have length : slice.length = slice.stop - slice.start := rfl
    rcases split_cases le sum with ⟨short, -, -⟩ | ⟨long, midpt, -, -, split⟩
    · refine ⟨le, ?_⟩
      rw [lastLength_short short]
      omega
    · obtain ⟨-, -, halves, -, rights⟩ := split_halves le split
      obtain ⟨-, fits⟩ := ih _ (by omega) (Nat.le_of_lt halves.rightNonempty)
        (fun n part made => divides (n + 1) part (made.of_right split)) rfl
      refine ⟨le, ?_⟩
      rw [rights, ← lastLength_half (Nat.not_lt_of_le long), halves.stop] at fits
      exact fits

/-- **Midpoints.** A midpoint is computed if the sum of the ends fits into the
raw type. A slice can be split again and again if the sum of the ends of the
rightmost slice fits. -/
theorem midpoint_split_safe {w : Nat} {slice : Slice} (le : slice.start ≤ slice.stop) :
    ((∃ midpt, approxMidpoint w slice.start slice.stop = .ok midpt) ↔
      slice.start + slice.stop < 2 ^ w) ∧
    (Divides w slice ↔ slice.start + slice.stop < 2 ^ w) ∧
    (SplitsSafely w slice ↔
      2 * slice.stop < 2 ^ w + lastLength (slice.stop - slice.start)) := by
  refine ⟨approxMidpoint_iff w _ _, divides_iff le, fun safe => ?_, fun fits => ?_⟩
  · exact (fits_of_divides le safe.divides).2
  · have fits : Fits w slice := ⟨le, fits⟩
    constructor
    · intro n part made
      have fits := fits.part made
      exact (divides_iff fits.1).mpr fits.sum
    · intro n part made
      exact Nat.le_of_add_right_le (made.shorter le).2

/-- The slice is split again and again, and the sum of its end with itself would
overflow. -/
theorem midpoint_split_safe_long :
    (⟨32700, 32770, .empty⟩ : Slice).midpointForSplit 16 = .ok (some 32735) ∧
    SplitsSafely 16 ⟨32700, 32770, .empty⟩ := by
  have exact' := midpoint_split_safe (w := 16)
    (show (⟨32700, 32770, .empty⟩ : Slice).start ≤ 32770 by decide)
  refine ⟨rfl, exact'.2.2.mpr ?_⟩
  change 2 * 32770 < 2 ^ 16 + lastLength 70
  rw [lastLength_half (by decide), lastLength_half (by decide), lastLength_half (by decide),
    lastLength_short (by decide)]
  decide

/-- The sum of the ends overflows at once, or for the second half of the second
half. -/
theorem midpoint_overflow :
    approxMidpoint 16 1 65535 = .error .arithmeticOverflow ∧
      (⟨1, 65535, .empty⟩ : Slice).midpointForSplit 16 = .error .arithmeticOverflow ∧
      ¬ SplitsSafely 16 ⟨1, 65535, .empty⟩ ∧
      Divides 16 ⟨1, 40000, .empty⟩ ∧ ¬ SplitsSafely 16 ⟨1, 40000, .empty⟩ := by
  refine ⟨rfl, rfl, fun safe => ?_, (divides_iff (by decide)).mpr (by decide), fun safe => ?_⟩
  · exact absurd ((divides_iff (by decide)).mp (safe.divides 0 _ .whole)) (by decide)
  · have half : Part 16 ⟨1, 40000, .empty⟩ 1 ⟨20000, 40000, .empty⟩ := .right .whole rfl
    have quarter : Part 16 ⟨1, 40000, .empty⟩ 2 ⟨30000, 40000, .empty⟩ := .right half rfl
    exact absurd ((divides_iff (by decide)).mp (safe.divides 2 _ quarter)) (by decide)

end Slice

end Dynec.Entity
