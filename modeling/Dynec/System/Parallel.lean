import Dynec.System.Iter

/-!
# Parallel iteration

Parallel iteration splits the range of raw IDs, and with it every accessor. A
job iterates over its whole range, while serial iteration walks the chunks
between the recyclable IDs.
-/

namespace Dynec.System

open Fallible Entity Storage

variable {K : Type} {C : K → Type}

/-! ## Members -/

namespace IntoZip

/-- The storage was filled by `set`. -/
def Filled (member : IntoZip C) : Prop :=
  match member.store with
  | .vec storage => ∃ sets, VecStorage.default.setAll sets = .ok storage
  | .tree _ => True

/-- The component of an entity. -/
def found (member : IntoZip C) (entity : Nat) : Option (C member.comp) :=
  (member.store.get entity).toOption.join

/-- The accessor can be split at an entity. -/
def Splits (member : IntoZip C) (entity : Nat) : Prop :=
  match member.write, member.store with
  | true, .vec storage => ¬ (storage.data.length < entity ∧ entity ≤ storage.bits.length)
  | _, _ => True

/-- The accessor is a partition of a tree. -/
def WritesTree (member : IntoZip C) : Prop :=
  match member.write, member.store with
  | true, .tree _ => True
  | _, _ => False

/-- The item of an entity. -/
def item (member : IntoZip C) (entity : Nat) : Item C :=
  ⟨member.comp, (member.found entity).map fun value =>
    if member.write then .mutable ⟨entity, value⟩ else .shared value⟩

end IntoZip

/-- The member that is responsible for a range of IDs. -/
inductive Shows : IntoZip C → IdRange → Zip C → Prop
  | storage {comp : K} {must : Bool} {store : Store (C comp)} {range : IdRange} :
      Shows ⟨comp, must, false, store⟩ range ⟨comp, must, .storage store⟩
  | vec {comp : K} {must : Bool} {storage : VecStorage (C comp)} {range : IdRange}
      {part : VecPartition (C comp)} (shown : VecShows storage range part) :
      Shows ⟨comp, must, true, .vec storage⟩ range ⟨comp, must, .vec part⟩
  | tree {comp : K} {must : Bool} {storage : Storage.Tree (C comp)} {range : IdRange}
      {part : TreePartition (C comp)} (shown : TreeShows storage.data range part) :
      Shows ⟨comp, must, true, .tree storage⟩ range ⟨comp, must, .tree part⟩

/-- A storage that was filled represents a map. -/
theorem IntoZip.Filled.represents {comp : K} {must write : Bool} {storage : VecStorage (C comp)}
    (filled : Filled ⟨comp, must, write, .vec storage⟩) : ∃ m, Represents storage m := by
  obtain ⟨sets, run⟩ := filled
  obtain ⟨s, run', represents⟩ := setAll_represents represents_default sets
  cases run.symm.trans run'
  exact ⟨_, represents⟩

theorem shows_intoZip (member : IntoZip C) : Shows member ⟨0, none⟩ member.intoZip := by
  obtain ⟨comp, must, write, store⟩ := member
  cases write with
  | false => exact .storage
  | true =>
    cases store with
    | vec storage => exact .vec ⟨rfl, fun both => absurd both.1 (Nat.not_lt_zero _)⟩
    | tree storage => exact .tree ⟨rfl, .inr ⟨rfl, rfl⟩, rfl, nofun⟩

theorem Shows.split {member : IntoZip C} {range : IdRange} {zip : Zip C} {entity : Nat}
    (h : Shows member range zip) (filled : member.Filled) (here : range.CutAt entity) :
    Exactly (member.Splits entity ∧ (range.stop = some entity → ¬ member.WritesTree))
      (zip.split entity) fun zips => Shows member ⟨range.start, some entity⟩ zips.1 ∧
        Shows member ⟨entity, range.stop⟩ zips.2 := by
  cases h with
  | storage => exact .ok ⟨trivial, fun _ => id⟩ ⟨.storage, .storage⟩
  | @vec comp must storage _ part shown =>
    obtain ⟨m, represents⟩ := filled.represents
    refine ((shown.splitOut represents.within here).bind_pure fun parts shown => ?_).mono ?_
      fun _ last => last
    · exact ⟨.vec shown.1, .vec shown.2⟩
    · exact ⟨fun good => ⟨good, fun _ => id⟩, And.left⟩
  | @tree comp must storage _ part shown =>
    have asserted := shown.assertBounds entity
    unfold Zip.split TreePartition.splitOut
    dsimp only
    rw [asserted]
    by_cases inside : range.Contains entity
    · rw [if_pos inside]
      refine .ok ⟨trivial, fun last => ?_⟩ ⟨.tree ?_, .tree ?_⟩
      · exact absurd (inside.2 entity last) (Nat.lt_irrefl _)
      · exact ⟨shown.data, shown.lower, rfl, by simpa using inside.1⟩
      · exact ⟨shown.data, .inl rfl, shown.upper, fun stop cut => Nat.le_of_lt (inside.2 stop cut)⟩
    · rw [if_neg inside]
      refine .error fun both => both.2 ?_ trivial
      by_contra other
      refine inside ⟨here.1, fun stop cut => Nat.lt_of_le_of_ne (here.2 stop cut) fun same => ?_⟩
      exact other (same ▸ cut)

theorem mustOrTry_exactly {α : Type} (must : Bool) (option : Option α) :
    Exactly (must = true → option.isSome = true) (mustOrTry must option) (· = option) := by
  cases option with
  | some value => exact .ok (fun _ => rfl) rfl
  | none =>
    cases must with
    | true => exact .error fun present => nomatch present rfl
    | false => exact .ok nofun rfl

theorem IntoZip.Filled.get {member : IntoZip C} (filled : member.Filled) (entity : Nat) :
    member.store.get entity = .ok (member.found entity) := by
  obtain ⟨comp, must, write, store⟩ := member
  cases store with
  | vec storage =>
    obtain ⟨m, represents⟩ := filled.represents
    simp only [IntoZip.found, Store.get, represents.get]
    rfl
  | tree storage => rfl

theorem Shows.get {member : IntoZip C} {range : IdRange} {zip : Zip C} {entity : Nat}
    (h : Shows member range zip) (filled : member.Filled) (inside : range.Contains entity) :
    Exactly (member.must = true → (member.found entity).isSome = true) (zip.get entity)
      (· = member.item entity) := by
  cases h with
  | @storage comp must store =>
    simp only [Zip.get, filled.get entity, ok_bind]
    apply (mustOrTry_exactly must _).bind_pure
    intro found same
    subst same
    simp only [IntoZip.item]
    congr 1
  | @vec comp must storage _ part shown =>
    obtain ⟨m, represents⟩ := filled.represents
    have stored : (IntoZip.mk comp must true (.vec storage)).found entity = m.get entity := by
      simp only [IntoZip.found, Store.get, represents.get]
      rfl
    simp only [Zip.get, shown.slotsOf.intoMut represents inside, ok_bind, stored]
    refine ((mustOrTry_exactly must _).bind_pure fun found same => ?_).mono (by simp) fun _ last => last
    subst same
    simp only [IntoZip.item, stored, Option.map_map]
    congr 1
  | @tree comp must storage _ part shown =>
    have run : part.intoMut entity = _ := shown.holds.intoMut entity inside
    have stored : (IntoZip.mk comp must true (.tree storage)).found entity =
        storage.data.get entity := rfl
    simp only [Zip.get, run, ok_bind, stored]
    refine ((mustOrTry_exactly must _).bind_pure fun found same => ?_).mono (by simp) fun _ last => last
    subst same
    simp only [IntoZip.item, stored, Option.map_map]
    congr 1

/-! ## Tuples -/

theorem eq_map_of_forall₂ {α β : Type} {f : α → β} {l : List α} {r : List β}
    (h : List.Forall₂ (fun a b => b = f a) l r) : r = l.map f := by
  induction h with
  | nil => rfl
  | cons here _ ih => rw [here, ih, List.map_cons]

/-- The members of a tuple that are responsible for a range of IDs. -/
def TupleShows (members : List (IntoZip C)) (range : IdRange) (zip : Tuple C) : Prop :=
  List.Forall₂ (fun member zip => Shows member range zip) members zip

theorem tupleShows_intoZip (members : List (IntoZip C)) :
    TupleShows members ⟨0, none⟩ (members.map (·.intoZip)) := by
  induction members with
  | nil => exact .nil
  | cons member members ih => exact .cons (shows_intoZip member) ih

section

variable {members : List (IntoZip C)} {range : IdRange} {zip : Tuple C}

/-- The tuple can be split at an entity of a range that ends at `stop`. -/
def SplitsAll (members : List (IntoZip C)) (stop : Option Nat) (entity : Nat) : Prop :=
  ∀ member ∈ members, member.Splits entity ∧ (stop = some entity → ¬ member.WritesTree)

/-- No required component of an entity is missing. -/
def Complete (members : List (IntoZip C)) (entity : Nat) : Prop :=
  ∀ member ∈ members, member.must = true → (member.found entity).isSome = true

theorem TupleShows.split (h : TupleShows members range zip)
    (filled : ∀ member ∈ members, member.Filled) {entity : Nat} (here : range.CutAt entity) :
    Exactly (SplitsAll members range.stop entity) (zip.split entity) fun zips =>
      TupleShows members ⟨range.start, some entity⟩ zips.1 ∧
        TupleShows members ⟨entity, range.stop⟩ zips.2 := by
  refine (Exactly.mapM h fun member listed zip shows => shows.split (filled member listed) here).bind_pure
    fun zips shown => ?_
  exact ⟨List.forall₂_map_right_iff.mpr (shown.imp fun _ _ both => both.1),
    List.forall₂_map_right_iff.mpr (shown.imp fun _ _ both => both.2)⟩

theorem TupleShows.get (h : TupleShows members range zip)
    (filled : ∀ member ∈ members, member.Filled) {entity : Nat} (inside : range.Contains entity) :
    Exactly (Complete members entity) (zip.get entity)
      (· = members.map fun member => member.item entity) := by
  refine (Exactly.mapM h fun member listed zip shows =>
    shows.get (filled member listed) inside).mono Iff.rfl fun items same => ?_
  exact eq_map_of_forall₂ same

/-- The tuple yields an entity of a range that ends at `stop`. -/
def Yields (members : List (IntoZip C)) (stop : Option Nat) (entity : Nat) : Prop :=
  SplitsAll members stop (entity + 1) ∧ Complete members entity

/-- What the tuple yields for an entity. -/
def entry (members : List (IntoZip C)) (entity : Nat) : Nat × List (Item C) :=
  (entity, members.map fun member => member.item entity)

theorem takeSerial_exactly {w : Nat} (h : TupleShows members range zip)
    (filled : ∀ member ∈ members, member.Filled) {entity : Nat} (inside : range.Contains entity)
    (bound : entity + 1 < 2 ^ w) :
    Exactly (Yields members range.stop entity) (takeSerial w zip entity) fun taken =>
      (entity, taken.1) = entry members entity ∧ TupleShows members ⟨entity + 1, range.stop⟩ taken.2 := by
  have next : addRaw w entity 1 = .ok (entity + 1) := if_neg (Nat.not_le_of_lt bound)
  have here : range.CutAt (entity + 1) :=
    ⟨Nat.le_succ_of_le inside.1, fun stop cut => inside.2 stop cut⟩
  rw [takeSerial, next, ok_bind]
  apply (h.split filled here).bind
  intro zips shown
  refine (shown.1.get filled ⟨inside.1, ?_⟩).bind_pure fun items same => ?_
  · intro stop cut
    cases cut
    exact Nat.lt_succ_self _
  · exact ⟨congrArg (Prod.mk entity) same, shown.2⟩

theorem takeEntities_exactly {w : Nat} (h : TupleShows members range zip)
    (filled : ∀ member ∈ members, member.Filled) {entities : List Nat}
    (sorted : entities.Pairwise (· < ·)) (inside : ∀ entity ∈ entities, range.Contains entity)
    (bound : ∀ entity ∈ entities, entity + 1 < 2 ^ w) :
    Exactly (∀ entity ∈ entities, Yields members range.stop entity) (takeEntities w zip entities)
      (· = entities.map (entry members)) := by
  induction entities generalizing range zip with
  | nil => exact .ok nofun rfl
  | cons entity entities ih =>
    obtain ⟨above, sorted⟩ := List.pairwise_cons.mp sorted
    obtain ⟨here, inside⟩ := List.forall_mem_cons.mp inside
    obtain ⟨low, bound⟩ := List.forall_mem_cons.mp bound
    refine ((takeSerial_exactly h filled here low).bind fun taken shown => ?_).mono
      List.forall_mem_cons.symm fun _ last => last
    refine (ih shown.2 sorted (fun other member => ?_) bound).bind_pure fun rest same => ?_
    · exact ⟨above other member, (inside other member).2⟩
    · rw [same, List.map_cons, ← shown.1]

end

/-! ## Jobs -/

namespace Splitting

/-- Where the splits that take effect are. -/
def cuts : Splitting → Nat → Nat → List Nat
  | .whole, _, _ => []
  | .split left right, start, stop =>
    if 8 ≤ stop - (start + stop) / 2 then
      left.cuts start ((start + stop) / 2) ++
        (start + stop) / 2 :: right.cuts ((start + stop) / 2) stop
    else []

/-- The ranges of the jobs. -/
def ranges : Splitting → Nat → Nat → List (Nat × Nat)
  | .whole, start, stop => [(start, stop)]
  | .split left right, start, stop =>
    if 8 ≤ stop - (start + stop) / 2 then
      left.ranges start ((start + stop) / 2) ++ right.ranges ((start + stop) / 2) stop
    else [(start, stop)]

/-- No midpoint overflows the raw type. -/
def Fits (w : Nat) : Splitting → Nat → Nat → Prop
  | .whole, _, _ => True
  | .split left right, start, stop =>
    start + stop < 2 ^ w ∧ (8 ≤ stop - (start + stop) / 2 →
      left.Fits w start ((start + stop) / 2) ∧ right.Fits w ((start + stop) / 2) stop)

theorem mem_cuts {splitting : Splitting} {start stop cut : Nat} (le : start ≤ stop)
    (member : cut ∈ splitting.cuts start stop) : start < cut ∧ cut < stop := by
  induction splitting generalizing start stop with
  | whole => cases member
  | split left right ihl ihr =>
    rw [cuts] at member
    split at member
    · rcases List.mem_append.mp member with member | member
      · have := ihl (by omega) member
        omega
      · rcases List.mem_cons.mp member with rfl | member
        · omega
        · have := ihr (by omega) member
          omega
    · cases member

theorem mem_ranges {splitting : Splitting} {start stop : Nat} {range : Nat × Nat}
    (le : start ≤ stop) (member : range ∈ splitting.ranges start stop) :
    start ≤ range.1 ∧ range.2 ≤ stop ∧ range.1 ≤ range.2 ∧ (start < stop → range.1 < range.2) := by
  induction splitting generalizing start stop with
  | whole =>
    cases List.mem_singleton.mp member
    exact ⟨Nat.le_refl _, Nat.le_refl _, le, id⟩
  | split left right ihl ihr =>
    rw [ranges] at member
    split at member
    · rcases List.mem_append.mp member with member | member
      · have := ihl (by omega) member
        omega
      · have := ihr (by omega) member
        omega
    · cases List.mem_singleton.mp member
      exact ⟨Nat.le_refl _, Nat.le_refl _, le, id⟩

theorem ranges_ne_nil (splitting : Splitting) (start stop : Nat) :
    splitting.ranges start stop ≠ [] := by
  induction splitting generalizing start stop with
  | whole => exact List.cons_ne_nil _ _
  | split left right ihl ihr =>
    rw [ranges]
    split
    · exact List.append_ne_nil_of_left_ne_nil (ihl _ _) _
    · exact List.cons_ne_nil _ _

theorem ranges_of_cuts {splitting : Splitting} {start stop : Nat}
    (uncut : splitting.cuts start stop = []) : splitting.ranges start stop = [(start, stop)] := by
  cases splitting with
  | whole => rfl
  | split left right =>
    rw [cuts] at uncut
    rw [ranges]
    split at uncut
    · simp at uncut
    · rename_i near
      rw [if_neg near]

/-- If a split takes effect, some job ends before the end. -/
theorem ranges_cut {splitting : Splitting} {start stop : Nat} (le : start ≤ stop)
    (cut : splitting.cuts start stop ≠ []) :
    ∃ range ∈ splitting.ranges start stop, range.1 < range.2 ∧ range.2 < stop := by
  cases splitting with
  | whole => exact absurd rfl cut
  | split left right =>
    rw [cuts] at cut
    rw [ranges]
    split at cut
    · rename_i far
      rw [if_pos far]
      obtain ⟨range, member⟩ := List.exists_mem_of_ne_nil _ (left.ranges_ne_nil start ((start + stop) / 2))
      have := mem_ranges (by omega) member
      exact ⟨range, List.mem_append_left _ member, by omega, by omega⟩
    · exact absurd rfl cut

theorem rawRange_append {start mid stop : Nat} (low : start ≤ mid) (high : mid ≤ stop) :
    rawRange start mid ++ rawRange mid stop = rawRange start stop := by
  unfold rawRange
  have first : mid = start + 1 * (mid - start) := by omega
  have size : stop - start = (mid - start) + (stop - mid) := by omega
  rw [size, ← List.range'_append, ← first]

/-- The jobs cover the whole range. -/
theorem ranges_flatMap (splitting : Splitting) {start stop : Nat} (le : start ≤ stop) :
    (splitting.ranges start stop).flatMap (fun range => rawRange range.1 range.2) =
      rawRange start stop := by
  induction splitting generalizing start stop with
  | whole => simp [ranges]
  | split left right ihl ihr =>
    rw [ranges]
    split
    · rw [List.flatMap_append, ihl (by omega), ihr (by omega), rawRange_append (by omega) (by omega)]
    · simp

end Splitting

theorem midpointForSplit_exactly {w : Nat} {slice : Slice} (le : slice.start ≤ slice.stop) :
    Exactly (slice.start + slice.stop < 2 ^ w) (slice.midpointForSplit w)
      (· = if 8 ≤ slice.stop - (slice.start + slice.stop) / 2 then
        some ((slice.start + slice.stop) / 2) else none) := by
  unfold Slice.midpointForSplit approxMidpoint
  split
  · rename_i overflow
    exact .error (Nat.not_lt_of_le overflow)
  · rename_i fits
    have straight : ¬ slice.stop < (slice.start + slice.stop) / 2 := by omega
    rw [ok_bind, subRaw, if_neg straight]
    exact .ok (Nat.lt_of_not_le fits) rfl

/-- Where the accessors of a job end. The accessors of the rightmost job were
never cut off. -/
def cutEnd (top stop : Nat) : Option Nat := if stop = top then none else some stop

section

variable {members : List (IntoZip C)} {top : Nat}

/-- A job with a range, and the accessors for it. -/
def JobShows (members : List (IntoZip C)) (top : Nat) (range : Nat × Nat)
    (job : Slice × Tuple C) : Prop :=
  (job.1.start, job.1.stop) = range ∧ ∃ first, first ≤ range.1 ∧ first < range.2 ∧
    TupleShows members ⟨first, cutEnd top range.2⟩ job.2

theorem cutEnd_lt {mid stop : Nat} (less : mid < stop) (high : stop ≤ top) :
    cutEnd top mid = some mid := if_neg (by omega)

theorem le_cutEnd {mid stop : Nat} (le : mid ≤ stop) : ∀ last ∈ cutEnd top stop, mid ≤ last := by
  intro last cut
  unfold cutEnd at cut
  split at cut
  · cases cut
  · cases cut
    exact le

/-- A tuple splits inside its range unless a member does not. -/
theorem splitsAll_inside {mid stop : Nat} (less : mid < stop) :
    SplitsAll members (cutEnd top stop) mid ↔ ∀ member ∈ members, member.Splits mid := by
  refine forall₂_congr fun member _ => and_iff_left fun last => ?_
  exact absurd (le_cutEnd less mid last) (Nat.lt_irrefl mid)

theorem parRawJobs_exactly {w : Nat} (filled : ∀ member ∈ members, member.Filled)
    (splitting : Splitting) {slice : Slice} {zip : Tuple C} (le : slice.start ≤ slice.stop)
    (high : slice.stop ≤ top) (shown : JobShows members top (slice.start, slice.stop) (slice, zip)) :
    Exactly (splitting.Fits w slice.start slice.stop ∧
        ∀ cut ∈ splitting.cuts slice.start slice.stop, ∀ member ∈ members, member.Splits cut)
      (parRawJobs w splitting slice zip)
      (List.Forall₂ (JobShows members top) (splitting.ranges slice.start slice.stop)) := by
  induction splitting generalizing slice zip with
  | whole => exact .ok ⟨trivial, nofun⟩ (.cons shown .nil)
  | split left right ihl ihr =>
    obtain ⟨mid, midpoint⟩ : ∃ mid, (slice.start + slice.stop) / 2 = mid := ⟨_, rfl⟩
    have attempt := @midpointForSplit_exactly w slice le
    rw [Splitting.Fits, Splitting.cuts, Splitting.ranges, parRawJobs]
    rw [midpoint] at attempt ⊢
    by_cases far : 8 ≤ slice.stop - mid
    · rw [if_pos far] at attempt ⊢
      rw [if_pos far]
      have low : slice.start < mid := by omega
      have less : mid < slice.stop := by omega
      obtain ⟨-, first, before, within, shown⟩ := shown
      dsimp only at before within shown
      have here : (⟨first, cutEnd top slice.stop⟩ : IdRange).CutAt mid :=
        ⟨Nat.le_trans before (Nat.le_of_lt low), le_cutEnd (Nat.le_of_lt less)⟩
      have cut := (shown.split filled here).mono (splitsAll_inside less) fun _ last => last
      refine Exactly.mono (p := slice.start + slice.stop < 2 ^ w ∧
        (∀ member ∈ members, member.Splits mid) ∧
        (left.Fits w slice.start mid ∧ ∀ cut ∈ left.cuts slice.start mid, ∀ member ∈ members,
          member.Splits cut) ∧
        (right.Fits w mid slice.stop ∧ ∀ cut ∈ right.cuts mid slice.stop, ∀ member ∈ members,
          member.Splits cut)) (attempt.bind fun found same => ?_) ?_ fun _ last => last
      · subst same
        apply cut.bind
        intro zips parts
        obtain ⟨inLeft, inRight⟩ := parts
        dsimp only at inLeft inRight
        rw [← cutEnd_lt less high] at inLeft
        have lefts := @ihl (slice.splitAt mid).1 zips.1 (Nat.le_of_lt low)
          (Nat.le_trans (Nat.le_of_lt less) high)
          ⟨rfl, first, before, Nat.lt_of_le_of_lt before low, inLeft⟩
        have rights := @ihr (slice.splitAt mid).2 zips.2 (Nat.le_of_lt less) high
          ⟨rfl, mid, Nat.le_refl _, less, inRight⟩
        refine lefts.bind fun lefts hl => rights.bind_pure fun rights hr => ?_
        exact List.rel_append hl hr
      · simp only [List.forall_mem_append, List.forall_mem_cons]
        tauto
    · rw [if_neg far] at attempt ⊢
      rw [if_neg far]
      refine Exactly.mono (p := slice.start + slice.stop < 2 ^ w ∧ True)
        (attempt.bind fun found same => ?_) (by simp [far]) fun _ last => last
      subst same
      exact Exactly.ok trivial (.cons shown .nil)

end

/-! ## Entities -/

section

variable {members : List (IntoZip C)} {ealloc : Snapshot} {w : Nat}

theorem parRawChunks_exactly (filled : ∀ member ∈ members, member.Filled) (splitting : Splitting)
    (positive : 1 ≤ ealloc.gauge) :
    Exactly (splitting.Fits w 1 ealloc.gauge ∧
        ∀ cut ∈ splitting.cuts 1 ealloc.gauge, ∀ member ∈ members, member.Splits cut)
      (parRawChunks w splitting ealloc members)
      (List.Forall₂ (JobShows members ealloc.gauge) (splitting.ranges 1 ealloc.gauge)) := by
  have whole : cutEnd ealloc.gauge ealloc.gauge = none := if_pos rfl
  have shown : JobShows members ealloc.gauge (1, ealloc.gauge)
      (ealloc.asSlice, members.map (·.intoZip)) :=
    ⟨rfl, 0, Nat.zero_le _, positive, whole ▸ tupleShows_intoZip members⟩
  exact parRawJobs_exactly filled splitting positive (Nat.le_refl _) shown

theorem mem_rawRange {start stop entity : Nat} :
    entity ∈ rawRange start stop ↔ start ≤ entity ∧ entity < stop := by
  rw [rawRange, List.mem_range'_1]
  omega

/-- Every entity can be split off, and has its required components. -/
def Plain (members : List (IntoZip C)) (entity : Nat) : Prop :=
  (∀ member ∈ members, member.Splits (entity + 1)) ∧ Complete members entity

/-- The condition under which every job returns. -/
theorem jobs_yield {splitting : Splitting} (positive : 1 ≤ ealloc.gauge) :
    ((∀ cut ∈ splitting.cuts 1 ealloc.gauge, ∀ member ∈ members, member.Splits cut) ∧
      ∀ range ∈ splitting.ranges 1 ealloc.gauge, ∀ entity ∈ rawRange range.1 range.2,
        Yields members (cutEnd ealloc.gauge range.2) entity) ↔
    (∀ entity ∈ rawRange 1 ealloc.gauge, Plain members entity) ∧
      (splitting.cuts 1 ealloc.gauge = [] ∨ ∀ member ∈ members, ¬ member.WritesTree) := by
  constructor
  · rintro ⟨-, yields⟩
    constructor
    · intro entity inside
      rw [← splitting.ranges_flatMap positive] at inside
      obtain ⟨range, job, inside⟩ := List.mem_flatMap.mp inside
      obtain ⟨splits, complete⟩ := yields range job entity inside
      exact ⟨fun member listed => (splits member listed).1, complete⟩
    · by_cases uncut : splitting.cuts 1 ealloc.gauge = []
      · exact .inl uncut
      · obtain ⟨range, job, proper, less⟩ := Splitting.ranges_cut positive uncut
        have last : range.2 - 1 + 1 = range.2 := by omega
        have inside : range.2 - 1 ∈ rawRange range.1 range.2 := mem_rawRange.mpr (by omega)
        obtain ⟨splits, -⟩ := yields range job _ inside
        refine .inr fun member listed => (splits member listed).2 ?_
        rw [last]
        exact cutEnd_lt less (Nat.le_refl _)
  · rintro ⟨plain, trees⟩
    constructor
    · intro cut listed
      have := Splitting.mem_cuts positive listed
      have before : cut - 1 + 1 = cut := by omega
      have splits := (plain (cut - 1) (mem_rawRange.mpr (by omega))).1
      rwa [before] at splits
    · intro range job entity inside
      have bounds := Splitting.mem_ranges positive job
      have := mem_rawRange.mp inside
      obtain ⟨splits, complete⟩ := plain entity (mem_rawRange.mpr (by omega))
      refine ⟨fun member listed => ⟨splits member listed, fun last => ?_⟩, complete⟩
      rcases trees with uncut | trees
      · rw [Splitting.ranges_of_cuts uncut] at job
        cases List.mem_singleton.mp job
        simp [cutEnd] at last
      · exact trees member listed

theorem parEntitiesWith_exactly (filled : ∀ member ∈ members, member.Filled)
    (splitting : Splitting) (positive : 1 ≤ ealloc.gauge) (bound : ealloc.gauge < 2 ^ w) :
    Exactly (splitting.Fits w 1 ealloc.gauge ∧
        (∀ entity ∈ rawRange 1 ealloc.gauge, Plain members entity) ∧
        (splitting.cuts 1 ealloc.gauge = [] ∨ ∀ member ∈ members, ¬ member.WritesTree))
      (parEntitiesWith w splitting ealloc members)
      (· = (rawRange 1 ealloc.gauge).map (entry members)) := by
  have jobs : ∀ jobs : List (Slice × Tuple C),
      List.Forall₂ (JobShows members ealloc.gauge) (splitting.ranges 1 ealloc.gauge) jobs →
      Exactly (∀ range ∈ splitting.ranges 1 ealloc.gauge, ∀ entity ∈ rawRange range.1 range.2,
          Yields members (cutEnd ealloc.gauge range.2) entity)
        (jobs.mapM fun job => takeEntities w job.2 (rawRange job.1.start job.1.stop))
        (List.Forall₂ (fun range list => list = (rawRange range.1 range.2).map (entry members))
          (splitting.ranges 1 ealloc.gauge)) := by
    intro jobs shown
    apply Exactly.mapM shown
    intro range listed job shown
    obtain ⟨rfl, first, before, -, shown⟩ := shown
    have := Splitting.mem_ranges positive listed
    refine takeEntities_exactly shown filled (List.pairwise_lt_range' _) (fun entity inside => ?_)
      fun entity inside => ?_
    · have inside := mem_rawRange.mp inside
      exact ⟨Nat.le_trans before inside.1, le_cutEnd inside.2⟩
    · have inside := mem_rawRange.mp inside
      dsimp only at this
      omega
  refine ((parRawChunks_exactly filled splitting positive).bind fun found shown =>
    (jobs found shown).bind_pure fun lists same => ?_).mono ?_ fun _ last => last
  · rw [eq_map_of_forall₂ same, ← splitting.ranges_flatMap positive,
      List.map_flatMap]
    rfl
  · rw [and_assoc, jobs_yield positive]

theorem entitiesWith_exactly (filled : ∀ member ∈ members, member.Filled)
    (bound : ealloc.gauge < 2 ^ w)
    (inside : ∀ id ∈ ealloc.recyclable, 1 ≤ id ∧ id < ealloc.gauge) :
    Exactly (∀ entity ∈ ealloc.asSlice.allocated, Plain members entity)
      (entitiesWith w ealloc members) (· = ealloc.asSlice.allocated.map (entry members)) := by
  obtain ⟨chunks, run, listed⟩ := iterAllocatedChunks_ok ealloc bound inside
  rw [entitiesWith, run, ok_bind, listed]
  refine (takeEntities_exactly (tupleShows_intoZip members) filled ?_ (fun entity _ => ?_)
    fun entity inside => ?_).mono ?_ fun _ last => last
  · exact (List.pairwise_lt_range' _).filter _
  · exact ⟨Nat.zero_le _, nofun⟩
  · have := List.mem_range'_1.mp (List.mem_filter.mp inside).1
    omega
  · refine forall₂_congr fun entity _ => and_congr_left fun _ => forall₂_congr fun member _ => ?_
    exact and_iff_left nofun

end

end Dynec.System
