import Dynec.Entity.Distribute

/-!
# Water filling

The target sizes raise the smallest shards to one level. The cost of a level is
computed on machine integers, and it may be larger than they are although the sizes
and the IDs together are not.
-/

namespace Dynec.Entity

open Fallible

/-! ## The levels -/

/-- The sizes after `total` was poured over them. -/
structure WaterFills (sizes targets : List Nat) (total : Nat) : Prop where
  grows : List.Forall₂ (· ≤ ·) sizes targets
  sum : targets.sum = sizes.sum + total
  sorted : targets.Pairwise (· ≤ ·)
  level : ∀ (i old new : Nat), sizes[i]? = some old → targets[i]? = some new → old < new →
    ∀ other ∈ targets, new ≤ other + 1

theorem WaterFills.refl {sizes : List Nat} (sorted : sizes.Pairwise (· ≤ ·)) :
    WaterFills sizes sizes 0 := by
  refine ⟨List.forall₂_same.mpr fun _ _ => Nat.le_refl _, rfl, sorted, ?_⟩
  intro i old new found found' lt
  cases found.symm.trans found'
  exact absurd lt (Nat.lt_irrefl _)

/-- The level does not rise above the next size. -/
theorem level_le {total size : Nat} {past rest : List Nat} {d : Distribution}
    (filled : Filling total past (size :: rest) d)
    (stops : total ≤ d.added + (size - d.target) * past.length) :
    d.target + (total - d.added) / past.length ≤ size ∧
      (0 < (total - d.added) % past.length →
        d.target + (total - d.added) / past.length + 1 ≤ size) := by
  have above := filled.above size List.mem_cons_self
  have division := Nat.div_add_mod (total - d.added) past.length
  have cost : total - d.added ≤ past.length * (size - d.target) := by
    rw [Nat.mul_comm]
    omega
  have quotient : (total - d.added) / past.length ≤ size - d.target :=
    Nat.div_le_of_le_mul cost
  refine ⟨by omega, fun left => ?_⟩
  have less : (total - d.added) / past.length < size - d.target := by
    by_contra full
    have same : (total - d.added) / past.length = size - d.target := by omega
    rw [same] at division
    omega
  omega

/-- What `distribute_sorted` returns, in terms of the sizes that it raises. -/
theorem distributeSorted_levels {sizes : List Nat} (total : Nat)
    (sorted : sizes.Pairwise (· ≤ ·)) (nonempty : sizes ≠ []) (pos : 0 < total) :
    ∃ past rest d, distributeLoop total 0 sizes ⟨0, 0, 0⟩ = .ok d ∧ sizes = past ++ rest ∧
      Filling total past rest d ∧ 0 < past.length ∧
      ∀ size later, rest = size :: later →
        total ≤ d.added + (size - d.target) * past.length := by
  have filling : Filling total [] sizes ⟨0, 0, 0⟩ :=
    ⟨sorted, rfl, rfl, by simp, fun _ _ => Nat.zero_le _, fun h => absurd rfl h⟩
  obtain ⟨past, rest, d, run, split, filled, ends, stops⟩ := distributeLoop_ok filling fun _ => rfl
  refine ⟨past, rest, d, run, split, filled, List.length_pos_iff.mpr fun empty => ?_, stops⟩
  rcases ends empty with last | none
  · rw [empty, last] at split
    exact nonempty split
  · omega

theorem distributeSorted_zero (sizes : List Nat) : distributeSorted sizes 0 = .ok sizes := by
  cases sizes with
  | nil => rfl
  | cons size rest => simp [distributeSorted, distributeLoop]

/-- The shards that were raised stand at the level or one above. -/
theorem mem_raised {low high level size : Nat}
    (member : size ∈ List.replicate low level ++ List.replicate high (level + 1)) :
    size = level ∨ size = level + 1 ∧ 0 < high := by
  rcases List.mem_append.mp member with below | above
  · exact .inl (List.eq_of_mem_replicate below)
  · have some := List.length_pos_of_mem above
    rw [List.length_replicate] at some
    exact .inr ⟨List.eq_of_mem_replicate above, some⟩

theorem raised_sorted (low high level : Nat) :
    (List.replicate low level ++ List.replicate high (level + 1)).Pairwise (· ≤ ·) := by
  apply List.pairwise_append.mpr
  refine ⟨List.pairwise_replicate.mpr (.inr (Nat.le_refl _)),
    List.pairwise_replicate.mpr (.inr (Nat.le_refl _)), fun below member above member' => ?_⟩
  rw [List.eq_of_mem_replicate member, List.eq_of_mem_replicate member']
  exact Nat.le_succ level

theorem distributeSorted_fills {sizes : List Nat} (total : Nat) (sorted : sizes.Pairwise (· ≤ ·))
    (nonempty : sizes ≠ []) : ∃ targets, distributeSorted sizes total = .ok targets ∧
      WaterFills sizes targets total := by
  rcases Nat.eq_zero_or_pos total with rfl | some
  · exact ⟨sizes, distributeSorted_zero sizes, .refl sorted⟩
  obtain ⟨targets, run, grows, sum⟩ := distributeSorted_ok total sorted nonempty
  obtain ⟨past, rest, d, loop, rfl, filled, pos, stops⟩ :=
    distributeSorted_levels total sorted nonempty some
  have short := filled.short (List.length_pos_iff.mp pos)
  generalize level : d.target + (total - d.added) / past.length = L
  generalize remainder : (total - d.added) % past.length = r
  have small : r < past.length := remainder ▸ Nat.mod_lt _ pos
  have next : ∀ size ∈ rest, L ≤ size ∧ (0 < r → L + 1 ≤ size) := by
    cases rest with
    | nil => exact nofun
    | cons first later =>
      have bound := level_le filled (stops first later rfl)
      rw [level, remainder] at bound
      intro size member
      have least : first ≤ size := by
        rcases List.mem_cons.mp member with rfl | member
        · exact Nat.le_refl _
        · exact (List.pairwise_cons.mp filled.sorted).1 size member
      omega
  have result : targets =
      List.replicate (past.length - r) L ++ List.replicate r (L + 1) ++ rest := by
    rw [distributeSorted, loop, ok_bind, filled.used, if_neg (by omega), if_neg (by omega)] at run
    simp only [level, remainder, List.drop_left] at run
    exact (Except.ok.inj run).symm
  subst result
  refine ⟨_, run, grows, sum, ?_, ?_⟩
  · apply List.pairwise_append.mpr
    refine ⟨raised_sorted _ _ _, filled.sorted, fun raised member size kept => ?_⟩
    have bound := next size kept
    rcases mem_raised member with rfl | ⟨rfl, above⟩
    · exact bound.1
    · exact bound.2 above
  · intro i old new found found' lt other member
    have bottom : L ≤ other := by
      rcases List.mem_append.mp member with raised | kept
      · rcases mem_raised raised with rfl | ⟨rfl, -⟩
        · exact Nat.le_refl _
        · exact Nat.le_succ _
      · exact (next other kept).1
    have length : (List.replicate (past.length - r) L ++ List.replicate r (L + 1)).length =
        past.length := by
      simp only [List.length_append, List.length_replicate]
      omega
    by_cases raised : i < past.length
    · rw [List.getElem?_append_left (by omega)] at found'
      rcases mem_raised (List.mem_of_getElem? found') with rfl | ⟨rfl, -⟩
      · omega
      · omega
    · rw [List.getElem?_append_right (by omega)] at found found'
      rw [length] at found'
      cases found.symm.trans found'
      exact absurd lt (Nat.lt_irrefl _)

/-! ## Machine integers -/

section Bounded

variable (max : Nat)

/-- Addition on machine integers up to `max`. -/
def addIn (a b : Nat) : Except Panic Nat :=
  if a + b ≤ max then .ok (a + b) else .error .arithmeticOverflow

/-- Multiplication on machine integers up to `max`. -/
def mulIn (a b : Nat) : Except Panic Nat :=
  if a * b ≤ max then .ok (a * b) else .error .arithmeticOverflow

/-- Subtraction on machine integers. -/
def subIn (a b : Nat) : Except Panic Nat :=
  if a < b then .error .arithmeticOverflow else .ok (a - b)

/-- The loop of `distribute_sorted` on machine integers, with overflow checks. -/
def distributeLoopIn (total : Nat) : Nat → List Nat → Distribution → Except Panic Distribution
  | _, [], d => .ok d
  | i, size :: rest, d => do
    let above ← subIn size d.target
    let delta ← mulIn max above i
    let added ← addIn max d.added delta
    if total ≤ added then return d
    else distributeLoopIn total (i + 1) rest ⟨added, size, d.shardsUsed + 1⟩

/-- `distribute_sorted` on machine integers, with overflow checks. -/
def distributeSortedIn (sizes : List Nat) (total : Nat) : Except Panic (List Nat) := do
  let d ← distributeLoopIn max total 0 sizes ⟨0, 0, 0⟩
  if d.shardsUsed = 0 then
    return sizes
  else
    let deficit ← subIn total d.added
    let target ← addIn max d.target (deficit / d.shardsUsed)
    let remainder := deficit % d.shardsUsed
    let next ← addIn max target 1
    return List.replicate (d.shardsUsed - remainder) target ++
      List.replicate remainder next ++ sizes.drop d.shardsUsed

/-- What it costs to raise the sizes before the one at `i` to that one. -/
def levelCost (sizes : List Nat) (i : Nat) : Nat := i * sizes[i]?.getD 0 - (sizes.take i).sum

/-- Every cost that is computed fits, up to the first that `total` does not cover, and
there is room for one more than a single size. -/
def LevelsFit (sizes : List Nat) (total : Nat) : Prop :=
  (∀ i < sizes.length, (∀ j < i, levelCost sizes j < total) → levelCost sizes i ≤ max) ∧
    (0 < total → sizes.length = 1 → sizes.sum + total < max)

variable {max} {total : Nat}

theorem Filling.levelCost {size : Nat} {past rest : List Nat} {d : Distribution}
    (filled : Filling total past (size :: rest) d) :
    levelCost (past ++ size :: rest) past.length = d.added + (size - d.target) * past.length := by
  have ge := filled.above size List.mem_cons_self
  have spent := filled.spent
  have raise : (size - d.target) * past.length + past.length * d.target = past.length * size := by
    rw [Nat.mul_comm, ← Nat.mul_add, Nat.sub_add_cancel ge]
  simp only [Entity.levelCost, List.take_left, List.getElem?_append_right (Nat.le_refl _),
    Nat.sub_self, List.getElem?_cons_zero, Option.getD_some]
  omega

/-- The loop returns if and only if the costs that it computes fit. -/
theorem distributeLoopIn_exactly {past rest : List Nat} {d : Distribution}
    (filled : Filling total past rest d) :
    Exactly (∀ i, past.length ≤ i → i < (past ++ rest).length →
        (∀ j, past.length ≤ j → j < i → levelCost (past ++ rest) j < total) →
        levelCost (past ++ rest) i ≤ max)
      (distributeLoopIn max total past.length rest d)
      (fun d' => distributeLoop total past.length rest d = .ok d') := by
  induction rest generalizing past d with
  | nil =>
    refine .ok (a := d) (fun i later inside => ?_) rfl
    rw [List.append_nil] at inside
    omega
  | cons size rest ih =>
    have ge : ¬ size < d.target := Nat.not_lt.mpr (filled.above size List.mem_cons_self)
    have cost := filled.levelCost
    simp only [distributeLoopIn, distributeLoop, subIn, ge, if_false, ok_bind]
    by_cases fits : levelCost (past ++ size :: rest) past.length ≤ max
    · rw [cost] at fits
      rw [mulIn, if_pos (by omega), ok_bind, addIn, if_pos fits, ok_bind]
      by_cases stop : total ≤ d.added + (size - d.target) * past.length
      · rw [if_pos stop, if_pos stop]
        refine .ok (a := d) (fun i later inside earlier => ?_) rfl
        rcases Nat.eq_or_lt_of_le later with rfl | later
        · rw [cost]
          exact fits
        · have := earlier past.length (Nat.le_refl _) later
          omega
      · rw [if_neg stop, if_neg stop]
        have length : (past ++ [size]).length = past.length + 1 := by simp
        have next := ih (filled.next (Nat.not_le.mp stop))
        rw [length, List.append_assoc, List.singleton_append] at next
        apply next.mono _ fun _ same => same
        constructor
        · intro all i later inside earlier
          rcases Nat.eq_or_lt_of_le later with rfl | later
          · rw [cost]
            exact fits
          · exact all i later inside fun j after => earlier j (Nat.le_of_succ_le after)
        · intro all i later inside earlier
          apply all i (Nat.le_of_succ_le later) inside
          intro j after before
          rcases Nat.eq_or_lt_of_le after with rfl | after
          · rw [cost]
            exact Nat.not_le.mp stop
          · exact earlier j after before
    · refine ⟨fun all => absurd ?_ fits, fun _ => ?_⟩
      · apply all past.length (Nat.le_refl _)
        · simp
        · omega
      · rw [cost] at fits
        by_cases small : (size - d.target) * past.length ≤ max
        · rw [mulIn, if_pos small, ok_bind, addIn, if_neg fits]
          exact ⟨_, rfl⟩
        · rw [mulIn, if_neg small]
          exact ⟨_, rfl⟩

/-- The sizes that are raised, and what is added to them, reach the level. -/
theorem Filling.level_sum {past rest : List Nat} {d : Distribution}
    (filled : Filling total past rest d) (pos : 0 < past.length) :
    past.length * (d.target + (total - d.added) / past.length) +
      (total - d.added) % past.length = past.sum + total := by
  have short := filled.short (List.length_pos_iff.mp pos)
  have spent := filled.spent
  have division := Nat.div_add_mod (total - d.added) past.length
  rw [Nat.mul_add]
  omega

/-- One more than the level fits, unless a single size is raised to `max`. -/
theorem Filling.next_le {past rest : List Nat} {d : Distribution}
    (filled : Filling total past rest d) (pos : 0 < past.length) (fits : past.sum + rest.sum + total ≤ max)
    (stops : ∀ size later, rest = size :: later →
      total ≤ d.added + (size - d.target) * past.length) :
    d.target + (total - d.added) / past.length + 1 ≤ max ↔
      ((past ++ rest).length = 1 → (past ++ rest).sum + total < max) := by
  have short := filled.short (List.length_pos_iff.mp pos)
  have whole := filled.level_sum pos
  rw [List.sum_append, List.length_append]
  constructor
  · intro le single
    have one : past.length = 1 := by omega
    have none : rest = [] := List.length_eq_zero_iff.mp (by omega)
    rw [one] at whole le
    rw [none, List.sum_nil]
    have := Nat.mod_one (total - d.added)
    omega
  · intro room
    by_contra full
    generalize d.target + (total - d.added) / past.length = level at whole full
    have one : past.length = 1 := by
      by_contra several
      have twice : 2 * level ≤ past.length * level := Nat.mul_le_mul_right _ (by omega)
      omega
    cases rest with
    | nil => simp only [List.sum_nil, List.length_nil] at room; simp only [one] at whole; omega
    | cons size later =>
      have stop := stops size later rfl
      rw [one] at whole stop
      simp only [List.sum_cons] at fits
      omega

theorem distributeSortedIn_zero (sizes : List Nat) : distributeSortedIn max sizes 0 = .ok sizes := by
  cases sizes with
  | nil => rfl
  | cons size rest =>
    simp [distributeSortedIn, distributeLoopIn, subIn, mulIn, addIn]

/-- `distribute_sorted` returns on machine integers if and only if the levels fit,
and then it returns what it returns without a bound. -/
theorem distributeSortedIn_exactly {sizes : List Nat} (sorted : sizes.Pairwise (· ≤ ·))
    (nonempty : sizes ≠ []) (fits : sizes.sum + total ≤ max) :
    Exactly (LevelsFit max sizes total) (distributeSortedIn max sizes total)
      (fun targets => distributeSorted sizes total = .ok targets) := by
  rcases Nat.eq_zero_or_pos total with rfl | some
  · rw [distributeSortedIn_zero]
    refine .ok ⟨fun i inside earlier => ?_, nofun⟩ (distributeSorted_zero sizes)
    cases i with
    | zero => simp [levelCost]
    | succ i => exact absurd (earlier i (Nat.lt_succ_self i)) (Nat.not_lt_zero _)
  · have filling : Filling total [] sizes ⟨0, 0, 0⟩ :=
      ⟨sorted, rfl, rfl, by simp, fun _ _ => Nat.zero_le _, fun h => absurd rfl h⟩
    have loop := @distributeLoopIn_exactly max total [] sizes ⟨0, 0, 0⟩ filling
    simp only [List.length_nil, List.nil_append, Nat.zero_le, true_implies] at loop
    unfold distributeSortedIn
    apply loop.bind
    intro d run
    obtain ⟨past, rest, d', run', rfl, filled, pos, stops⟩ :=
      distributeSorted_levels total sorted nonempty some
    cases run.symm.trans run'
    have short := filled.short (List.length_pos_iff.mp pos)
    have whole := filled.level_sum pos
    rw [List.sum_append] at fits
    rw [filled.used, if_neg (by omega), subIn, if_neg (by omega), ok_bind]
    have below : d.target + (total - d.added) / past.length ≤
        past.length * (d.target + (total - d.added) / past.length) :=
      Nat.le_mul_of_pos_left _ pos
    rw [addIn, if_pos (by omega), ok_bind]
    have room := filled.next_le pos fits stops
    by_cases above : d.target + (total - d.added) / past.length + 1 ≤ max
    · simp only [addIn, if_pos above, ok_bind]
      refine .ok (fun _ => room.mp above) ?_
      rw [distributeSorted, run, ok_bind, filled.used, if_neg (by omega), if_neg (by omega)]
      rfl
    · simp only [addIn, if_neg above, error_bind]
      exact .error fun holds => above (room.mpr (holds some))

end Bounded

variable {T Hint : Type} [Recycler T Hint] {max total : Nat} {sizes : List Nat}

/-- **Water filling.** Let the sizes and the IDs together fit in a machine integer.
`distribute_sorted` returns, raises the smallest sizes to one level, and the differences
take all the IDs in `flush`, if and only if the costs that it computes fit too. -/
theorem distribute_sorted_fills (sorted : sizes.Pairwise (· ≤ ·)) (nonempty : sizes ≠ [])
    (fits : sizes.sum + total ≤ max) :
    (∃ targets, distributeSortedIn max sizes total = .ok targets ∧
      WaterFills sizes targets total ∧
      ∀ (shards : List T) (ids : List Nat), ids.length = total →
        (Recycling.sortedShards shards).map (shardLen shards) = sizes →
        ∃ shards', ((Recycling.sortedShards shards).zip targets).foldlM Recycling.fillShard
          (shards, ids) = .ok (shards', [])) ↔
    LevelsFit max sizes total := by
  have exactly := distributeSortedIn_exactly sorted nonempty fits
  constructor
  · rintro ⟨targets, run, -⟩
    exact (exactly.of_ok run).1
  · intro levels
    obtain ⟨targets, run, same⟩ := exactly.returns levels
    obtain ⟨targets', run', fills⟩ := distributeSorted_fills total sorted nonempty
    cases same.symm.trans run'
    refine ⟨targets, run, fills, ?_⟩
    rintro shards ids rfl rfl
    obtain ⟨shards', filled, -⟩ := fillShards_all fills.grows fills.sum
    exact ⟨shards', filled⟩

theorem distribute_sorted_fills_small : ∃ targets,
    distributeSortedIn (2 ^ 64 - 1) [1, 1, 3, 3, 6, 7] 15 = .ok targets ∧
    WaterFills [1, 1, 3, 3, 6, 7] targets 15 := by
  have levels : LevelsFit (2 ^ 64 - 1) [1, 1, 3, 3, 6, 7] 15 := ⟨by decide, by decide⟩
  obtain ⟨targets, run, fills, -⟩ := (@distribute_sorted_fills (List Nat) Unit _ (2 ^ 64 - 1) 15
    [1, 1, 3, 3, 6, 7] (by decide) (by decide) (by decide)).mpr levels
  exact ⟨targets, run, fills⟩

/-- Raising two empty shards to a third of half the range costs more than a 64-bit
integer holds, and raising 16 empty shards to one of 2^28 IDs more than a 32-bit
one. -/
theorem distribute_sorted_fills_high :
    ([0, 0, 2 ^ 63].Pairwise (· ≤ ·) ∧ [0, 0, 2 ^ 63].sum + 1 ≤ 2 ^ 64 - 1 ∧
      ¬ ∃ targets, distributeSortedIn (2 ^ 64 - 1) [0, 0, 2 ^ 63] 1 = .ok targets) ∧
    (List.replicate 16 0 ++ [2 ^ 28]).sum + 1 ≤ 2 ^ 32 - 1 ∧
      ¬ ∃ targets, distributeSortedIn (2 ^ 32 - 1) (List.replicate 16 0 ++ [2 ^ 28]) 1 =
        .ok targets := by
  refine ⟨⟨by decide, by decide, ?_⟩, by decide, ?_⟩
  · rintro ⟨targets, run⟩
    have fails : distributeSortedIn (2 ^ 64 - 1) [0, 0, 2 ^ 63] 1 = .error .arithmeticOverflow := rfl
    cases fails.symm.trans run
  · rintro ⟨targets, run⟩
    have fails : distributeSortedIn (2 ^ 32 - 1) (List.replicate 16 0 ++ [2 ^ 28]) 1 =
      .error .arithmeticOverflow := rfl
    cases fails.symm.trans run

end Dynec.Entity
