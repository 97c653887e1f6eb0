import Dynec.Entity.Recycling
import Dynec.Lib.Count
import Mathlib.Tactic.Ring

/-! Distributing IDs over the shards: the target sizes add up, no subtraction
underflows, and every ID ends in exactly one recycler. -/

namespace Dynec.Entity

open Fallible Count

/-! ## Target sizes -/

/-- The loop of `distribute_sorted` after the sizes of `past`: raising all of
them to `target` costs `added`. -/
structure Filling (total : Nat) (past rest : List Nat) (d : Distribution) : Prop where
  sorted : rest.Pairwise (· ≤ ·)
  used : d.shardsUsed = past.length
  spent : d.added + past.sum = past.length * d.target
  below : ∀ size ∈ past, size ≤ d.target
  above : ∀ size ∈ rest, d.target ≤ size
  short : past ≠ [] → d.added < total

theorem Filling.next {total size : Nat} {past rest : List Nat} {d : Distribution}
    (h : Filling total past (size :: rest) d)
    (more : d.added + (size - d.target) * past.length < total) :
    Filling total (past ++ [size]) rest
      ⟨d.added + (size - d.target) * past.length, size, d.shardsUsed + 1⟩ := by
  obtain ⟨least, sorted⟩ := List.pairwise_cons.mp h.sorted
  have ge := h.above size List.mem_cons_self
  refine ⟨sorted, ?_, ?_, ?_, least, fun _ => more⟩
  · rw [List.length_append, List.length_singleton, h.used]
  · have spent := h.spent
    have raise : (size - d.target) * past.length + past.length * d.target =
        past.length * size := by
      rw [Nat.mul_comm, ← Nat.mul_add, Nat.sub_add_cancel ge]
    simp only [List.sum_append, List.sum_singleton, List.length_append, List.length_singleton,
      Nat.add_mul, Nat.one_mul]
    omega
  · intro x hx
    rcases List.mem_append.mp hx with hx | hx
    · exact Nat.le_trans (h.below x hx) ge
    · rw [List.mem_singleton.mp hx]

theorem distributeLoop_ok {total : Nat} {past rest : List Nat} {d : Distribution}
    (h : Filling total past rest d) (start : past = [] → d.added = 0) :
    ∃ past' rest' d', distributeLoop total past.length rest d = .ok d' ∧
      past ++ rest = past' ++ rest' ∧ Filling total past' rest' d' ∧
      (past' = [] → rest' = [] ∨ total = 0) ∧
      ∀ size later, rest' = size :: later →
        total ≤ d'.added + (size - d'.target) * past'.length := by
  induction rest generalizing past d with
  | nil => exact ⟨past, [], d, rfl, rfl, h, fun _ => .inl rfl, nofun⟩
  | cons size rest ih =>
    have ge : ¬ size < d.target := Nat.not_lt.mpr (h.above size List.mem_cons_self)
    simp only [distributeLoop, ge, if_false]
    by_cases stop : total ≤ d.added + (size - d.target) * past.length
    · refine ⟨past, size :: rest, d, by simp [stop], rfl, h, fun empty => .inr ?_, ?_⟩
      · have none := start empty
        subst empty
        simp only [List.length_nil, Nat.mul_zero] at stop
        omega
      · rintro size later ⟨⟩
        exact stop
    · simp only [stop, if_false]
      have next := h.next (Nat.not_le.mp stop)
      have length : (past ++ [size]).length = past.length + 1 := by simp
      rw [← length]
      obtain ⟨past', rest', d', run, split, filled, ends, stops⟩ := ih next (by simp)
      exact ⟨past', rest', d', run, by rw [← split]; simp, filled, ends, stops⟩

/-- Every size of `raised` fits under a level of at least `target`. -/
theorem forall₂_le_levels {raised : List Nat} {target level remainder : Nat}
    (below : ∀ size ∈ raised, size ≤ target) (le : target ≤ level)
    (small : remainder < raised.length) : List.Forall₂ (· ≤ ·) raised
      (List.replicate (raised.length - remainder) level ++
        List.replicate remainder (level + 1)) := by
  apply List.forall₂_iff_get.mpr
  constructor
  · simp only [List.length_append, List.length_replicate]
    omega
  · intro i hi hi'
    have under := Nat.le_trans (below _ (List.get_mem raised ⟨i, hi⟩)) le
    simp only [List.get_eq_getElem, List.getElem_append] at under ⊢
    split
    · rw [List.getElem_replicate]; exact under
    · rw [List.getElem_replicate]; exact Nat.le_succ_of_le under

/-- The levels add up to the old target and the deficit. -/
theorem sum_levels (target deficit : Nat) {used : Nat} (pos : 0 < used) :
    (used - deficit % used) * (target + deficit / used) +
      deficit % used * (target + deficit / used + 1) = used * target + deficit := by
  have division := Nat.div_add_mod deficit used
  have small := Nat.mod_lt deficit pos
  generalize deficit / used = q at *
  generalize deficit % used = r at *
  obtain ⟨k, hk⟩ := Nat.exists_eq_add_of_lt small
  have rest : used - r = k + 1 := by omega
  rw [rest, ← division, hk]
  ring

/-- Every size grows, and together they grow by `total`. -/
theorem distributeSorted_ok {sizes : List Nat} (total : Nat) (sorted : sizes.Pairwise (· ≤ ·))
    (nonempty : sizes ≠ []) : ∃ targets, distributeSorted sizes total = .ok targets ∧
      List.Forall₂ (· ≤ ·) sizes targets ∧ targets.sum = sizes.sum + total := by
  have filling : Filling total [] sizes ⟨0, 0, 0⟩ :=
    ⟨sorted, rfl, rfl, by simp, fun _ _ => Nat.zero_le _, fun h => absurd rfl h⟩
  obtain ⟨past, rest, d, run, split, filled, ends, -⟩ := distributeLoop_ok filling fun _ => rfl
  simp only [List.length_nil] at run
  simp only [List.nil_append] at split
  simp only [distributeSorted, run, ok_bind, filled.used]
  by_cases empty : past = []
  · subst empty
    have none : total = 0 := by
      rcases ends rfl with last | none
      · exact absurd (split.trans last) nonempty
      · exact none
    refine ⟨sizes, by simp, ?_, by omega⟩
    exact List.forall₂_same.mpr fun _ _ => Nat.le_refl _
  · have pos : 0 < past.length := List.length_pos_iff.mpr empty
    have some_used : ¬ past.length = 0 := by omega
    have short := filled.short empty
    have enough : ¬ total < d.added := by omega
    have small := Nat.mod_lt (total - d.added) pos
    refine ⟨_, by rw [if_neg some_used, if_neg enough]; rfl, ?_, ?_⟩
    · rw [split, List.drop_left]
      exact List.rel_append (forall₂_le_levels filled.below (Nat.le_add_right _ _) small)
        (List.forall₂_same.mpr fun _ _ => Nat.le_refl _)
    · have levels := sum_levels d.target (total - d.added) pos
      have spent := filled.spent
      rw [split, List.drop_left]
      simp only [List.sum_append, List.sum_replicate_nat]
      omega

example : distributeSorted [1, 1, 3, 3, 6, 7] 15 = .ok [5, 6, 6, 6, 6, 7] := rfl

/-! ## Handing out the IDs -/

variable {T Hint : Type} [Recycler T Hint]

/-- How often an ID is in the recyclers. -/
def held (shards : List T) (id : Nat) : Nat := (shards.flatMap Recycler.contents).count id

def shardLen (shards : List T) (i : Nat) : Nat := (shards[i]?.map Recycler.len).getD 0

/-- The state of the loop over the sorted shards: those still to come are
untouched, and the IDs left are what they miss. -/
structure Handing (start : List T) (ids₀ : List Nat) (rest : List (Nat × Nat)) (shards : List T)
    (ids : List Nat) : Prop where
  nodup : (rest.map (·.1)).Nodup
  length : shards.length = start.length
  inside : ∀ e ∈ rest, e.1 < start.length
  same : ∀ e ∈ rest, shards[e.1]? = start[e.1]?
  fits : ∀ e ∈ rest, shardLen start e.1 ≤ e.2
  missing : (rest.map fun e => e.2 - shardLen start e.1).sum = ids.length
  kept : (∀ id, held start id + ids₀.count id ≤ 1) →
    ∀ id, held shards id + ids.count id = held start id + ids₀.count id

/-- A recycler that holds nothing of the new IDs gains them once. -/
theorem count_extend {recycler : T} {l : List Nat}
    (apart : ∀ id, (Recycler.contents recycler).count id + l.count id ≤ 1) (id : Nat) :
    (Recycler.contents (Recycler.extend recycler l)).count id =
      (Recycler.contents recycler).count id + l.count id := by
  have nodup : (Recycler.contents recycler ++ l).Nodup := by
    rw [List.nodup_iff_count_le_one]
    intro a
    rw [List.count_append]
    exact apart a
  rw [(Recycler.extend_perm recycler l nodup).count_eq, List.count_append]

theorem fillShard_ok {start shards : List T} {ids₀ ids : List Nat} {e : Nat × Nat}
    {rest : List (Nat × Nat)} (h : Handing start ids₀ (e :: rest) shards ids) :
    ∃ s', Recycling.fillShard (shards, ids) e = .ok s' ∧ Handing start ids₀ rest s'.1 s'.2 := by
  obtain ⟨index, target⟩ := e
  obtain ⟨fresh, nodup⟩ := List.nodup_cons.mp h.nodup
  have inside := h.inside _ List.mem_cons_self
  have same := h.same _ List.mem_cons_self
  have fits := h.fits _ List.mem_cons_self
  simp only at inside same fits
  have found : shards[index]? = some start[index] := by
    rw [same, List.getElem?_eq_getElem inside]
  have len : shardLen start index = Recycler.len start[index] := by
    simp [shardLen, List.getElem?_eq_getElem inside]
  have missing := h.missing
  simp only [List.map_cons, List.sum_cons] at missing
  rw [len] at fits missing
  have up : ¬ target < Recycler.len start[index] := Nat.not_lt.mpr fits
  have enough : ¬ ids.length < target - Recycler.len start[index] := by omega
  refine ⟨(shards.set index (Recycler.extend start[index]
      (ids.take (target - Recycler.len start[index]))),
      ids.drop (target - Recycler.len start[index])), ?_, nodup, ?_, ?_, ?_, ?_, ?_, ?_⟩
  · simp [Recycling.fillShard, found, up, enough]
  · rw [List.length_set, h.length]
  · exact fun k hk => h.inside k (List.mem_cons_of_mem _ hk)
  · intro k hk
    have other : index ≠ k.1 := by
      rintro rfl
      exact fresh (List.mem_map.mpr ⟨k, hk, rfl⟩)
    rw [List.getElem?_set_ne other, h.same k (List.mem_cons_of_mem _ hk)]
  · exact fun k hk => h.fits k (List.mem_cons_of_mem _ hk)
  · rw [List.length_drop]
    omega
  · intro once id
    have kept := h.kept once
    have change := count_flatMap_set (Recycler.contents : T → List Nat) found
      (Recycler.extend start[index] (ids.take (target - Recycler.len start[index]))) id
    have parts : ∀ a, (ids.take (target - Recycler.len start[index])).count a +
        (ids.drop (target - Recycler.len start[index])).count a = ids.count a := by
      intro a
      rw [← List.count_append, List.take_append_drop]
    rw [count_extend (fun a => ?_) id] at change
    · have := kept id
      have := parts id
      unfold held at *
      simp only at change ⊢
      omega
    · have inner := count_le_flatMap (Recycler.contents : T → List Nat) found a
      have := kept a
      have := parts a
      have := once a
      unfold held at *
      omega

theorem mem_sortedShards {shards : List T} {i : Nat} :
    i ∈ Recycling.sortedShards shards ↔ i < shards.length := by
  unfold Recycling.sortedShards
  rw [List.mem_insertionSort, List.mem_range]

theorem nodup_sortedShards (shards : List T) : (Recycling.sortedShards shards).Nodup :=
  (List.perm_insertionSort _ _).nodup_iff.mpr List.nodup_range

theorem sorted_sortedShards (shards : List T) :
    ((Recycling.sortedShards shards).map (shardLen shards)).Pairwise (· ≤ ·) := by
  rw [List.pairwise_map]
  have total : Std.Total fun i j => shardLen shards i ≤ shardLen shards j :=
    ⟨fun i j => Nat.le_total _ _⟩
  have trans : IsTrans Nat fun i j => shardLen shards i ≤ shardLen shards j :=
    ⟨fun _ _ _ h h' => Nat.le_trans h h'⟩
  exact List.pairwise_insertionSort (fun i j => shardLen shards i ≤ shardLen shards j) _

/-- What the targets add to the sizes, pair by pair. -/
theorem sum_zip_sub {order : List Nat} {size : Nat → Nat} {targets : List Nat}
    (le : List.Forall₂ (· ≤ ·) (order.map size) targets) :
    ((order.zip targets).map fun e => e.2 - size e.1).sum + (order.map size).sum =
      targets.sum := by
  induction order generalizing targets with
  | nil => cases le; rfl
  | cons i order ih =>
    cases le with
    | @cons _ target _ targets first rest =>
      have := ih rest
      simp only [List.zip_cons_cons, List.map_cons, List.sum_cons]
      omega

theorem mem_zip_le {order : List Nat} {size : Nat → Nat} {targets : List Nat}
    (le : List.Forall₂ (· ≤ ·) (order.map size) targets) :
    ∀ e ∈ order.zip targets, size e.1 ≤ e.2 := by
  induction order generalizing targets with
  | nil => simp
  | cons i order ih =>
    cases le with
    | @cons _ target _ targets first rest =>
      intro e he
      rw [List.zip_cons_cons] at he
      rcases List.mem_cons.mp he with rfl | he
      · exact first
      · exact ih rest e he

theorem fillShards_ok {start shards : List T} {ids₀ ids : List Nat} {rest : List (Nat × Nat)}
    (h : Handing start ids₀ rest shards ids) :
    ∃ s', rest.foldlM Recycling.fillShard (shards, ids) = .ok s' ∧
      Handing start ids₀ [] s'.1 s'.2 :=
  foldlM_total (s := (shards, ids)) (fun rest s => Handing start ids₀ rest s.1 s.2) h
    fun _ _ _ next => fillShard_ok next

/-- Targets that add up take all the IDs. -/
theorem fillShards_all {shards : List T} {ids targets : List Nat}
    (le : List.Forall₂ (· ≤ ·) ((Recycling.sortedShards shards).map (shardLen shards)) targets)
    (sum : targets.sum =
      ((Recycling.sortedShards shards).map (shardLen shards)).sum + ids.length) :
    ∃ shards', ((Recycling.sortedShards shards).zip targets).foldlM Recycling.fillShard
        (shards, ids) = .ok (shards', []) ∧ shards'.length = shards.length ∧
      ((∀ id, held shards id + ids.count id ≤ 1) →
        ∀ id, held shards' id = held shards id + ids.count id) := by
  generalize horder : Recycling.sortedShards shards = order at le sum ⊢
  have length : targets.length = order.length := by
    rw [← le.length_eq, List.length_map]
  have first : (order.zip targets).map (·.1) = order :=
    List.map_fst_zip (Nat.le_of_eq length.symm)
  have start : Handing shards ids (order.zip targets) shards ids := by
    refine ⟨?_, rfl, ?_, fun _ _ => rfl, mem_zip_le le, ?_, fun _ _ => rfl⟩
    · rw [first, ← horder]; exact nodup_sortedShards shards
    · intro e he
      rw [← mem_sortedShards, horder, ← first]
      exact List.mem_map.mpr ⟨e, he, rfl⟩
    · have := sum_zip_sub le
      omega
  obtain ⟨⟨shards', ids'⟩, fold, done⟩ := fillShards_ok start
  have none : ids' = [] := by
    have := done.missing
    simp only [List.map_nil, List.sum_nil] at this
    exact List.length_eq_zero_iff.mp this.symm
  subst none
  refine ⟨shards', fold, done.length, fun once id => ?_⟩
  have := done.kept once id
  simpa using this

/-- **Distribution.** With at least one shard every ID is handed out, and none
is lost or doubled. -/
theorem distribute_ok {shards : List T} (nonempty : shards ≠ []) (ids : List Nat) :
    ∃ shards', Recycling.distribute shards ids = .ok shards' ∧ shards'.length = shards.length ∧
      ((∀ id, held shards id + ids.count id ≤ 1) →
        ∀ id, held shards' id = held shards id + ids.count id) := by
  have some : (Recycling.sortedShards shards).map (shardLen shards) ≠ [] := by
    intro empty
    have zero : (0 : Nat) ∈ Recycling.sortedShards shards :=
      mem_sortedShards.mpr (List.length_pos_iff.mpr nonempty)
    rw [List.map_eq_nil_iff.mp empty] at zero
    cases zero
  obtain ⟨targets, run, le, sum⟩ :=
    distributeSorted_ok ids.length (sorted_sortedShards shards) some
  obtain ⟨shards', fold, length, kept⟩ := fillShards_all le sum
  refine ⟨shards', ?_, length, kept⟩
  unfold Recycling.distribute
  change (distributeSorted ((Recycling.sortedShards shards).map (shardLen shards)) ids.length >>=
    _) = _
  rw [run, ok_bind, fold]
  rfl

end Dynec.Entity
