import Dynec.Scheduler.Builder
import Dynec.Lib.Count

/-! What the maps built from the orders contain: the dependents of a node, and
the initial planner once the partitions without dependencies are trimmed. -/

namespace Dynec.Scheduler

open Fallible Count

/-- The nodes ordered after `node`, once for each order. -/
def orderedAfter (orders : List Order) (node : Node) : List Node :=
  (orders.filter (·.before = node)).map (·.after)

theorem count_orderedAfter (orders : List Order) (a b : Node) :
    (orderedAfter orders a).count b = orders.countP (fun o => o.before = a ∧ o.after = b) := by
  induction orders with
  | nil => rfl
  | cons o orders ih =>
    have split : orderedAfter (o :: orders) a =
        (if o.before = a then [o.after] else []) ++ orderedAfter orders a := by
      by_cases h : o.before = a <;> simp [orderedAfter, h]
    rw [split, List.count_append, ih, List.countP_cons]
    by_cases h : o.before = a <;> by_cases h' : o.after = b <;> simp [h, h', Nat.add_comm]

theorem mem_orderedAfter {orders : List Order} {a b : Node} :
    b ∈ orderedAfter orders a ↔ ∃ o ∈ orders, o.before = a ∧ o.after = b := by
  simp [orderedAfter, and_assoc]

/-- A table over the nodes of the schedule that holds `f n` for node `n`. -/
def Tabulates {V : Type} (m : HashMap Node V) (nodes : List Node) (f : Node → V) : Prop :=
  ∀ n, m.lookup n = if n ∈ nodes then some (f n) else none

theorem Tabulates.mem_keys {V : Type} {m : HashMap Node V} {nodes : List Node} {f : Node → V}
    (tab : Tabulates m nodes f) (n : Node) : n ∈ m.keys ↔ n ∈ nodes := by
  rw [HashMap.mem_keys_iff, tab n]
  split
  · simp [*]
  · simp [*]

theorem buildDependentsMap_ok {nodes : List Node} {orders : List Order}
    {m : HashMap Node (List Node)} (h : buildDependentsMap nodes orders = .ok m) :
    Tabulates m nodes (orderedAfter orders) := by
  refine foldlM_ok h (fun past m => Tabulates m nodes (orderedAfter past)) ?_ ?_
  · intro n; simp [orderedAfter]
  · intro past o m m' _ tab step
    unfold pushDependent at step
    obtain ⟨list, hl, step⟩ := bind_eq_ok.mp step
    cases step
    have old := expect_eq_ok.mp hl
    rw [tab o.before] at old
    split at old
    · rename_i known
      cases old
      intro n
      rw [HashMap.lookup_insert_ite]
      by_cases e : n = o.before
      · subst e; simp [known, orderedAfter]
      · rw [if_neg e, tab n]
        simp [orderedAfter, Ne.symm e]
    · cases old

theorem countDependency_ok {nodes : List Node} {orders : List Order} {m : HashMap Node Nat}
    (h : orders.foldlM countDependency (HashMap.ofKeys nodes fun _ => 0) = .ok m) :
    Tabulates m nodes (fun n => orders.countP (·.after = n)) := by
  refine foldlM_ok h (fun past m => Tabulates m nodes (fun n => past.countP (·.after = n))) ?_ ?_
  · intro n; simp
  · intro past o m m' _ tab step
    unfold countDependency at step
    obtain ⟨count, hc, step⟩ := bind_eq_ok.mp step
    cases step
    have old := expect_eq_ok.mp hc
    rw [tab o.after] at old
    split at old
    · rename_i known
      cases old
      intro n
      rw [HashMap.lookup_insert_ite]
      by_cases e : n = o.after
      · subst e; simp [known]
      · rw [if_neg e, tab n]
        simp [Ne.symm e]
    · cases old

/-! ## Trimming -/

/-- `m'` is `m` with one taken off each count for every occurrence in `l`. -/
def Lowered (m m' : HashMap Node Nat) (l : List Node) : Prop :=
  ∀ n, m.lookup n = (m'.lookup n).map (· + l.count n)

theorem Lowered.trans {m m' m'' : HashMap Node Nat} {l l' : List Node} (h : Lowered m m' l)
    (h' : Lowered m' m'' l') : Lowered m m'' (l' ++ l) := by
  intro n
  rw [h n, h' n, Option.map_map]
  congr 1
  funext c
  simp only [Function.comp, List.count_append]
  omega

theorem Lowered.tabulates {m m' : HashMap Node Nat} {nodes l : List Node} {f : Node → Nat}
    (tab : Tabulates m nodes f) (h : Lowered m m' l) :
    ∃ g, Tabulates m' nodes g ∧ ∀ n ∈ nodes, g n + l.count n = f n := by
  have here : ∀ n ∈ nodes, ∃ c, m'.lookup n = some c ∧ c + l.count n = f n := by
    intro n known
    have hn := h n
    rw [tab n, if_pos known] at hn
    cases found : m'.lookup n with
    | none => simp [found] at hn
    | some c =>
      simp only [found, Option.map_some, Option.some.injEq] at hn
      exact ⟨c, rfl, hn.symm⟩
  refine ⟨fun n => (m'.lookup n).getD 0, fun n => ?_, fun n known => ?_⟩
  · by_cases known : n ∈ nodes
    · obtain ⟨c, found, -⟩ := here n known
      simp [known, found]
    · have hn := h n
      rw [tab n, if_neg known] at hn
      rw [if_neg known]
      exact Option.map_eq_none_iff.mp hn.symm
  · obtain ⟨c, found, sum⟩ := here n known
    simpa [found] using sum

theorem Lowered.congr {m m' : HashMap Node Nat} {l l' : List Node} (h : Lowered m m' l)
    (same : ∀ n, l.count n = l'.count n) : Lowered m m' l' := fun n => by rw [h n, same n]

/-- The partitions among `l`. -/
def partitionIndices (l : List Node) : List PartitionIndex :=
  l.filterMap fun node => match node with | .partition index => some index | _ => none

theorem count_partitionIndices (l : List Node) (i : PartitionIndex) :
    (partitionIndices l).count i = l.count (.partition i) := by
  induction l with
  | nil => rfl
  | cons n l ih =>
    cases n with
    | partition j =>
      simp only [partitionIndices, List.filterMap_cons, List.count_cons] at ih ⊢
      rw [ih]
      simp
    | sendSystem j | unsendSystem j =>
      simp only [partitionIndices, List.filterMap_cons, List.count_cons] at ih ⊢
      rw [ih]
      simp

theorem partitionIndices_length_le (l : List Node) : (partitionIndices l).length ≤ l.length :=
  List.length_filterMap_le _ l

theorem trimDependent_ok {d : Node} {m m' : HashMap Node Nat} {pars pars' : List PartitionIndex}
    (h : trimDependent (m, pars) d = .ok (m', pars')) :
    pars' = pars ++ partitionIndices [d] ∧ Lowered m m' [d] := by
  unfold trimDependent at h
  obtain ⟨count, found, h⟩ := bind_eq_ok.mp h
  have old : m.lookup d = some count := expect_eq_ok.mp found
  split at h
  · cases h
  · rename_i nonzero
    have lowered : Lowered m (AList.insert d (count - 1) m) [d] := by
      intro n
      rw [HashMap.lookup_insert_ite]
      by_cases e : n = d
      · subst e
        simp only [old, if_true, Option.map_some, Option.some.injEq, List.count_singleton_self]
        omega
      · simp [e, Ne.symm e]
    cases d with
    | partition i =>
      cases h
      exact ⟨rfl, lowered⟩
    | sendSystem i | unsendSystem i =>
      cases h
      exact ⟨by simp [partitionIndices], lowered⟩

/-- Trimming the dependents of a partition takes one off each of their counts
and queues the partitions among them. -/
theorem trimDependents_ok {list : List Node} {m m' : HashMap Node Nat}
    {pars pars' : List PartitionIndex}
    (h : list.foldlM trimDependent (m, pars) = .ok (m', pars')) :
    pars' = pars ++ partitionIndices list ∧ Lowered m m' list := by
  refine foldlM_ok h (fun past s => s.2 = pars ++ partitionIndices past ∧ Lowered m s.1 past)
    ⟨(List.append_nil pars).symm, fun n => by simp⟩ ?_
  rintro past d ⟨c, q⟩ ⟨c', q'⟩ _ ⟨queued, low⟩ step
  obtain ⟨queued', low'⟩ := trimDependent_ok step
  dsimp only at queued
  constructor
  · dsimp only
    rw [queued', queued, List.append_assoc]
    simp only [partitionIndices, List.filterMap_append]
  · apply (low.trans low').congr
    intro n
    rw [List.count_append, List.count_append, Nat.add_comm]

/-- The counts that popping the partitions of a list takes one off. -/
def lowers (orders : List Order) (popped : List PartitionIndex) : List Node :=
  popped.flatMap fun p => orderedAfter orders (.partition p)

/-- Where the trimming loop stands when it has popped `popped`, with the counts
`m'` and the worklist `left`. -/
structure Trimmed (orders : List Order) (m : HashMap Node Nat) (pars : List PartitionIndex)
    (popped : List PartitionIndex) (m' : HashMap Node Nat) (left : List PartitionIndex) :
    Prop where
  lowered : Lowered m m' (lowers orders popped)
  queued : ∀ p, popped.count p + left.count p =
    pars.count p + (lowers orders popped).count (.partition p)
  length : popped.length + left.length ≤ pars.length + (lowers orders popped).length

theorem Trimmed.start (orders : List Order) (m : HashMap Node Nat) (pars : List PartitionIndex) :
    Trimmed orders m pars [] m pars :=
  ⟨fun n => by simp [lowers], fun p => by simp [lowers], by simp [lowers]⟩

theorem Trimmed.pop {orders : List Order} {m m₁ m₂ : HashMap Node Nat}
    {pars popped rest pars₂ : List PartitionIndex} {p : PartitionIndex}
    (h : Trimmed orders m pars popped m₁ (rest ++ [p]))
    (trim : (orderedAfter orders (.partition p)).foldlM trimDependent (m₁, rest) =
      .ok (m₂, pars₂)) :
    Trimmed orders m pars (p :: popped) m₂ pars₂ := by
  obtain ⟨rfl, low⟩ := trimDependents_ok trim
  have split : lowers orders (p :: popped) =
      orderedAfter orders (.partition p) ++ lowers orders popped := List.flatMap_cons
  refine ⟨split ▸ h.lowered.trans low, fun q => ?_, ?_⟩
  · have queued := h.queued q
    simp only [split, List.count_append, List.count_cons, List.count_nil,
      count_partitionIndices] at queued ⊢
    omega
  · have length := h.length
    have fewer := partitionIndices_length_le (orderedAfter orders (.partition p))
    simp only [split, List.length_append, List.length_cons, List.length_nil] at length ⊢
    omega

theorem trimLoop_trimmed {nodes : List Node} {orders : List Order}
    {dependents : HashMap Node (List Node)} (tab : Tabulates dependents nodes (orderedAfter orders))
    {m : HashMap Node Nat} {pars : List PartitionIndex} (n : Nat) {m₁ m' : HashMap Node Nat}
    {popped worklist left : List PartitionIndex} (stands : Trimmed orders m pars popped m₁ worklist)
    (h : trimLoop dependents n m₁ worklist = .ok (m', left)) :
    left = [] ∧ ∃ popped', Trimmed orders m pars popped' m' [] := by
  induction n generalizing popped m₁ worklist with
  | zero =>
    unfold trimLoop at h
    split at h
    · rename_i empty
      cases h
      have empty := List.getLast?_eq_none_iff.mp empty
      exact ⟨empty, popped, empty ▸ stands⟩
    · cases h
  | succ n ih =>
    unfold trimLoop at h
    split at h
    · rename_i empty
      cases h
      have empty := List.getLast?_eq_none_iff.mp empty
      exact ⟨empty, popped, empty ▸ stands⟩
    · rename_i par last
      obtain ⟨rest, rfl⟩ := List.getLast?_eq_some_iff.mp last
      dsimp only at h
      obtain ⟨list, hl, h⟩ := bind_eq_ok.mp h
      obtain ⟨⟨m₂, pars₂⟩, trim, loop⟩ := bind_eq_ok.mp h
      have found := expect_eq_ok.mp hl
      rw [tab] at found
      split at found
      · cases found
        rw [List.dropLast_concat] at trim
        exact ih (stands.pop trim) loop
      · cases found

/-- With no order between partitions, the trimming loop pops the initial
worklist and nothing else. -/
theorem trimLoop_ok {nodes : List Node} {orders : List Order}
    {dependents : HashMap Node (List Node)} (tab : Tabulates dependents nodes (orderedAfter orders))
    (systems : ∀ o ∈ orders, o.before.isSystem = true ∨ o.after.isSystem = true) (n : Nat)
    {m m' : HashMap Node Nat} {pars left : List PartitionIndex}
    (h : trimLoop dependents n m pars = .ok (m', left)) :
    left = [] ∧ Lowered m m' (lowers orders pars) := by
  obtain ⟨empty, popped, trimmed⟩ := trimLoop_trimmed tab n (.start orders m pars) h
  have unqueued : ∀ p, (lowers orders popped).count (.partition p) = 0 := by
    intro p
    apply List.count_eq_zero_of_not_mem
    intro member
    obtain ⟨q, -, member⟩ := List.mem_flatMap.mp member
    obtain ⟨o, listed, before, after⟩ := mem_orderedAfter.mp member
    rcases systems o listed with system | system
    · rw [before] at system
      cases system
    · rw [after] at system
      cases system
  have perm : popped.Perm pars := by
    apply List.perm_iff_count.mpr
    intro p
    simpa [unqueued p] using trimmed.queued p
  refine ⟨empty, trimmed.lowered.congr fun n => ?_⟩
  exact (perm.flatMap_right _).count_eq n

/-- A partition that nothing comes before. -/
def depless (orders : List Order) (n : Node) : Bool :=
  !n.isSystem && orders.all (fun o => o.after ≠ n)

theorem mem_deplessOf {nodes : List Node} {orders : List Order} {m : HashMap Node Nat}
    (tab : Tabulates m nodes (fun n => orders.countP (·.after = n))) (i : PartitionIndex) :
    i ∈ deplessOf m ↔ .partition i ∈ nodes ∧ depless orders (.partition i) = true := by
  have found : i ∈ deplessOf m ↔ m.lookup (.partition i) = some 0 := by
    rw [← HashMap.mem_entries_iff]
    simp only [deplessOf, List.mem_filterMap]
    constructor
    · rintro ⟨⟨k, c⟩, he, hs⟩
      cases k <;> cases c <;> simp at hs
      subst hs; exact he
    · intro h; exact ⟨_, h, rfl⟩
  rw [found, tab]
  by_cases known : Node.partition i ∈ nodes
  · simp [known, depless, Node.isSystem, List.countP_eq_zero]
  · simp [known]

theorem nodup_deplessOf (m : HashMap Node Nat) : (deplessOf m).Nodup := by
  have keys : ((deplessOf m).map Node.partition).Sublist m.keys := by
    unfold deplessOf AList.keys List.keys
    generalize m.entries = l
    induction l with
    | nil => simp
    | cons e l ih =>
      obtain ⟨k, c⟩ := e
      cases k <;> cases c <;> first | exact ih.cons _ | exact ih.cons_cons _
  exact List.Nodup.of_map _ (keys.nodup m.keys_nodup)

/-- The dependents of a list of partitions, counted through the orders. -/
theorem count_flatMap_orderedAfter (orders : List Order) {pars : List PartitionIndex}
    (nodup : pars.Nodup) (n : Node) :
    (pars.flatMap fun p => orderedAfter orders (.partition p)).count n =
      orders.countP (fun o => o.after = n ∧ ∃ p ∈ pars, o.before = .partition p) := by
  induction pars with
  | nil => simp
  | cons p pars ih =>
    obtain ⟨fresh, nodup⟩ := List.nodup_cons.mp nodup
    rw [List.flatMap_cons, List.count_append, ih nodup, count_orderedAfter]
    symm
    apply countP_or
    · intro o
      simp only [List.mem_cons, exists_eq_or_imp]
      tauto
    · rintro o ⟨hb, -⟩ ⟨-, q, hq, hb'⟩
      rw [hb] at hb'
      cases hb'
      exact fresh hq

/-- The orders into `n` from nodes that are not trimmed. -/
def untrimmed (orders : List Order) (n : Node) : Nat :=
  orders.countP (fun o => o.after = n ∧ depless orders o.before = false)

theorem trimmed_counts {nodes : List Node} {orders : List Order}
    (known : ∀ o ∈ orders, o.before ∈ nodes ∧ o.after ∈ nodes) {m m' : HashMap Node Nat}
    (tab : Tabulates m nodes (fun n => orders.countP (·.after = n))) (it : HashOrders)
    (low : Lowered m m' (lowers orders (it.deplessPars.arrange (deplessOf m)))) :
    Tabulates m' nodes (untrimmed orders) := by
  have nodup : (it.deplessPars.arrange (deplessOf m)).Nodup :=
    it.deplessPars.nodup_arrange.mpr (nodup_deplessOf m)
  have trimmed : ∀ n, orders.countP (fun o => o.after = n ∧
      ∃ p ∈ it.deplessPars.arrange (deplessOf m), o.before = .partition p) =
      orders.countP (fun o => o.after = n ∧ depless orders o.before = true) := by
    intro n
    apply List.countP_congr
    intro o ho
    simp only [decide_eq_true_eq, it.deplessPars.mem_arrange, mem_deplessOf tab]
    refine and_congr_right fun _ => ⟨?_, fun hd => ?_⟩
    · rintro ⟨p, ⟨-, hd⟩, hb⟩; rwa [hb]
    · cases hb : o.before with
      | partition p => exact ⟨p, ⟨hb ▸ (known o ho).1, hb ▸ hd⟩, rfl⟩
      | sendSystem _ | unsendSystem _ => rw [hb] at hd; cases hd
  have total : ∀ n, orders.countP (·.after = n) =
      untrimmed orders n + orders.countP (fun o => o.after = n ∧ depless orders o.before = true) := by
    intro n
    apply countP_or
    · intro o; cases depless orders o.before <;> simp
    · rintro o ⟨-, h⟩ ⟨-, h'⟩; rw [h] at h'; cases h'
  obtain ⟨g, tab', sum⟩ := low.tabulates tab
  intro n
  rw [tab' n]
  by_cases known : n ∈ nodes
  · have hn := sum n known
    have all := total n
    rw [lowers, count_flatMap_orderedAfter orders nodup, trimmed] at hn
    rw [if_pos known, if_pos known, Option.some.injEq]
    omega
  · rw [if_neg known, if_neg known]

theorem mem_zeroNodes {m : HashMap Node Nat} {n : Node} :
    n ∈ zeroNodes m ↔ m.lookup n = some 0 := by
  rw [← HashMap.mem_entries_iff]
  simp only [zeroNodes, List.mem_map, List.mem_filter, decide_eq_true_eq]
  constructor
  · rintro ⟨⟨k, c⟩, ⟨he, hc⟩, rfl⟩; cases hc; exact he
  · intro h; exact ⟨_, ⟨h, rfl⟩, rfl⟩

theorem mem_indices (l : List Node) (i : Nat) :
    (i ∈ sendIndices l ↔ .sendSystem i ∈ l) ∧ (i ∈ unsendIndices l ↔ .unsendSystem i ∈ l) := by
  constructor
  · simp only [sendIndices, List.mem_filterMap]
    constructor
    · rintro ⟨n, hn, h⟩; cases n <;> simp at h; subst h; exact hn
    · intro h; exact ⟨_, h, rfl⟩
  · simp only [unsendIndices, List.mem_filterMap]
    constructor
    · rintro ⟨n, hn, h⟩; cases n <;> simp at h; subst h; exact hn
    · intro h; exact ⟨_, h, rfl⟩

theorem initialState_pending {n : Node} (system : n.isSystem = true) (c : Nat) :
    initialState n c = .pending ↔ c = 0 := by
  unfold initialState
  split
  · rename_i h; simp; omega
  · simp; omega

/-- The planner that `build_initials` makes of the final counts. -/
def plannerOf (nodes : List Node) (counts : HashMap Node Nat) : Planner :=
  { wakeupState := HashMap.ofKeys counts.keys
      fun node => initialState node ((counts.lookup node).getD 0)
    sendRunnable := SortedSet.empty.extend (sendIndices (zeroNodes counts))
    unsendRunnable := SortedSet.empty.extend (unsendIndices (zeroNodes counts))
    remainingSystems := nodes.countP (·.isSystem) }

theorem plannerOf_state {nodes : List Node} {m : HashMap Node Nat} {f : Node → Nat}
    (tab : Tabulates m nodes f) :
    Tabulates (plannerOf nodes m).wakeupState nodes (fun n => initialState n (f n)) := by
  intro n
  rw [plannerOf, HashMap.lookup_ofKeys]
  by_cases hk : n ∈ nodes
  · have := (tab.mem_keys n).mpr hk
    simp [this, hk, tab n]
  · have : n ∉ m.keys := fun key => hk ((tab.mem_keys n).mp key)
    simp [this, hk]

theorem plannerOf_pool {nodes : List Node} {m : HashMap Node Nat} {f : Node → Nat}
    (tab : Tabulates m nodes f) (pool : Pool) (i : Nat) : i ∈ (plannerOf nodes m).pool pool ↔
      (plannerOf nodes m).wakeupState.lookup (pool.toNode i) = some .pending := by
  have zero : ∀ n, n.isSystem = true → (n ∈ zeroNodes m ↔
      (plannerOf nodes m).wakeupState.lookup n = some .pending) := by
    intro n sys
    rw [mem_zeroNodes, plannerOf_state tab n, tab n]
    by_cases hk : n ∈ nodes
    · simp [hk, initialState_pending sys]
    · simp [hk]
  cases pool with
  | send =>
    change i ∈ SortedSet.empty.extend (sendIndices (zeroNodes m)) ↔ _
    rw [SortedSet.mem_extend, (mem_indices _ i).1, zero _ rfl]
    simp [Pool.toNode]
  | unsend =>
    change i ∈ SortedSet.empty.extend (unsendIndices (zeroNodes m)) ↔ _
    rw [SortedSet.mem_extend, (mem_indices _ i).2, zero _ rfl]
    simp [Pool.toNode]

/-- The initial planner: every node counts the orders into it from nodes that
are not trimmed, and the pools hold the systems with none. -/
theorem buildInitials_ok {it : HashOrders} {nodes : List Node} {orders : List Order}
    {dependents : HashMap Node (List Node)} {planner : Planner} {left : List PartitionIndex}
    (tab : Tabulates dependents nodes (orderedAfter orders))
    (systems : ∀ o ∈ orders, o.before.isSystem = true ∨ o.after.isSystem = true)
    (known : ∀ o ∈ orders, o.before ∈ nodes ∧ o.after ∈ nodes)
    (h : buildInitials it nodes orders dependents = .ok (planner, left)) :
    Tabulates planner.wakeupState nodes (fun n => initialState n (untrimmed orders n)) ∧
    (∀ pool i, i ∈ planner.pool pool ↔
      planner.wakeupState.lookup (pool.toNode i) = some .pending) ∧
    planner.remainingSystems = nodes.countP (·.isSystem) := by
  unfold buildInitials at h
  obtain ⟨m, count, h⟩ := bind_eq_ok.mp h
  obtain ⟨⟨m', left'⟩, trim, h⟩ := bind_eq_ok.mp h
  cases h
  have tab' : Tabulates m' nodes (untrimmed orders) :=
    trimmed_counts known (countDependency_ok count) it (trimLoop_ok tab systems _ trim).2
  exact ⟨plannerOf_state tab', plannerOf_pool tab', rfl⟩

end Dynec.Scheduler
