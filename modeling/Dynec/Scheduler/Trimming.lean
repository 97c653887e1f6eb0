import Dynec.Scheduler.Detection
import Dynec.Scheduler.Cycle
import Mathlib.Algebra.BigOperators.Group.List.Lemmas
import Mathlib.Algebra.Order.BigOperators.Group.List
import Mathlib.Order.WellFoundedSet

/-!
# Orders between partitions

The trimming loop queues a partition once for every trimmed order into it, so
each partition is popped once for every path from the initial worklist. The
initial planner is exact when no path is counted twice and none goes on behind
a partition that still waits for a system.
-/

namespace Dynec.Scheduler

open Fallible Count

/-- A partition with nothing but partitions before it. -/
def Clear (orders : List Order) (n : Node) : Prop :=
  n.isSystem = false ∧ ∀ m, Relation.TransGen (Precedes orders) m n → m.isSystem = false

/-- What the initial planner says for orders that may lead from partition to
partition. -/
structure Initialised (nodes : List Node) (orders : List Order) (p : Planner) : Prop where
  completed : ∀ n ∈ nodes, p.state n = some .completed ↔ Clear orders n
  count : ∀ n ∈ nodes, ¬ Clear orders n → ∃ w, p.state n = some w ∧ w.idle ∧
    w.count = orders.countP (fun o => o.after = n ∧ p.state o.before ≠ some .completed)
  pools : ∀ pool i, i ∈ p.pool pool ↔ ∃ w, p.state (pool.toNode i) = some w ∧ w.count = 0

/-- A partition that comes after a clear one and before some node has a single
order into it. -/
def Single (orders : List Order) : Prop :=
  ∀ o ∈ orders, ∀ o' ∈ orders, Clear orders o.before → o.after.isSystem = false →
    o'.before = o.after → orders.countP (·.after = o.after) = 1

variable {nodes : List Node} {orders : List Order}

theorem clear_iff {n : Node} : Clear orders n ↔
    n.isSystem = false ∧ ∀ o ∈ orders, o.after = n → Clear orders o.before := by
  constructor
  · rintro ⟨instant, above⟩
    refine ⟨instant, fun o listed after => ⟨above _ (.single ⟨o, listed, rfl, after⟩), ?_⟩⟩
    intro m path
    exact above m (path.tail ⟨o, listed, rfl, after⟩)
  · rintro ⟨instant, above⟩
    refine ⟨instant, fun m path => ?_⟩
    cases path with
    | single edge =>
      obtain ⟨o, listed, rfl, after⟩ := edge
      exact (above o listed after).1
    | tail path edge =>
      obtain ⟨o, listed, rfl, after⟩ := edge
      exact (above o listed after).2 m path

theorem Clear.before {n : Node} (clear : Clear orders n) {o : Order} (listed : o ∈ orders)
    (after : o.after = n) : Clear orders o.before := (clear_iff.mp clear).2 o listed after

/-! ## Counting orders from clear nodes -/

open Classical in
/-- The orders into `n` from clear nodes. -/
noncomputable def clears (orders : List Order) (n : Node) : Nat :=
  orders.countP fun o => o.after = n ∧ Clear orders o.before

open Classical in
/-- The orders into `n` from other nodes. -/
noncomputable def unclears (orders : List Order) (n : Node) : Nat :=
  orders.countP fun o => o.after = n ∧ ¬ Clear orders o.before

open Classical in
/-- How often a node should be trimmed. -/
noncomputable def weight (orders : List Order) (n : Node) : Nat :=
  if Clear orders n then 1 else 0

theorem weight_clear {n : Node} (clear : Clear orders n) : weight orders n = 1 := if_pos clear

theorem clear_of_weight {n : Node} (heavy : 0 < weight orders n) : Clear orders n := by
  by_contra unclear
  rw [weight, if_neg unclear] at heavy
  exact Nat.lt_irrefl 0 heavy

theorem clears_add (orders : List Order) (n : Node) :
    clears orders n + unclears orders n = orders.countP (·.after = n) := by
  classical
  unfold clears unclears
  symm
  apply countP_or
  · intro o
    tauto
  · rintro o ⟨-, clear⟩ ⟨-, unclear⟩
    exact unclear clear

theorem clears_eq (orders : List Order) (n : Node) : clears orders n =
    ((orders.filter (·.after = n)).map fun o => weight orders o.before).sum := by
  classical
  exact countP_and orders (·.after = n) (Clear orders ·.before)

theorem clears_pos {o : Order} (listed : o ∈ orders) (clear : Clear orders o.before) :
    0 < clears orders o.after := by
  classical
  apply List.countP_pos_iff.mpr
  exact ⟨o, listed, by simp [clear]⟩

theorem unclears_clear {n : Node} (clear : Clear orders n) : unclears orders n = 0 := by
  classical
  apply List.countP_eq_zero.mpr
  intro o listed
  simp only [decide_eq_true_eq, not_and, not_not]
  exact clear.before listed

theorem clear_of_unclears {n : Node} (instant : n.isSystem = false)
    (none : unclears orders n = 0) : Clear orders n := by
  classical
  apply clear_iff.mpr
  refine ⟨instant, fun o listed after => ?_⟩
  by_contra unclear
  have := List.countP_eq_zero.mp none o listed
  simp [after, unclear] at this

/-- Two lists of orders into a node weigh the same only if each order does. -/
theorem weights_agree {f g : Node → Nat} {n : Node}
    (le : ∀ o ∈ orders, f o.before ≤ g o.before)
    (same : ((orders.filter (·.after = n)).map fun o => f o.before).sum =
      ((orders.filter (·.after = n)).map fun o => g o.before).sum) :
    ∀ o ∈ orders, o.after = n → f o.before = g o.before := by
  intro o listed after
  by_contra other
  have less := List.sum_lt_sum (l := orders.filter (·.after = n)) (fun o => f o.before)
    (fun o => g o.before) (fun o member => le o (List.mem_of_mem_filter member))
    ⟨o, by simp [listed, after], lt_of_le_of_ne (le o listed) other⟩
  exact absurd same (Nat.ne_of_lt less)

/-! ## Counting pops -/

/-- How often a node has been popped. -/
def pops (popped : List PartitionIndex) (n : Node) : Nat := (popped.map Node.partition).count n

@[simp] theorem pops_partition (popped : List PartitionIndex) (p : PartitionIndex) :
    pops popped (.partition p) = popped.count p := by
  apply List.count_map_of_injective
  intro p q same
  cases same
  rfl

theorem pops_system (popped : List PartitionIndex) {n : Node} (system : n.isSystem = true) :
    pops popped n = 0 := by
  apply List.count_eq_zero_of_not_mem
  intro member
  obtain ⟨p, -, rfl⟩ := List.mem_map.mp member
  cases system

theorem count_lowers (orders : List Order) (popped : List PartitionIndex) (n : Node) :
    (lowers orders popped).count n =
      ((orders.filter (·.after = n)).map fun o => pops popped o.before).sum := by
  induction popped with
  | nil => simp [lowers, pops]
  | cons p popped ih =>
    have here : (orderedAfter orders (.partition p)).count n =
        ((orders.filter (·.after = n)).map
          fun o => if o.before = .partition p then 1 else 0).sum := by
      rw [count_orderedAfter, ← countP_and]
      apply List.countP_congr
      intro o _
      simp [and_comm]
    have split : ∀ k, pops (p :: popped) k = (if k = .partition p then 1 else 0) + pops popped k := by
      intro k
      rw [pops, List.map_cons, List.count_cons, Nat.add_comm]
      by_cases same : k = .partition p
      · simp [same, pops]
      · simp [same, Ne.symm same, pops]
    rw [lowers, List.flatMap_cons, List.count_append, here, ← lowers, ih, ← List.sum_map_add]
    simp only [split]

/-- The initial worklist of the trimming loop. -/
structure Worklist (nodes : List Node) (orders : List Order) (pars : List PartitionIndex) :
    Prop where
  nodup : pars.Nodup
  mem : ∀ p, p ∈ pars ↔ .partition p ∈ nodes ∧ depless orders (.partition p) = true

theorem worklist_arrange (it : IterOrder PartitionIndex) {m : HashMap Node Nat}
    (tab : Tabulates m nodes (fun n => orders.countP (·.after = n))) :
    Worklist nodes orders (it.arrange (deplessOf m)) :=
  ⟨it.nodup_arrange.mpr (nodup_deplessOf m), fun p => it.mem_arrange.trans (mem_deplessOf tab p)⟩

theorem Worklist.loaded {pars : List PartitionIndex} (work : Worklist nodes orders pars)
    {o : Order} (listed : o ∈ orders) {p : PartitionIndex} (after : o.after = .partition p) :
    pars.count p = 0 := by
  apply List.count_eq_zero_of_not_mem
  intro member
  have free := ((work.mem p).mp member).2
  simp only [depless, Bool.and_eq_true, List.all_eq_true, decide_eq_true_eq] at free
  exact free.2 o listed after

section
variable {m m' : HashMap Node Nat} {pars popped left : List PartitionIndex}
  (inside : ∀ o ∈ orders, o.before ∈ nodes ∧ o.after ∈ nodes)
  (work : Worklist nodes orders pars)

include inside work

/-- Every clear partition is popped in the end. -/
theorem pops_pos (acyclic : ∀ n, ¬ Relation.TransGen (Precedes orders) n n)
    (ended : Trimmed orders m pars popped m' []) {n : Node} (known : n ∈ nodes)
    (clear : Clear orders n) : 0 < pops popped n := by
  have strict : IsStrictOrder Node (Relation.TransGen (Precedes orders)) :=
    { irrefl := acyclic, trans := fun _ _ _ => .trans }
  have founded := (List.finite_toSet nodes).wellFoundedOn (r := Relation.TransGen (Precedes orders))
  revert clear
  apply founded.induction known (P := fun n => Clear orders n → 0 < pops popped n)
  intro n known ih clear
  cases n with
  | sendSystem i => cases clear.1
  | unsendSystem i => cases clear.1
  | partition p =>
    have queued := ended.queued p
    simp only [List.count_nil, Nat.add_zero] at queued
    rw [pops_partition, queued]
    by_cases loaded : ∃ o ∈ orders, o.after = .partition p
    · obtain ⟨o, listed, after⟩ := loaded
      have above := ih o.before (inside o listed).1 (.single ⟨o, listed, rfl, after⟩)
        (clear.before listed after)
      apply Nat.add_pos_right
      rw [count_lowers]
      apply above.trans_le
      apply List.single_le_sum (by simp)
      exact List.mem_map.mpr ⟨o, by simp [listed, after], rfl⟩
    · have member : p ∈ pars := by
        apply (work.mem p).mpr
        refine ⟨known, ?_⟩
        simp only [depless, Node.isSystem, Bool.not_false, Bool.true_and, List.all_eq_true,
          decide_eq_true_eq]
        exact fun o listed after => loaded ⟨o, listed, after⟩
      exact Nat.add_pos_left (List.count_pos_iff.mpr member) _

theorem weight_le_pops (acyclic : ∀ n, ¬ Relation.TransGen (Precedes orders) n n)
    (ended : Trimmed orders m pars popped m' []) {n : Node} (known : n ∈ nodes) :
    weight orders n ≤ pops popped n := by
  by_cases clear : Clear orders n
  · rw [weight_clear clear]
    exact pops_pos inside work acyclic ended known clear
  · rw [weight, if_neg clear]
    exact Nat.zero_le _

/-- Counts that are lowered exactly leave no partition that is popped twice. -/
theorem single_of_counts (acyclic : ∀ n, ¬ Relation.TransGen (Precedes orders) n n)
    (ended : Trimmed orders m pars popped m' [])
    (exact_counts : ∀ n ∈ nodes, (lowers orders popped).count n = clears orders n) :
    Single orders := by
  have popped_once : ∀ o ∈ orders, weight orders o.before = pops popped o.before := by
    intro o listed
    have same := exact_counts o.after (inside o listed).2
    rw [count_lowers, clears_eq] at same
    exact weights_agree
      (fun o listed => weight_le_pops inside work acyclic ended (inside o listed).1) same.symm
      o listed rfl
  intro o listed o' listed' clear instant next
  obtain ⟨p, after⟩ : ∃ p, o.after = .partition p := by
    cases here : o.after with
    | partition p => exact ⟨p, rfl⟩
    | sendSystem i | unsendSystem i => rw [here] at instant; cases instant
  have queued := ended.queued p
  have once := popped_once o' listed'
  have lowered := exact_counts _ (inside o listed).2
  have positive := clears_pos listed clear
  rw [next, after, pops_partition] at once
  rw [after] at lowered positive ⊢
  simp only [List.count_nil, work.loaded listed after, lowered] at queued
  have passed : Clear orders (.partition p) := clear_of_weight (by omega)
  rw [weight_clear passed] at once
  have total := clears_add orders (.partition p)
  rw [unclears_clear passed] at total
  omega

end

/-! ## When the loop returns -/

/-- No node with dependents was popped more often than it should be. -/
def PoppedOnce (orders : List Order) (popped : List PartitionIndex) : Prop :=
  ∀ o ∈ orders, pops popped o.before ≤ weight orders o.before

theorem PoppedOnce.lowers_le {popped : List PartitionIndex} (once : PoppedOnce orders popped)
    (n : Node) : (lowers orders popped).count n ≤ clears orders n := by
  rw [count_lowers, clears_eq]
  apply List.sum_le_sum
  intro o member
  exact once o (List.mem_of_mem_filter member)

theorem lowers_length_le {popped : List PartitionIndex} (once : PoppedOnce orders popped) :
    (lowers orders popped).length ≤ orders.length := by
  have sub : (lowers orders popped).Subperm (orders.map (·.after)) := by
    apply List.subperm_ext_iff.mpr
    intro n _
    have le := once.lowers_le n
    have total := clears_add orders n
    have same : (orders.map (·.after)).count n = orders.countP (·.after = n) := by
      rw [List.count_eq_countP, List.countP_map]
      exact List.countP_congr fun o _ => by simp
    omega
  simpa using sub.length_le

section
variable {m m₁ : HashMap Node Nat} {pars popped left rest : List PartitionIndex}
  (work : Worklist nodes orders pars) (single : Single orders)

include work single

theorem PoppedOnce.queued (once : PoppedOnce orders popped)
    (stands : Trimmed orders m pars popped m₁ left) {o : Order} (listed : o ∈ orders)
    {p : PartitionIndex} (before : o.before = .partition p) :
    popped.count p + left.count p ≤ weight orders (.partition p) := by
  have le := once.lowers_le (.partition p)
  have total := clears_add orders (.partition p)
  rw [stands.queued p]
  by_cases loaded : ∃ o' ∈ orders, o'.after = .partition p
  · obtain ⟨o', listed', after⟩ := loaded
    rw [work.loaded listed' after, Nat.zero_add]
    by_cases passed : 0 < clears orders (.partition p)
    · classical
      obtain ⟨o₂, listed₂, here⟩ := List.countP_pos_iff.mp passed
      simp only [decide_eq_true_eq] at here
      have one := single o₂ listed₂ o listed here.2 (by rw [here.1]; rfl) (before.trans here.1.symm)
      rw [here.1] at one
      have clear : Clear orders (.partition p) := clear_of_unclears rfl (by omega)
      rw [weight_clear clear]
      omega
    · omega
  · have none : orders.countP (·.after = .partition p) = 0 := by
      apply List.countP_eq_zero.mpr
      intro o' listed' after
      exact loaded ⟨o', listed', by simpa using after⟩
    have clear : Clear orders (.partition p) :=
      clear_iff.mpr ⟨rfl, fun o' listed' after => absurd ⟨o', listed', after⟩ loaded⟩
    have member := List.nodup_iff_count_le_one.mp work.nodup p
    rw [weight_clear clear]
    omega

theorem PoppedOnce.pop {p : PartitionIndex} (once : PoppedOnce orders popped)
    (stands : Trimmed orders m pars popped m₁ (rest ++ [p])) : PoppedOnce orders (p :: popped) := by
  intro o listed
  cases before : o.before with
  | partition q =>
    have queued := once.queued work single stands listed before
    rw [pops_partition, List.count_cons]
    rw [List.count_append, List.count_cons, List.count_nil] at queued
    omega
  | sendSystem i | unsendSystem i =>
    rw [pops_system _ rfl]
    exact Nat.zero_le _

end

theorem trimDependent_total {d : Node} {m : HashMap Node Nat} {count : Nat}
    (pars : List PartitionIndex) (found : m.lookup d = some (count + 1)) :
    ∃ pars', trimDependent (m, pars) d = .ok (m.insert d count, pars') := by
  unfold trimDependent
  simp only [found, expect_some, ok_bind, Nat.add_one_ne_zero, if_false, Nat.add_sub_cancel]
  cases d with
  | partition i => exact ⟨_, rfl⟩
  | sendSystem i => exact ⟨_, rfl⟩
  | unsendSystem i => exact ⟨_, rfl⟩

theorem trimDependents_total {list : List Node} {m : HashMap Node Nat}
    (pars : List PartitionIndex) (enough : ∀ n ∈ list, ∃ c, m.lookup n = some c ∧ list.count n ≤ c) :
    ∃ s, list.foldlM trimDependent (m, pars) = .ok s := by
  obtain ⟨s, run, -⟩ := foldlM_total (f := trimDependent) (l := list) (s := (m, pars))
    (fun rest s => ∀ n ∈ rest, ∃ c, s.1.lookup n = some c ∧ rest.count n ≤ c) enough (by
      rintro d rest ⟨m, pars⟩ enough
      obtain ⟨c, found, le⟩ := enough d List.mem_cons_self
      rw [List.count_cons_self] at le
      obtain ⟨count, rfl⟩ : ∃ count, c = count + 1 := ⟨c - 1, by omega⟩
      obtain ⟨pars', run⟩ := trimDependent_total pars found
      refine ⟨_, run, fun n member => ?_⟩
      dsimp only
      rw [HashMap.lookup_insert_ite]
      by_cases same : n = d
      · subst same
        exact ⟨count, if_pos rfl, by omega⟩
      · obtain ⟨c, found, le⟩ := enough n (List.mem_cons_of_mem _ member)
        rw [List.count_cons_of_ne (Ne.symm same)] at le
        exact ⟨c, by rw [if_neg same, found], le⟩)
  exact ⟨s, run⟩

section
variable {m : HashMap Node Nat} {pars : List PartitionIndex}
  (inside : ∀ o ∈ orders, o.before ∈ nodes ∧ o.after ∈ nodes)
  (work : Worklist nodes orders pars)
  (counted : Tabulates m nodes (fun n => orders.countP (·.after = n)))

include inside work in
theorem queued_known {m₁ : HashMap Node Nat} {popped left : List PartitionIndex}
    (stands : Trimmed orders m pars popped m₁ left) {p : PartitionIndex} (member : p ∈ left) :
    .partition p ∈ nodes := by
  have queued := stands.queued p
  have positive := List.count_pos_iff.mpr member
  by_cases start : p ∈ pars
  · exact ((work.mem p).mp start).1
  · rw [List.count_eq_zero_of_not_mem start] at queued
    have lowered : 0 < (lowers orders popped).count (.partition p) := by omega
    obtain ⟨q, -, member⟩ := List.mem_flatMap.mp (List.count_pos_iff.mp lowered)
    obtain ⟨o, listed, -, after⟩ := mem_orderedAfter.mp member
    exact after ▸ (inside o listed).2

include inside counted in
/-- The dependents of a queued partition still have the counts it takes. -/
theorem queued_enough {m₁ : HashMap Node Nat} {popped : List PartitionIndex} {p : PartitionIndex}
    (lowered : Lowered m m₁ (lowers orders popped)) (once : PoppedOnce orders (p :: popped)) :
    ∀ n ∈ orderedAfter orders (.partition p), ∃ c, m₁.lookup n = some c ∧
      (orderedAfter orders (.partition p)).count n ≤ c := by
  intro n member
  obtain ⟨o, listed, -, rfl⟩ := mem_orderedAfter.mp member
  have le := once.lowers_le o.after
  have total := clears_add orders o.after
  have here := lowered o.after
  rw [counted, if_pos (inside o listed).2] at here
  rw [lowers, List.flatMap_cons, List.count_append, ← lowers] at le
  cases found : m₁.lookup o.after with
  | none => simp [found] at here
  | some c =>
    simp only [found, Option.map_some, Option.some.injEq] at here
    exact ⟨c, rfl, by omega⟩

include inside work counted in
theorem trimLoop_total {dependents : HashMap Node (List Node)} (single : Single orders)
    (tab : Tabulates dependents nodes (orderedAfter orders)) (n : Nat) {m₁ : HashMap Node Nat}
    {popped worklist : List PartitionIndex} (stands : Trimmed orders m pars popped m₁ worklist)
    (once : PoppedOnce orders popped) (rounds : pars.length + orders.length ≤ n + popped.length) :
    ∃ m' popped', trimLoop dependents n m₁ worklist = .ok (m', []) ∧
      Trimmed orders m pars popped' m' [] ∧ PoppedOnce orders popped' := by
  induction n generalizing popped m₁ worklist with
  | zero =>
    have length := stands.length
    have fewer := lowers_length_le once
    have empty : worklist = [] := List.length_eq_zero_iff.mp (by omega)
    subst empty
    exact ⟨m₁, popped, rfl, stands, once⟩
  | succ n ih =>
    rw [trimLoop]
    cases last : worklist.getLast? with
    | none =>
      have empty := List.getLast?_eq_none_iff.mp last
      subst empty
      exact ⟨m₁, popped, rfl, stands, once⟩
    | some p =>
      obtain ⟨rest, rfl⟩ := List.getLast?_eq_some_iff.mp last
      have known := queued_known inside work stands (p := p) (by simp)
      have once' := once.pop work single stands
      obtain ⟨⟨m₂, pars₂⟩, trim⟩ := trimDependents_total rest
        (queued_enough inside counted stands.lowered once')
      obtain ⟨m', popped', run, ended⟩ := ih (stands.pop trim) once'
        (by rw [List.length_cons]; omega)
      refine ⟨m', popped', ?_, ended⟩
      simp only [tab _, if_pos known, expect_some, ok_bind, List.dropLast_concat, trim]
      exact run

end

/-! ## The initial planner -/

theorem countDependency_total (inside : ∀ o ∈ orders, o.after ∈ nodes) :
    ∃ m, orders.foldlM countDependency (HashMap.ofKeys nodes fun _ => 0) = .ok m := by
  obtain ⟨m, run, -⟩ := foldlM_returns (f := countDependency) (l := orders)
    (HashMap.Covers · nodes) (.ofKeys nodes fun _ => 0) (by
      intro o listed m covers
      obtain ⟨count, found⟩ := covers o.after (inside o listed)
      refine ⟨m.insert o.after (count + 1), ?_, covers.insert _ _⟩
      rw [countDependency, found]
      rfl)
  exact ⟨m, run⟩

/-- The planner is right exactly when its counts are. -/
theorem initialised_iff {m : HashMap Node Nat} {f : Node → Nat}
    (inside : ∀ o ∈ orders, o.before ∈ nodes ∧ o.after ∈ nodes) (tab : Tabulates m nodes f) :
    Initialised nodes orders (plannerOf nodes m) ↔ ∀ n ∈ nodes, f n = unclears orders n := by
  have state : ∀ n ∈ nodes, (plannerOf nodes m).state n = some (initialState n (f n)) := by
    intro n known
    rw [Planner.state, plannerOf_state tab, if_pos known]
  have uncompleted : (∀ n ∈ nodes, (plannerOf nodes m).state n = some .completed ↔
      Clear orders n) → ∀ n, orders.countP (fun o => o.after = n ∧
        (plannerOf nodes m).state o.before ≠ some .completed) = unclears orders n := by
    classical
    intro completed n
    apply List.countP_congr
    intro o listed
    simp only [decide_eq_true_eq, ne_eq, completed o.before (inside o listed).1]
  constructor
  · intro right n known
    by_cases clear : Clear orders n
    · have here := (right.completed n known).mpr clear
      rw [state n known, Option.some.injEq, initialState_completed] at here
      rw [here.1, unclears_clear clear]
    · obtain ⟨w, here, -, count⟩ := right.count n known clear
      rw [state n known, Option.some.injEq] at here
      rw [← uncompleted right.completed n, ← count, ← here, initialState_count]
  · intro exact_counts
    have completed : ∀ n ∈ nodes, (plannerOf nodes m).state n = some .completed ↔
        Clear orders n := by
      intro n known
      rw [state n known, Option.some.injEq, initialState_completed, exact_counts n known]
      constructor
      · rintro ⟨none, instant⟩
        exact clear_of_unclears instant none
      · intro clear
        exact ⟨unclears_clear clear, clear.1⟩
    refine ⟨completed, fun n known unclear => ?_, fun pool i => ?_⟩
    · refine ⟨_, state n known, ⟨fun done => ?_, initialState_started⟩, ?_⟩
      · exact unclear ((completed n known).mp (by rw [state n known, done]))
      · rw [uncompleted completed n, initialState_count, exact_counts n known]
    · rw [plannerOf_pool tab]
      constructor
      · intro pending
        exact ⟨.pending, pending, rfl⟩
      · rintro ⟨w, here, none⟩
        have known : pool.toNode i ∈ nodes := by
          by_contra unknown
          rw [Planner.state, plannerOf_state tab, if_neg unknown] at here
          cases here
        rw [state _ known, Option.some.injEq] at here
        rw [← here, initialState_count] at none
        rw [← Planner.state, state _ known, none]
        exact congrArg some ((initialState_pending (toNode_isSystem pool i) 0).mpr rfl)

/-- **The initial planner.** For acyclic orders between any nodes, the initial
planner is built and right if and only if every partition that a clear one
comes before, and that has dependents, has a single order into it. -/
theorem initials_exact (it : HashOrders)
    (inside : ∀ o ∈ orders, o.before ∈ nodes ∧ o.after ∈ nodes)
    (acyclic : ∀ n, ¬ Relation.TransGen (Precedes orders) n n) :
    ∃ dependents, buildDependentsMap nodes orders = .ok dependents ∧
      ((∃ planner left, buildInitials it nodes orders dependents = .ok (planner, left) ∧
        Initialised nodes orders planner) ↔ Single orders) := by
  obtain ⟨dependents, built⟩ := buildDependentsMap_total fun o listed => (inside o listed).1
  obtain ⟨m, counting⟩ := countDependency_total fun o listed => (inside o listed).2
  have tab := buildDependentsMap_ok built
  have counted := countDependency_ok counting
  have work : Worklist nodes orders _ := worklist_arrange it.deplessPars counted
  refine ⟨dependents, built, fun ⟨planner, left, run, right⟩ => ?_, fun single => ?_⟩
  · rw [buildInitials, counting, ok_bind] at run
    obtain ⟨⟨m', left'⟩, trim, run⟩ := bind_eq_ok.mp run
    cases run
    obtain ⟨-, popped, ended⟩ := trimLoop_trimmed tab _ (.start orders m _) trim
    obtain ⟨f, tab', sum⟩ := ended.lowered.tabulates counted
    have counts := (initialised_iff inside tab').mp right
    apply single_of_counts inside work acyclic ended
    intro n known
    have total := clears_add orders n
    have sum := sum n known
    rw [counts n known] at sum
    omega
  · obtain ⟨m', popped, trim, ended, once⟩ := trimLoop_total inside work counted single tab
      ((it.deplessPars.arrange (deplessOf m)).length + orders.length) (.start orders m _)
      (fun o _ => Nat.zero_le _) (Nat.le_refl _)
    obtain ⟨f, tab', sum⟩ := ended.lowered.tabulates counted
    refine ⟨plannerOf nodes m', [], ?_, (initialised_iff inside tab').mpr fun n known => ?_⟩
    · rw [buildInitials, counting, ok_bind]
      dsimp only
      rw [trim]
      rfl
    · have total := clears_add orders n
      have sum := sum n known
      have lowers_eq : (lowers orders popped).count n = clears orders n := by
        apply Nat.le_antisymm (once.lowers_le n)
        rw [count_lowers, clears_eq]
        apply List.sum_le_sum
        intro o member
        have listed := List.mem_of_mem_filter member
        exact weight_le_pops inside work acyclic ended (inside o listed).1
      omega

/-- A partition after another one and before a system. -/
def chained : List Order :=
  [⟨.partition 0, .partition 1⟩, ⟨.partition 1, .sendSystem 0⟩]

/-- A rank that rises along the chain. -/
def chainedRank : Node → Nat
  | .partition i => i
  | _ => 2

theorem initials_exact_chained : ∃ dependents planner left,
    buildDependentsMap (allNodes 1 0 2) chained = .ok dependents ∧
    buildInitials .insertion (allNodes 1 0 2) chained dependents = .ok (planner, left) ∧
    Initialised (allNodes 1 0 2) chained planner := by
  have acyclic : ∀ n, ¬ Relation.TransGen (Precedes chained) n n :=
    acyclic_of_ranked chainedRank (by decide)
  have once : ∀ o ∈ chained, chained.countP (·.after = o.after) = 1 := by decide
  have inside : ∀ o ∈ chained, o.before ∈ allNodes 1 0 2 ∧ o.after ∈ allNodes 1 0 2 := by decide
  obtain ⟨dependents, built, right⟩ := initials_exact .insertion inside acyclic
  obtain ⟨planner, left, run, initialised⟩ := right.mpr fun o listed _ _ _ _ _ => once o listed
  exact ⟨dependents, planner, left, built, run, initialised⟩

/-- A partition after two others and before a system. -/
def joined : List Order :=
  [⟨.partition 0, .partition 2⟩, ⟨.partition 1, .partition 2⟩, ⟨.partition 2, .sendSystem 0⟩]

theorem initials_joined :
    (∀ o ∈ joined, o.before ∈ allNodes 1 0 3 ∧ o.after ∈ allNodes 1 0 3) ∧
    (∀ n, ¬ Relation.TransGen (Precedes joined) n n) ∧
    ∃ dependents, buildDependentsMap (allNodes 1 0 3) joined = .ok dependents ∧
      buildInitials .insertion (allNodes 1 0 3) joined dependents =
        .error .zeroDependencyCount :=
  ⟨by decide, acyclic_of_ranked (fun n => match n with
    | .partition 2 => 1
    | .sendSystem _ => 2
    | _ => 0) (by decide), _, rfl, rfl⟩

end Dynec.Scheduler
