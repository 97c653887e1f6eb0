import Dynec.Scheduler.Acyclic
import Dynec.Scheduler.Initials
import Dynec.Scheduler.Exclusions
import Dynec.Lib.Jobs

/-!
# The balance of the planner

Each blocked node keeps one counter, which goes up when an exclusion starts
and down when a dependency or an exclusion completes. `Balanced` says what
that counter means in the middle of a step: together with the blocks still to
be added (`credit`), it equals the blockers the node has (`need`) together
with the blocks still to be removed (`debt`). Between steps both lists are
empty.
-/

namespace Dynec.Scheduler

open Fallible Count

variable {P : Type}

/-- What a topology accepted by the builder provides. -/
structure Topology.Sound (t : Topology P) (nodes : List Node) (orders : List Order)
    (clash : Node → Node → Prop) : Prop where
  nodup : nodes.Nodup
  known : ∀ o ∈ orders, o.before ∈ nodes ∧ o.after ∈ nodes
  dependents : Tabulates t.dependents nodes (orderedAfter orders)
  exclusions : Relates t.exclusions nodes clash
  clash_known : ∀ a b, clash a b → a ∈ nodes ∧ a.isSystem = true
  clash_symm : ∀ a b, clash a b → clash b a
  clash_ne : ∀ a b, clash a b → a ≠ b
  ranked : ∃ rank : Node → Nat, ∀ o ∈ orders, rank o.before < rank o.after
  partitions : ∀ i, .partition i ∈ nodes → i < t.partitions.length

def Topology.excl (t : Topology P) (n : Node) : List Node := (t.exclusions.lookup n).getD []

def Planner.state (p : Planner) (n : Node) : Option WakeupState := p.wakeupState.lookup n

def WakeupState.count : WakeupState → Nat
  | .blocked c => c
  | _ => 0

/-- The blockers of a node: orders from nodes that have not completed, and
exclusions that have started. -/
def need (t : Topology P) (orders : List Order) (p : Planner) (n : Node) : Nat :=
  orders.countP (fun o => o.after = n ∧ p.state o.before ≠ some .completed) +
    (t.excl n).countP (fun m => p.state m = some .started)

structure Balanced (t : Topology P) (nodes : List Node) (orders : List Order) (p : Planner)
    (credit debt : List Node) : Prop where
  known : ∀ n, (p.state n).isSome ↔ n ∈ nodes
  count : ∀ n w, p.state n = some w → w ≠ .completed →
    w.count + credit.count n = need t orders p n + debt.count n
  finished : ∀ n, p.state n = some .completed →
    ∀ o ∈ orders, o.after = n → p.state o.before = some .completed
  pools : ∀ pool i, i ∈ p.pool pool ↔ p.state (pool.toNode i) = some .pending
  lasting : ∀ i, p.state (.partition i) ≠ some .pending ∧ p.state (.partition i) ≠ some .started

/-! ## Reading an updated planner -/

@[simp] theorem state_setState (p : Planner) (n k : Node) (w : WakeupState) :
    (p.setState n w).state k = if k = n then some w else p.state k :=
  HashMap.lookup_insert_ite _ _ _ _

@[simp] theorem state_setPool (p : Planner) (pool : Pool) (s : SortedSet Nat) (k : Node) :
    (p.setPool pool s).state k = p.state k := by
  cases pool <;> rfl

@[simp] theorem pool_setState (p : Planner) (n : Node) (w : WakeupState) (pool : Pool) :
    (p.setState n w).pool pool = p.pool pool := by
  cases pool <;> rfl

theorem pool_setPool (p : Planner) (pool pool' : Pool) (s : SortedSet Nat) :
    (p.setPool pool s).pool pool' = if pool' = pool then s else p.pool pool' := by
  cases pool <;> cases pool' <;> rfl

@[simp] theorem remaining_setState (p : Planner) (n : Node) (w : WakeupState) :
    (p.setState n w).remainingSystems = p.remainingSystems := rfl

@[simp] theorem remaining_setPool (p : Planner) (pool : Pool) (s : SortedSet Nat) :
    (p.setPool pool s).remainingSystems = p.remainingSystems := by
  cases pool <;> rfl

theorem toNode_eq_iff {pool pool' : Pool} {i j : Nat} :
    pool.toNode i = pool'.toNode j ↔ pool = pool' ∧ i = j := by
  cases pool <;> cases pool' <;> simp [Pool.toNode]

theorem toNode_isSystem (pool : Pool) (i : Nat) : (pool.toNode i).isSystem = true := by
  cases pool <;> rfl

theorem exists_toNode {n : Node} (h : n.isSystem = true) : ∃ pool i, n = Pool.toNode pool i := by
  cases n with
  | sendSystem i => exact ⟨.send, i, rfl⟩
  | unsendSystem i => exact ⟨.unsend, i, rfl⟩
  | partition i => cases h

/-! ## How the need of a node moves -/

section
variable {t : Topology P} {nodes : List Node} {orders : List Order} {p p' : Planner}

variable (t orders) in
theorem need_congr (completed : ∀ m, p'.state m = some .completed ↔ p.state m = some .completed)
    (started : ∀ m, p'.state m = some .started ↔ p.state m = some .started) (n : Node) :
    need t orders p' n = need t orders p n := by
  unfold need
  congr 1
  · exact List.countP_congr fun o _ => by simp [completed]
  · exact List.countP_congr fun m _ => by simp [started]

/-- The orders out of a node stop counting when it completes. -/
theorem orders_completed {a : Node} (before : p.state a ≠ some .completed)
    (after : ∀ m, p'.state m = some .completed ↔ m = a ∨ p.state m = some .completed) (n : Node) :
    orders.countP (fun o => o.after = n ∧ p.state o.before ≠ some .completed) =
      orders.countP (fun o => o.after = n ∧ p'.state o.before ≠ some .completed) +
        (orderedAfter orders a).count n := by
  rw [count_orderedAfter]
  apply countP_or
  · intro o
    simp only [ne_eq, after, not_or]
    by_cases h : o.before = a
    · simp [h, before]
    · simp [h]
  · rintro o ⟨-, h⟩ ⟨hb, -⟩
    exact h ((after _).mpr (.inl hb))

variable (t orders) in
theorem need_start {a : Node} (idle : p.state a ≠ some .started)
    (completed : ∀ m, p'.state m = some .completed ↔ p.state m = some .completed)
    (started : ∀ m, p'.state m = some .started ↔ p.state m = some .started ∨ m = a) (n : Node) :
    need t orders p' n = need t orders p n + (t.excl n).count a := by
  unfold need
  rw [countP_gain (t.excl n) _ _ a idle started, ← Nat.add_assoc]
  congr 2
  exact List.countP_congr fun o _ => by simp [completed]

variable (t orders) in
theorem need_finish {a : Node} (runs : p.state a = some .started)
    (completed : ∀ m, p'.state m = some .completed ↔ m = a ∨ p.state m = some .completed)
    (started : ∀ m, p'.state m = some .started ↔ m ≠ a ∧ p.state m = some .started) (n : Node) :
    need t orders p n =
      need t orders p' n + (orderedAfter orders a).count n + (t.excl n).count a := by
  have excl : (t.excl n).countP (fun m => p.state m = some .started) =
      (t.excl n).countP (fun m => p'.state m = some .started) + (t.excl n).count a := by
    apply countP_gain
    · simp [started]
    · intro m
      rw [started]
      by_cases h : m = a
      · simp [h, runs]
      · simp [h]
  unfold need
  rw [orders_completed (by simp [runs]) completed n, excl]
  omega

variable (t orders) in
theorem need_pass {a : Node} (waits : p.state a ≠ some .completed)
    (completed : ∀ m, p'.state m = some .completed ↔ m = a ∨ p.state m = some .completed)
    (started : ∀ m, p'.state m = some .started ↔ p.state m = some .started) (n : Node) :
    need t orders p n = need t orders p' n + (orderedAfter orders a).count n := by
  have excl : (t.excl n).countP (fun m => p.state m = some .started) =
      (t.excl n).countP (fun m => p'.state m = some .started) :=
    List.countP_congr fun m _ => by simp [started]
  unfold need
  rw [orders_completed waits completed n, excl]
  omega

/-- Only the numbers of blocks owed matter, not their order. -/
theorem Balanced.congr {credit debt credit' debt' : List Node}
    (h : Balanced t nodes orders p credit debt) (hc : ∀ n, credit.count n = credit'.count n)
    (hd : ∀ n, debt.count n = debt'.count n) : Balanced t nodes orders p credit' debt' :=
  ⟨h.known, fun n w hw hne => by rw [← hc, ← hd]; exact h.count n w hw hne, h.finished, h.pools,
    h.lasting⟩

/-- A node with no blocks left has everything before it completed and no
exclusion started. -/
theorem need_zero {n : Node} (h : need t orders p n = 0) :
    (∀ o ∈ orders, o.after = n → p.state o.before = some .completed) ∧
    ∀ m ∈ t.excl n, p.state m ≠ some .started := by
  obtain ⟨ho, he⟩ := Nat.add_eq_zero_iff.mp h
  refine ⟨fun o hm ha => by_contra fun hc => ?_, fun m hm => ?_⟩
  · have := List.countP_eq_zero.mp ho o hm
    simp [ha, hc] at this
  · have := List.countP_eq_zero.mp he m hm
    simpa using this

end

end Dynec.Scheduler
