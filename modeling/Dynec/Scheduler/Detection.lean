import Dynec.Scheduler.Acyclic
import Dynec.Scheduler.Initials
import Mathlib.Data.List.Chain

/-!
# Cycle detection

The scan ends, it accepts exactly the acyclic graphs, and the chain that it
reports is a cycle.
-/

namespace Dynec.Scheduler

open Fallible

/-- A directed cycle, with its first node repeated at the end. -/
structure DirectedCycle (edge : Node → Node → Prop) (chain : List Node) : Prop where
  long : 2 ≤ chain.length
  closed : chain.head? = chain.getLast?
  steps : chain.IsChain edge

theorem DirectedCycle.transGen {edge : Node → Node → Prop} {chain : List Node}
    (cycle : DirectedCycle edge chain) : ∃ node, Relation.TransGen edge node node := by
  obtain ⟨long, closed, steps⟩ := cycle
  match chain, long with
  | first :: second :: rest, _ =>
    obtain ⟨edge, steps⟩ := List.isChain_cons_cons.mp steps
    have path := List.relationReflTransGen_of_exists_isChain_cons rest steps rfl
    have last : first = (second :: rest).getLast (List.cons_ne_nil _ _) := by
      rw [List.head?_cons, List.getLast?_cons_cons, List.getLast?_eq_some_getLast (by simp)] at closed
      exact Option.some.inj closed
    exact ⟨first, .head' edge (last ▸ path)⟩

variable {map : HashMap Node (List Node)} {s t : Scan} {node : Node}

/-- The state of the search: every node is waiting, exited or on the stack, and
the stack is a path. -/
structure Scanning (map : HashMap Node (List Node)) (s : Scan) : Prop where
  known : ∀ n, n ∈ map.keys ↔ n ∈ s.remaining ∨ n ∈ s.exited ∨ n ∈ s.stack
  gone : ∀ n ∈ s.exited, n ∉ s.remaining
  entered : ∀ n ∈ s.stack, n ∉ s.remaining ∧ n ∉ s.exited
  nodup : s.stack.Nodup
  path : s.stack.IsChain fun a b => b ∈ dependentsIn map a

theorem Scanning.start (map : HashMap Node (List Node)) :
    Scanning map ⟨SortedSet.empty.extend map.keys, [], []⟩ := by
  refine ⟨fun n => ?_, nofun, nofun, .nil, .nil⟩
  simp

theorem Scanning.depth_le (scanning : Scanning map s) : s.stack.length ≤ map.keys.length := by
  apply (scanning.nodup.subperm fun n member => ?_).length_le
  exact (scanning.known n).mpr (.inr (.inr member))

theorem Scanning.push (scanning : Scanning map s) (waits : node ∈ s.remaining)
    (edge : ∀ last, s.stack.getLast? = some last → node ∈ dependentsIn map last) :
    Scanning map { s with remaining := s.remaining.erase node, stack := s.stack ++ [node] } := by
  constructor
  · intro n
    rw [scanning.known]
    simp only [SortedSet.mem_erase, List.mem_append, List.mem_singleton]
    by_cases same : n = node
    · simp [same, waits]
    · simp [same]
  · intro n exited
    simp [scanning.gone n exited]
  · intro n member
    simp only [List.mem_append, List.mem_singleton] at member
    rcases member with member | rfl
    · simp [scanning.entered n member]
    · refine ⟨by simp, fun exited => ?_⟩
      exact scanning.gone n exited waits
  · apply List.nodup_append.mpr
    refine ⟨scanning.nodup, by simp, fun a member b last => ?_⟩
    rintro rfl
    rw [List.mem_singleton.mp last] at member
    exact (scanning.entered node member).1 waits
  · apply scanning.path.append (.singleton node)
    intro last found first head
    simp only [List.head?_cons, Option.mem_def, Option.some.injEq] at head
    exact head ▸ edge last found

theorem Scanning.pop {stack : List Node} (scanning : Scanning map s)
    (top : s.stack = stack ++ [node]) :
    Scanning map { s with stack, exited := node :: s.exited } := by
  obtain ⟨known, gone, entered, nodup, path⟩ := scanning
  rw [top] at known entered nodup path
  obtain ⟨nodup, -, apart⟩ := List.nodup_append.mp nodup
  have here := entered node (by simp)
  refine ⟨fun n => ?_, fun n exited => ?_, fun n member => ?_, nodup, path.left_of_append⟩
  · rw [known]
    simp only [List.mem_append, List.mem_cons, List.not_mem_nil, or_false]
    tauto
  · rcases List.mem_cons.mp exited with rfl | exited
    · exact here.1
    · exact gone n exited
  · obtain ⟨waits, exited⟩ := entered n (List.mem_append_left _ member)
    refine ⟨waits, fun exits => ?_⟩
    rcases List.mem_cons.mp exits with rfl | exits
    · exact apart n member n (by simp) rfl
    · exact exited exits

/-- The reported chain. -/
theorem Scanning.report (scanning : Scanning map s) (entered : node ∈ s.stack)
    (edge : ∀ last, s.stack.getLast? = some last → node ∈ dependentsIn map last) :
    DirectedCycle (fun a b => b ∈ dependentsIn map a)
      (s.stack.dropWhile (· ≠ node) ++ [node]) := by
  obtain ⟨early, late, split, fresh⟩ := List.eq_append_cons_of_mem entered
  have dropped : s.stack.dropWhile (· ≠ node) = node :: late := by
    rw [split, List.dropWhile_append_of_pos]
    · simp
    · intro n member
      simp only [decide_eq_true_eq]
      rintro rfl
      exact fresh member
  rw [dropped]
  refine ⟨by simp, ?_, ?_⟩
  · rw [List.getLast?_concat]
    rfl
  have path := scanning.path
  rw [split] at path
  apply path.right_of_append.append (.singleton node)
  intro last found first head
  simp only [List.head?_cons, Option.mem_def, Option.some.injEq] at head
  apply head ▸ edge last
  rw [split, List.getLast?_append_of_ne_nil _ (List.cons_ne_nil _ _)]
  exact found

/-- What a call of `scan_cycles_from` that returns has done to the state. -/
structure Advanced (map : HashMap Node (List Node)) (node : Node) (s t : Scan) : Prop where
  scanning : Scanning map t
  stack : t.stack = s.stack
  remaining : ∀ n ∈ t.remaining, n ∈ s.remaining ∧ n ≠ node

/-- The loop over the dependents of a node that was entered. -/
theorem scanDependents_cases {depth : Nat} {node : Node} {s : Scan} {dependents : List Node}
    (listed : dependentsIn map node = dependents)
    (pushed : Scanning map
      { s with remaining := s.remaining.erase node, stack := s.stack ++ [node] })
    (call : ∀ d ∈ dependents, ∀ u, Scanning map u → u.stack = s.stack ++ [node] →
      (∀ last, u.stack.getLast? = some last → d ∈ dependentsIn map last) →
      (∃ e, scanCyclesFrom map depth d u = .error e ∧ ∃ chain, e = .cyclicDependency chain ∧
        DirectedCycle (fun a b => b ∈ dependentsIn map a) chain) ∨
      ∃ t, scanCyclesFrom map depth d u = .ok t ∧ Advanced map d u t) :
    let entered := { s with remaining := s.remaining.erase node, stack := s.stack ++ [node] }
    (∃ e, dependents.foldlM (fun s dependent => scanCyclesFrom map depth dependent s) entered =
        .error e ∧ ∃ chain, e = .cyclicDependency chain ∧
        DirectedCycle (fun a b => b ∈ dependentsIn map a) chain) ∨
      ∃ u, dependents.foldlM (fun s dependent => scanCyclesFrom map depth dependent s) entered =
        .ok u ∧ Scanning map u ∧ u.stack = s.stack ++ [node] ∧
        ∀ n ∈ u.remaining, n ∈ s.remaining ∧ n ≠ node := by
  intro entered
  obtain ⟨e, failed, _, _, report⟩ | ran := foldlM_cases
    (f := fun s dependent => scanCyclesFrom map depth dependent s) (l := dependents) (s := entered)
    (fun _ u => Scanning map u ∧ u.stack = s.stack ++ [node] ∧
      ∀ n ∈ u.remaining, n ∈ s.remaining ∧ n ≠ node)
    (fun _ e => ∃ chain, e = .cyclicDependency chain ∧
      DirectedCycle (fun a b => b ∈ dependentsIn map a) chain)
    ⟨pushed, rfl, fun n => SortedSet.mem_erase.mp⟩ (by
      rintro past d rest u split ⟨scanning, stack, remaining⟩
      have member : d ∈ dependents := by
        rw [split]
        simp
      have last : ∀ last, u.stack.getLast? = some last → d ∈ dependentsIn map last := by
        intro last top
        rw [stack, List.getLast?_concat] at top
        cases top
        rwa [listed]
      rcases call d member u scanning stack last with failed | ⟨t, ran, advanced⟩
      · exact .inl failed
      · refine .inr ⟨t, ran, advanced.scanning, advanced.stack.trans stack, fun n waits => ?_⟩
        exact remaining n (advanced.remaining n waits).1)
  · exact .inl ⟨e, failed, report⟩
  · exact .inr ran

variable (closed : ∀ a ∈ map.keys, ∀ b ∈ dependentsIn map a, b ∈ map.keys)

include closed in
theorem scanCyclesFrom_cases (depth : Nat) : ∀ node s, Scanning map s → node ∈ map.keys →
    (∀ last, s.stack.getLast? = some last → node ∈ dependentsIn map last) →
    map.keys.length < depth + s.stack.length →
    (∃ e, scanCyclesFrom map depth node s = .error e ∧ ∃ chain, e = .cyclicDependency chain ∧
      DirectedCycle (fun a b => b ∈ dependentsIn map a) chain) ∨
    ∃ t, scanCyclesFrom map depth node s = .ok t ∧ Advanced map node s t := by
  induction depth with
  | zero =>
    intro node s scanning _ _ deep
    have := scanning.depth_le
    omega
  | succ depth ih =>
    intro node s scanning key edge deep
    unfold scanCyclesFrom
    by_cases exited : node ∈ s.exited
    · refine .inr ⟨s, by rw [if_pos exited], scanning, rfl, fun n waits => ⟨waits, ?_⟩⟩
      rintro rfl
      exact scanning.gone n exited waits
    by_cases waits : node ∉ s.remaining
    · have entered : node ∈ s.stack := by
        rcases (scanning.known node).mp key with first | second | third
        · exact absurd first waits
        · exact absurd second exited
        · exact third
      exact .inl ⟨_, by rw [if_neg exited, if_pos waits], _, rfl, scanning.report entered edge⟩
    rw [if_neg exited, if_neg waits]
    have waits := not_not.mp waits
    obtain ⟨dependents, found⟩ := Option.isSome_iff_exists.mp ((HashMap.mem_keys_iff map node).mp key)
    have listed : dependentsIn map node = dependents := by
      rw [dependentsIn, found]
      rfl
    simp only [found, expect_some, ok_bind]
    rcases scanDependents_cases listed (scanning.push waits edge) fun d member u scanning stack last =>
      ih d u scanning (closed node key d (listed ▸ member)) last (by simp [stack]; omega) with
      ⟨e, failed, report⟩ | ⟨u, ran, scanned, stack, remaining⟩
    · rw [failed, error_bind]
      exact .inl ⟨e, rfl, report⟩
    · rw [ran, ok_bind]
      have here := scanned.entered node (by simp [stack])
      rw [if_neg (by simp [stack]), if_neg here.2]
      refine .inr ⟨_, rfl, ?_, ?_, remaining⟩
      · rw [stack, List.dropLast_concat]
        exact scanned.pop stack
      · rw [stack, List.dropLast_concat]

include closed in
theorem scanLoop_cases (n : Nat) {s : Scan} (scanning : Scanning map s) (empty : s.stack = [])
    (rounds : s.remaining.size ≤ n) :
    scanLoop map (map.keys.length + 1) n s = .ok () ∨ ∃ chain,
      scanLoop map (map.keys.length + 1) n s = .error (.cyclicDependency chain) ∧
      DirectedCycle (fun a b => b ∈ dependentsIn map a) chain := by
  induction n generalizing s with
  | zero =>
    have none : s.remaining.first = none := by
      rw [SortedSet.first, List.head?_eq_none_iff]
      exact List.length_eq_zero_iff.mp (Nat.le_zero.mp rounds)
    exact .inl (by rw [scanLoop, if_pos none])
  | succ n ih =>
    rw [scanLoop]
    cases found : s.remaining.first with
    | none => exact .inl rfl
    | some node =>
      have waits := SortedSet.first_mem found
      rcases scanCyclesFrom_cases closed (map.keys.length + 1) node s scanning
        ((scanning.known node).mpr (.inl waits)) (by simp [empty]) (by simp [empty]) with
        ⟨e, failed, chain, rfl, cycle⟩ | ⟨t, ran, advanced⟩
      · simp only [failed, error_bind]
        exact .inr ⟨chain, rfl, cycle⟩
      · simp only [ran, ok_bind]
        apply ih advanced.scanning (advanced.stack.trans empty)
        have fewer : (node :: t.remaining.toList).length ≤ s.remaining.toList.length := by
          apply (List.Nodup.subperm ?_ ?_).length_le
          · apply List.nodup_cons.mpr
            exact ⟨fun member => (advanced.remaining node member).2 rfl, t.remaining.nodup⟩
          · intro n member
            rcases List.mem_cons.mp member with rfl | member
            · exact waits
            · exact (advanced.remaining n member).1
        rw [List.length_cons] at fewer
        simp only [SortedSet.size] at rounds ⊢
        omega

/-- An order puts `a` before `b`. -/
def Precedes (orders : List Order) (a b : Node) : Prop := ∃ o ∈ orders, o.before = a ∧ o.after = b

variable {nodes : List Node} {orders : List Order}

theorem buildDependentsMap_total (inside : ∀ o ∈ orders, o.before ∈ nodes) :
    ∃ map, buildDependentsMap nodes orders = .ok map := by
  obtain ⟨map, built, -⟩ := foldlM_returns (f := pushDependent) (l := orders)
    (HashMap.Covers · nodes) (.ofKeys nodes fun _ => []) (by
      intro o listed map covers
      obtain ⟨list, found⟩ := covers o.before (inside o listed)
      refine ⟨map.insert o.before (list ++ [o.after]), ?_, covers.insert _ _⟩
      rw [pushDependent, found]
      rfl)
  exact ⟨map, built⟩

/-- The dependents of a node in the table come after it. -/
theorem dependentsIn_iff {map : HashMap Node (List Node)} (inside : ∀ o ∈ orders, o.before ∈ nodes)
    (table : Tabulates map nodes (orderedAfter orders)) (a b : Node) :
    b ∈ dependentsIn map a ↔ Precedes orders a b := by
  rw [dependentsIn, table a, Precedes, ← mem_orderedAfter]
  split
  · rfl
  · rename_i unknown
    simp only [Option.getD_none, List.not_mem_nil, false_iff]
    intro member
    obtain ⟨o, listed, rfl, -⟩ := mem_orderedAfter.mp member
    exact unknown (inside o listed)

/-- Orders along which a rank rises have no cycle. -/
theorem acyclic_of_ranked (rank : Node → Nat)
    (ranked : ∀ o ∈ orders, rank o.before < rank o.after) (n : Node) :
    ¬ Relation.TransGen (Precedes orders) n n := by
  have rises : ∀ a b, Relation.TransGen (Precedes orders) a b → rank a < rank b := by
    intro a b path
    induction path with
    | single edge =>
      obtain ⟨o, listed, rfl, rfl⟩ := edge
      exact ranked o listed
    | tail _ edge below =>
      obtain ⟨o, listed, rfl, rfl⟩ := edge
      exact below.trans (ranked o listed)
  exact fun path => Nat.lt_irrefl _ (rises n n path)

/-- **Cycle detection.** For any orders between the nodes, the scan panics if and only
if they have a cycle, and then it reports one. -/
theorem scan_exact (inside : ∀ o ∈ orders, o.before ∈ nodes ∧ o.after ∈ nodes) :
    ∃ map, buildDependentsMap nodes orders = .ok map ∧
      ((∃ panic, scanCycles map = .error panic) ↔
        ∃ node, Relation.TransGen (Precedes orders) node node) ∧
      ∀ panic, scanCycles map = .error panic → ∃ chain, panic = .cyclicDependency chain ∧
        DirectedCycle (Precedes orders) chain := by
  obtain ⟨map, built⟩ := buildDependentsMap_total fun o member => (inside o member).1
  have table := buildDependentsMap_ok built
  have keys := table.mem_keys
  have edges := dependentsIn_iff (fun o listed => (inside o listed).1) table
  have closed : ∀ a ∈ map.keys, ∀ b ∈ dependentsIn map a, b ∈ map.keys := by
    intro a _ b member
    obtain ⟨o, listed, -, rfl⟩ := (edges a b).mp member
    exact (keys _).mpr (inside o listed).2
  have same : (fun a b => b ∈ dependentsIn map a) = Precedes orders := by
    funext a b
    exact propext (edges a b)
  have size : (SortedSet.empty.extend map.keys).size ≤ map.keys.length := by
    apply ((SortedSet.nodup _).subperm fun n member => ?_).length_le
    simpa using member
  refine ⟨map, built, ?_⟩
  rcases scanLoop_cases closed map.keys.length (.start map) rfl size with
    passed | ⟨chain, failed, cycle⟩
  · have returned : scanCycles map = .ok () := passed
    obtain ⟨rank, ranked⟩ := scanCycles_ranked returned
    refine ⟨⟨?_, ?_⟩, fun panic failed => ?_⟩
    · rintro ⟨panic, failed⟩
      cases returned.symm.trans failed
    · rintro ⟨node, path⟩
      have ranked : ∀ o ∈ orders, rank o.before < rank o.after := by
        intro o listed
        exact ranked _ ((keys _).mpr (inside o listed).1) _ ((edges _ _).mpr ⟨o, listed, rfl, rfl⟩)
      exact absurd path (acyclic_of_ranked rank ranked node)
    · cases returned.symm.trans failed
  · rw [same] at cycle
    have failed : scanCycles map = .error (.cyclicDependency chain) := failed
    refine ⟨⟨fun _ => cycle.transGen, fun _ => ⟨_, failed⟩⟩, fun panic other => ?_⟩
    cases failed.symm.trans other
    exact ⟨chain, rfl, cycle⟩

/-- Two systems, each ordered before the other. -/
def twoOrders : List Order :=
  [⟨.sendSystem 0, .sendSystem 1⟩, ⟨.sendSystem 1, .sendSystem 0⟩]

theorem scan_exact_two : ∃ map,
    buildDependentsMap [.sendSystem 0, .sendSystem 1] twoOrders = .ok map ∧
    scanCycles map = .error (.cyclicDependency [.sendSystem 0, .sendSystem 1, .sendSystem 0]) ∧
    DirectedCycle (Precedes twoOrders) [.sendSystem 0, .sendSystem 1, .sendSystem 0] := by
  have inside : ∀ o ∈ twoOrders, o.before ∈ [Node.sendSystem 0, .sendSystem 1] ∧
      o.after ∈ [Node.sendSystem 0, .sendSystem 1] := by decide
  obtain ⟨map, built, -, report⟩ := scan_exact inside
  cases built
  obtain ⟨chain, same, cycle⟩ := report _ rfl
  cases same
  exact ⟨_, rfl, rfl, cycle⟩

end Dynec.Scheduler
