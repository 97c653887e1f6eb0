import Dynec.Scheduler.Topology

/-! A scan that returns has found an order of the nodes: each node exits after
all its dependents, so the list of exits, latest first, is a topological order
and the dependency relation is well founded. -/

namespace Dynec.Scheduler

open Fallible

/-- The dependents of a node, none for an unknown node. -/
def dependentsIn (map : HashMap Node (List Node)) (node : Node) : List Node :=
  (map.lookup node).getD []

/-- A list of exits, latest first: the dependents of a node exited before it. -/
def Exited (map : HashMap Node (List Node)) : List Node → Prop
  | [] => True
  | node :: rest => node ∉ rest ∧ (∀ d ∈ dependentsIn map node, d ∈ rest) ∧ Exited map rest

/-- What a call of `scan_cycles_from` that returns has done. -/
structure Scanned (map : HashMap Node (List Node)) (s t : Scan) : Prop where
  valid : Exited map t.exited
  grows : ∀ n ∈ s.exited, n ∈ t.exited
  stack : t.stack = s.stack
  covers : ∀ n, n ∈ s.remaining → n ∈ t.remaining ∨ n ∈ t.exited

theorem Scanned.trans {map : HashMap Node (List Node)} {s t u : Scan} (h : Scanned map s t)
    (h' : Scanned map t u) : Scanned map s u where
  valid := h'.valid
  grows n hn := h'.grows n (h.grows n hn)
  stack := h'.stack.trans h.stack
  covers n hn := (h.covers n hn).elim (h'.covers n) fun he => .inr (h'.grows n he)

/-- Scanning each node of a list in turn, given what one scan does. -/
theorem scanList_ok {map : HashMap Node (List Node)} {scan : Node → Scan → Except Panic Scan}
    (one : ∀ node s t, Exited map s.exited → scan node s = .ok t →
      Scanned map s t ∧ node ∈ t.exited) {list : List Node} {s t : Scan}
    (h : list.foldlM (fun s dependent => scan dependent s) s = .ok t)
    (valid : Exited map s.exited) :
    Scanned map s t ∧ ∀ d ∈ list, d ∈ t.exited := by
  induction list generalizing s with
  | nil =>
    cases h
    exact ⟨⟨valid, fun _ h => h, rfl, fun _ => .inl⟩, by simp⟩
  | cons d list ih =>
    rw [List.foldlM_cons] at h
    obtain ⟨u, hu, h⟩ := bind_eq_ok.mp h
    obtain ⟨first, hd⟩ := one d s u valid hu
    obtain ⟨rest, hl⟩ := ih h first.valid
    exact ⟨first.trans rest, List.forall_mem_cons.mpr ⟨rest.grows d hd, hl⟩⟩

theorem scanCyclesFrom_ok (map : HashMap Node (List Node)) (depth : Nat) :
    ∀ node s t, Exited map s.exited → scanCyclesFrom map depth node s = .ok t →
      Scanned map s t ∧ node ∈ t.exited := by
  induction depth with
  | zero => intro node s t _ h; cases h
  | succ depth ih =>
    intro node s t valid h
    unfold scanCyclesFrom at h
    split at h
    · rename_i seen
      cases h
      exact ⟨⟨valid, fun _ h => h, rfl, fun _ => .inl⟩, seen⟩
    split at h
    · cases h
    dsimp only at h
    obtain ⟨dependents, hd, h⟩ := bind_eq_ok.mp h
    obtain ⟨u, hu, h⟩ := bind_eq_ok.mp h
    have known : dependentsIn map node = dependents := by
      simp [dependentsIn, expect_eq_ok.mp hd]
    obtain ⟨inner, all⟩ := scanList_ok ih hu valid
    split at h
    · cases h
    split at h
    · cases h
    rename_i fresh
    cases h
    refine ⟨⟨⟨fresh, known ▸ all, inner.valid⟩, fun n hn => ?_, ?_, fun n hn => ?_⟩, ?_⟩
    · exact List.mem_cons_of_mem _ (inner.grows n hn)
    · simp [inner.stack]
    · by_cases e : n = node
      · exact .inr (by simp [e])
      · rcases inner.covers n (by simp [hn, e]) with h | h
        · exact .inl h
        · exact .inr (List.mem_cons_of_mem _ h)
    · exact List.mem_cons_self

theorem scanLoop_ok (map : HashMap Node (List Node)) (depth n : Nat) {s : Scan}
    (valid : Exited map s.exited) (h : scanLoop map depth n s = .ok ()) :
    ∃ exits, Exited map exits ∧ (∀ k, k ∈ s.remaining ∨ k ∈ s.exited → k ∈ exits) := by
  induction n generalizing s with
  | zero =>
    simp only [scanLoop] at h
    split at h
    · rename_i none
      exact ⟨s.exited, valid, fun k hk => hk.resolve_left (SortedSet.first_none none k)⟩
    · cases h
  | succ n ih =>
    simp only [scanLoop] at h
    split at h
    · rename_i none
      exact ⟨s.exited, valid, fun k hk => hk.resolve_left (SortedSet.first_none none k)⟩
    · obtain ⟨t, ht, h⟩ := bind_eq_ok.mp h
      have scanned := (scanCyclesFrom_ok map depth _ s t valid ht).1
      obtain ⟨exits, he, cover⟩ := ih scanned.valid h
      refine ⟨exits, he, fun k hk => cover k ?_⟩
      rcases hk with hk | hk
      · exact scanned.covers k hk
      · exact .inr (scanned.grows k hk)

theorem exited_closed {map : HashMap Node (List Node)} {exits : List Node}
    (h : Exited map exits) {a b : Node} (ha : a ∈ exits) (hb : b ∈ dependentsIn map a) :
    b ∈ exits := by
  induction exits with
  | nil => simp at ha
  | cons n rest ih =>
    obtain ⟨_, below, hr⟩ := h
    rcases List.mem_cons.mp ha with rfl | ha
    · exact List.mem_cons_of_mem _ (below b hb)
    · exact List.mem_cons_of_mem _ (ih hr ha)

theorem exited_idxOf {map : HashMap Node (List Node)} {exits : List Node}
    (h : Exited map exits) {a b : Node} (ha : a ∈ exits) (hb : b ∈ dependentsIn map a) :
    exits.idxOf a < exits.idxOf b := by
  induction exits with
  | nil => simp at ha
  | cons n rest ih =>
    obtain ⟨fresh, below, hr⟩ := h
    have later : ∀ k ∈ rest, (n :: rest).idxOf k = rest.idxOf k + 1 := by
      intro k hk
      exact List.idxOf_cons_ne _ (by rintro rfl; exact fresh hk)
    rcases List.mem_cons.mp ha with rfl | ha
    · rw [List.idxOf_cons_self, later b (below b hb)]
      omega
    · rw [later a ha, later b (exited_closed hr ha hb)]
      have := ih hr ha
      omega

/-- A map that passes `scan_cycles` can be ranked so that every dependent has
a higher rank than what it depends on. -/
theorem scanCycles_ranked {map : HashMap Node (List Node)} (h : scanCycles map = .ok ()) :
    ∃ rank : Node → Nat, ∀ a ∈ map.keys, ∀ b ∈ dependentsIn map a, rank a < rank b := by
  unfold scanCycles at h
  obtain ⟨exits, valid, cover⟩ := scanLoop_ok map _ _ (by exact trivial) h
  refine ⟨exits.idxOf, fun a ha b hb => exited_idxOf valid (cover a (.inl ?_)) hb⟩
  simpa using ha

end Dynec.Scheduler
