import Dynec.Scheduler.Builder

/-! The exclusion lists hold exactly the conflicting nodes, each once. -/

namespace Dynec.Scheduler

open Fallible

/-- Two nodes have conflicting accesses to some resource. -/
def Clash (resources : ResourceTable) (a b : Node) : Prop :=
  a ≠ b ∧ ∃ ty, anyConflict (resources.accesses ty a) (resources.accesses ty b) = true

theorem anyConflict_iff {l l' : List ResourceAccess} :
    anyConflict l l' = true ↔ ∃ a ∈ l, ∃ b ∈ l', a.conflictsWith b = true := by
  simp [anyConflict]

theorem Clash.symm {resources : ResourceTable} {a b : Node} (h : Clash resources a b) :
    Clash resources b a := by
  obtain ⟨hab, ty, hc⟩ := h
  obtain ⟨x, hx, y, hy, conflict⟩ := anyConflict_iff.mp hc
  refine ⟨hab.symm, ty, anyConflict_iff.mpr ⟨y, hy, x, hx, ?_⟩⟩
  rwa [ResourceAccess.conflictsWith_comm]

/-- A table of exclusion sets over the nodes, with the pairs of `R`. -/
structure Relates (m : HashMap Node (List Node)) (nodes : List Node) (R : Node → Node → Prop) :
    Prop where
  known : ∀ n, (m.lookup n).isSome ↔ n ∈ nodes
  nodup : ∀ n l, m.lookup n = some l → l.Nodup
  mem : ∀ n l, m.lookup n = some l → ∀ k, k ∈ l ↔ R n k

theorem Relates.congr {m : HashMap Node (List Node)} {nodes : List Node}
    {R R' : Node → Node → Prop} (h : Relates m nodes R) (same : ∀ n k, R n k ↔ R' n k) :
    Relates m nodes R' :=
  ⟨h.known, h.nodup, fun n l hl k => (h.mem n l hl k).trans (same n k)⟩

/-- A loop whose body adds the pairs of `E a` adds those of every item. -/
theorem Relates.foldlM {α : Type} {nodes : List Node}
    {f : HashMap Node (List Node) → α → Except Panic (HashMap Node (List Node))}
    {E : α → Node → Node → Prop}
    (body : ∀ a m m' R, Relates m nodes R → f m a = .ok m' →
      Relates m' nodes (fun n k => R n k ∨ E a n k))
    {l : List α} {m m' : HashMap Node (List Node)} {R : Node → Node → Prop}
    (h : Relates m nodes R) (run : l.foldlM f m = .ok m') :
    Relates m' nodes (fun n k => R n k ∨ ∃ a ∈ l, E a n k) := by
  refine foldlM_ok run
    (fun past m => Relates m nodes (fun n k => R n k ∨ ∃ a ∈ past, E a n k)) ?_ ?_
  · exact h.congr fun n k => by simp
  · intro past a m m' _ hm step
    apply (body a m m' _ hm step).congr
    intro n k
    simp only [List.mem_append, List.mem_singleton, or_and_right, exists_or, exists_eq_left,
      or_assoc]

theorem addExclusion_relates {nodes : List Node} {node1 : Node}
    {accesses1 : List ResourceAccess} (e : (_ : Node) × List ResourceAccess)
    (m m' : HashMap Node (List Node)) (R : Node → Node → Prop) (h : Relates m nodes R)
    (step : addExclusion node1 accesses1 m e = .ok m') :
    Relates m' nodes (fun n k => R n k ∨
      (n = node1 ∧ k = e.1 ∧ node1 ≠ e.1 ∧ anyConflict accesses1 e.2 = true)) := by
  unfold addExclusion at step
  split at step
  · rename_i same
    cases step
    exact h.congr fun n k => by simp [same]
  split at step
  · rename_i different conflict
    obtain ⟨set, hs, step⟩ := bind_eq_ok.mp step
    cases step
    have old := expect_eq_ok.mp hs
    have known : node1 ∈ nodes := (h.known node1).mp (by simp [old])
    constructor
    · intro n
      rw [HashMap.lookup_insert_ite]
      by_cases en : n = node1
      · subst en; simp [known]
      · simp only [en, if_false]; exact h.known n
    · intro n l hl
      rw [HashMap.lookup_insert_ite] at hl
      by_cases en : n = node1
      · simp only [en, if_true, Option.some.injEq] at hl
        subst hl
        exact (h.nodup node1 set old).insert
      · simp only [en, if_false] at hl; exact h.nodup n l hl
    · intro n l hl k
      rw [HashMap.lookup_insert_ite] at hl
      by_cases en : n = node1
      · simp only [en, if_true, Option.some.injEq] at hl
        subst hl
        simp only [List.mem_insert_iff, h.mem node1 set old k, en, ne_eq, different, conflict,
          not_false_eq_true, and_true, true_and]
        tauto
      · simp only [en, if_false] at hl
        simp [h.mem n l hl k, en]
  · rename_i different clear
    cases step
    exact h.congr fun n k => by simp [clear]

/-- The pairs of nodes for which the loops compare conflicting accesses. -/
theorem clash_iff_entries {resources : ResourceTable} {n k : Node} :
    Clash resources n k ↔ ∃ r ∈ resources.entries, ∃ e1 ∈ r.2.entries, ∃ e2 ∈ r.2.entries,
      n = e1.1 ∧ k = e2.1 ∧ e1.1 ≠ e2.1 ∧ anyConflict e1.2 e2.2 = true := by
  constructor
  · rintro ⟨hne, ty, hc⟩
    unfold ResourceTable.accesses at hc
    cases hr : resources.lookup ty with
    | none => simp [hr, anyConflict] at hc
    | some table =>
      simp only [hr, Option.getD_some] at hc
      cases hn : table.lookup n with
      | none => simp [hn, anyConflict] at hc
      | some l =>
        cases hk : table.lookup k with
        | none => simp [hk, anyConflict] at hc
        | some l' =>
          simp only [hn, hk, Option.getD_some] at hc
          exact ⟨⟨ty, table⟩, (HashMap.mem_entries_iff _ _ _).mpr hr,
            ⟨n, l⟩, (HashMap.mem_entries_iff _ _ _).mpr hn,
            ⟨k, l'⟩, (HashMap.mem_entries_iff _ _ _).mpr hk, rfl, rfl, hne, hc⟩
  · rintro ⟨⟨ty, table⟩, hr, ⟨n', l⟩, hn, ⟨k', l'⟩, hk, rfl, rfl, hne, hc⟩
    rw [HashMap.mem_entries_iff] at hr hn hk
    exact ⟨hne, ty, by simpa [ResourceTable.accesses, hr, hn, hk] using hc⟩

/-- Turning the sets into vectors changes no pair. -/
theorem Relates.arranged {m : HashMap Node (List Node)} {nodes : List Node}
    {R : Node → Node → Prop} (h : Relates m nodes R) (it : HashOrders) :
    Relates (HashMap.ofKeys m.keys fun node =>
      (it.exclusions node).arrange ((m.lookup node).getD [])) nodes R := by
  have arranged : ∀ n l, (HashMap.ofKeys m.keys fun node =>
      (it.exclusions node).arrange ((m.lookup node).getD [])).lookup n = some l →
      ∃ set, m.lookup n = some set ∧ l = (it.exclusions n).arrange set := by
    intro n l hl
    rw [HashMap.lookup_ofKeys] at hl
    split at hl
    · rename_i hn
      obtain ⟨set, hset⟩ := Option.isSome_iff_exists.mp ((HashMap.mem_keys_iff _ _).mp hn)
      simp only [hset, Option.getD_some, Option.some.injEq] at hl
      exact ⟨set, hset, hl.symm⟩
    · cases hl
  constructor
  case known =>
    intro n
    rw [HashMap.lookup_ofKeys, ← h.known n, ← HashMap.mem_keys_iff]
    by_cases hn : n ∈ m.keys <;> simp [hn]
  case nodup =>
    intro n l hl
    obtain ⟨set, hset, rfl⟩ := arranged n l hl
    exact (it.exclusions n).nodup_arrange.mpr (h.nodup n set hset)
  case mem =>
    intro n l hl k
    obtain ⟨set, hset, rfl⟩ := arranged n l hl
    rw [(it.exclusions n).mem_arrange, h.mem n set hset]

/-- `exclusions[a]` lists `b` exactly when `a` and `b` clash. -/
theorem buildExclusions_ok {it : HashOrders} {nodes : List Node} {resources : ResourceTable}
    {m : HashMap Node (List Node)} (h : buildExclusions it nodes resources = .ok m) :
    Relates m nodes (Clash resources) := by
  unfold buildExclusions at h
  obtain ⟨sets, run, h⟩ := bind_eq_ok.mp h
  cases h
  have start : Relates (HashMap.ofKeys nodes fun _ => []) nodes (fun _ _ => False) :=
    ⟨fun n => by simp, fun n l hl => by simp at hl; simp [hl.2],
      fun n l hl k => by simp at hl; simp [hl.2]⟩
  have sets_relate := start.foldlM (fun r m m' R hm step => hm.foldlM
    (fun e1 m m' R hm step => hm.foldlM addExclusion_relates step) step) run
  have table : Relates sets nodes (Clash resources) := by
    apply sets_relate.congr
    intro n k
    rw [clash_iff_entries, false_or]
  exact table.arranged it

/-- Only systems that the builder has clash. -/
theorem Builder.Valid.clash_known {P : Type} {b : Builder P} (valid : b.Valid) {m n : Node}
    (clash : Clash b.resources m n) : m ∈ b.nodes ∧ m.isSystem = true := by
  obtain ⟨-, ty, conflict⟩ := clash
  apply valid.resources_known ty
  intro absent
  simp [ResourceTable.accesses, absent, anyConflict] at conflict

/-! ## When the lists are built -/

theorem addExclusion_total {nodes : List Node} {node1 : Node} (known : node1 ∈ nodes)
    (accesses1 : List ResourceAccess) (e : (_ : Node) × List ResourceAccess)
    {m : HashMap Node (List Node)} (covers : HashMap.Covers m nodes) :
    ∃ m', addExclusion node1 accesses1 m e = .ok m' ∧ HashMap.Covers m' nodes := by
  unfold addExclusion
  split
  · exact ⟨m, rfl, covers⟩
  split
  · obtain ⟨set, found⟩ := covers node1 known
    rw [found, expect_some, ok_bind]
    exact ⟨_, rfl, covers.insert _ _⟩
  · exact ⟨m, rfl, covers⟩

/-- A table whose nodes are all known never meets an invalid node index. -/
theorem buildExclusions_total (it : HashOrders) {nodes : List Node} {resources : ResourceTable}
    (inside : ∀ ty node, ((resources.lookup ty).getD ∅).lookup node ≠ none → node ∈ nodes) :
    ∃ m, buildExclusions it nodes resources = .ok m := by
  obtain ⟨sets, run, -⟩ := foldlM_returns (f := excludeResource) (l := resources.entries)
    (HashMap.Covers · nodes) (.ofKeys nodes fun _ => []) (by
      rintro ⟨ty, table⟩ stored m covers
      apply foldlM_returns (HashMap.Covers · nodes) covers
      rintro ⟨node1, accesses1⟩ listed m covers
      have known : node1 ∈ nodes := by
        apply inside ty
        rw [(HashMap.mem_entries_iff _ _ _).mp stored, Option.getD_some,
          (HashMap.mem_entries_iff _ _ _).mp listed]
        exact Option.some_ne_none accesses1
      apply foldlM_returns (HashMap.Covers · nodes) covers
      intro e _ m covers
      exact addExclusion_total known accesses1 e covers)
  rw [buildExclusions, run]
  exact ⟨_, rfl⟩

end Dynec.Scheduler
