import Dynec.Storage.Partitions

/-!
# Several mutable references at once

The vector storage hands out references to different components. The check of
the tree for pairwise different cells asks for equal ones instead, so it hands
out several references only if they are all to the same component.
-/

namespace Dynec.Storage

open Fallible

variable {C : Type}

theorem isAllDistinctQuadtime_iff {T : Type} [DecidableEq T] (l : List T) :
    isAllDistinctQuadtime l = true ↔ ∀ a ∈ l, ∀ b ∈ l, a = b := by
  induction l with
  | nil => simp [isAllDistinctQuadtime]
  | cons item rest ih =>
    by_cases same : ∀ other ∈ rest, item = other
    · have all : rest.all (fun other => item = other) = true := by simpa using same
      simp only [isAllDistinctQuadtime, all, Bool.not_true, Bool.false_eq_true, if_false, ih]
      constructor
      · intro _ a ha b hb
        have first : ∀ x ∈ item :: rest, item = x := List.forall_mem_cons.mpr ⟨rfl, same⟩
        exact (first a ha).symm.trans (first b hb)
      · exact fun equal a ha b hb => equal a (.tail _ ha) b (.tail _ hb)
    · have some : (!rest.all fun other => item = other) = true := by simpa using same
      simp only [isAllDistinctQuadtime, some, if_true, Bool.false_eq_true, false_iff]
      exact fun equal => same fun other member => equal item (.head _) other (.tail _ member)

theorem cellPtrs_mapM (m : SortedMap Nat C) (entities : List Nat) :
    (cellPtrs m entities).mapM id =
      if ∀ id ∈ entities, (m.get id).isSome = true then some (manyMut m entities) else none := by
  induction entities with
  | nil => rfl
  | cons entity entities ih =>
    have first : cellPtrs m (entity :: entities) =
        (m.get entity).map (fun value => ⟨entity, value⟩) :: cellPtrs m entities := rfl
    rw [first, List.mapM_cons, ih]
    simp only [List.forall_mem_cons]
    cases found : m.get entity with
    | none => simp
    | some value =>
      simp only [Option.map_some, id_eq, Option.isSome_some, true_and]
      split
      · simp [manyMut, found]
      · rfl

/-- The cells of components that are all present are distinguished by their
entities. -/
theorem allDistinct_iff {m : SortedMap Nat C} {entities : List Nat}
    (all : ∀ id ∈ entities, (m.get id).isSome = true) :
    allDistinct (cellPtrs m entities) = true ↔ ∀ a ∈ entities, ∀ b ∈ entities, a = b := by
  have slots : (cellPtrs m entities).map (fun ptr => ptr.map (·.slot)) = entities.map some := by
    rw [cellPtrs, List.map_map]
    apply List.map_congr_left
    intro id member
    obtain ⟨value, found⟩ := Option.isSome_iff_exists.mp (all id member)
    simp [found]
  rw [allDistinct, slots, isAllDistinctQuadtime_iff]
  simp

/-- The tree hands out several references if they are all to one component. -/
theorem Tree.getManyMut_eq (tree : Tree C) (entities : List Nat) :
    tree.getManyMut entities =
      .ok (if (∀ id ∈ entities, (tree.data.get id).isSome = true) ∧
          ∀ a ∈ entities, ∀ b ∈ entities, a = b
        then some (manyMut tree.data entities) else none) := by
  simp only [Tree.getManyMut]
  rw [TreeShows.mapM_ptrs, cellPtrs_mapM]
  by_cases all : ∀ id ∈ entities, (tree.data.get id).isSome = true
  · by_cases same : ∀ a ∈ entities, ∀ b ∈ entities, a = b
    · simp only [(allDistinct_iff all).mpr same, Bool.not_true, Bool.false_eq_true, if_false]
      rw [if_pos all, if_pos ⟨all, same⟩]
    · have differ : allDistinct (cellPtrs tree.data entities) = false := by
        rw [← Bool.not_eq_true, allDistinct_iff all]
        exact same
      simp only [differ, same, and_false, Bool.not_false, if_true, if_false]
      rfl
  · simp only [all, false_and, if_false]
    split <;> rfl

/-! ## The two storages -/

/-- The references asked for, if every component is there and none is asked for
twice. -/
def requested (m : SortedMap Nat C) (entities : List Nat) : Option (List (CompMut C)) :=
  if Requestable m entities then some (manyMut m entities) else none

/-- Both storages, and all their partitions for ranges that contain the
entities, hand out the references asked for. -/
structure ManyMutAgrees (s : VecStorage C) (tree : Tree C) (entities : List Nat) : Prop where
  inVec : s.getManyMut entities = .ok (requested tree.data entities)
  inTree : tree.getManyMut entities = .ok (requested tree.data entities)
  vecParts : ∀ cuts ranges parts, rangesAfter cuts = some ranges →
    partsAfter s.asPartition cuts = .ok parts → ∀ (i : Nat) range (part : VecPartition C), ranges[i]? = some range →
    parts[i]? = some part → (∀ id ∈ entities, range.Contains id) →
    part.intoManyMut entities = .ok (requested tree.data entities)
  treeParts : ∀ cuts ranges parts, rangesAfter cuts = some ranges →
    partsAfter tree.asPartition cuts = .ok parts → ∀ (i : Nat) range (part : TreePartition C), ranges[i]? = some range →
    parts[i]? = some part → (∀ id ∈ entities, range.Contains id) →
    part.intoManyMut entities = .ok (requested tree.data entities)
  distinct : ∀ refs, s.getManyMut entities = .ok (some refs) ∨
    tree.getManyMut entities = .ok (some refs) →
    refs.map (·.slot) = entities ∧ (refs.map (·.slot)).Nodup

theorem requested_slots {m : SortedMap Nat C} {entities : List Nat} {refs : List (CompMut C)}
    (h : requested m entities = some refs) :
    refs.map (·.slot) = entities ∧ (refs.map (·.slot)).Nodup := by
  unfold requested at h
  split at h
  · rename_i requestable
    cases h
    rw [manyMut_slot requestable.1]
    exact ⟨rfl, requestable.2⟩
  · cases h

/-- Partitions hand out what the storage hands out. -/
theorem manyMutAgrees_of {s : VecStorage C} {tree : Tree C} (represents : Represents s tree.data)
    {entities : List Nat} (same : tree.getManyMut entities = .ok (requested tree.data entities)) :
    ManyMutAgrees s tree entities := by
  have vec : s.getManyMut entities = .ok (requested tree.data entities) :=
    represents.getManyMut entities
  refine ⟨vec, same, ?_, ?_, ?_⟩
  · intro cuts ranges parts valid run i range part here there inside
    have cover := (vec_partsAfter represents valid).2 parts run
    obtain ⟨part', there', holds⟩ := forall₂_at cover.holds here
    rw [there] at there'
    cases there'
    exact (holds.intoManyMut entities inside).trans vec
  · intro cuts ranges parts valid run i range part here there inside
    obtain ⟨parts', run', cover⟩ := tree_partsAfter tree valid
    rw [run] at run'
    cases run'
    obtain ⟨part', there', holds⟩ := forall₂_at cover.holds here
    rw [there] at there'
    cases there'
    exact (holds.intoManyMut entities inside).trans same
  · rintro refs (returned | returned)
    · exact requested_slots (Except.ok.inj (vec.symm.trans returned))
    · exact requested_slots (Except.ok.inj (same.symm.trans returned))

/-- At most one entity is asked for exactly if all are different and all are
the same. -/
theorem length_le_one_iff {entities : List Nat} :
    entities.length ≤ 1 ↔ entities.Nodup ∧ ∀ a ∈ entities, ∀ b ∈ entities, a = b := by
  constructor
  · intro le
    cases entities with
    | nil => simp
    | cons a rest =>
      have none : rest = [] := List.length_eq_zero_iff.mp (Nat.le_zero.mp (Nat.le_of_succ_le_succ le))
      simp [none]
  · rintro ⟨nodup, same⟩
    cases entities with
    | nil => exact Nat.zero_le 1
    | cons a rest =>
      cases rest with
      | nil => exact Nat.le_refl 1
      | cons b rest =>
        have := same a (.head _) b (.tail _ (.head _))
        simp [this] at nodup

/-- **Several mutable references.** For storages filled alike, both hand out
what is asked for exactly if at most one entity is asked for, or one of the
components is missing, or an entity is repeated and another one is asked for
too. -/
theorem get_many_mut_agree (sets : List (Nat × Option C)) (entities : List Nat) :
    ∃ s, VecStorage.default.setAll sets = .ok s ∧
      (ManyMutAgrees s (Tree.default.setAll sets) entities ↔
        entities.length ≤ 1 ∨ (∃ id ∈ entities, (Tree.default.setAll sets).get id = none) ∨
          ¬ entities.Nodup ∧ ∃ a ∈ entities, ∃ b ∈ entities, a ≠ b) := by
  obtain ⟨s, run, represents⟩ := setAll_represents represents_default sets
  refine ⟨s, run, ?_⟩
  obtain ⟨tree, named⟩ : ∃ tree, tree = Tree.default.setAll sets := ⟨_, rfl⟩
  change Represents s (Tree.default.setAll sets).data at represents
  rw [← named] at represents ⊢
  have reduce : ManyMutAgrees s tree entities ↔
      tree.getManyMut entities = .ok (requested tree.data entities) :=
    ⟨ManyMutAgrees.inTree, manyMutAgrees_of represents⟩
  rw [reduce, Tree.getManyMut_eq, Except.ok.injEq, requested]
  have absent : (∃ id ∈ entities, tree.get id = none) ↔
      ¬ ∀ id ∈ entities, (tree.data.get id).isSome = true := by
    simp only [Tree.get, not_forall, Bool.not_eq_true, Option.isSome_eq_false_iff,
      Option.isNone_iff_eq_none, exists_prop]
  have differ : (∃ a ∈ entities, ∃ b ∈ entities, a ≠ b) ↔
      ¬ ∀ a ∈ entities, ∀ b ∈ entities, a = b := by
    simp only [not_forall, exists_prop, ne_eq]
  rw [length_le_one_iff, absent, differ]
  by_cases all : ∀ id ∈ entities, (tree.data.get id).isSome = true
  · by_cases same : ∀ a ∈ entities, ∀ b ∈ entities, a = b
    · rw [if_pos ⟨all, same⟩]
      by_cases nodup : entities.Nodup
      · rw [if_pos ⟨all, nodup⟩]
        exact ⟨fun _ => .inl ⟨nodup, same⟩, fun _ => rfl⟩
      · rw [if_neg fun both : Requestable tree.data entities => nodup both.2]
        constructor
        · intro refused
          cases refused
        · rintro (⟨distinct, -⟩ | missing | ⟨-, different⟩)
          · exact absurd distinct nodup
          · exact absurd all missing
          · exact absurd same different
    · rw [if_neg fun both => same both.2]
      by_cases nodup : entities.Nodup
      · rw [if_pos ⟨all, nodup⟩]
        constructor
        · intro refused
          cases refused
        · rintro (⟨-, equal⟩ | missing | ⟨repeated, -⟩)
          · exact absurd equal same
          · exact absurd all missing
          · exact absurd nodup repeated
      · rw [if_neg fun both : Requestable tree.data entities => nodup both.2]
        exact ⟨fun _ => .inr (.inr ⟨nodup, same⟩), fun _ => rfl⟩
  · rw [if_neg fun both => all both.1, if_neg fun both : Requestable tree.data entities => all both.1]
    exact ⟨fun _ => .inr (.inl all), fun _ => rfl⟩

/-- Two different components are refused, one component is handed out twice. -/
theorem get_many_mut_swapped :
    ∃ s : VecStorage Nat, VecStorage.default.setAll [(1, some 7), (2, some 9)] = .ok s ∧
      s.getManyMut [1, 2] = .ok (some [⟨1, 7⟩, ⟨2, 9⟩]) ∧
      (Tree.default.setAll [(1, some 7), (2, some 9)]).getManyMut [1, 2] = .ok none ∧
      (Tree.default.setAll [(1, some 7), (2, some 9)]).getManyMut [1, 1] =
        .ok (some [⟨1, 7⟩, ⟨1, 7⟩]) :=
  ⟨_, rfl, rfl, rfl, rfl⟩

end Dynec.Storage
