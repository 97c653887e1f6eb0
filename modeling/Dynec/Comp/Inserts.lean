import Dynec.Comp.Arrays

/-!
# Inserting several entries

`get_by_or_insert_array` calls `get_by_or_insert` for each discriminant, and then splits
the map at the indices that it was told on the way. An index is out of date if a later
insertion moves its entry.
-/

namespace Dynec.Comp

open Fallible

variable {D V U P σ : Type} [Discrim D] [DecidableEq D]

omit [Discrim D] [DecidableEq D] in
theorem mapAccum_cons {τ α β : Type} {f : τ → α → Except Panic (β × τ)} {t t' t'' : τ} {a : α}
    {l : List α} {b : β} {bs : List β} (first : f t a = .ok (b, t'))
    (rest : mapAccum f t' l = .ok (bs, t'')) : mapAccum f t (a :: l) = .ok (b :: bs, t'') := by
  rw [mapAccum, first, ok_bind]
  simp only [rest, ok_bind]
  rfl

/-- The partial map after the missing discriminants have been inserted one by one, and the
state of the inserter. -/
def insertAll (inserter : D → σ → V × σ) : (D → Option V) → List D → σ → (D → Option V) × σ
  | p, [], s => (p, s)
  | p, d :: rest, s => match p d with
    | some _ => insertAll inserter p rest s
    | none =>
      insertAll inserter (Function.update p d (some (inserter d s).1)) rest (inserter d s).2

namespace FullMap

/-- Calls `get_by_or_insert` for each discriminant. -/
def getEachOrInsert (m : FullMap D V) (discrims : List D) (inserter : D → σ → V × σ) (s : σ) :
    Except Panic (List Nat × FullMap D V × σ) :=
  mapAccum (fun (m, s) d => m.getByOrInsert d (inserter d) s) (m, s) discrims

/-- No discriminant that is missing is smaller than one before it. -/
def Rising (m : FullMap D V) (discrims : List D) : Prop :=
  discrims.Pairwise fun d d' => m.getBy d' = none → Discrim.intoUsize d < Discrim.intoUsize d'

/-- The entries of a sorted map move when a smaller one is inserted, and no others do. -/
structure Ran (m m' : FullMap D V) (discrims : List D) (indices : List Nat) : Prop where
  wellFormed : m'.WellFormed
  layout : m'.layout = m.layout
  moved : ∀ slot d v, m.Holds slot d v → ∃ slot', m'.Holds slot' d v ∧ slot ≤ slot' ∧
    (slot' = slot ↔ (m.layout = .sorted → ∀ d' ∈ discrims, m.getBy d' = none →
      Discrim.intoUsize d < Discrim.intoUsize d'))
  placed : ∃ slots, Placed m'.getMutBy discrims slots ∧
    (indices = slots ↔ (m.layout = .sorted → m.Rising discrims))

variable {m : FullMap D V}

theorem Ran.cons {m₁ m' : FullMap D V} {d : D} {v : V} {rest : List D} {index : Nat}
    {indices : List Nat} (wf : m.WellFormed) (fresh : d ∉ rest)
    (obtained : Obtained m m₁ index d v) (ran : Ran m₁ m' rest indices) :
    Ran m m' (d :: rest) (index :: indices) := by
  have missing : ∀ d' ∈ rest, m₁.getBy d' = m.getBy d' := by
    intro d' member
    rw [obtained.getBy, Function.update_of_ne]
    rintro rfl
    exact fresh member
  have later : ∀ p : D → Prop, (m₁.layout = .sorted → ∀ d' ∈ rest, m₁.getBy d' = none → p d') ↔
      (m.layout = .sorted → ∀ d' ∈ rest, m.getBy d' = none → p d') := by
    intro p
    rw [obtained.layout]
    refine imp_congr_right fun _ => forall₂_congr fun d' member => ?_
    rw [missing d' member]
  constructor
  case wellFormed => exact ran.wellFormed
  case layout => exact ran.layout.trans obtained.layout
  case moved =>
    intro slot d₀ v₀ here
    obtain ⟨slot', here', after, stays⟩ := ran.moved _ _ _ (obtained.moved slot d₀ v₀ here)
    rw [later] at stays
    have still : (if (m.getBy d).isSome then 0 else m.shift d d₀) = 0 ↔
        (m.layout = .sorted → m.getBy d = none → Discrim.intoUsize d₀ < Discrim.intoUsize d) := by
      cases found : m.getBy d with
      | some w => simp
      | none =>
        have other : Discrim.intoUsize d₀ ≠ Discrim.intoUsize d := by
          intro same
          cases intoUsize_inj same
          exact (getBy_eq_none_iff wf).mp found slot v₀ here
        simp only [Option.isSome_none, Bool.false_eq_true, if_false, shift, forall_const]
        split
        · rename_i both
          have := both.2
          simp only [both.1, forall_const]
          omega
        · rename_i not_both
          rw [not_and] at not_both
          apply iff_of_true rfl
          intro sorted
          have := not_both sorted
          omega
    refine ⟨slot', here', by omega, ?_⟩
    have split : slot' = slot ↔ (if (m.getBy d).isSome then 0 else m.shift d d₀) = 0 ∧
        slot' = slot + if (m.getBy d).isSome then 0 else m.shift d d₀ := by omega
    rw [split, still, stays]
    simp only [List.forall_mem_cons]
    exact forall_and.symm
  case placed =>
    obtain ⟨slot', here', -, stays⟩ := ran.moved index d v obtained.here
    obtain ⟨slots, placed, same⟩ := ran.placed
    refine ⟨slot' :: slots, .cons ((getMutBy_iff ran.wellFormed).mpr ⟨v, here'⟩) placed, ?_⟩
    have rising : m₁.Rising rest ↔ m.Rising rest := by
      refine List.Pairwise.iff_of_mem fun {d₁ d₂} _ member => ?_
      rw [missing d₂ member]
    rw [later] at stays
    rw [obtained.layout, rising] at same
    rw [List.cons.injEq, eq_comm (a := index), stays, same, Rising, Rising, List.pairwise_cons]
    exact forall_and.symm

theorem getEachOrInsert_ran (wf : m.WellFormed) {discrims : List D} (distinct : discrims.Nodup)
    (supports : ∀ d ∈ discrims, m.Supports d) (inserter : D → σ → V × σ) (s : σ) :
    ∃ indices m', m.getEachOrInsert discrims inserter s =
        .ok (indices, m', (insertAll inserter m.getBy discrims s).2) ∧
      m'.getBy = (insertAll inserter m.getBy discrims s).1 ∧ Ran m m' discrims indices := by
  induction discrims generalizing m s with
  | nil =>
    refine ⟨[], m, rfl, rfl, wf, rfl, fun slot d v here => ⟨slot, here, le_refl _, ?_⟩, [], .nil, ?_⟩
    · simp
    · simp [Rising]
  | cons d rest ih =>
    obtain ⟨fresh, distinct⟩ := List.nodup_cons.mp distinct
    obtain ⟨here, supports⟩ := List.forall_mem_cons.mp supports
    obtain ⟨index, m₁, run, obtained⟩ := getByOrInsert_spec wf here (inserter d) s
    have supports₁ : ∀ d' ∈ rest, m₁.Supports d' := fun d' member =>
      (obtained.supports d').mpr (supports d' member)
    obtain ⟨indices, m', run', looked, ran⟩ := ih obtained.wellFormed distinct supports₁
      (if (m.getBy d).isSome then s else (inserter d s).2)
    have same : insertAll inserter m.getBy (d :: rest) s = insertAll inserter m₁.getBy rest
        (if (m.getBy d).isSome then s else (inserter d s).2) := by
      rw [insertAll, obtained.getBy]
      cases found : m.getBy d with
      | some v =>
        simp only [Option.getD_some, Option.isSome_some, if_true]
        rw [← found, Function.update_eq_self]
      | none => rfl
    refine ⟨index :: indices, m', ?_, by rw [same]; exact looked, ?_⟩
    · rw [same]
      exact mapAccum_cons run run'
    · exact ran.cons wf fresh obtained

/-! ## Splitting the map -/

section Split

variable [DecidableEq P]

/-- What `get_by_or_insert_array` does when all entries are there. -/
def splitEntries (m : FullMap D V) (indices : List Nat) (transform : D → Nat → V → U × V)
    (asPtr : U → P) : Except Panic (List U × FullMap D V) :=
  match m with
  | .linear map => Prod.map id (fun vec => .linear ⟨vec⟩) <$>
      splitPairs map.vec indices transform (fun _ => .unreachable) asPtr
  | .sorted map => Prod.map id (fun vec => .sorted ⟨vec⟩) <$>
      splitPairs map.vec indices transform (fun _ => .unreachable) asPtr
  | .bounded map => Prod.map id (fun vec => .bounded ⟨vec⟩) <$>
      splitSlots map.vec (fun vec index => expect .notResized vec[index]?) indices
        (fun i slot value => do return transform (← fromUsize D i) slot value)
        (fun _ => .unreachable) asPtr
  | .array map => Prod.map id .array <$>
      splitMutArray map (fun self index => expect .indexOutOfBounds self.array[index]?)
        (fun self index value => self.set index (some value)) indices
        (fun i slot value => do return transform (← fromUsize D i) slot value)
        (fun _ => .unreachable) asPtr

omit [Discrim D] [DecidableEq D] [DecidableEq P] in
theorem mapAccum_embed {τ τ' α β : Type} {f : τ → α → Except Panic (β × τ)}
    {h : τ' → α → Except Panic (β × τ')} (g : τ → τ')
    (step : ∀ t a, h (g t) a = Prod.map id g <$> f t a) (t : τ) (l : List α) :
    mapAccum h (g t) l = Prod.map id g <$> mapAccum f t l := by
  induction l generalizing t with
  | nil => rfl
  | cons a l ih =>
    rw [mapAccum, mapAccum, step]
    cases f t a with
    | error e => rfl
    | ok r =>
      simp only [ok_bind, map_bind, Except.map_ok, Prod.map]
      rw [ih]
      cases mapAccum f r.2 l with
      | error e => rfl
      | ok r' => rfl

omit [DecidableEq P] in
/-- The insertions into one of the maps are those into the map of its layout. -/
theorem getEachOrInsert_of {X : Type} (make : X → FullMap D V)
    (insert : X → D → (σ → V × σ) → σ → Except Panic (Nat × X × σ))
    (same : ∀ map d create s, (make map).getByOrInsert d create s =
      Prod.map id (Prod.map make id) <$> insert map d create s)
    (map : X) (discrims : List D) (inserter : D → σ → V × σ) (s : σ) :
    Prod.map id (Prod.map make id) <$>
        mapAccum (fun (map, s) d => insert map d (inserter d) s) (map, s) discrims =
      (make map).getEachOrInsert discrims inserter s :=
  (mapAccum_embed (Prod.map make id) (fun (map, s) d => same map d (inserter d) s) (map, s)
    discrims).symm

theorem getByOrInsertArray_eq (discrims : List D) (inserter : D → σ → V × σ) (s : σ)
    (transform : D → Nat → V → U × V) (asPtr : U → P) :
    m.getByOrInsertArray discrims inserter s transform asPtr = (do
      let r ← m.getEachOrInsert discrims inserter s
      let r' ← r.2.1.splitEntries r.1 transform asPtr
      return (r'.1, r'.2, r.2.2)) := by
  cases m with
  | linear map =>
    have inserted := getEachOrInsert_of .linear LinearVecMap.getByOrInsert (fun _ _ _ _ => rfl) map
      discrims inserter s
    refine map_bind_of inserted fun (indices, map, s) => ?_
    exact map_bind_of rfl fun (out, vec) => rfl
  | sorted map =>
    have inserted := getEachOrInsert_of .sorted SortedVecMap.getByOrInsert (fun _ _ _ _ => rfl) map
      discrims inserter s
    refine map_bind_of inserted fun (indices, map, s) => ?_
    exact map_bind_of rfl fun (out, vec) => rfl
  | bounded map =>
    have inserted := getEachOrInsert_of .bounded BoundedVecMap.getByOrInsert (fun _ _ _ _ => rfl) map
      discrims inserter s
    refine map_bind_of inserted fun (indices, map, s) => ?_
    exact map_bind_of rfl fun (out, vec) => rfl
  | array map =>
    have inserted := getEachOrInsert_of .array ArrayMap.getByOrInsert (fun _ _ _ _ => rfl) map
      discrims inserter s
    refine map_bind_of inserted fun (indices, map, s) => ?_
    exact map_bind_of rfl fun (out, map) => rfl

/-- The references that the callback returns for two values are different. -/
def Derived (look : Nat → Option V) (transform : D → Nat → V → U × V) (asPtr : U → P) : Prop :=
  ∀ d d' slot slot' v v', look slot = some v → look slot' = some v' →
    asPtr (transform d slot v).1 = asPtr (transform d' slot' v').1 → slot = slot'

/-- The discriminants are those with the integers 0, 1, 2, ... -/
def Counting (discrims : List D) : Prop :=
  ∀ (i : Nat) d, discrims[i]? = some d → Discrim.intoUsize d = i

variable {transform : D → Nat → V → U × V} {asPtr : U → P}

omit [DecidableEq D] in
theorem exists_counting {n : Nat} (supported : ∀ i < n, ∃ d : D, Discrim.intoUsize d = i) :
    ∃ told : List D, told.length = n ∧ Counting told := by
  have each : ∀ i ∈ List.range n, ∃ d : D, Discrim.intoUsize d = i := fun i member =>
    supported i (List.mem_range.mp member)
  obtain ⟨told, all⟩ := exists_forall₂ each
  refine ⟨told, by rw [← all.length_eq, List.length_range], fun i d at_i => ?_⟩
  obtain ⟨inside, rfl⟩ := List.getElem?_eq_some_iff.mp at_i
  have here := all.get (by rw [all.length_eq]; exact inside) inside
  rw [List.get_eq_getElem, List.get_eq_getElem, List.getElem_range] at here
  exact here

omit [DecidableEq D] in
theorem told_exactly {C : Type} {getter : C → Nat → Except Panic (Option V)}
    {put : C → Nat → V → C} {look : C → Nat → Option V}
    (sees : ∀ c k old, getter c k = .ok (some old) ↔ look c k = some old)
    (writes : ∀ c k t k', look c k ≠ none →
      look (put c k t) k' = if k' = k then some t else look c k')
    {c : C} (derived : Derived (look c) transform asPtr) {indices : List Nat} (onMissing : Nat → Panic) :
    Exactly (indices.Nodup ∧ (∀ slot ∈ indices, (look c slot).isSome) ∧
        ∀ i < indices.length, ∃ d : D, Discrim.intoUsize d = i)
      (splitMutArray c getter put indices
        (fun i slot value => do return transform (← fromUsize D i) slot value) onMissing asPtr)
      fun r => ∃ told : List D, told.length = indices.length ∧ Counting told ∧
        Handed (look c) (look r.2) indices (told.map transform) r.1 := by
  constructor
  · rintro ⟨once, present, supported⟩
    have returns : ∃ out c', splitMutArray c getter put indices
        (fun i slot value => do return transform (← fromUsize D i) slot value) onMissing asPtr =
          .ok (out, c') := by
      refine splitMutArray_returns sees writes once ?_ ?_
      · intro i slot at_i
        obtain ⟨old, found⟩ := Option.isSome_iff_exists.mp (present slot (List.mem_of_getElem? at_i))
        obtain ⟨d, at_d⟩ := supported i (List.getElem?_eq_some_iff.mp at_i).1
        exact ⟨old, transform d slot old, found, by rw [fromUsize_eq_ok.mpr at_d]; rfl⟩
      · intro i j slot slot' old old' r r' before at_i at_j found found' run run' same
        obtain ⟨d, -, run⟩ := bind_eq_ok.mp run
        obtain ⟨d', -, run'⟩ := bind_eq_ok.mp run'
        cases run
        cases run'
        have again := derived _ _ _ _ _ _ found found' same
        subst again
        have inside := (List.getElem?_eq_some_iff.mp at_j).1
        exact List.nodup_iff_getElem?_ne_getElem?.mp once i j before inside (at_i.trans at_j.symm)
    obtain ⟨out, c', run⟩ := returns
    have parted := splitMutArray_parted sees writes run
    obtain ⟨told, long, counting⟩ := exists_counting supported
    refine ⟨(out, c'), run, told, long, counting, ?_⟩
    apply parted.handed_slots (by rw [List.length_map, long])
    intro i slot v r call at_call run
    rw [List.getElem?_map, Option.map_eq_some_iff] at at_call
    obtain ⟨d, at_d, rfl⟩ := at_call
    rw [fromUsize_eq_ok.mpr (counting i d at_d)] at run
    cases run
    rfl
  · intro fails
    cases run : splitMutArray c getter put indices
        (fun i slot value => do return transform (← fromUsize D i) slot value) onMissing asPtr with
    | error e => exact ⟨e, rfl⟩
    | ok r =>
      have parted := splitMutArray_parted sees writes run
      refine absurd ⟨parted.once, fun slot member => ?_, fun i inside => ?_⟩ fails
      · obtain ⟨i, at_i⟩ := List.mem_iff_getElem?.mp member
        obtain ⟨old, -, found, -⟩ := parted.given i slot at_i
        rw [found]
        rfl
      · obtain ⟨_, _, _, called, _⟩ := parted.given i _ (List.getElem?_eq_getElem inside)
        obtain ⟨d, at_d, -⟩ := bind_eq_ok.mp called
        exact ⟨d, fromUsize_eq_ok.mp at_d⟩

omit [Discrim D] [DecidableEq D] [DecidableEq P] in
theorem bounded_sees (e : Panic) (slots : List (Option V)) (k : Nat) (old : V) :
    expect e slots[k]? = .ok (some old) ↔ occupied slots k = some old := by
  rw [expect_eq_ok, occupied_eq_some]

omit [Discrim D] [DecidableEq D] [DecidableEq P] in
theorem array_sees {N : Nat} (e : Panic) (map : ArrayMap D V N) (k : Nat) (old : V) :
    expect e map.array[k]? = .ok (some old) ↔ occupied map.array k = some old :=
  bounded_sees e map.array k old

/-- The discriminants that the callback is told. -/
def Tells (m : FullMap D V) (slots : List Nat) (told : List D) : Prop :=
  match m.layout with
  | .indexed => told.length = slots.length ∧ Counting told
  | _ => List.Forall₂ (fun slot d => ∃ v, m.Holds slot d v) slots told

theorem splitEntries_pairs {vec : List (D × V)} (make : List (D × V) → FullMap D V)
    (derived : Derived (make vec).valueAt transform asPtr) (values : ∀ vec, (make vec).valueAt = Pairs.getBy vec)
    (searched : ∀ {vec vec' : List (D × V)}, vec'.map (·.1) = vec.map (·.1) →
      (make vec').getMutBy = (make vec).getMutBy) (indices : List Nat) :
    Exactly (indices.Nodup ∧ ∀ slot ∈ indices, ((make vec).valueAt slot).isSome)
      (Prod.map id make <$> splitPairs vec indices transform (fun _ => .unreachable) asPtr)
      fun r => r.2.getMutBy = (make vec).getMutBy ∧ ∃ told,
        List.Forall₂ (fun slot d => ∃ v, vec[slot]? = some (d, v)) indices told ∧
        Handed (make vec).valueAt r.2.valueAt indices (told.map transform) r.1 := by
  refine (splitPairs_exactly.map fun r parted => ?_).mono ?_ fun _ last => last
  · have each : ∀ slot ∈ indices, ∃ d v, vec[slot]? = some (d, v) := by
      intro slot member
      obtain ⟨i, at_i⟩ := List.mem_iff_getElem?.mp member
      obtain ⟨old, -, found, -⟩ := parted.given i slot at_i
      exact ⟨old.1, old.2, found⟩
    obtain ⟨told, all⟩ := exists_forall₂ each
    have handed := parted.handed (all.imp fun slot d ⟨v, found⟩ => by
      rw [Pairs.getDiscrim, found]
      rfl)
    refine ⟨searched parted.keys_eq, told, all, ?_⟩
    simp only [values, Prod.map_snd, Prod.map_fst, id]
    exact handed
  · apply and_congr_right
    intro once
    have inside : ∀ slot, ((make vec).valueAt slot).isSome = true ↔ slot < vec.length := by
      intro slot
      simp [values, Pairs.getBy]
    simp only [inside]
    refine and_iff_left_of_imp fun _ => apart_iff.mpr ?_
    intro i j slot slot' u u' before at_i at_j here here' same
    obtain ⟨e, found, rfl⟩ := Option.map_eq_some_iff.mp here
    obtain ⟨e', found', rfl⟩ := Option.map_eq_some_iff.mp here'
    have again := derived _ _ _ _ _ _ (by rw [values, Pairs.getBy, found]; rfl)
      (by rw [values, Pairs.getBy, found']; rfl) same
    subst again
    have bound := (List.getElem?_eq_some_iff.mp at_j).1
    exact List.nodup_iff_getElem?_ne_getElem?.mp once i j before bound (at_i.trans at_j.symm)

theorem splitEntries_exactly (derived : Derived m.valueAt transform asPtr) (indices : List Nat) :
    Exactly (indices.Nodup ∧ (∀ slot ∈ indices, (m.valueAt slot).isSome) ∧
        (m.layout = .indexed → ∀ i < indices.length, ∃ d : D, Discrim.intoUsize d = i))
      (m.splitEntries indices transform asPtr)
      fun r => r.2.getMutBy = m.getMutBy ∧ ∃ told, Tells m indices told ∧
        Handed m.valueAt r.2.valueAt indices (told.map transform) r.1 := by
  cases m with
  | linear map =>
    refine (splitEntries_pairs (fun vec => .linear ⟨vec⟩) derived (fun _ => rfl) linear_keys
      indices).mono ?_ fun _ last => last
    simp [layout]
  | sorted map =>
    refine (splitEntries_pairs (fun vec => .sorted ⟨vec⟩) derived (fun _ => rfl) sorted_keys
      indices).mono ?_ fun _ last => last
    simp [layout]
  | bounded map =>
    refine ((told_exactly (bounded_sees _) slots_writes derived _).map ?_).mono ?_ fun _ last => last
    · rintro r ⟨told, long, counting, handed⟩
      refine ⟨funext fun k => ?_, told, ⟨long, counting⟩, handed⟩
      exact map_const_eq (handed.isSome_eq (Discrim.intoUsize k)) _
    · simp [layout, valueAt]
  | array map =>
    refine ((told_exactly (array_sees _) array_writes derived _).map ?_).mono ?_ fun _ last => last
    · rintro r ⟨told, long, counting, handed⟩
      refine ⟨funext fun k => ?_, told, ⟨long, counting⟩, handed⟩
      exact map_const_eq (handed.isSome_eq (Discrim.intoUsize k)) _
    · simp [layout, valueAt]

omit [DecidableEq D] in
theorem splitEntries_apart {indices : List Nat} {out : List U} {m' : FullMap D V}
    (run : m.splitEntries indices transform asPtr = .ok (out, m')) : (out.map asPtr).Nodup := by
  cases m with
  | linear map | sorted map =>
    obtain ⟨r, split, same⟩ := map_eq_ok.mp run
    cases same
    exact (splitMutArray_parted pairs_sees pairs_writes split).apart
  | bounded map =>
    obtain ⟨r, split, same⟩ := map_eq_ok.mp run
    cases same
    exact (splitMutArray_parted (bounded_sees _) slots_writes split).apart
  | array map =>
    obtain ⟨r, split, same⟩ := map_eq_ok.mp run
    cases same
    exact (splitMutArray_parted (array_sees _) array_writes split).apart

omit [Discrim D] [DecidableEq D] [DecidableEq P] in
theorem set_of_getElem? {α : Type} {l : List α} {k : Nat} {a : α} (found : l[k]? = some a) :
    l.set k a = l := by
  obtain ⟨inside, rfl⟩ := List.getElem?_eq_some_iff.mp found
  exact List.set_getElem_self inside

omit [DecidableEq D] in
theorem splitEntries_same {indices : List Nat} {out : List U} {m' : FullMap D V}
    (looks : ∀ d slot v, (transform d slot v).2 = v)
    (run : m.splitEntries indices transform asPtr = .ok (out, m')) : m' = m := by
  have called : ∀ i slot v (r : U × V),
      (do return transform (← fromUsize D i) slot v) = (.ok r : Except Panic _) → r.2 = v := by
    intro i slot v r run
    obtain ⟨d, -, run⟩ := bind_eq_ok.mp run
    cases run
    exact looks d slot v
  cases m with
  | linear map | sorted map =>
    obtain ⟨⟨out', vec⟩, split, same⟩ := map_eq_ok.mp run
    cases same
    have same : vec = map.vec := by
      refine splitMutArray_same pairs_sees pairs_writes ?_ (fun _ _ _ => set_of_getElem?) split
      intro i slot e r run
      cases run
      rw [looks]
    rw [same]
  | bounded map =>
    obtain ⟨⟨out', vec⟩, split, same⟩ := map_eq_ok.mp run
    cases same
    have same : vec = map.vec := splitMutArray_same (bounded_sees _) slots_writes called
      (fun _ _ _ found => set_of_getElem? (occupied_eq_some.mp found)) split
    rw [same]
  | array map =>
    obtain ⟨⟨out', map'⟩, split, same⟩ := map_eq_ok.mp run
    cases same
    have same : map' = map := by
      refine splitMutArray_same (array_sees _) array_writes called (fun map k old found => ?_) split
      cases map
      simp only [ArrayMap.set, set_of_getElem? (occupied_eq_some.mp found)]
    rw [same]

end Split

/-! ## The right entries -/

/-- What `get_by_or_insert` for each discriminant does, and where the entries are then. -/
structure Sequential (m : FullMap D V) (discrims : List D) (inserter : D → σ → V × σ) (s : σ)
    (m₁ : FullMap D V) (s₁ : σ) (slots : List Nat) : Prop where
  run : ∃ indices, m.getEachOrInsert discrims inserter s = .ok (indices, m₁, s₁)
  getBy : m₁.getBy = (insertAll inserter m.getBy discrims s).1
  state : s₁ = (insertAll inserter m.getBy discrims s).2
  placed : Placed m₁.getMutBy discrims slots

theorem Sequential.unique {discrims : List D} {inserter : D → σ → V × σ} {s s₁ s₁' : σ}
    {m₁ m₁' : FullMap D V} {slots slots' : List Nat}
    (h : Sequential m discrims inserter s m₁ s₁ slots)
    (h' : Sequential m discrims inserter s m₁' s₁' slots') : m₁ = m₁' ∧ s₁ = s₁' ∧ slots = slots' := by
  obtain ⟨indices, run⟩ := h.run
  obtain ⟨indices', run'⟩ := h'.run
  cases run.symm.trans run'
  exact ⟨rfl, rfl, h.placed.filterMap_eq.symm.trans h'.placed.filterMap_eq⟩

/-- The call gives each position the entry of its discriminant. -/
def GivesEntries (m : FullMap D V) (discrims : List D) (inserter : D → σ → V × σ) (s : σ) : Prop :=
  ∃ m₁ s₁ slots, Sequential m discrims inserter s m₁ s₁ slots ∧
    ∀ (U P : Type) [DecidableEq P] (transform : D → Nat → V → U × V) (asPtr : U → P),
      Derived m₁.valueAt transform asPtr → ∃ (told : List D) (out : List U) (m₂ : FullMap D V),
        m.getByOrInsertArray discrims inserter s transform asPtr = .ok (out, m₂, s₁) ∧
        m₂.getMutBy = m₁.getMutBy ∧
        Handed m₁.valueAt m₂.valueAt slots (told.map transform) out

/-- The call also tells each position its discriminant. -/
def TellsDiscrims (m : FullMap D V) (discrims : List D) (inserter : D → σ → V × σ) (s : σ) : Prop :=
  ∃ m₁ s₁ slots, Sequential m discrims inserter s m₁ s₁ slots ∧
    ∀ (U P : Type) [DecidableEq P] (transform : D → Nat → V → U × V) (asPtr : U → P),
      Derived m₁.valueAt transform asPtr → ∃ out m₂,
        m.getByOrInsertArray discrims inserter s transform asPtr = .ok (out, m₂, s₁) ∧
        m₂.getMutBy = m₁.getMutBy ∧
        Handed m₁.valueAt m₂.valueAt slots (discrims.map transform) out

/-- A callback that returns what it is told. -/
def probe (d : D) (slot : Nat) (v : V) : (D × Nat) × V := ((d, slot), v)

omit [Discrim D] [DecidableEq D] in
theorem probe_derived (look : Nat → Option V) :
    Derived look (probe : D → Nat → V → (D × Nat) × V) Prod.snd :=
  fun _ _ _ _ _ _ _ _ same => same

omit [Discrim D] [DecidableEq D] in
theorem probe_zip {look look' : Nat → Option V} {slots : List Nat} {told : List D}
    {out : List (D × Nat)} (handed : Handed look look' slots (told.map probe) out) :
    out = told.zip slots := by
  apply List.ext_getElem?
  intro i
  by_cases inside : i < slots.length
  · have inside' : i < told.length := by
      rw [← List.length_map (f := (probe : D → Nat → V → (D × Nat) × V)), handed.called]
      exact inside
    obtain ⟨v, -, at_out, -⟩ := handed.given i slots[i] (probe told[i])
      (List.getElem?_eq_getElem inside) (by rw [List.getElem?_map, List.getElem?_eq_getElem inside']; rfl)
    have both := (List.getElem?_zip_eq_some (z := (told[i], slots[i]))).mpr
      ⟨List.getElem?_eq_getElem inside', List.getElem?_eq_getElem inside⟩
    rw [at_out, both]
    rfl
  · rw [List.getElem?_eq_none (by rw [handed.filled]; omega),
      List.getElem?_eq_none (by rw [List.length_zip]; omega)]

section Given

variable (wf : m.WellFormed) {discrims : List D} (distinct : discrims.Nodup)
  (supports : ∀ d ∈ discrims, m.Supports d) (inserter : D → σ → V × σ) (s : σ)

omit [DecidableEq D] [Discrim D] in
theorem zip_inj {told told' : List D} {slots slots' : List Nat} (same : told.zip slots = told'.zip slots')
    (long : told.length = slots.length) (long' : told'.length = slots'.length) :
    told = told' ∧ slots = slots' := by
  have left := congrArg (List.map Prod.fst) same
  have right := congrArg (List.map Prod.snd) same
  rw [List.map_fst_zip (by omega), List.map_fst_zip (by omega)] at left
  rw [List.map_snd_zip (by omega), List.map_snd_zip (by omega)] at right
  exact ⟨left, right⟩

omit [DecidableEq D] [Discrim D] in
theorem probe_inj {look look' : Nat → Option V} {told told' : List D} {slots slots' : List Nat}
    {out : List (D × Nat)} (handed : Handed look look' slots (told.map probe) out)
    (handed' : Handed look look' slots' (told'.map probe) out) : told = told' ∧ slots = slots' := by
  have long := handed.called
  have long' := handed'.called
  rw [List.length_map] at long long'
  exact zip_inj ((probe_zip handed).symm.trans (probe_zip handed')) long long'

theorem Ran.present {m' : FullMap D V} {indices : List Nat} {slots : List Nat}
    (ran : Ran m m' discrims indices) (placed : Placed m'.getMutBy discrims slots) :
    ∀ slot ∈ slots, (m'.valueAt slot).isSome := by
  intro slot member
  rw [← placed.filterMap_eq, List.mem_filterMap] at member
  obtain ⟨d, -, here⟩ := member
  obtain ⟨v, here⟩ := (getMutBy_iff ran.wellFormed).mp here
  rw [(valueAt_iff ran.wellFormed).mpr ⟨d, here⟩]
  rfl

/-- What the whole call does: the entries are at the slots, and the map is split at the
indices. -/
structure Called (m : FullMap D V) (discrims : List D) (inserter : D → σ → V × σ) (s : σ)
    (m₁ : FullMap D V) (s₁ : σ) (slots indices : List Nat) : Prop where
  sequential : Sequential m discrims inserter s m₁ s₁ slots
  wellFormed : m₁.WellFormed
  layout : m₁.layout = m.layout
  once : slots.Nodup
  present : ∀ slot ∈ slots, (m₁.valueAt slot).isSome
  current : indices = slots ↔ (m.layout = .sorted → m.Rising discrims)
  exactly : ∀ (U P : Type) [DecidableEq P] (transform : D → Nat → V → U × V) (asPtr : U → P),
    Derived m₁.valueAt transform asPtr →
    Exactly (indices.Nodup ∧ (∀ slot ∈ indices, (m₁.valueAt slot).isSome) ∧
        (m.layout = .indexed → ∀ i < indices.length, ∃ d : D, Discrim.intoUsize d = i))
      (m.getByOrInsertArray discrims inserter s transform asPtr)
      fun r => r.2.2 = s₁ ∧ r.2.1.getMutBy = m₁.getMutBy ∧ ∃ told, Tells m₁ indices told ∧
        Handed m₁.valueAt r.2.1.valueAt indices (told.map transform) r.1

include wf distinct supports in
theorem exists_called : ∃ m₁ s₁ slots indices, Called m discrims inserter s m₁ s₁ slots indices := by
  obtain ⟨indices, m₁, run, looked, ran⟩ := getEachOrInsert_ran wf distinct supports inserter s
  obtain ⟨slots, placed, same⟩ := ran.placed
  refine ⟨m₁, (insertAll inserter m.getBy discrims s).2, slots, indices, ?_⟩
  constructor
  case sequential => exact ⟨⟨indices, run⟩, looked, rfl, placed⟩
  case wellFormed => exact ran.wellFormed
  case layout => exact ran.layout
  case once =>
    refine (placed.nodup_iff fun d d' slot here here' => ?_).mp distinct
    obtain ⟨v, here⟩ := (getMutBy_iff ran.wellFormed).mp here
    obtain ⟨v', here'⟩ := (getMutBy_iff ran.wellFormed).mp here'
    exact (here.inj here').1
  case present => exact ran.present placed
  case current => exact same
  case exactly =>
    intro U P _ transform asPtr derived
    rw [getByOrInsertArray_eq, run, ok_bind, ← ran.layout]
    exact (splitEntries_exactly derived indices).bind_pure fun r both => ⟨rfl, both⟩

/-- When each position is given the entry of its discriminant. -/
def EntriesCurrent (m : FullMap D V) (discrims : List D) : Prop :=
  match m with
  | .linear _ => True
  | .sorted map => (FullMap.sorted map).Rising discrims
  | .bounded _ => ∀ i < discrims.length, ∃ d : D, Discrim.intoUsize d = i
  | .array _ => ∀ i < discrims.length, ∃ d : D, Discrim.intoUsize d = i

theorem entriesCurrent_iff : EntriesCurrent m discrims ↔
    (m.layout = .sorted → m.Rising discrims) ∧
      (m.layout = .indexed → ∀ i < discrims.length, ∃ d : D, Discrim.intoUsize d = i) := by
  cases m <;> simp [EntriesCurrent, layout]

/-- When each position is told its discriminant. -/
def DiscrimsCurrent (m : FullMap D V) (discrims : List D) : Prop :=
  match m with
  | .linear _ => True
  | .sorted _ => True
  | .bounded _ => Counting discrims
  | .array _ => Counting discrims

omit [DecidableEq D] in
theorem discrimsCurrent_iff :
    DiscrimsCurrent m discrims ↔ (m.layout = .indexed → Counting discrims) := by
  cases m <;> simp [DiscrimsCurrent, layout]

include wf distinct supports in
/-- **An array of entries.** Each reference is to the entry of its discriminant
exactly when, in a sorted map, no missing discriminant is smaller than one before
it, and, in a map of slots, every position is the integer of a discriminant. -/
theorem entries_given : GivesEntries m discrims inserter s ↔ EntriesCurrent m discrims := by
  obtain ⟨m₁, s₁, slots, indices, called⟩ := exists_called wf distinct supports inserter s
  have long := called.sequential.placed.length_eq
  rw [entriesCurrent_iff]
  constructor
  · rintro ⟨m₁', s₁', slots', sequential', gives⟩
    obtain ⟨rfl, rfl, rfl⟩ := called.sequential.unique sequential'
    obtain ⟨told, out, m₂, run, -, handed⟩ := gives (D × Nat) Nat probe Prod.snd (probe_derived _)
    obtain ⟨⟨-, -, supported⟩, -, -, told', -, handed'⟩ :=
      (called.exactly (D × Nat) Nat probe Prod.snd (probe_derived _)).of_ok run
    obtain ⟨-, rfl⟩ := probe_inj handed' handed
    rw [long]
    exact ⟨called.current.mp rfl, supported⟩
  · rintro ⟨rising, supported⟩
    refine ⟨m₁, s₁, slots, called.sequential, fun U P _ transform asPtr derived => ?_⟩
    have current := called.current.mpr rising
    subst current
    rw [long] at supported
    obtain ⟨r, run, rfl, kept, told, -, handed⟩ :=
      (called.exactly U P transform asPtr derived).returns ⟨called.once, called.present, supported⟩
    exact ⟨told, r.1, r.2.1, run, kept, handed⟩

end Given

/-- A sorted map with one entry. -/
def highEntry : FullMap Gap Nat := .sorted ⟨[(.high, 7)]⟩

theorem entries_given_rising :
    GivesEntries highEntry [.low, .high] (fun _ s => (s, s + 1)) 10 := by
  have wf : highEntry.WellFormed := List.pairwise_singleton ..
  refine (entries_given wf (by decide) (by simp [Supports, highEntry])
    (fun _ s => (s, s + 1)) 10).mpr ?_
  have rising : highEntry.Rising [.low, .high] := by
    refine .cons (fun d member missing => ?_) (List.pairwise_singleton ..)
    rw [List.mem_singleton] at member
    subst member
    cases missing
  exact rising

theorem entries_given_falling :
    (FullMap.sorted ⟨[]⟩ : FullMap Gap Nat).getByOrInsertArray [.high, .low]
      (fun _ s => (s, s + 1)) 10 probe Prod.snd = .error .duplicateKey ∧
    ¬ GivesEntries (FullMap.sorted ⟨[]⟩ : FullMap Gap Nat) [.high, .low]
      (fun _ s => (s, s + 1)) 10 := by
  refine ⟨rfl, fun gives => ?_⟩
  obtain ⟨m₁, s₁, slots, -, gives⟩ := gives
  obtain ⟨told, out, m₂, called, -⟩ := gives (Gap × Nat) Nat probe Prod.snd (probe_derived _)
  cases called

section Told

variable (wf : m.WellFormed) {discrims : List D} (distinct : discrims.Nodup)
  (supports : ∀ d ∈ discrims, m.Supports d) (inserter : D → σ → V × σ) (s : σ)

theorem Tells.eq_discrims {m₁ : FullMap D V} {slots : List Nat} {told : List D}
    (wf₁ : m₁.WellFormed) (placed : Placed m₁.getMutBy discrims slots)
    (counting : m₁.layout = .indexed → Counting discrims) (tells : Tells m₁ slots told) :
    told = discrims := by
  by_cases indexed : m₁.layout = .indexed
  · rw [Tells, indexed] at tells
    obtain ⟨long, counting'⟩ := tells
    rw [← placed.length_eq] at long
    apply List.ext_getElem long
    intro i inside inside'
    apply intoUsize_inj
    rw [counting' i _ (List.getElem?_eq_getElem inside),
      counting indexed i _ (List.getElem?_eq_getElem inside')]
  · have entries : List.Forall₂ (fun slot d => ∃ v, m₁.Holds slot d v) slots told := by
      rw [Tells] at tells
      cases kind : m₁.layout with
      | linear | sorted =>
        rw [kind] at tells
        exact tells
      | indexed => exact absurd kind indexed
    have found : List.Forall₂ (fun slot d => ∃ v, m₁.Holds slot d v) slots discrims :=
      placed.flip.imp fun _ _ here => (getMutBy_iff wf₁).mp here
    refine List.left_unique_forall₂' ?_ entries.flip found.flip
    intro d d' slot here here'
    obtain ⟨v, here⟩ := here
    obtain ⟨v', here'⟩ := here'
    exact (here.inj here').1

include wf distinct supports in
/-- **The discriminants that the callback is told.** They are those of the entries
exactly when the map is searched, or the integer of each discriminant is its
position. -/
theorem discrims_told (present : m.layout = .sorted → ∀ d ∈ discrims, (m.getBy d).isSome) :
    TellsDiscrims m discrims inserter s ↔ DiscrimsCurrent m discrims := by
  obtain ⟨m₁, s₁, slots, indices, called⟩ := exists_called wf distinct supports inserter s
  have long := called.sequential.placed.length_eq
  have rising : m.layout = .sorted → m.Rising discrims := by
    intro sorted
    apply List.pairwise_of_forall_mem_list
    intro d _ d' member missing
    have := present sorted d' member
    rw [missing] at this
    cases this
  have current := called.current.mpr rising
  subst current
  rw [discrimsCurrent_iff]
  constructor
  · rintro ⟨m₁', s₁', slots', sequential', tells⟩ indexed
    obtain ⟨rfl, rfl, rfl⟩ := called.sequential.unique sequential'
    obtain ⟨out, m₂, run, -, handed⟩ := tells (D × Nat) Nat probe Prod.snd (probe_derived _)
    obtain ⟨-, -, -, told, told', handed'⟩ :=
      (called.exactly (D × Nat) Nat probe Prod.snd (probe_derived _)).of_ok run
    obtain ⟨rfl, -⟩ := probe_inj handed' handed
    rw [Tells, called.layout, indexed] at told'
    exact told'.2
  · intro counting
    refine ⟨m₁, s₁, indices, called.sequential, fun U P _ transform asPtr derived => ?_⟩
    have supported : m.layout = .indexed → ∀ i < indices.length, ∃ d : D, Discrim.intoUsize d = i := by
      intro indexed i inside
      rw [← long] at inside
      exact ⟨discrims[i], counting indexed i _ (List.getElem?_eq_getElem inside)⟩
    obtain ⟨r, run, rfl, kept, told, tells, handed⟩ :=
      (called.exactly U P transform asPtr derived).returns ⟨called.once, called.present, supported⟩
    rw [tells.eq_discrims called.wellFormed called.sequential.placed
      (by rw [called.layout]; exact counting)] at handed
    exact ⟨r.1, r.2.1, run, kept, handed⟩

end Told

/-- The integers of the discriminants are their positions, or the map is linear. -/
theorem discrims_told_counting :
    TellsDiscrims (.bounded ⟨[some 5, none, some 7]⟩ : FullMap Layer Nat) [.ground, .wall]
      (fun _ s => (s, s + 1)) 10 ∧
    TellsDiscrims (.linear ⟨[(.roof, 7)]⟩ : FullMap Layer Nat) [.wall, .roof, .ground]
      (fun _ s => (s, s + 1)) 10 := by
  constructor
  · have wf : (.bounded ⟨[some 5, none, some 7]⟩ : FullMap Layer Nat).WellFormed := by
      intro slot v found
      match slot with
      | 0 => exact ⟨.ground, rfl⟩
      | 1 => cases found
      | 2 => exact ⟨.roof, rfl⟩
      | _ + 3 => cases found
    apply (discrims_told wf (by decide) (by simp [Supports]) (fun _ s => (s, s + 1)) 10 nofun).mpr
    intro i d at_i
    have inside := (List.getElem?_eq_some_iff.mp at_i).1
    obtain rfl | rfl : i = 0 ∨ i = 1 := by
      simp only [List.length_cons, List.length_nil] at inside
      omega
    · cases at_i
      rfl
    · cases at_i
      rfl
  · have wf : (.linear ⟨[(.roof, 7)]⟩ : FullMap Layer Nat).WellFormed := List.nodup_singleton _
    exact (discrims_told wf (by decide) (by simp [Supports]) (fun _ s => (s, s + 1)) 10 nofun).mpr
      trivial

theorem discrims_told_other :
    twoEntries.getByOrInsertArray [.high] (fun _ s => (s, s + 1)) 10 probe Prod.snd =
      .ok ([(.low, 2)], twoEntries, 10) ∧
    ¬ TellsDiscrims twoEntries [.high] (fun _ s => (s, s + 1)) 10 := by
  refine ⟨rfl, fun tells => ?_⟩
  obtain ⟨m₁, s₁, slots, -, tells⟩ := tells
  obtain ⟨out, m₂, called, -, handed⟩ := tells (Gap × Nat) Nat probe Prod.snd (probe_derived _)
  have told := probe_zip handed
  cases called
  cases slots with
  | nil => cases told
  | cons slot slots => cases told

end FullMap

end Dynec.Comp
