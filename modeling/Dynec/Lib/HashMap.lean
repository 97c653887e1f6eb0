import Mathlib.Data.List.AList
import Dynec.Lib.Fallible

/-!
# Hash maps as association lists

A map is an association list without repeated keys. Iteration order is not
part of a hash map: code that iterates one is given an `IterOrder`, any
rearrangement of the list, so a result holds for every order the table might
produce.
-/

abbrev HashMap (K V : Type*) := AList fun _ : K => V

/-- An iteration order: the same items, in any order. -/
structure IterOrder (α : Type*) where
  arrange : List α → List α
  perm : ∀ l, (arrange l).Perm l

/-- The order in which the items were put in. -/
def IterOrder.insertion (α : Type*) : IterOrder α := ⟨id, fun l => .refl l⟩

theorem IterOrder.mem_arrange {α : Type*} (it : IterOrder α) {l : List α} {a : α} :
    a ∈ it.arrange l ↔ a ∈ l := (it.perm l).mem_iff

theorem IterOrder.nodup_arrange {α : Type*} (it : IterOrder α) {l : List α} :
    (it.arrange l).Nodup ↔ l.Nodup := (it.perm l).nodup_iff

namespace HashMap

variable {K V : Type*} [DecidableEq K]

/-- Every key of the list, with the value `f` gives it. -/
def ofKeys (keys : List K) (f : K → V) : HashMap K V :=
  keys.foldr (fun k m => AList.insert k (f k) m) ∅

theorem lookup_insert_ite (m : HashMap K V) (k k' : K) (v : V) :
    (AList.insert k v m).lookup k' = if k' = k then some v else m.lookup k' := by
  by_cases h : k' = k
  · subst h; simp
  · simp [h]

@[simp] theorem lookup_ofKeys (keys : List K) (f : K → V) (k : K) :
    (ofKeys keys f).lookup k = if k ∈ keys then some (f k) else none := by
  induction keys with
  | nil => simp [ofKeys]
  | cons a keys ih =>
    change (AList.insert a (f a) (ofKeys keys f)).lookup k = _
    rw [lookup_insert_ite, ih]
    by_cases h : k = a
    · subst h; simp
    · simp [h]

/-- Every listed key has a value. -/
def Covers (m : HashMap K V) (keys : List K) : Prop := ∀ k ∈ keys, ∃ v, m.lookup k = some v

theorem Covers.ofKeys (keys : List K) (f : K → V) : Covers (ofKeys keys f) keys := by
  intro k listed
  exact ⟨f k, by rw [lookup_ofKeys, if_pos listed]⟩

theorem Covers.insert {m : HashMap K V} {keys : List K} (covers : Covers m keys) (k : K) (v : V) :
    Covers (AList.insert k v m) keys := by
  intro k' listed
  rw [lookup_insert_ite]
  split
  · exact ⟨v, rfl⟩
  · exact covers k' listed

/-- Replace every value. -/
def mapValues (m : HashMap K V) (f : V → V) : HashMap K V :=
  ⟨m.entries.map (.map id fun _ => f), m.nodupKeys.map₂ _⟩

theorem lookup_mapValues (m : HashMap K V) (f : V → V) (k : K) :
    (mapValues m f).lookup k = (m.lookup k).map f :=
  List.dlookup_map₂ (f := fun _ => f) k

theorem mem_keys_iff (m : HashMap K V) (k : K) : k ∈ m.keys ↔ (m.lookup k).isSome := by
  rw [AList.lookup_isSome, AList.mem_keys]

/-- The stored pairs are those found by lookup. -/
theorem mem_entries_iff (m : HashMap K V) (k : K) (v : V) :
    (⟨k, v⟩ : Sigma fun _ : K => V) ∈ m.entries ↔ m.lookup k = some v :=
  AList.mem_lookup_iff.symm

/-! ## Loops over the values -/

section Update

variable {ε : Type*} {K : Type} [DecidableEq K] {β : K → Type}

/-- Replace every value, one after the other, by a computation that may fail.
The type of a value may depend on its key. -/
def updateM (f : ∀ k, β k → Except ε (β k)) (m : AList β) : Except ε (AList β) :=
  m.entries.foldlM (fun m' e => do
    let v ← f e.1 e.2
    return m'.insert e.1 v) m

theorem updateM_ok {f : ∀ k, β k → Except ε (β k)} {m m' : AList β} (h : updateM f m = .ok m')
    (k : K) : (∀ v, m.lookup k = some v → ∃ v', f k v = .ok v' ∧ m'.lookup k = some v') ∧
      (m.lookup k = none → m'.lookup k = none) := by
  have swept : (k ∈ m.entries.keys →
        ∀ v, m.lookup k = some v → ∃ v', f k v = .ok v' ∧ m'.lookup k = some v') ∧
      (k ∉ m.entries.keys → m'.lookup k = m.lookup k) := by
    refine Fallible.foldlM_ok h (fun past m' => (k ∈ past.keys →
        ∀ v, m.lookup k = some v → ∃ v', f k v = .ok v' ∧ m'.lookup k = some v') ∧
      (k ∉ past.keys → m'.lookup k = m.lookup k)) ⟨by simp, fun _ => rfl⟩ ?_
    intro past e m₁ m₂ he ih run
    obtain ⟨v', hv', run⟩ := Fallible.bind_eq_ok.mp run
    cases run
    have keys : (past ++ [e]).keys = past.keys ++ [e.1] := by simp [List.keys]
    rw [keys]
    by_cases same : k = e.1
    · subst same
      refine ⟨fun _ v hv => ⟨v', ?_, AList.lookup_insert m₁⟩, fun none => by simp at none⟩
      have stored : m.lookup e.1 = some e.2 := AList.mem_lookup_iff.mpr he
      rw [stored] at hv
      cases hv
      exact hv'
    · rw [AList.lookup_insert_ne same]
      simpa [same] using ih
  refine ⟨fun v hv => swept.1 ?_ v hv, fun none => ?_⟩
  · exact AList.lookup_isSome.mp (by simp [hv])
  · rw [swept.2 fun known => ?_]
    · exact none
    · have := AList.lookup_isSome.mpr (AList.mem_keys.mpr known)
      simp [none] at this

theorem updateM_total {f : ∀ k, β k → Except ε (β k)} {m : AList β}
    (h : ∀ k v, m.lookup k = some v → ∃ v', f k v = .ok v') : ∃ m', updateM f m = .ok m' := by
  have step : ∀ e ∈ m.entries, ∀ m₁ : AList β, True →
      ∃ m₂, (do let v ← f e.1 e.2; return m₁.insert e.1 v : Except ε (AList β)) = .ok m₂ ∧ True := by
    intro e stored m₁ _
    obtain ⟨v', hv'⟩ := h e.1 e.2 (AList.mem_lookup_iff.mpr stored)
    exact ⟨m₁.insert e.1 v', by simp [hv'], trivial⟩
  obtain ⟨m', run, -⟩ := Fallible.foldlM_returns (fun _ => True) trivial step
  exact ⟨m', run⟩

theorem updateM_lockstep {f g : ∀ k, β k → Except ε (β k)} {m : AList β}
    (h : ∀ k v, m.lookup k = some v → Fallible.Lockstep Eq (f k v) (g k v)) :
    Fallible.Lockstep Eq (updateM f m) (updateM g m) := by
  apply Fallible.Lockstep.foldlM rfl
  intro e member m₁ m₂ same
  subst same
  apply (h e.1 e.2 (AList.mem_lookup_iff.mpr member)).bind
  intro v v' _ same
  subst same
  exact .ok rfl

end Update

end HashMap
