import Dynec.Lib.Fallible
import Mathlib.Data.List.Nodup

/-!
# Read-write locks

The guards that are held, each with its owner. A lock can be acquired unless a
guard on it is held and one of the two is exclusive; a mutex is a lock whose
guards are all exclusive.
-/

namespace Locks

variable {N L : Type} [DecidableEq L]

structure Guard (N L : Type) where
  owner : N
  lock : L
  exclusive : Bool
  deriving DecidableEq

/-- A held guard does not let the lock be acquired. -/
def Guard.blocks (g : Guard N L) (lock : L) (exclusive : Bool) : Bool :=
  g.lock = lock && (g.exclusive || exclusive)

theorem Guard.blocks_iff {g : Guard N L} {lock : L} {exclusive : Bool} :
    g.blocks lock exclusive = true ↔
      g.lock = lock ∧ (g.exclusive = true ∨ exclusive = true) := by
  simp [Guard.blocks]

def acquire (held : List (Guard N L)) (guard : Guard N L) : Option (List (Guard N L)) :=
  if held.any (·.blocks guard.lock guard.exclusive) then none else some (guard :: held)

theorem acquire_some {held held' : List (Guard N L)} {guard : Guard N L}
    (h : acquire held guard = some held') : held' = guard :: held := by
  unfold acquire at h
  split at h
  · cases h
  · exact (Option.some.inj h).symm

/-- A lock can be acquired unless a held guard blocks it. -/
theorem acquire_none {held : List (Guard N L)} {guard : Guard N L} :
    acquire held guard = none ↔ ∃ g ∈ held, g.blocks guard.lock guard.exclusive = true := by
  unfold acquire
  split
  · rename_i blocked
    simpa using blocked
  · rename_i free
    simpa using free

/-! ## Acquiring several locks -/

/-- Acquire a lock, or report it. -/
def attempt (held : List (Guard N L)) (guard : Guard N L) : Except L (List (Guard N L)) :=
  match acquire held guard with
  | some held => .ok held
  | none => .error guard.lock

theorem attempt_free {held : List (Guard N L)} {guard : Guard N L}
    (free : ∀ g ∈ held, g.blocks guard.lock guard.exclusive = false) :
    attempt held guard = .ok (guard :: held) := by
  have open_ : ¬ held.any (·.blocks guard.lock guard.exclusive) = true := by
    rw [List.any_eq_true]
    rintro ⟨g, member, blocked⟩
    rw [free g member] at blocked
    cases blocked
  rw [attempt, acquire, if_neg open_]

theorem attempt_blocked {held : List (Guard N L)} {guard g : Guard N L} (member : g ∈ held)
    (blocked : g.blocks guard.lock guard.exclusive = true) :
    attempt held guard = .error guard.lock := by
  rw [attempt, acquire_none.mpr ⟨g, member, blocked⟩]

/-- Acquire the locks of a list, one after the other, for one owner. -/
def acquireAll (owner : N) (exclusive : Bool) (locks : List L) (held : List (Guard N L)) :
    Except L (List (Guard N L)) :=
  locks.foldlM (fun held lock => attempt held ⟨owner, lock, exclusive⟩) held

/-- The guards of the locks of a list, latest first. -/
def guards (owner : N) (exclusive : Bool) (locks : List L) : List (Guard N L) :=
  locks.reverse.map (⟨owner, ·, exclusive⟩)

omit [DecidableEq L] in
theorem mem_guards {owner : N} {exclusive : Bool} {locks : List L} {g : Guard N L} :
    g ∈ guards owner exclusive locks ↔ ∃ lock ∈ locks, g = ⟨owner, lock, exclusive⟩ := by
  simp [guards, eq_comm]

/-- Locks that no guard blocks are acquired, unless one of them is in the list
twice and is to be held exclusively. -/
theorem acquireAll_cases (owner : N) {exclusive : Bool} {locks : List L}
    {held : List (Guard N L)}
    (free : ∀ lock ∈ locks, ∀ g ∈ held, g.blocks lock exclusive = false) :
    ((exclusive = true ∧ ¬ locks.Nodup) ∧ ∃ lock, acquireAll owner exclusive locks held =
      .error lock) ∨
    (¬ (exclusive = true ∧ ¬ locks.Nodup) ∧ acquireAll owner exclusive locks held =
      .ok (guards owner exclusive locks ++ held)) := by
  obtain ⟨lock, run, -, -, twice⟩ | ⟨held', run, once, same⟩ := Fallible.foldlM_cases
    (f := fun held lock => attempt held ⟨owner, lock, exclusive⟩) (l := locks) (s := held)
    (fun past now => (exclusive = true → past.Nodup) ∧
      now = guards owner exclusive past ++ held)
    (fun _ _ => exclusive = true ∧ ¬ locks.Nodup) ⟨fun _ => List.nodup_nil, rfl⟩ (by
      rintro past lock rest now split ⟨once, rfl⟩
      by_cases repeated : exclusive = true ∧ lock ∈ past
      · refine .inl ⟨lock, ?_, repeated.1, fun nodup => ?_⟩
        · apply attempt_blocked (g := ⟨owner, lock, exclusive⟩)
          · exact List.mem_append_left _ (mem_guards.mpr ⟨lock, repeated.2, rfl⟩)
          · simp [Guard.blocks, repeated.1]
        · rw [split, List.nodup_append] at nodup
          exact nodup.2.2 lock repeated.2 lock List.mem_cons_self rfl
      · refine .inr ⟨⟨owner, lock, exclusive⟩ ::
          (guards owner exclusive past ++ held), ?_, fun unique => ?_, ?_⟩
        · apply attempt_free
          intro g member
          rcases List.mem_append.mp member with own | other
          · obtain ⟨lock', listed, rfl⟩ := mem_guards.mp own
            by_contra blocked
            obtain ⟨same, unique⟩ := Guard.blocks_iff.mp (by simpa using blocked)
            subst same
            exact repeated ⟨unique.elim id id, listed⟩
          · exact free lock (by simp [split]) g other
        · rw [List.nodup_append]
          refine ⟨once unique, List.nodup_singleton lock, ?_⟩
          rintro a member b single rfl
          exact repeated ⟨unique, List.mem_singleton.mp single ▸ member⟩
        · simp [guards])
  · exact .inl ⟨twice, lock, run⟩
  · exact .inr ⟨fun ⟨unique, twice⟩ => twice (once unique), same ▸ run⟩

end Locks
