import Dynec.World.Locks

/-!
# The accessors of one system

A system that runs alone obtains its accessors one after the other. What it has
already locked may be in the way of the next one; its registration has compared
its requests with each other, but no request with itself.
-/

namespace Dynec.World

open Fallible Locks
open Scheduler (Node ResourceType ResourceAccess)

variable {D : DbgTypeId → DbgTypeId → Type} [∀ arch comp, DecidableEq (D arch comp)]

/-- The locks held for each parameter of the system, and the locks of the
isotope storages that exist. -/
structure Alone (D : DbgTypeId → DbgTypeId → Type) where
  held : List (Guard Nat (Lock D))
  storages : List (Lock D)

/-- What keeps the system from its accessors. -/
inductive Obstacle (D : DbgTypeId → DbgTypeId → Type) where
  -- an attempt that does not wait, and panics
  | failed (lock : Lock D)
  -- a mutex that the system waits for and holds itself
  | waiting (mutex : Lock D)

/-- An instruction for the parameter `owner`. `it` is the order in which the
storages of a map are iterated. -/
def Instr.execute (it : IterOrder (Lock D)) (owner : Nat) (s : Alone D) :
    Instr D → Except (Obstacle D) (Alone D)
  | .tryLock target exclusive => do
    let held ← (attempt s.held ⟨owner, target, exclusive⟩).mapError .failed
    return { s with held }
  | .lock mutex => do
    let held ← (attempt s.held ⟨owner, mutex, true⟩).mapError .waiting
    return { s with held }
  | .unlock mutex => return { s with held := s.held.erase ⟨owner, mutex, true⟩ }
  | .getOrCreate arch comp discrim =>
    return { s with storages := s.storages.insert (.isotope arch comp discrim) }
  | .ownAll arch comp mutable => do
    let each := it.arrange (s.storages.filter (·.isStorageOf arch comp))
    let held ← (acquireAll owner mutable each s.held).mapError .failed
    return { s with held }

def executeAll (it : IterOrder (Lock D)) (owner : Nat) (code : List (Instr D)) (s : Alone D) :
    Except (Obstacle D) (Alone D) :=
  code.foldlM (Instr.execute it owner) s

/-- The accessors of all parameters are constructed in one run of the system. -/
def constructAll (it : IterOrder (Lock D)) (params : List (Param D)) (storages : List (Lock D)) :
    Except (Obstacle D) (Alone D) :=
  params.zipIdx.foldlM (fun s param => executeAll it param.2 param.1.construct s) ⟨[], storages⟩

/-- A mutable request that lists a discriminant twice. -/
def Param.Repeats : Param D → Prop
  | .isotope _ _ true (some discrims) => ¬ discrims.Nodup
  | _ => False

/-! ## One parameter -/

/-- No guard is in the way of a parameter. -/
structure Param.Free (p : Param D) (held : List (Guard Nat (Lock D))) : Prop where
  owns : ∀ lock exclusive, p.Owns lock exclusive → ∀ g ∈ held, g.blocks lock exclusive = false
  waits : ∀ mutex, p.Waits mutex → ∀ g ∈ held, g.blocks mutex true = false

/-- The accessor of a parameter is constructed, or an attempt for it fails
because the parameter lists a discriminant twice. -/
inductive Constructed (p : Param D) (s : Alone D) : Except (Obstacle D) (Alone D) → Prop
  | failed (lock : Lock D) (repeats : p.Repeats) : Constructed p s (.error (.failed lock))
  | done {s' : Alone D} (distinct : ¬ p.Repeats) (storages : s'.storages.Nodup)
      (held : ∀ g ∈ s'.held, g ∈ s.held ∨ p.Owns g.lock g.exclusive) :
      Constructed p s (.ok s')

section
variable {it : IterOrder (Lock D)} {owner : Nat} {s : Alone D} {arch comp : DbgTypeId}

theorem executeAll_cons (instr : Instr D) (code : List (Instr D)) :
    executeAll it owner (instr :: code) s =
      instr.execute it owner s >>= executeAll it owner code :=
  List.foldlM_cons

theorem executeAll_nil : executeAll it owner [] s = .ok s := rfl

theorem execute_tryLock {target : Lock D} {exclusive : Bool}
    (free : ∀ g ∈ s.held, g.blocks target exclusive = false) :
    (Instr.tryLock target exclusive).execute it owner s =
      .ok { s with held := ⟨owner, target, exclusive⟩ :: s.held } := by
  rw [Instr.execute, attempt_free free]
  rfl

theorem execute_lock {mutex : Lock D} (free : ∀ g ∈ s.held, g.blocks mutex true = false) :
    (Instr.lock mutex).execute it owner s =
      .ok { s with held := ⟨owner, mutex, true⟩ :: s.held } := by
  rw [Instr.execute, attempt_free free]
  rfl

variable (it owner) in
/-- The loop over the discriminants of a partial request acquires their
storages, which exist by then. -/
theorem executeAll_discrims (mutable : Bool) (discrims : List (D arch comp))
    (held : List (Guard Nat (Lock D))) (storages : List (Lock D)) :
    executeAll it owner (discrims.flatMap fun discrim =>
      [.getOrCreate arch comp discrim, ownStorage arch comp mutable discrim]) ⟨held, storages⟩ =
    (acquireAll owner mutable (discrims.map (.isotope arch comp)) held).mapError .failed >>=
      fun held => .ok ⟨held, discrims.foldl
        (fun l discrim => l.insert (.isotope arch comp discrim)) storages⟩ := by
  induction discrims generalizing held storages with
  | nil => rfl
  | cons discrim discrims ih =>
    rw [List.flatMap_cons, List.cons_append, List.cons_append, List.nil_append, executeAll_cons,
      Instr.execute, pure_eq_ok, ok_bind, executeAll_cons, ownStorage, Instr.execute,
      List.map_cons, acquireAll, List.foldlM_cons]
    cases attempt held ⟨owner, .isotope arch comp discrim, mutable⟩ with
    | error lock => rfl
    | ok held => exact ih held (storages.insert (.isotope arch comp discrim))

theorem executeAll_append (code code' : List (Instr D)) :
    executeAll it owner (code ++ code') s =
      executeAll it owner code s >>= executeAll it owner code' :=
  List.foldlM_append

variable (it owner) in
/-- Under its mutex, a parameter acquires storages of its isotope type. -/
theorem critical_section {mutex : Lock D} (body : List (Instr D)) {mutable : Bool}
    {locks storages : List (Lock D)} (open_ : ∀ g ∈ s.held, g.blocks mutex true = false)
    (free : ∀ lock ∈ locks, ∀ g ∈ s.held, g.blocks lock mutable = false) (apart : mutex ∉ locks)
    (runs : ∀ held, executeAll it owner body ⟨held, s.storages⟩ =
      (acquireAll owner mutable locks held).mapError .failed >>= fun held => .ok ⟨held, storages⟩) :
    ((mutable = true ∧ ¬ locks.Nodup) ∧ ∃ lock,
      executeAll it owner (.lock mutex :: (body ++ [.unlock mutex])) s = .error (.failed lock)) ∨
    (¬ (mutable = true ∧ ¬ locks.Nodup) ∧
      executeAll it owner (.lock mutex :: (body ++ [.unlock mutex])) s =
        .ok ⟨guards owner mutable locks ++ s.held, storages⟩) := by
  have free' : ∀ lock ∈ locks, ∀ g ∈ (⟨owner, mutex, true⟩ : Guard Nat (Lock D)) :: s.held,
      g.blocks lock mutable = false := by
    intro lock listed g member
    rcases List.mem_cons.mp member with rfl | member
    · have other : mutex ≠ lock := by
        rintro rfl
        exact apart listed
      simp [Guard.blocks, other]
    · exact free lock listed g member
  rw [executeAll_cons, execute_lock open_, ok_bind, executeAll_append, runs]
  rcases acquireAll_cases owner free' with ⟨twice, lock, run⟩ | ⟨once, run⟩
  · rw [run]
    exact .inl ⟨twice, lock, rfl⟩
  · rw [run]
    refine .inr ⟨once, ?_⟩
    have unlocked : (guards owner mutable locks ++ ⟨owner, mutex, true⟩ :: s.held).erase
        ⟨owner, mutex, true⟩ = guards owner mutable locks ++ s.held := by
      rw [List.erase_append_right, List.erase_cons_head]
      intro member
      obtain ⟨lock, listed, same⟩ := mem_guards.mp member
      cases same
      exact apart listed
    exact congrArg (fun held => Except.ok (Alone.mk held storages)) unlocked

omit [∀ arch comp, DecidableEq (D arch comp)] in
/-- The guards of storages that a parameter owns. -/
theorem owns_guards {p : Param D} {mutable : Bool} {locks : List (Lock D)}
    {held : List (Guard Nat (Lock D))} (owns : ∀ lock ∈ locks, p.Owns lock mutable) :
    ∀ g ∈ guards owner mutable locks ++ held, g ∈ held ∨ p.Owns g.lock g.exclusive := by
  intro g member
  rcases List.mem_append.mp member with own | old
  · obtain ⟨lock, listed, rfl⟩ := mem_guards.mp own
    exact .inr (owns lock listed)
  · exact .inl old

end

section
variable (it : IterOrder (Lock D)) (owner : Nat) {s : Alone D}

theorem constructed_single {p : Param D} {lock : Lock D} {exclusive : Bool}
    (code : p.construct = [.tryLock lock exclusive]) (owns : p.Owns lock exclusive)
    (distinct : ¬ p.Repeats) (free : p.Free s.held) (nodup : s.storages.Nodup) :
    Constructed p s (executeAll it owner p.construct s) := by
  rw [code, executeAll_cons, execute_tryLock (free.owns lock exclusive owns), ok_bind,
    executeAll_nil]
  refine .done distinct nodup fun g member => ?_
  rcases List.mem_cons.mp member with rfl | old
  · exact .inr owns
  · exact .inl old

omit [∀ arch comp, DecidableEq (D arch comp)] in
/-- The storages of an isotope type, in the order in which they are locked. -/
theorem mem_storages {arch comp : DbgTypeId} {lock : Lock D} {storages : List (Lock D)}
    (member : lock ∈ it.arrange (storages.filter (·.isStorageOf arch comp))) :
    ∃ discrim, lock = .isotope arch comp discrim :=
  isStorageOf_iff.mp (List.mem_filter.mp (it.mem_arrange.mp member)).2

omit [∀ arch comp, DecidableEq (D arch comp)] in
theorem owned_storages (arch comp : DbgTypeId) (mutable : Bool) {storages : List (Lock D)}
    (nodup : storages.Nodup) :
    (∀ lock ∈ it.arrange (storages.filter (·.isStorageOf arch comp)),
      (Param.isotope arch comp mutable none : Param D).Owns lock mutable) ∧
    Lock.map arch comp ∉ it.arrange (storages.filter (·.isStorageOf arch comp)) ∧
    (it.arrange (storages.filter (·.isStorageOf arch comp))).Nodup := by
  refine ⟨fun lock member => ?_, fun member => ?_, it.nodup_arrange.mpr (nodup.filter _)⟩
  · obtain ⟨discrim, rfl⟩ := mem_storages it member
    exact .full arch comp mutable discrim
  · obtain ⟨discrim, same⟩ := mem_storages it member
    cases same

theorem constructed_readFull (arch comp : DbgTypeId)
    (free : (Param.isotope arch comp false none : Param D).Free s.held)
    (nodup : s.storages.Nodup) :
    Constructed (.isotope arch comp false none) s
      (executeAll it owner (readFullIsotopeStorage arch comp) s) := by
  obtain ⟨owns, apart, -⟩ := owned_storages it arch comp false nodup
  have body : ∀ held, executeAll it owner [.ownAll arch comp false] ⟨held, s.storages⟩ =
      (acquireAll owner false (it.arrange (s.storages.filter (·.isStorageOf arch comp)))
        held).mapError .failed >>= fun held => .ok ⟨held, s.storages⟩ := by
    intro held
    rw [executeAll_cons, Instr.execute]
    cases acquireAll owner false _ held with
    | error lock => rfl
    | ok held => rfl
  rcases critical_section it owner _ (free.waits _ (.map arch comp false none))
    (fun lock member => free.owns lock false (owns lock member)) apart body with
    ⟨⟨unique, -⟩, -⟩ | ⟨-, run⟩
  · cases unique
  · rw [readFullIsotopeStorage]
    change Constructed _ _ (executeAll it owner (.lock _ :: ([.ownAll _ _ _] ++ [.unlock _])) s)
    rw [run]
    exact .done id nodup (owns_guards owns)

theorem constructed_writeFull (arch comp : DbgTypeId)
    (free : (Param.isotope arch comp true none : Param D).Free s.held)
    (nodup : s.storages.Nodup) :
    Constructed (.isotope arch comp true none) s
      (executeAll it owner (writeFullIsotopeStorage arch comp) s) := by
  obtain ⟨owns, apart, each⟩ := owned_storages it arch comp true nodup
  have free' : ∀ lock ∈ it.arrange (s.storages.filter (·.isStorageOf arch comp)),
      ∀ g ∈ (⟨owner, .map arch comp, true⟩ : Guard Nat (Lock D)) :: s.held,
        g.blocks lock true = false := by
    intro lock listed g member
    rcases List.mem_cons.mp member with rfl | member
    · have other : Lock.map arch comp ≠ lock := by
        rintro rfl
        exact apart listed
      simp [Guard.blocks, other]
    · exact free.owns lock true (owns lock listed) g member
  rw [writeFullIsotopeStorage, executeAll_cons,
    execute_tryLock (free.owns _ true (.map arch comp)), ok_bind, executeAll_cons, Instr.execute]
  rcases acquireAll_cases owner free' with ⟨⟨-, twice⟩, -⟩ | ⟨-, run⟩
  · exact absurd each twice
  · rw [run]
    refine .done id nodup fun g member => ?_
    rcases owns_guards owns g member with old | new
    · rcases List.mem_cons.mp old with rfl | old
      · exact .inr (.map arch comp)
      · exact .inl old
    · exact .inr new

omit [∀ arch comp, DecidableEq (D arch comp)] in
theorem isotope_injective (arch comp : DbgTypeId) :
    Function.Injective (Lock.isotope (D := D) arch comp) := by
  intro discrim discrim' same
  cases same
  rfl

theorem constructed_partial (arch comp : DbgTypeId) (mutable : Bool)
    (discrims : List (D arch comp))
    (free : (Param.isotope arch comp mutable (some discrims) : Param D).Free s.held)
    (nodup : s.storages.Nodup) :
    Constructed (.isotope arch comp mutable (some discrims)) s
      (executeAll it owner (Param.isotope arch comp mutable (some discrims)).construct s) := by
  have owns : ∀ lock ∈ discrims.map (.isotope arch comp),
      (Param.isotope arch comp mutable (some discrims) : Param D).Owns lock mutable := by
    intro lock member
    obtain ⟨discrim, listed, rfl⟩ := List.mem_map.mp member
    exact .some mutable listed
  have apart : Lock.map arch comp ∉ discrims.map (.isotope arch comp) := by
    intro member
    obtain ⟨discrim, -, same⟩ := List.mem_map.mp member
    cases same
  have repeats : (Param.isotope arch comp mutable (some discrims) : Param D).Repeats ↔
      mutable = true ∧ ¬ (discrims.map (Lock.isotope (D := D) arch comp)).Nodup := by
    rw [List.nodup_map_iff (isotope_injective arch comp)]
    cases mutable with
    | false => simp [Param.Repeats]
    | true => simp [Param.Repeats]
  have created : ∀ {discrims : List (D arch comp)} {storages : List (Lock D)}, storages.Nodup →
      (discrims.foldl (fun l discrim => l.insert (.isotope arch comp discrim)) storages).Nodup := by
    intro discrims
    induction discrims with
    | nil => exact id
    | cons discrim discrims ih => exact fun nodup => ih nodup.insert
  rw [Param.construct, partialIsotopeStorage, List.cons_append]
  rcases critical_section it owner _ (free.waits _ (.map arch comp mutable _))
    (fun lock member => free.owns lock mutable (owns lock member)) apart
    (fun held => executeAll_discrims it owner mutable discrims held s.storages) with
    ⟨twice, lock, run⟩ | ⟨once, run⟩
  · rw [run]
    exact .failed lock (repeats.mpr twice)
  · rw [run]
    exact .done (fun twice => once (repeats.mp twice)) (created nodup) (owns_guards owns)

theorem constructed_param {p : Param D} (free : p.Free s.held) (nodup : s.storages.Nodup) :
    Constructed p s (executeAll it owner p.construct s) := by
  cases p with
  | global ty mutable => exact constructed_single it owner rfl (.global ty mutable) id free nodup
  | simple arch comp mutable =>
    exact constructed_single it owner rfl (.simple arch comp mutable) id free nodup
  | isotope arch comp mutable discrims =>
    cases discrims with
    | none =>
      cases mutable with
      | false => exact constructed_readFull it owner arch comp free nodup
      | true => exact constructed_writeFull it owner arch comp free nodup
    | some discrims => exact constructed_partial it owner arch comp mutable discrims free nodup

end

/-! ## All parameters -/

section
variable {P : Type} {b b' : Scheduler.Builder P} {node : Node}
  {requests : List (ResourceType × ResourceAccess)}

/-- Requests that were registered do not conflict with each other. -/
theorem requests_apart
    (used : requests.foldlM (fun b request => b.useResource node request.1 request.2) b = .ok b') :
    requests.Pairwise fun r r' => r.1 = r'.1 → r.2.conflictsWith r'.2 = false := by
  have all := foldlM_ok used (fun past b => (∀ r ∈ past, r.2 ∈ b.accesses r.1 node) ∧
    past.Pairwise fun r r' => r.1 = r'.1 → r.2.conflictsWith r'.2 = false)
    ⟨nofun, .nil⟩ (by
      rintro past request now now' - ⟨recorded, apart⟩ step
      have uses := useResource_uses step
      obtain ⟨-, checked⟩ := Scheduler.useResource_ok step
      constructor
      · intro r member
        rcases List.mem_append.mp member with old | new
        · exact uses.keeps r.1 node r.2 (recorded r old)
        · exact uses.uses r new
      · rw [List.pairwise_append]
        refine ⟨apart, List.pairwise_singleton _ _, fun r old r' new same => ?_⟩
        cases List.mem_singleton.mp new
        rw [ResourceAccess.conflictsWith_comm]
        exact checked r.2 (same ▸ recorded r old))
  exact all.2

variable {params : List (Param D)} {intoUsize : ∀ arch comp, D arch comp → Nat}

omit [∀ arch comp, DecidableEq (D arch comp)] in
/-- So no two parameters of the system conflict. -/
theorem params_apart
    (used : requests.foldlM (fun b request => b.useResource node request.1 request.2) b = .ok b')
    (listed : (params.map (·.access intoUsize)).Subperm requests) :
    params.Pairwise fun p q => (p.access intoUsize).1 = (q.access intoUsize).1 →
      (p.access intoUsize).2.conflictsWith (q.access intoUsize).2 = false := by
  obtain ⟨l, perm, sub⟩ := listed
  have apart := (requests_apart used).sublist sub
  rw [perm.pairwise_iff, List.pairwise_map] at apart
  · exact apart
  · intro r r' apart same
    rw [ResourceAccess.conflictsWith_comm]
    exact apart same.symm

/-- A parameter that conflicts with none of those before it is free. -/
theorem free_of_apart {past : List (Param D)} {p : Param D} {held : List (Guard Nat (Lock D))}
    (apart : ∀ q ∈ past, (q.access intoUsize).1 = (p.access intoUsize).1 →
      (q.access intoUsize).2.conflictsWith (p.access intoUsize).2 = false)
    (owned : ∀ g ∈ held, ∃ q ∈ past, q.Owns g.lock g.exclusive) : p.Free held := by
  constructor
  · intro lock exclusive owns g member
    by_contra blocked
    obtain ⟨rfl, unique⟩ := Guard.blocks_iff.mp (by simpa using blocked)
    obtain ⟨q, earlier, owns'⟩ := owned g member
    obtain ⟨same, conflict⟩ : (q.access intoUsize).1 = (p.access intoUsize).1 ∧
        (q.access intoUsize).2.conflictsWith (p.access intoUsize).2 = true :=
      owns_conflict owns' owns unique
    rw [apart q earlier same] at conflict
    cases conflict
  · intro mutex waits g member
    by_contra blocked
    obtain ⟨rfl, -⟩ := Guard.blocks_iff.mp (by simpa using blocked)
    obtain ⟨q, earlier, owns'⟩ := owned g member
    obtain ⟨same, conflict⟩ : (q.access intoUsize).1 = (p.access intoUsize).1 ∧
        (q.access intoUsize).2.conflictsWith (p.access intoUsize).2 = true :=
      waits_conflict owns' waits
    rw [apart q earlier same] at conflict
    cases conflict

/-- **Accessors of one system.** When all requests of a system are registered,
its accessors are obtained together if and only if no mutable request lists a
discriminant twice. The system never waits for itself. -/
theorem accessors_obtained
    (used : requests.foldlM (fun b request => b.useResource node request.1 request.2) b = .ok b')
    (listed : (params.map (·.access intoUsize)).Subperm requests) (it : IterOrder (Lock D))
    {storages : List (Lock D)} (nodup : storages.Nodup) :
    ((∀ lock, constructAll it params storages ≠ .error (.failed lock)) ↔
      ∀ p ∈ params, ¬ p.Repeats) ∧
    ∀ mutex, constructAll it params storages ≠ .error (.waiting mutex) := by
  have apart := params_apart used listed
  have names : params.zipIdx.map (·.1) = params := List.zipIdx_map_fst 0 params
  obtain ⟨e, run, param, member, repeats, lock, rfl⟩ | ⟨s, run, -, -, distinct⟩ := foldlM_cases
    (f := fun (s : Alone D) (param : Param D × Nat) =>
      executeAll it param.2 param.1.construct s)
    (l := params.zipIdx) (s := ⟨[], storages⟩)
    (fun past s => s.storages.Nodup ∧
      (∀ g ∈ s.held, ∃ q ∈ past.map (·.1), q.Owns g.lock g.exclusive) ∧
      ∀ param ∈ past, ¬ param.1.Repeats)
    (fun param e => param.1.Repeats ∧ ∃ lock, e = .failed lock) ⟨nodup, nofun, nofun⟩ (by
      rintro past ⟨p, i⟩ rest s split ⟨nodup, owned, distinct⟩
      have params_split : params = past.map (·.1) ++ p :: rest.map (·.1) := by
        rw [← names, split, List.map_append, List.map_cons]
      have here : ∀ q ∈ past.map (·.1), (q.access intoUsize).1 = (p.access intoUsize).1 →
          (q.access intoUsize).2.conflictsWith (p.access intoUsize).2 = false := by
        rw [params_split, List.pairwise_append] at apart
        exact fun q earlier => apart.2.2 q earlier p List.mem_cons_self
      have constructed := constructed_param it i (free_of_apart here owned) nodup
      generalize executeAll it i p.construct s = result at constructed ⊢
      cases constructed with
      | failed lock repeats => exact .inl ⟨_, rfl, repeats, lock, rfl⟩
      | @done s' once storages held =>
        refine .inr ⟨s', rfl, storages, fun g member => ?_, fun param member => ?_⟩
        · rw [List.map_append]
          rcases held g member with old | new
          · obtain ⟨q, earlier, owns⟩ := owned g old
            exact ⟨q, List.mem_append_left _ earlier, owns⟩
          · exact ⟨p, by simp, new⟩
        · rcases List.mem_append.mp member with old | new
          · exact distinct param old
          · cases List.mem_singleton.mp new
            exact once)
  · have here : param.1 ∈ params := names ▸ List.mem_map_of_mem member
    have failed : constructAll it params storages = .error (.failed lock) := run
    refine ⟨⟨fun never => absurd failed (never lock), fun once => absurd repeats (once _ here)⟩, ?_⟩
    intro mutex waits
    cases failed.symm.trans waits
  · have done : constructAll it params storages = .ok s := run
    refine ⟨⟨fun _ p member => ?_, fun _ lock failed => ?_⟩, fun mutex waits => ?_⟩
    · rw [← names] at member
      obtain ⟨param, here, rfl⟩ := List.mem_map.mp member
      exact distinct param here
    · cases done.symm.trans failed
    · cases done.symm.trans waits

end

/-- A system that writes two discriminants through one accessor and a third one
through another, and reads a global state. -/
def threeParams : List (Param fun _ _ => Nat) :=
  [.isotope ⟨0⟩ ⟨2⟩ true (some [0, 1]), .global ⟨5⟩ false, .isotope ⟨0⟩ ⟨2⟩ true (some [2])]

/-- A system that lists a discriminant twice. -/
def twiceParams : List (Param fun _ _ => Nat) := [.isotope ⟨0⟩ ⟨2⟩ true (some [3, 3])]

def registerAll (params : List (Param fun _ _ => Nat)) : Except Panic (Scheduler.Builder Nat) :=
  (params.map (·.access fun _ _ discrim => discrim)).foldlM
    (fun b request => b.useResource (.sendSystem 0) request.1 request.2)
    ((Scheduler.Builder.new 0).pushSendSystem "a").2

theorem accessors_obtained_three : (∃ b, registerAll threeParams = .ok b) ∧
    ∀ lock, constructAll (.insertion _) threeParams [] ≠ .error (.failed lock) := by
  obtain ⟨b, used⟩ : ∃ b, registerAll threeParams = .ok b := ⟨_, rfl⟩
  refine ⟨⟨b, used⟩, ?_⟩
  apply (accessors_obtained used (List.Subperm.refl _) (.insertion _) List.nodup_nil).1.mpr
  rintro p (_ | ⟨_, _ | ⟨_, _ | ⟨_, ⟨⟩⟩⟩⟩)
  · exact fun twice => twice (by decide)
  · exact id
  · exact fun twice => twice (by decide)

theorem accessors_twice : (∃ b, registerAll twiceParams = .ok b) ∧
    constructAll (.insertion _) twiceParams [] = .error (.failed (.isotope ⟨0⟩ ⟨2⟩ 3)) :=
  ⟨⟨_, rfl⟩, rfl⟩

end Dynec.World
