import Dynec.World.Requests
import Dynec.Lib.Locks

/-!
# Systems that run together do not get in each other's way

A system obtains an accessor for each of its parameters, and accessors of full
isotope storages lock more storages while it runs. Most of these locks are not
waited for: the scheduler has to keep the systems apart that need the same ones.
-/

namespace Dynec.World

open Locks
open Scheduler (Node ResourceType ResourceAccess Topology Thread Pool HashOrders)

/-! ## Parameters and their accessors -/

section
variable (D : DbgTypeId → DbgTypeId → Type)

/-- The locks of a world. `map` is the mutex of the storages of an isotope type,
and each of these storages has a lock as well. -/
inductive Lock where
  | global (ty : DbgTypeId)
  | simple (arch comp : DbgTypeId)
  | map (arch comp : DbgTypeId)
  | isotope (arch comp : DbgTypeId) (discrim : D arch comp)

/-- The parameters of a system for which locks are acquired: thread-safe global
states, simple components, and isotope components with all discriminants or with
some of them. -/
inductive Param where
  | global (ty : DbgTypeId) (mutable : Bool)
  | simple (arch comp : DbgTypeId) (mutable : Bool)
  | isotope (arch comp : DbgTypeId) (mutable : Bool) (discrims : Option (List (D arch comp)))

/-- What the code of accessors does with locks. -/
inductive Instr where
  -- `try_read`, `try_write` and `try_lock`, which panic when they fail
  | tryLock (lock : Lock D) (exclusive : Bool)
  -- `lock` on a mutex, which waits
  | lock (lock : Lock D)
  | unlock (lock : Lock D)
  -- `get_or_create`
  | getOrCreate (arch comp : DbgTypeId) (discrim : D arch comp)
  -- `own_storage` for each storage of the map
  | ownAll (arch comp : DbgTypeId) (mutable : Bool)

end

variable {D : DbgTypeId → DbgTypeId → Type}

instance [∀ arch comp, DecidableEq (D arch comp)] : DecidableEq (Lock D)
  | .global ty, .global ty' => decidable_of_iff (ty = ty') (by simp)
  | .simple arch comp, .simple arch' comp' =>
    decidable_of_iff (arch = arch' ∧ comp = comp') (by simp)
  | .map arch comp, .map arch' comp' => decidable_of_iff (arch = arch' ∧ comp = comp') (by simp)
  | .isotope arch comp discrim, .isotope arch' comp' discrim' =>
    decidable_of_iff ((⟨arch, comp, discrim⟩ : (arch : DbgTypeId) × (comp : DbgTypeId) × D arch comp)
      = ⟨arch', comp', discrim'⟩) (by
        constructor
        · intro same
          cases same
          rfl
        · intro same
          cases same
          rfl)
  | .global _, .simple _ _ | .global _, .map _ _ | .global _, .isotope _ _ _
  | .simple _ _, .global _ | .simple _ _, .map _ _ | .simple _ _, .isotope _ _ _
  | .map _ _, .global _ | .map _ _, .simple _ _ | .map _ _, .isotope _ _ _
  | .isotope _ _ _, .global _ | .isotope _ _ _, .simple _ _ | .isotope _ _ _, .map _ _ =>
    isFalse nofun

/-- `own_storage`, for reading or for writing. -/
def ownStorage (arch comp : DbgTypeId) (mutable : Bool) (discrim : D arch comp) : Instr D :=
  .tryLock (.isotope arch comp discrim) mutable

def readFullIsotopeStorage (arch comp : DbgTypeId) : List (Instr D) :=
  [.lock (.map arch comp), .ownAll arch comp false, .unlock (.map arch comp)]

/-- The mutex stays locked. -/
def writeFullIsotopeStorage (arch comp : DbgTypeId) : List (Instr D) :=
  [.tryLock (.map arch comp) true, .ownAll arch comp true]

/-- `read_partial_isotope_storage` and `write_partial_isotope_storage`. -/
def partialIsotopeStorage (arch comp : DbgTypeId) (mutable : Bool) (discrims : List (D arch comp)) :
    List (Instr D) :=
  .lock (.map arch comp) :: (discrims.flatMap fun discrim =>
    [.getOrCreate arch comp discrim, ownStorage arch comp mutable discrim]) ++
  [.unlock (.map arch comp)]

/-- The construction of the accessor of a parameter. -/
def Param.construct : Param D → List (Instr D)
  | .global ty mutable => [.tryLock (.global ty) mutable]
  | .simple arch comp mutable => [.tryLock (.simple arch comp) mutable]
  | .isotope arch comp false none => readFullIsotopeStorage arch comp
  | .isotope arch comp true none => writeFullIsotopeStorage arch comp
  | .isotope arch comp mutable (some discrims) => partialIsotopeStorage arch comp mutable discrims

/-- `get_storage` of a full accessor for a discriminant that it does not have
yet. -/
def extendStorages (arch comp : DbgTypeId) (mutable : Bool) (discrim : D arch comp) :
    List (Instr D) :=
  if mutable then
    [.getOrCreate arch comp discrim, ownStorage arch comp true discrim]
  else
    [.lock (.map arch comp), .getOrCreate arch comp discrim,
      ownStorage arch comp false discrim, .unlock (.map arch comp)]

/-- The access that a parameter is registered with. -/
def Param.access (intoUsize : ∀ arch comp, D arch comp → Nat) :
    Param D → ResourceType × ResourceAccess
  | .global ty mutable => (.global ty, .new mutable)
  | .simple arch comp mutable => (.simple arch comp, .new mutable)
  | .isotope arch comp mutable discrims =>
    (.isotope arch comp, .withDiscrim mutable (discrims.map (·.map (intoUsize arch comp))))

/-- Whether a lock is that of a storage of an isotope type. -/
def Lock.isStorageOf (arch comp : DbgTypeId) : Lock D → Bool
  | .isotope arch' comp' _ => arch' = arch && comp' = comp
  | _ => false

/-! ## Runs -/

/-- A system that runs: the parameters before `next` have accessors, `param` is
the one it is dealing with, and `code` is what is left to do for it. It may have
dropped accessors. -/
structure Running (D : DbgTypeId → DbgTypeId → Type) where
  next : Nat
  param : Nat
  code : List (Instr D)
  dropped : List Nat

/-- A cycle with the locks that its systems hold, each for one of their
parameters, and the locks of the isotope storages that exist. -/
structure Online (P : Type) (D : DbgTypeId → DbgTypeId → Type) where
  cycle : Scheduler.Cycle P
  running : Node → Option (Running D)
  held : List (Guard (Node × Nat) (Lock D))
  storages : List (Lock D)

variable {P : Type} [∀ arch comp, DecidableEq (D arch comp)]

/-- What an instruction does to the locks and the storages, if it returns and does
not wait. -/
def Instr.exec (owner : Node × Nat) (held : List (Guard (Node × Nat) (Lock D)))
    (storages : List (Lock D)) :
    Instr D → Option (List (Guard (Node × Nat) (Lock D)) × List (Lock D))
  | .tryLock target exclusive => (acquire held ⟨owner, target, exclusive⟩).map (·, storages)
  | .lock mutex => (acquire held ⟨owner, mutex, true⟩).map (·, storages)
  | .unlock mutex => some (held.erase ⟨owner, mutex, true⟩, storages)
  | .getOrCreate arch comp discrim => some (held, storages.insert (.isotope arch comp discrim))
  | .ownAll _ _ _ => some (held, storages)

/-- Threads steal and complete systems. A system constructs its accessors one
after the other, extends the full ones and drops them, in any order. -/
inductive Online.Step (t : Topology P) (params : Node → List (Param D)) (s : Online P D) :
    Online P D → Prop
  | poll (thread : Thread) (pool : Pool) {result planner tracer}
      (run : s.cycle.planner.steal s.cycle.tracer thread t pool = .ok (result, planner, tracer))
      (nothing : result = .pending ∨ result = .cycleComplete) :
      Step t params s { s with cycle := { s.cycle with planner, tracer } }
  | start (thread : Thread) (pool : Pool) {index planner tracer}
      (run : s.cycle.planner.steal s.cycle.tracer thread t pool =
        .ok (.ready index, planner, tracer)) :
      Step t params s { s with
        cycle := ⟨planner, tracer, (thread, pool.toNode index) :: s.cycle.held,
          pool.toNode index :: s.cycle.returned⟩
        running := Function.update s.running (pool.toNode index) (some ⟨0, 0, [], []⟩) }
  | construct (node : Node) {next last dropped param}
      (idle : s.running node = some ⟨next, last, [], dropped⟩)
      (here : (params node)[next]? = some param) :
      Step t params s { s with
        running := Function.update s.running node (some ⟨next + 1, next, param.construct, dropped⟩) }
  | exec (node : Node) {next param instr code dropped held storages}
      (now : s.running node = some ⟨next, param, instr :: code, dropped⟩)
      (plain : ∀ arch comp mutable, instr ≠ .ownAll arch comp mutable)
      (run : instr.exec (node, param) s.held s.storages = some (held, storages)) :
      Step t params s { s with
        running := Function.update s.running node (some ⟨next, param, code, dropped⟩)
        held, storages }
  | ownAll (node : Node) {next param arch comp mutable code dropped} (order : List (Lock D))
      (now : s.running node = some ⟨next, param, .ownAll arch comp mutable :: code, dropped⟩)
      (each : order.Perm (s.storages.filter (·.isStorageOf arch comp))) :
      Step t params s { s with
        running := Function.update s.running node
          (some ⟨next, param, order.map (.tryLock · mutable) ++ code, dropped⟩) }
  | extend (node : Node) (param : Nat) {next last dropped arch comp mutable}
      (discrim : D arch comp) (idle : s.running node = some ⟨next, last, [], dropped⟩)
      (all : next = (params node).length)
      (here : (params node)[param]? = some (.isotope arch comp mutable none))
      (kept : param ∉ dropped)
      (new : ∀ g ∈ s.held, g.owner = (node, param) → g.lock ≠ .isotope arch comp discrim) :
      Step t params s { s with
        running := Function.update s.running node
          (some ⟨next, param, extendStorages arch comp mutable discrim, dropped⟩) }
  | drop (node : Node) (param : Nat) {next last dropped}
      (idle : s.running node = some ⟨next, last, [], dropped⟩)
      (all : next = (params node).length) :
      Step t params s { s with
        running := Function.update s.running node (some ⟨next, last, [], param :: dropped⟩)
        held := s.held.filter fun g => g.owner ≠ (node, param) }
  | finish (node : Node) {next last dropped}
      (idle : s.running node = some ⟨next, last, [], dropped⟩)
      (all : next = (params node).length) :
      Step t params s { s with
        running := Function.update s.running node none
        held := s.held.filter fun g => g.owner.1 ≠ node }
  | complete (thread : Thread) (node : Node) {planner tracer}
      (done : s.running node = none) (holds : (thread, node) ∈ s.cycle.held)
      (run : s.cycle.planner.complete s.cycle.tracer node t = .ok (planner, tracer)) :
      Step t params s { s with
        cycle := ⟨planner, tracer, s.cycle.held.erase (thread, node), s.cycle.returned⟩ }

/-- The states of a cycle that starts with some isotope storages. -/
inductive Online.Reachable (t : Topology P) (params : Node → List (Param D))
    (storages : List (Lock D)) : Online P D → Prop
  | start : Reachable t params storages ⟨.start t, fun _ => none, [], storages⟩
  | next {s s'} : Reachable t params storages s → s.Step t params s' →
      Reachable t params storages s'

/-! ## The locks of a parameter -/

section Params

omit [∀ arch comp, DecidableEq (D arch comp)]

/-- The locks that the accessor of a parameter acquires without waiting. -/
inductive Param.Owns : Param D → Lock D → Bool → Prop
  | global (ty : DbgTypeId) (mutable : Bool) : Owns (.global ty mutable) (.global ty) mutable
  | simple (arch comp : DbgTypeId) (mutable : Bool) :
      Owns (.simple arch comp mutable) (.simple arch comp) mutable
  | full (arch comp : DbgTypeId) (mutable : Bool) (discrim : D arch comp) :
      Owns (.isotope arch comp mutable none) (.isotope arch comp discrim) mutable
  | some {arch comp : DbgTypeId} {discrims : List (D arch comp)} {discrim : D arch comp}
      (mutable : Bool) (listed : discrim ∈ discrims) :
      Owns (.isotope arch comp mutable (.some discrims)) (.isotope arch comp discrim) mutable
  | map (arch comp : DbgTypeId) : Owns (.isotope arch comp true none) (.map arch comp) true

/-- The mutexes that it waits for. -/
inductive Param.Waits : Param D → Lock D → Prop
  | map (arch comp : DbgTypeId) (mutable : Bool) (discrims : Option (List (D arch comp))) :
      Waits (.isotope arch comp mutable discrims) (.map arch comp)

/-- An instruction is one of the accessor of a parameter. -/
def Instr.For (param : Param D) : Instr D → Prop
  | .tryLock target exclusive => param.Owns target exclusive
  | .lock mutex | .unlock mutex => param.Waits mutex
  | .getOrCreate _ _ _ => True
  | .ownAll arch comp mutable => param = .isotope arch comp mutable none

theorem construct_for (param : Param D) : ∀ instr ∈ param.construct, instr.For param := by
  cases param with
  | global ty mutable => simp [Param.construct, Instr.For, Param.Owns.global]
  | simple arch comp mutable => simp [Param.construct, Instr.For, Param.Owns.simple]
  | isotope arch comp mutable discrims =>
    cases discrims with
    | none =>
      cases mutable with
      | false => simp [Param.construct, readFullIsotopeStorage, Instr.For, Param.Waits.map]
      | true => simp [Param.construct, writeFullIsotopeStorage, Instr.For, Param.Owns.map]
    | some discrims =>
      simp only [Param.construct, partialIsotopeStorage, List.cons_append, List.mem_cons,
        List.mem_append, List.mem_flatMap, List.not_mem_nil, or_false]
      rintro instr (rfl | ⟨discrim, listed, rfl | rfl⟩ | rfl)
      · exact .map arch comp mutable _
      · trivial
      · exact .some mutable listed
      · exact .map arch comp mutable _

theorem extend_for (arch comp : DbgTypeId) (mutable : Bool) (discrim : D arch comp) :
    ∀ instr ∈ extendStorages arch comp mutable discrim,
      instr.For (.isotope arch comp mutable none) := by
  cases mutable with
  | false =>
    simp [extendStorages, ownStorage, Instr.For, Param.Waits.map, Param.Owns.full]
  | true => simp [extendStorages, ownStorage, Instr.For, Param.Owns.full]

variable {intoUsize : ∀ arch comp, D arch comp → Nat} {p q : Param D} {lock : Lock D}

/-- Parameters that lock the same storage, one of them exclusively, are
registered with conflicting accesses. -/
theorem owns_conflict {exclusive exclusive' : Bool} (owns : p.Owns lock exclusive)
    (owns' : q.Owns lock exclusive') (unique : exclusive = true ∨ exclusive' = true) :
    (p.access intoUsize).1 = (q.access intoUsize).1 ∧
      (p.access intoUsize).2.conflictsWith (q.access intoUsize).2 = true := by
  rw [ResourceAccess.conflictsWith_iff]
  cases owns with
  | global ty mutable =>
    cases owns'
    exact ⟨rfl, unique, trivial⟩
  | simple arch comp mutable =>
    cases owns'
    exact ⟨rfl, unique, trivial⟩
  | full arch comp mutable discrim =>
    cases owns' with
    | full => exact ⟨rfl, unique, trivial⟩
    | some => exact ⟨rfl, unique, trivial⟩
  | @some arch comp discrims discrim mutable listed =>
    cases owns' with
    | full => exact ⟨rfl, unique, trivial⟩
    | some mutable' listed' =>
      exact ⟨rfl, unique, intoUsize arch comp discrim, List.mem_map_of_mem listed,
        List.mem_map_of_mem listed'⟩
  | map arch comp =>
    cases owns'
    exact ⟨rfl, .inl rfl, trivial⟩

/-- A mutex that is held for the whole system belongs to a parameter that
conflicts with all others for the same isotope type. -/
theorem waits_conflict {exclusive : Bool} (owns : p.Owns lock exclusive) (waits : q.Waits lock) :
    (p.access intoUsize).1 = (q.access intoUsize).1 ∧
      (p.access intoUsize).2.conflictsWith (q.access intoUsize).2 = true := by
  rw [ResourceAccess.conflictsWith_iff]
  cases waits with
  | map arch comp mutable discrims =>
    cases owns
    exact ⟨rfl, .inl rfl, trivial⟩

theorem isStorageOf_iff {arch comp : DbgTypeId} :
    lock.isStorageOf arch comp = true ↔ ∃ discrim, lock = .isotope arch comp discrim := by
  cases lock with
  | isotope arch' comp' discrim =>
    simp only [Lock.isStorageOf, Bool.and_eq_true, decide_eq_true_eq]
    constructor
    · rintro ⟨rfl, rfl⟩
      exact ⟨discrim, rfl⟩
    · rintro ⟨discrim', same⟩
      cases same
      exact ⟨rfl, rfl⟩
  | global | simple | map => simp [Lock.isStorageOf]

end Params

/-! ## The invariant -/

/-- The systems that run were stolen and not completed. What they do and what
they hold is for their parameters. -/
structure Online.Inv (t : Topology P) (params : Node → List (Param D)) (s : Online P D) :
    Prop where
  cycle : Scheduler.Cycle.Reachable t s.cycle
  stolen : ∀ node r, s.running node = some r → ∃ thread, (thread, node) ∈ s.cycle.held
  code : ∀ node r, s.running node = some r → ∀ instr ∈ r.code,
    ∃ param, (params node)[r.param]? = some param ∧ instr.For param
  owned : ∀ g ∈ s.held, (s.running g.owner.1).isSome = true ∧
    ∃ param, (params g.owner.1)[g.owner.2]? = some param ∧
      (param.Owns g.lock g.exclusive ∨ param.Waits g.lock)

variable {t : Topology P} {params : Node → List (Param D)} {s s' : Online P D}

omit [∀ arch comp, DecidableEq (D arch comp)] in
/-- One system goes on, with guards for its own parameters. -/
theorem Online.Inv.resume (inv : s.Inv t params) {node : Node} {r : Running D}
    (before : s.running node = some r) (r' : Running D)
    (code : ∀ instr ∈ r'.code, ∃ param, (params node)[r'.param]? = some param ∧ instr.For param)
    {held : List (Guard (Node × Nat) (Lock D))}
    (owned : ∀ g ∈ held, g ∈ s.held ∨ g.owner.1 = node ∧
      ∃ param, (params node)[g.owner.2]? = some param ∧
        (param.Owns g.lock g.exclusive ∨ param.Waits g.lock)) (storages : List (Lock D)) :
    Online.Inv t params
      { s with running := Function.update s.running node (some r'), held, storages } := by
  refine ⟨inv.cycle, fun node' r'' running => ?_, fun node' r'' running => ?_, fun g member => ?_⟩
  · by_cases here : node' = node
    · subst here
      exact inv.stolen node' r before
    · simp only [Function.update_of_ne here] at running
      exact inv.stolen node' r'' running
  · by_cases here : node' = node
    · subst here
      simp only [Function.update_self, Option.some.injEq] at running
      subst running
      exact code
    · simp only [Function.update_of_ne here] at running
      exact inv.code node' r'' running
  · rcases owned g member with old | ⟨rfl, new⟩
    · obtain ⟨running, param⟩ := inv.owned g old
      refine ⟨?_, param⟩
      by_cases here : g.owner.1 = node
      · simp [here]
      · simpa [here] using running
    · exact ⟨by simp, new⟩

/-- The guards after an instruction. -/
theorem exec_owned {owner : Node × Nat} {instr : Instr D} {param : Param D}
    {held held' : List (Guard (Node × Nat) (Lock D))} {storages storages' : List (Lock D)}
    (run : instr.exec owner held storages = some (held', storages')) (justified : instr.For param) :
    ∀ g ∈ held', g ∈ held ∨ g.owner = owner ∧
      (param.Owns g.lock g.exclusive ∨ param.Waits g.lock) := by
  cases instr with
  | tryLock target exclusive =>
    obtain ⟨held'', acquired, same⟩ := Option.map_eq_some_iff.mp run
    cases same
    rw [acquire_some acquired]
    rintro g (_ | ⟨_, old⟩)
    · exact .inr ⟨rfl, .inl justified⟩
    · exact .inl old
  | lock mutex =>
    obtain ⟨held'', acquired, same⟩ := Option.map_eq_some_iff.mp run
    cases same
    rw [acquire_some acquired]
    rintro g (_ | ⟨_, old⟩)
    · exact .inr ⟨rfl, .inr justified⟩
    · exact .inl old
  | unlock mutex =>
    cases run
    exact fun g member => .inl (List.mem_of_mem_erase member)
  | getOrCreate arch comp discrim =>
    cases run
    exact fun g member => .inl member
  | ownAll arch comp mutable =>
    cases run
    exact fun g member => .inl member

omit [∀ arch comp, DecidableEq (D arch comp)] in
/-- A system that was stolen runs with nothing done. -/
theorem Online.Inv.start (inv : s.Inv t params) {thread : Thread} {pool : Pool} {index : Nat}
    {planner : Scheduler.Planner} {tracer : Scheduler.Tracer P}
    (run : s.cycle.planner.steal s.cycle.tracer thread t pool =
      .ok (.ready index, planner, tracer)) :
    Online.Inv t params { s with
      cycle := ⟨planner, tracer, (thread, pool.toNode index) :: s.cycle.held,
        pool.toNode index :: s.cycle.returned⟩
      running := Function.update s.running (pool.toNode index) (some ⟨0, 0, [], []⟩) } := by
  refine ⟨.next inv.cycle (.steal thread pool run), fun node r running => ?_,
    fun node r running => ?_, fun g member => ?_⟩
  · by_cases here : node = pool.toNode index
    · subst here
      exact ⟨thread, .head _⟩
    · simp only [Function.update_of_ne here] at running
      obtain ⟨thread', member⟩ := inv.stolen node r running
      exact ⟨thread', .tail _ member⟩
  · by_cases here : node = pool.toNode index
    · subst here
      simp only [Function.update_self, Option.some.injEq] at running
      subst running
      exact nofun
    · simp only [Function.update_of_ne here] at running
      exact inv.code node r running
  · obtain ⟨running, param⟩ := inv.owned g member
    refine ⟨?_, param⟩
    by_cases here : g.owner.1 = pool.toNode index
    · simp [here]
    · simpa [here] using running

omit [∀ arch comp, DecidableEq (D arch comp)] in
/-- A system that returns holds no guards. -/
theorem Online.Inv.finish (inv : s.Inv t params) (node : Node) :
    Online.Inv t params { s with
      running := Function.update s.running node none
      held := s.held.filter fun g => g.owner.1 ≠ node } := by
  refine ⟨inv.cycle, fun node' r running => ?_, fun node' r running => ?_, fun g member => ?_⟩
  · by_cases here : node' = node
    · subst here
      simp at running
    · simp only [Function.update_of_ne here] at running
      exact inv.stolen node' r running
  · by_cases here : node' = node
    · subst here
      simp at running
    · simp only [Function.update_of_ne here] at running
      exact inv.code node' r running
  · obtain ⟨member, other⟩ := List.mem_filter.mp member
    obtain ⟨running, param⟩ := inv.owned g member
    refine ⟨?_, param⟩
    simp only [decide_eq_true_eq] at other
    simpa [other] using running

theorem execution_step (step : s.Step t params s') (inv : s.Inv t params) : s'.Inv t params := by
  cases step with
  | poll thread pool run nothing =>
    exact ⟨.next inv.cycle (.poll thread pool run nothing), inv.stolen, inv.code, inv.owned⟩
  | start thread pool run => exact inv.start run
  | construct node idle here =>
    exact inv.resume idle _ (fun instr member => ⟨_, here, construct_for _ instr member⟩)
      (fun g member => .inl member) s.storages
  | @exec node next param instr code dropped held storages now plain run =>
    obtain ⟨param', found, justified⟩ := inv.code node _ now instr (.head _)
    refine inv.resume now ⟨next, param, code, dropped⟩
      (fun instr' member => inv.code node _ now instr' (.tail _ member)) (fun g member => ?_)
      storages
    rcases exec_owned run justified g member with old | ⟨owner, new⟩
    · exact .inl old
    · refine .inr ⟨by rw [owner], param', ?_, new⟩
      rw [owner]
      exact found
  | @ownAll node next param arch comp mutable code dropped order now each =>
    obtain ⟨param', found, rfl⟩ := inv.code node _ now _ (.head _)
    refine inv.resume now _ (fun instr member => ?_) (fun g member => .inl member) s.storages
    rcases List.mem_append.mp member with own | later
    · obtain ⟨lock, listed, rfl⟩ := List.mem_map.mp own
      obtain ⟨discrim, rfl⟩ := isStorageOf_iff.mp
        (List.mem_filter.mp (each.mem_iff.mp listed)).2
      exact ⟨_, found, .full arch comp mutable discrim⟩
    · exact inv.code node _ now instr (.tail _ later)
  | extend node param discrim idle all here kept new =>
    exact inv.resume idle _ (fun instr member => ⟨_, here, extend_for _ _ _ discrim instr member⟩)
      (fun g member => .inl member) s.storages
  | @drop node param next last dropped idle all =>
    refine inv.resume idle ⟨next, last, [], param :: dropped⟩ nofun (fun g member => ?_) s.storages
    exact .inl (List.mem_filter.mp member).1
  | finish node idle all => exact inv.finish node
  | complete thread node done holds run =>
    refine ⟨.next inv.cycle (.complete thread node holds run), fun node' r running => ?_,
      inv.code, inv.owned⟩
    obtain ⟨thread', member⟩ := inv.stolen node' r running
    refine ⟨thread', (List.mem_erase_of_ne ?_).mpr member⟩
    intro same
    cases same
    cases done.symm.trans running

theorem online_reachable {storages : List (Lock D)}
    (reached : Online.Reachable t params storages s) : s.Inv t params := by
  induction reached with
  | start => exact ⟨.start, nofun, nofun, nofun⟩
  | next _ step ih => exact execution_step step ih

/-! ## Lock freedom -/

variable {U V : Type} [DecidableEq U]

/-- **Lock freedom.** Take two systems that are started together in a cycle of an
accepted schedule, and whose accessors are for requests that they registered. No
guard of one of them makes a lock attempt of the other fail, in the construction
of its accessors or later. So an attempt fails only because of a guard that the
system itself holds. -/
theorem lock_freedom {types : Types V} {b : Builder U V} {systems : List (Node × System U)}
    (scheduled : Scheduled types b systems) {it : HashOrders} {t : Topology (Partition U)}
    (accepted : b.scheduler.build it = .ok t) {intoUsize : ∀ arch comp, D arch comp → Nat}
    {params : Node → List (Param D)}
    (registered : ∀ node, ∀ param ∈ params node, ∃ system, (node, system) ∈ systems ∧
      param.access intoUsize ∈ system.requested)
    {storages : List (Lock D)} {s : Online (Partition U) D}
    (reached : Online.Reachable t params storages s) {node : Node} {r : Running D} {lock : Lock D}
    {exclusive : Bool} {code : List (Instr D)} (running : s.running node = some r)
    (attempts : r.code = .tryLock lock exclusive :: code) :
    (∀ other ≠ node, s.cycle.planner.wakeupState.lookup other = some .started →
      ∀ g ∈ s.held, g.owner.1 = other → g.blocks lock exclusive = false) ∧
    (acquire s.held ⟨(node, r.param), lock, exclusive⟩ = none →
      ∃ g ∈ s.held, g.owner.1 = node ∧ g.blocks lock exclusive = true) := by
  have inv := online_reachable reached
  have built := (scheduled_recorded scheduled).built
  have started : ∀ node r, s.running node = some r →
      s.cycle.planner.wakeupState.lookup node = some .started := by
    intro node r running
    obtain ⟨thread, member⟩ := inv.stolen node r running
    exact (Scheduler.reachable_inv built accepted inv.cycle).held _ member
  have access : ∀ {node : Node} {i : Nat} {param : Param D}, (params node)[i]? = some param →
      (param.access intoUsize).2 ∈ b.scheduler.accesses (param.access intoUsize).1 node := by
    intro node i param found
    obtain ⟨system, listed, requested⟩ := registered node param (List.mem_of_getElem? found)
    exact scheduled_requests scheduled _ listed _ requested
  obtain ⟨param, found, owns⟩ := inv.code node r running (.tryLock lock exclusive)
    (by rw [attempts]; exact .head _)
  have free : ∀ g ∈ s.held, g.owner.1 ≠ node → g.blocks lock exclusive = false := by
    intro g member other
    by_contra blocked
    obtain ⟨rfl, unique⟩ := Guard.blocks_iff.mp (Bool.eq_true_of_not_eq_false blocked)
    obtain ⟨runs, param', found', holds⟩ := inv.owned g member
    obtain ⟨r', running'⟩ := Option.isSome_iff_exists.mp runs
    obtain ⟨same, conflict⟩ : (param.access intoUsize).1 = (param'.access intoUsize).1 ∧
        (param.access intoUsize).2.conflictsWith (param'.access intoUsize).2 = true := by
      rcases holds with owns' | waits
      · exact owns_conflict owns owns' unique.symm
      · exact waits_conflict owns waits
    have compatible := Scheduler.started_compatible built accepted inv.cycle other.symm
      (started node r running) (started _ r' running') _ _ (access found) _
      (same ▸ access found')
    rw [ResourceAccess.conflictsWith, compatible] at conflict
    cases conflict
  refine ⟨fun other differ _ g member owner => free g member (owner ▸ differ), fun fails => ?_⟩
  obtain ⟨g, member, blocked⟩ := acquire_none.mp fails
  refine ⟨g, member, ?_, blocked⟩
  by_contra other
  rw [free g member other] at blocked
  cases blocked

/-- A system that writes one discriminant of an isotope component. -/
def discrimWriter (discrim : Nat) : System Nat :=
  ⟨⟨"writer", [], [], [], [⟨⟨0⟩, ⟨2⟩, some [discrim], true, []⟩], []⟩, [], []⟩

def writing : Builder Nat Nat :=
  let b := (Builder.new plainTypes 1).schedule plainTypes (discrimWriter 0)
  (b >>= (·.schedule plainTypes (discrimWriter 1))).toOption.get rfl

def writingTopology : Topology (Partition Nat) :=
  (writing.scheduler.build .insertion).toOption.get rfl

def writingParams : Node → List (Param fun _ _ => Nat)
  | .sendSystem 0 => [.isotope ⟨0⟩ ⟨2⟩ true (some [0])]
  | .sendSystem 1 => [.isotope ⟨0⟩ ⟨2⟩ true (some [1])]
  | _ => []

/-- Two systems write two discriminants, and the storages of both are created
meanwhile. -/
theorem lock_freedom_writers : ∃ (s : Online (Partition Nat) fun _ _ => Nat) (r : Running _),
    Online.Reachable writingTopology writingParams [] s ∧
    s.cycle.planner.wakeupState.lookup (.sendSystem 0) = some .started ∧
    s.running (.sendSystem 1) = some r ∧ r.code.head? = some (.tryLock (.isotope ⟨0⟩ ⟨2⟩ 1) true) ∧
    (∃ g ∈ s.held, g.owner.1 = .sendSystem 0) ∧
    ∀ g ∈ s.held, g.owner.1 = .sendSystem 0 → g.blocks (.isotope ⟨0⟩ ⟨2⟩ 1) true = false := by
  have scheduled : Scheduled plainTypes writing
      [(.sendSystem 0, discrimWriter 0), (.sendSystem 1, discrimWriter 1)] :=
    .schedule (discrimWriter 1) rfl (.schedule (discrimWriter 0) rfl (.new 1))
  have accepted : writing.scheduler.build .insertion = .ok writingTopology := rfl
  have registered : ∀ node, ∀ param ∈ writingParams node, ∃ system, (node, system) ∈
      [(Node.sendSystem 0, discrimWriter 0), (.sendSystem 1, discrimWriter 1)] ∧
      param.access (fun _ _ discrim => discrim) ∈ system.requested := by
    intro node param member
    unfold writingParams at member
    split at member
    · cases List.mem_singleton.mp member
      exact ⟨_, .head _, .head _⟩
    · cases List.mem_singleton.mp member
      exact ⟨_, .tail _ (.head _), .head _⟩
    · cases member
  obtain ⟨s, r, code, reached, started, running, attempts, holds⟩ :
      ∃ (s : Online (Partition Nat) fun _ _ => Nat) (r : Running _) (code : List (Instr _)),
        Online.Reachable writingTopology writingParams [] s ∧
        s.cycle.planner.wakeupState.lookup (.sendSystem 0) = some .started ∧
        s.running (.sendSystem 1) = some r ∧
        r.code = .tryLock (.isotope ⟨0⟩ ⟨2⟩ 1) true :: code ∧
        ∃ g ∈ s.held, g.owner.1 = .sendSystem 0 := by
    refine ⟨_, _, _, .next (.next (.next (.next (.next (.next (.next (.next (.next (.next .start
      (.start .main .send rfl)) (.construct (.sendSystem 0) rfl rfl))
      (.exec (.sendSystem 0) rfl nofun rfl)) (.exec (.sendSystem 0) rfl nofun rfl))
      (.exec (.sendSystem 0) rfl nofun rfl)) (.exec (.sendSystem 0) rfl nofun rfl))
      (.start (.worker 0) .send rfl)) (.construct (.sendSystem 1) rfl rfl))
      (.exec (.sendSystem 1) rfl nofun rfl)) (.exec (.sendSystem 1) rfl nofun rfl),
      rfl, rfl, rfl, _, .tail _ (.head _), rfl⟩
  refine ⟨s, r, reached, started, running, by rw [attempts]; rfl, holds, ?_⟩
  exact (lock_freedom scheduled accepted registered reached running attempts).1 (.sendSystem 0)
    nofun started

end Dynec.World
