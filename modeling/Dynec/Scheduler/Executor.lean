import Dynec.Scheduler.Safety

/-!
# The threads of a cycle

The main thread and the worker threads share one planner behind a mutex and one
condition variable. A notification takes every queued thread off the condition
variable, and a thread may be taken off by its time-out at any moment; either way
it has to lock the mutex again before it goes on.
-/

namespace Dynec.Scheduler

variable {P : Type}

/-- The number of threads that do not wait for a task. -/
structure DeadlockCounter where
  cnt : Nat

namespace DeadlockCounter

def new (concurrency : Nat) : DeadlockCounter := ⟨concurrency⟩

def startWait (self : DeadlockCounter) : Except Panic DeadlockCounter :=
  if self.cnt = 1 then .error .deadlock else .ok ⟨self.cnt - 1⟩

def endWait (self : DeadlockCounter) (count : Nat) : DeadlockCounter := ⟨self.cnt + count⟩

end DeadlockCounter

/-- Where a thread stands in `main_worker` or `threaded_worker`. -/
inductive Pc where
  -- before the `lock` that precedes the loop
  | start
  -- at the first steal of a round of the loop
  | poll
  -- at the `steal_send` of a main thread that is alone
  | pollSend
  -- at `start_wait`
  | wait
  -- at `wait_for`, with the mutex
  | park
  -- queued on the condition variable
  | parked
  -- taken off by a notification, without the mutex
  | notified
  -- taken off by the time-out, without the mutex
  | timedOut
  -- in the closure of `MutexGuard::unlocked`
  | running (node : Node)
  -- at the end of `MutexGuard::unlocked`, without the mutex
  | relock (node : Node)
  -- at `complete`
  | complete (node : Node)
  | returned
  deriving DecidableEq, Repr

namespace Pc

/-- Where a thread goes on when it has locked the mutex. A wait that ends with a
time-out is begun again, any other one returns to the loop. -/
def locked : Pc → Option Pc
  | start | notified => some poll
  | timedOut => some park
  | relock node => some (complete node)
  | _ => none

/-- The pool of the next steal. -/
def polled : Thread → Pc → Option Pool
  | .main, poll => some .unsend
  | .main, pollSend => some .send
  | .worker _, poll => some .send
  | _, _ => none

/-- Where a thread goes on when its steal is pending. -/
def pending (concurrency : Nat) : Thread → Pc → Pc
  | .main, poll => if concurrency = 0 then pollSend else wait
  | _, _ => wait

/-- What a notification does to a thread. -/
def notify : Pc → Pc
  | parked => notified
  | pc => pc

/-- The thread has the mutex. -/
def holds : Pc → Bool
  | poll | pollSend | wait | park | complete _ => true
  | _ => false

/-- The thread waits for a task, and no notification has taken it off the
condition variable. -/
def waiting : Pc → Bool
  | park | parked | timedOut => true
  | _ => false

/-- The node a thread has stolen and not completed. -/
def node : Pc → Option Node
  | running node | relock node | complete node => some node
  | _ => none

end Pc

/-- The pools a thread polls. -/
def Thread.polls (concurrency : Nat) : Thread → Pool → Prop
  | .main, .unsend => True
  | .main, .send => concurrency = 0
  | .worker _, pool => pool = .send

def threads (concurrency : Nat) : List Thread :=
  .main :: (List.range concurrency).map .worker

/-- The threads at work on a cycle. -/
structure Execution (P : Type) where
  cycle : Cycle P
  pc : Thread → Pc
  guard : Option Thread
  deadlockCounter : DeadlockCounter

namespace Execution

def start (t : Topology P) (concurrency : Nat) : Execution P where
  cycle := .start t
  pc thread := if thread ∈ threads concurrency then .start else .returned
  guard := none
  deadlockCounter := .new (concurrency + 1)

/-- The number of threads that `notify_all` takes off the condition variable. -/
def wakeups (concurrency : Nat) (e : Execution P) : Nat :=
  (threads concurrency).countP fun thread => e.pc thread = .parked

def moved (e : Execution P) (thread : Thread) (pc : Pc) : Execution P :=
  { e with pc := Function.update e.pc thread pc }

/-- The steps of a thread. -/
inductive Action where
  | lock
  | ready
  | pending
  | cycleComplete
  | startWait
  | park
  | timeOut
  | finish
  | complete
  deriving DecidableEq, Repr

inductive Step (t : Topology P) (concurrency : Nat) (e : Execution P) (thread : Thread) :
    Action → Execution P → Prop
  | lock {pc : Pc} (free : e.guard = none) (next : (e.pc thread).locked = some pc) :
      Step t concurrency e thread .lock { e.moved thread pc with guard := some thread }
  | ready {pool : Pool} {index : Nat} {planner : Planner} {tracer : Tracer P}
      (polled : (e.pc thread).polled thread = some pool)
      (run : e.cycle.planner.steal e.cycle.tracer thread t pool =
        .ok (.ready index, planner, tracer)) :
      Step t concurrency e thread .ready
        { e.moved thread (.running (pool.toNode index)) with
          cycle := ⟨planner, tracer, (thread, pool.toNode index) :: e.cycle.held,
            pool.toNode index :: e.cycle.returned⟩
          guard := none }
  | pending {pool : Pool} {planner : Planner} {tracer : Tracer P}
      (polled : (e.pc thread).polled thread = some pool)
      (run : e.cycle.planner.steal e.cycle.tracer thread t pool =
        .ok (.pending, planner, tracer)) :
      Step t concurrency e thread .pending
        { e.moved thread ((e.pc thread).pending concurrency thread) with
          cycle := { e.cycle with planner, tracer } }
  | cycleComplete {pool : Pool} {planner : Planner} {tracer : Tracer P}
      (polled : (e.pc thread).polled thread = some pool)
      (run : e.cycle.planner.steal e.cycle.tracer thread t pool =
        .ok (.cycleComplete, planner, tracer)) :
      Step t concurrency e thread .cycleComplete
        { e.moved thread .returned with
          cycle := { e.cycle with planner, tracer }
          guard := none }
  | startWait {deadlockCounter : DeadlockCounter} (stands : e.pc thread = .wait)
      (run : e.deadlockCounter.startWait = .ok deadlockCounter) :
      Step t concurrency e thread .startWait { e.moved thread .park with deadlockCounter }
  | park (stands : e.pc thread = .park) :
      Step t concurrency e thread .park { e.moved thread .parked with guard := none }
  | timeOut (stands : e.pc thread = .parked) :
      Step t concurrency e thread .timeOut (e.moved thread .timedOut)
  | finish {node : Node} (stands : e.pc thread = .running node) :
      Step t concurrency e thread .finish (e.moved thread (.relock node))
  | complete {node : Node} {planner : Planner} {tracer : Tracer P}
      (stands : e.pc thread = .complete node)
      (run : e.cycle.planner.complete e.cycle.tracer node t = .ok (planner, tracer)) :
      Step t concurrency e thread .complete
        { cycle := ⟨planner, tracer, e.cycle.held.erase (thread, node), e.cycle.returned⟩
          pc := Function.update (fun other => (e.pc other).notify) thread .poll
          guard := e.guard
          deadlockCounter := e.deadlockCounter.endWait (e.wakeups concurrency) }

/-- A run in which no system panics, with the state before each of its steps. -/
inductive Run (t : Topology P) (concurrency : Nat) :
    List (Execution P × Thread × Action) → Execution P → Prop
  | start : Run t concurrency [] (.start t concurrency)
  | next (thread : Thread) {trace : List (Execution P × Thread × Action)} {e e' : Execution P}
      {action : Action} : Run t concurrency trace e → e.Step t concurrency thread action e' →
      Run t concurrency ((e, thread, action) :: trace) e'

/-- No thread is about to poll, although the cycle is complete or a pool that one
of them polls has a system. -/
def Stuck (concurrency : Nat) (e : Execution P) : Prop :=
  (∃ thread ∈ threads concurrency, e.pc thread ≠ .returned) ∧
  (∀ thread ∈ threads concurrency, e.pc thread ≠ .returned → (e.pc thread).waiting = true) ∧
  (e.cycle.planner.remainingSystems = 0 ∨
    ∃ thread ∈ threads concurrency, e.pc thread ≠ .returned ∧
      ∃ pool, thread.polls concurrency pool ∧ ∃ i, i ∈ e.cycle.planner.pool pool)

/-- A completion is timely when no thread has timed out and not yet locked the
mutex again. -/
def Timely (e : Execution P) : Action → Prop
  | .complete => ∀ thread, e.pc thread ≠ .timedOut
  | _ => True

end Execution

end Dynec.Scheduler
