import Mathlib.Logic.Function.Basic
import Mathlib.Algebra.Ring.Nat
import Mathlib.Data.List.Sort

/-!
# The scheduler's data and its critical sections (`kernel_sched.h`, `kernel_sched.c`)

Every function below runs with `sched_spinlock` held and preemption off, so each is atomic: it is
a partial function on the scheduler's state. **`none` is the halt of a failed `assert`** — and of
two things the source does not test but could not survive: pushing a `sched_node` that is already
on a list (`rl_splice` would tear both rings), and indexing `SCHED` beyond its last queue. The
scheduler's correctness theorem says, among the rest, that `none` never happens.

A thread is named by its TCB: the one inside a core's `CCB`, or one allocated by `spawn_thread`.
Lists of intrusive nodes are lists of threads, and `rlist_remove` takes a thread off whichever
list it is on. Left out are the thread's context and stack, its owners, and `TCB.next`, which
`yield` writes and nobody reads.
-/

set_option autoImplicit false

namespace TinyOS

/-- `Thread_state`. -/
inductive ThreadState where
  | init | ready | running | stopped | exited
  deriving DecidableEq

/-- `Thread_phase`: whether the context stored in the TCB is up to date. -/
inductive ThreadPhase where
  | ctxClean | ctxDirty
  deriving DecidableEq

/-- `Thread_type`. -/
inductive ThreadType where
  | idleThread | normalThread
  deriving DecidableEq

/-- `enum SCHED_CAUSE`. -/
inductive SchedCause where
  | quantum | io | mutex | pipe | poll | idle | user
  deriving DecidableEq

/-- A pointer to a TCB: a core's idle thread, or the `n`-th one allocated. -/
inductive ThreadRef (C : Type) where
  | idle (c : C)
  | normal (n : Nat)
  deriving DecidableEq

/-- `NO_TIMEOUT`, the largest `TimerDuration`. -/
def noTimeout : Nat := 2 ^ 64 - 1

/-- `MFQ_QUEUES`. -/
def mfqQueues : Nat := 15

/-- `MFQ_TIMESLICES`. -/
def mfqTimeslices : Nat := 5

structure TCB (C : Type) where
  type : ThreadType
  state : ThreadState
  phase : ThreadPhase
  priority : Nat
  mutexContention : Bool
  prevPriority : Nat
  wakeupTime : Nat
  prev : ThreadRef C

/-- What a core is doing between two critical sections. -/
inductive CoreAt where
  /-- Running its current thread. -/
  | running
  /-- Inside `sleep_releasing` or `yield`: the next thread is not chosen yet. -/
  | scheduling
  /-- Past the context switch: the current thread has not called `gain` yet. -/
  | switched
  deriving DecidableEq

/-- The scheduler. The TCBs `normal n` with `n < spawned` have been allocated, and `released n`
counts the calls of `release_TCB` on the `n`-th. -/
structure Sched (C : Type) where
  tcb : ThreadRef C → TCB C
  runQueue : Nat → List (ThreadRef C)
  timeoutList : List (ThreadRef C)
  currentThread : C → ThreadRef C
  coreAt : C → CoreAt
  timeslices : Nat
  spawned : Nat
  released : Nat → Nat

namespace Sched

variable {C : Type} [DecidableEq C]

/-- Change one TCB. -/
def modify (s : Sched C) (t : ThreadRef C) (f : TCB C → TCB C) : Sched C :=
  { s with tcb := Function.update s.tcb t (f (s.tcb t)) }

/-- The TCB exists: allocated and not released. -/
def Live (s : Sched C) : ThreadRef C → Prop
  | .idle _ => True
  | .normal n => n < s.spawned ∧ s.released n = 0

/-- The thread's `sched_node` is on some list. -/
def Linked (s : Sched C) (t : ThreadRef C) : Prop :=
  t ∈ s.timeoutList ∨ ∃ q < mfqQueues, t ∈ s.runQueue q

instance (s : Sched C) (t : ThreadRef C) : Decidable (s.Live t) := by
  cases t <;> unfold Live <;> infer_instance

instance (s : Sched C) (t : ThreadRef C) : Decidable (s.Linked t) := by
  unfold Linked; infer_instance

/-- `rlist_remove(& tcb->sched_node)`. -/
def unlink (s : Sched C) (t : ThreadRef C) : Sched C :=
  { s with
    timeoutList := s.timeoutList.erase t
    runQueue := fun q => (s.runQueue q).erase t }

/-! ## The lists -/

/-- `sched_register_timeout`: the wake-up time is the clock plus the timeout modulo `2^64`, and
the thread goes before the first sleeper that wakes later. -/
def schedRegisterTimeout (s : Sched C) (t : ThreadRef C) (timeout clock : Nat) :
    Option (Sched C) :=
  if timeout = noTimeout then some s
  else if s.Linked t then none
  else
    let s' := s.modify t fun b => { b with wakeupTime := (clock + timeout) % 2 ^ 64 }
    some
      { s' with
        timeoutList := s'.timeoutList.orderedInsert
          (fun a b => (s'.tcb a).wakeupTime < (s'.tcb b).wakeupTime) t }

/-- `sched_queue_add`. -/
def schedQueueAdd (s : Sched C) (t : ThreadRef C) : Option (Sched C) :=
  let q := (s.tcb t).priority
  if s.Linked t ∨ mfqQueues ≤ q then none
  else some { s with runQueue := Function.update s.runQueue q (s.runQueue q ++ [t]) }

/-- The part of `sched_make_ready` that takes a sleeper with a timeout off `TIMEOUT_LIST`. -/
def cancelTimeout (s : Sched C) (t : ThreadRef C) : Option (Sched C) :=
  if (s.tcb t).wakeupTime = noTimeout then some s
  else if s.Linked t ∧ (s.tcb t).state = .stopped then
    some ((s.unlink t).modify t fun b => { b with wakeupTime := noTimeout })
  else none

/-- `sched_make_ready`. -/
def schedMakeReady (s : Sched C) (t : ThreadRef C) : Option (Sched C) :=
  if (s.tcb t).state = .stopped ∨ (s.tcb t).state = .init then do
    let s ← s.cancelTimeout t
    let s := s.modify t fun b => { b with state := .ready }
    if (s.tcb t).phase = .ctxClean then s.schedQueueAdd t else some s
  else none

/-- The first loop of `sched_queue_select`: make ready the sleepers whose time has come. `fuel`
bounds the iterations; running out of it stands for a loop that does not end. -/
def expireTimeouts (clock : Nat) : Nat → Sched C → Option (Sched C)
  | 0, s => if s.timeoutList = [] then some s else none
  | fuel + 1, s =>
    match s.timeoutList with
    | [] => some s
    | t :: _ =>
      if clock < (s.tcb t).wakeupTime then some s
      else (s.schedMakeReady t).bind (expireTimeouts clock fuel)

/-- The second loop of `sched_queue_select`: pop the first non-empty queue. -/
def popFirst (s : Sched C) : Option (ThreadRef C) × Sched C :=
  match (List.range mfqQueues).find? fun q => s.runQueue q ≠ [] with
  | none => (none, s)
  | some q =>
    ((s.runQueue q).head?, { s with runQueue := Function.update s.runQueue q (s.runQueue q).tail })

/-- One iteration of `sched_boost`: the head of queue `i + 1` goes to the tail of queue `i`. -/
def boostFrom (s : Sched C) (i : Nat) : Sched C :=
  match s.runQueue (i + 1) with
  | [] => s
  | t :: rest =>
    let s := s.modify t fun b => { b with priority := b.priority - 1 }
    let s := { s with runQueue := Function.update s.runQueue (i + 1) rest }
    { s with runQueue := Function.update s.runQueue i (s.runQueue i ++ [t]) }

/-- `sched_boost`. -/
def schedBoost (s : Sched C) : Sched C :=
  (List.range (mfqQueues - 1)).foldl boostFrom s

/-! ## The critical sections -/

/-- `spawn_thread`. The block comes from `aligned_alloc` and is not cleared: `prev` and
`prev_priority` start with whatever it held. -/
def spawnThread (s : Sched C) (prev₀ : ThreadRef C) (prevPriority₀ : Nat) : Sched C :=
  { s with
    spawned := s.spawned + 1
    tcb := Function.update s.tcb (.normal s.spawned)
      { type := .normalThread, state := .init, phase := .ctxClean, priority := 0
        mutexContention := false, prevPriority := prevPriority₀, wakeupTime := noTimeout
        prev := prev₀ } }

/-- `wakeup`, with its return value. -/
def wakeup (s : Sched C) (t : ThreadRef C) : Option (Bool × Sched C) :=
  if (s.tcb t).state = .stopped ∨ (s.tcb t).state = .init then
    (s.schedMakeReady t).map fun s => (true, s)
  else some (false, s)

/-- `sleep_releasing` up to its call of `yield`. -/
def sleepReleasing (s : Sched C) (c : C) (state : ThreadState) (timeout clock : Nat) :
    Option (Sched C) :=
  if state = .stopped ∨ state = .exited then do
    let t := s.currentThread c
    let s := s.modify t fun b => { b with state := state }
    let s ← if state = .exited then some s else s.schedRegisterTimeout t timeout clock
    some { s with coreAt := Function.update s.coreAt c .scheduling }
  else none

/-- The priority of a thread after `yield`'s test for an ended contention episode. -/
def restoreFairness (cause : SchedCause) (b : TCB C) : TCB C :=
  if b.mutexContention ∧ cause ≠ .mutex then
    { b with priority := b.prevPriority, prevPriority := 0, mutexContention := false }
  else b

/-- The `switch(cause)` of `yield`; the case `SCHED_MUTEX` falls through. -/
def adjustPriority (cause : SchedCause) (b : TCB C) : TCB C :=
  let lower (b : TCB C) : TCB C :=
    if b.priority < mfqQueues - 1 then { b with priority := b.priority + 1 } else b
  match cause with
  | .mutex =>
    lower (if b.mutexContention then b
      else { b with prevPriority := b.priority, mutexContention := true })
  | .quantum => lower b
  | .user | .pipe | .io => if 0 < b.priority then { b with priority := b.priority - 1 } else b
  | .poll | .idle => b

/-- `yield` up to the choice of the next thread, with `current_ready`. The second `switch` falls
through from `RUNNING` to `READY`, and asserts that it sees no other live state. -/
def yieldCurrent (s : Sched C) (c : C) (cause : SchedCause) : Option (Bool × Sched C) :=
  let t := s.currentThread c
  let s := s.modify t fun b => adjustPriority cause (restoreFairness cause b)
  let s := { s with coreAt := Function.update s.coreAt c .scheduling }
  match (s.tcb t).state with
  | .running => some (true, s.modify t fun b => { b with state := .ready })
  | .ready => some (true, s)
  | .stopped | .exited => some (false, s)
  | .init => none

/-- The boost that `yield` performs every `MFQ_TIMESLICES` time slices. -/
def maybeBoost (s : Sched C) : Sched C :=
  if mfqTimeslices ≤ s.timeslices then { s with timeslices := 0 }.schedBoost else s

/-- `yield` from `sched_queue_select`'s answer on: link the two threads and switch. -/
def switchTo (s : Sched C) (c : C) (next : ThreadRef C) : Sched C :=
  let s' := s.modify next fun b => { b with prev := s.currentThread c }
  { s' with
    currentThread := Function.update s'.currentThread c next
    coreAt := Function.update s'.coreAt c .switched }

/-- `yield` up to the context switch; the `gain` after it is a critical section of its own. -/
def yield (s : Sched C) (c : C) (cause : SchedCause) (clock : Nat) : Option (Sched C) := do
  let (currentReady, s) ← s.yieldCurrent c cause
  let s := s.maybeBoost
  let s ← s.expireTimeouts clock s.timeoutList.length
  let (next, s) := s.popFirst
  some (s.switchTo c (next.getD (if currentReady then s.currentThread c else .idle c)))

/-- `release_TCB`. -/
def releaseTCB (s : Sched C) : ThreadRef C → Sched C
  | .idle _ => s
  | .normal n => { s with released := Function.update s.released n (s.released n + 1) }

/-- `gain`. -/
def gain (s : Sched C) (c : C) : Option (Sched C) :=
  let current := s.currentThread c
  let prev := (s.tcb current).prev
  let s := { s with
    timeslices := (s.timeslices + 1) % 2 ^ 32
    coreAt := Function.update s.coreAt c .running }
  let s := s.modify current fun b => { b with state := .running, phase := .ctxDirty }
  if current = prev then some s
  else
    let s := s.modify prev fun b => { b with phase := .ctxClean }
    match (s.tcb prev).state with
    | .ready => if (s.tcb prev).type ≠ .idleThread then s.schedQueueAdd prev else some s
    | .exited => some (s.releaseTCB prev)
    | .stopped => some s
    | .init | .running => none

end Sched

end TinyOS
