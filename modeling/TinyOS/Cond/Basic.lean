import TinyOS.Lib.Ring
import TinyOS.Lib.System

/-!
# A condition variable at lock granularity (`kernel_cc.c`)

`cv_wait`, `Cond_Signal` and `Cond_Broadcast` cut at every lock operation: at each acquisition and
release of `waitset_lock` and of the caller's mutex, and at the critical section of the scheduler
inside `sleep_releasing` and `wakeup`. Between two cuts a thread touches nothing that another
thread may touch at the same time, so each stretch is one step; in particular `wakeup` and the
assignment of `signalled` after it are *two* steps, for the woken thread may already be running.

The waiter of a thread lies on its stack, so at most one exists for each thread and it is named by
the thread. Of the scheduler only what the condition variable can see is kept: a thread is
`STOPPED` from `sleep_releasing` until `wakeup` or an expired timeout makes it ready, and at no
other time.

The last four fields of the state are not in the source. They record, for the statements, when a
waiter arrived, what made a thread ready, and whom a call has made ready.
-/

set_option autoImplicit false

namespace TinyOS

open Transition

/-- What made a sleeping thread ready. -/
inductive WakeCause where
  | signal | timeout
  deriving DecidableEq

/-- Where a thread stands in the three functions. `M` names the mutexes; `timed` says that the wait
has a timeout, `all` that the call is a broadcast. -/
inductive CondPc (T M : Type) where
  | idle
  /-- `cv_wait`, at `Mutex_Lock(&(cv->waitset_lock))`. -/
  | waitLock (m : M) (timed : Bool)
  /-- At `Mutex_Unlock(mutex)`. -/
  | waitPushed (m : M) (timed : Bool)
  /-- At `sleep_releasing`. -/
  | waitReleased (m : M) (timed : Bool)
  /-- In `sleep_releasing`, `STOPPED`. -/
  | asleep (m : M) (timed : Bool)
  /-- Made ready, at the second `Mutex_Lock(&(cv->waitset_lock))`. -/
  | woken (m : M)
  /-- At the second `Mutex_Unlock(&(cv->waitset_lock))`. -/
  | tidied (m : M)
  /-- At `Mutex_Lock(mutex)`. -/
  | relock (m : M)
  /-- `cv_wait` has returned `r`. -/
  | returned (r : Bool)
  /-- `Cond_Signal` or `Cond_Broadcast`, at `Mutex_Lock`. -/
  | sigLock (all : Bool)
  /-- At a loop test: the loop of `cv_signal`, or the one of `Cond_Broadcast` around it. -/
  | sigScan (all : Bool)
  /-- At `wakeup(w)`. -/
  | sigWake (all : Bool) (w : T)
  /-- `wakeup(w)` has returned 1. -/
  | sigMark (all : Bool) (w : T)
  /-- At the final `Mutex_Unlock`. -/
  | sigUnlock (all : Bool)
  deriving DecidableEq

structure CondState (T M : Type) where
  waitset : Option T
  waitsetLock : Bool
  /-- The rings of the waiters' nodes. -/
  links : Links T
  signalled : T → Bool
  removed : T → Bool
  mutex : M → Bool
  pc : T → CondPc T M
  /-- How many waiters have been pushed so far. -/
  arrivals : Nat
  /-- The number of the arrival of each waiter. -/
  ticket : T → Nat
  /-- What made the thread ready, in its present wait. -/
  cause : T → Option WakeCause
  /-- The threads that the present call of a signaller has made ready. -/
  made : T → List T

inductive CondAction (T M : Type) where
  /-- The caller locks or unlocks a mutex, or begins one of the three functions. -/
  | lock (t : T) (m : M)
  | unlock (t : T) (m : M)
  | wait (t : T) (m : M) (timed : Bool)
  | signal (t : T) (all : Bool)
  /-- A thread inside one of the three functions takes its next step. -/
  | next (t : T)
  /-- The scheduler makes a sleeper with a timeout ready. -/
  | timeout (t : T)

namespace CondState

variable {T M : Type} [DecidableEq T] [DecidableEq M]

def goto (s : CondState T M) (t : T) (pc : CondPc T M) : CondState T M :=
  { s with pc := Function.update s.pc t pc }

/-! ## `remove_from_ring` and the stretches of `cv_wait` -/

/-- `remove_from_ring`. -/
def removeFromRing (s : CondState T M) (w : T) : CondState T M :=
  let s' :=
    if s.waitset = some w then
      let nextw := s.links.next w
      { s with waitset := if nextw = w then none else some nextw }
    else s
  { s' with links := s'.links.remove w }

/-- The waiter's initialisation. -/
def initWaiter (s : CondState T M) (t : T) : CondState T M :=
  { s with
    links := s.links.init t
    signalled := Function.update s.signalled t false
    removed := Function.update s.removed t false
    cause := Function.update s.cause t none }

/-- Push the waiter to the back of the ring. -/
def pushWaiter (s : CondState T M) (t : T) : CondState T M :=
  let s' := { s with arrivals := s.arrivals + 1, ticket := Function.update s.ticket t s.arrivals }
  match s.waitset with
  | some wset => { s' with links := s.links.pushBack wset t }
  | none => { s' with waitset := some t }

/-- What `cv_wait` does once it has the lock back; `none` is the failed assertion. -/
def tidyUp (s : CondState T M) (t : T) : Option (CondState T M) :=
  if s.removed t then some s
  else if s.signalled t then none
  else some (s.removeFromRing t)

/-- The scheduler makes `t` ready. -/
def makeReady (s : CondState T M) (t : T) (m : M) (c : WakeCause) : CondState T M :=
  { s.goto t (.woken m) with cause := Function.update s.cause t (some c) }

/-- `wakeup(w)` by `t`: it returns 1, and makes `w` ready, if `w` is `STOPPED`. -/
def wakeup (s : CondState T M) (t : T) (all : Bool) (w : T) : CondState T M :=
  match s.pc w with
  | .asleep m _ =>
    { (s.makeReady w m .signal).goto t (.sigMark all w) with
      made := Function.update s.made t (s.made t ++ [w]) }
  | _ => s.goto t (.sigScan all)

/-- One test of the loops of `cv_signal` and `Cond_Broadcast`, and the removal after it. -/
def scan (s : CondState T M) (t : T) (all : Bool) : CondState T M :=
  match s.waitset with
  | none => s.goto t (.sigUnlock all)
  | some w =>
    let s := s.removeFromRing w
    { s with removed := Function.update s.removed w true }.goto t (.sigWake all w)

/-! ## The system -/

/-- The step of a thread inside one of the functions. A thread at `Mutex_Lock` has none until the
lock is free. -/
def next (s : CondState T M) (t : T) : Option (CondState T M) :=
  match s.pc t with
  | .idle | .asleep _ _ | .returned _ => none
  | .waitLock m timed =>
    if s.waitsetLock then none
    else some ({ s with waitsetLock := true }.pushWaiter t |>.goto t (.waitPushed m timed))
  | .waitPushed m timed =>
    some ({ s with mutex := Function.update s.mutex m false }.goto t (.waitReleased m timed))
  | .waitReleased m timed =>
    some ({ s with waitsetLock := false }.goto t (.asleep m timed))
  | .woken m =>
    if s.waitsetLock then none
    else ({ s with waitsetLock := true }.tidyUp t).map (goto · t (.tidied m))
  | .tidied m => some ({ s with waitsetLock := false }.goto t (.relock m))
  | .relock m =>
    if s.mutex m then none
    else some ({ s with mutex := Function.update s.mutex m true }.goto t
      (.returned (s.signalled t)))
  | .sigLock all =>
    if s.waitsetLock then none
    else some ({ s with waitsetLock := true }.goto t (.sigScan all))
  | .sigScan all => some (s.scan t all)
  | .sigWake all w => some (s.wakeup t all w)
  | .sigMark all w =>
    some ({ s with signalled := Function.update s.signalled w true }.goto t
      (if all then .sigScan true else .sigUnlock false))
  | .sigUnlock _ => some ({ s with waitsetLock := false }.goto t .idle)

/-- A thread outside the three functions may begin one. -/
def Outside (s : CondState T M) (t : T) : Prop :=
  match s.pc t with
  | .idle | .returned _ => True
  | _ => False

instance (s : CondState T M) (t : T) : Decidable (s.Outside t) := by
  unfold Outside; split <;> infer_instance

def perform (s : CondState T M) : CondAction T M → Option (CondState T M)
  | .lock t m =>
    if s.Outside t ∧ s.mutex m = false then
      some { s with mutex := Function.update s.mutex m true }
    else none
  | .unlock t m =>
    if s.Outside t then some { s with mutex := Function.update s.mutex m false } else none
  | .wait t m timed => if s.Outside t then some ((s.initWaiter t).goto t (.waitLock m timed))
    else none
  | .signal t all =>
    if s.Outside t then
      some ({ s with made := Function.update s.made t [] }.goto t (.sigLock all))
    else none
  | .next t => s.next t
  | .timeout t =>
    match s.pc t with
    | .asleep m true => some (s.makeReady t m .timeout)
    | _ => none

/-- `COND_INIT`, with no thread inside. -/
def initial (T M : Type) : CondState T M where
  waitset := none
  waitsetLock := false
  links := ⟨id, id⟩
  signalled _ := false
  removed _ := false
  mutex _ := false
  pc _ := .idle
  arrivals := 0
  ticket _ := 0
  cause _ := none
  made _ := []

end CondState

/-- Any number of threads on one condition variable. -/
def condSys (T M : Type) [DecidableEq T] [DecidableEq M] : Sys (CondState T M) (CondAction T M) where
  init s := s = .initial T M
  step := CondState.perform

end TinyOS
