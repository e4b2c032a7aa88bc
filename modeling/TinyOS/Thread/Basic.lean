import TinyOS.Lib.System
import Mathlib.Algebra.Ring.Int.Defs
import Mathlib.Data.List.Basic

/-!
# Threads of a process (`kernel_threads.c`)

`CreateThread`, `ThreadJoin`, `ThreadDetach` and `ThreadExit` for the threads of any number of
processes. A system call holds the kernel lock from its entry to its return or to the next
`kernel_wait`, so the stretches between those points are the steps.

Each process has one main thread, which `sys_Exec` gave a detached PTCB that is on no list; all
others come from `CreateThread`. A thread and its PTCB share their name. Only one thread ever sleeps
on a PTCB's `waiting` (its own thread), and only joiners sleep on its `thread_join`, so the two
condition variables are read off the positions of the threads; a broadcast makes all the sleepers
ready.

**`free(ptcb)` and `release_TCB` leave the block as it is**, and a later access finds the old
contents; `freed` and `released` record that they happened. In the source a later `CreateThread` may
be given the same block. In the runs of `Thread/Join.lean` (`Sound`) no PTCB is used after its `free`,
and no TCB but in one place: the exit loop of the main thread may come to a thread that has exited
and whose joiner has not gone on yet. There the join is taken to be refused (`hung`); where the TCB
was given to another thread, the source joins that one. `main_task`, `argl` and `args` are left out:
nothing here reads them.
-/

set_option autoImplicit false

namespace TinyOS

open Transition

/-- A thread: the main thread of a process, or the `n`-th one that `CreateThread` made. -/
inductive Tid (P : Type) where
  | main (p : P)
  | spawned (n : Nat)
  deriving DecidableEq

structure PTCB where
  exitval : Int
  waitingThreads : Int
  detached : Bool

/-- Who calls `sys_ThreadJoin`: a thread, with or without a place for the exit value, or the loop in
the main thread's `ThreadExit`. -/
inductive JoinCaller where
  | api (store : Bool)
  | exit
  deriving DecidableEq

/-- Where a thread stands. -/
inductive ThreadPc (P : Type) where
  | unborn
  | running
  /-- In `ThreadJoin`, asleep on the `thread_join` of `t`. -/
  | joinAsleep (t : Tid P) (k : JoinCaller)
  /-- There, made ready. -/
  | joinWoken (t : Tid P) (k : JoinCaller)
  /-- In `ThreadExit`, asleep on its own `waiting`. -/
  | exitAsleep
  /-- There, made ready. -/
  | exitWoken
  /-- `EXITED`. -/
  | exited
  deriving DecidableEq

/-- A thread asleep on the `thread_join` of `t` is made ready. -/
def ThreadPc.wake {P : Type} [DecidableEq P] (t : Tid P) : ThreadPc P → ThreadPc P
  | .joinAsleep t' k => if t' = t then .joinWoken t' k else .joinAsleep t' k
  | p => p

structure Threads (P : Type) where
  ptcb : Tid P → PTCB
  /-- `TCB.owner_pcb`. -/
  owner : Tid P → P
  ptcbList : P → List (Tid P)
  /-- The 64-bit `thread_count`; no run is long enough to wrap it. -/
  threadCount : P → Int
  pc : Tid P → ThreadPc P
  spawned : Nat
  /-- A main thread goes round its loop for ever, with the kernel lock. -/
  hung : Bool
  /-- How often each PTCB was freed. -/
  freed : Tid P → Nat
  /-- The scheduler has released the TCB. -/
  released : Tid P → Bool
  /-- What the thread called `ThreadExit` with. -/
  exitArg : Tid P → Option Int
  /-- The joins that returned 0: the joiner, the thread joined, and what was stored. -/
  joins : List (Tid P × Tid P × Option Int)

inductive ThreadAction (P : Type) where
  /-- `task` says whether the task is not `NULL`. -/
  | createThread (u : Tid P) (task : Bool)
  | threadJoin (u : Tid P) (tid : Option (Tid P)) (store : Bool)
  | threadDetach (u : Tid P) (tid : Option (Tid P))
  | threadExit (u : Tid P) (exitval : Int)
  /-- A thread that was made ready goes on. -/
  | resume (u : Tid P)
  /-- The scheduler releases the TCB of an exited thread. -/
  | releaseTCB (t : Tid P)

namespace Threads

variable {P : Type} [DecidableEq P]

def goto (s : Threads P) (u : Tid P) (pc : ThreadPc P) : Threads P :=
  { s with pc := Function.update s.pc u pc }

def modify (s : Threads P) (t : Tid P) (f : PTCB → PTCB) : Threads P :=
  { s with ptcb := Function.update s.ptcb t (f (s.ptcb t)) }

/-! ## The condition variables of a PTCB -/

/-- `Cond_Broadcast(& ptcb->waiting)`. -/
def broadcastWaiting (s : Threads P) (t : Tid P) : Threads P :=
  if s.pc t = .exitAsleep then s.goto t .exitWoken else s

/-- `Cond_Broadcast(& ptcb->thread_join)`. -/
def broadcastJoin (s : Threads P) (t : Tid P) : Threads P :=
  { s with pc := fun u => (s.pc u).wake t }

/-! ## The system calls -/

/-- `thread_count--; rlist_remove(& ptcb->pthread); free(ptcb);` by a thread of process `p`. -/
def freePTCB (s : Threads P) (p : P) (t : Tid P) : Threads P :=
  { s with
    threadCount := Function.update s.threadCount p (s.threadCount p - 1)
    ptcbList := fun q => (s.ptcbList q).erase t
    freed := Function.update s.freed t (s.freed t + 1) }

/-- `sys_CreateThread`; without a task it frees the new PTCB and returns `NOTHREAD`. -/
def sysCreateThread (s : Threads P) (u : Tid P) (task : Bool) : Threads P :=
  if task then
    let t := .spawned s.spawned
    let p := s.owner u
    { s with
      spawned := s.spawned + 1
      ptcb := Function.update s.ptcb t { exitval := 0, waitingThreads := 0, detached := false }
      owner := Function.update s.owner t p
      ptcbList := Function.update s.ptcbList p (s.ptcbList p ++ [t])
      threadCount := Function.update s.threadCount p (s.threadCount p + 1)
      pc := Function.update s.pc t .running }
  else s

/-- The tests of `sys_ThreadJoin` after the one for `NOTHREAD`: it returns -1. -/
def joinRefused (s : Threads P) (u t : Tid P) : Bool :=
  s.owner t ≠ s.owner u ∨ (t = u ∨ t = .main (s.owner u)) ∨
    ((s.ptcb t).detached = true ∧ t ≠ .main (s.owner u))

/-- `sys_ThreadJoin` past its tests, up to `kernel_wait`. -/
def startJoin (s : Threads P) (u t : Tid P) (k : JoinCaller) : Threads P :=
  ((s.modify t fun b => { b with waitingThreads := b.waitingThreads + 1 }).broadcastWaiting t).goto u
    (.joinAsleep t k)

/-- `sys_ThreadJoin` from `kernel_wait` on. -/
def finishJoin (s : Threads P) (u t : Tid P) (k : JoinCaller) : Threads P :=
  let s := { s with
    joins := s.joins ++ [(u, t, if k = JoinCaller.api true then some (s.ptcb t).exitval else none)] }
  let s := s.modify t fun b => { b with waitingThreads := b.waitingThreads - 1 }
  if (s.ptcb t).waitingThreads = 0 then s.freePTCB (s.owner u) t else s

/-- The loop of the main thread's `ThreadExit`, at its test. A join that is refused leaves the list
as it is, so the loop does not end. -/
def exitLoop (s : Threads P) (u : Tid P) : Threads P :=
  match s.ptcbList (s.owner u) with
  | [] => s.goto u .running
  | t :: _ => if s.joinRefused u t then { s with hung := true } else s.startJoin u t .exit

/-- `sys_ThreadDetach` past its test for `NOTHREAD`. -/
def sysThreadDetach (s : Threads P) (t : Tid P) : Threads P :=
  if s.pc t = .exited then s
  else
    let s := s.modify t fun b => { b with detached := true }
    if 0 < (s.ptcb t).waitingThreads then s.broadcastJoin t else s

/-- The end of `sys_ThreadExit` for a thread that is joined or was. -/
def finishExit (s : Threads P) (u : Tid P) : Threads P :=
  (s.sysThreadDetach u).goto u .exited

/-- `sys_ThreadExit`, up to its first `kernel_wait` or to its end. -/
def sysThreadExit (s : Threads P) (u : Tid P) (exitval : Int) : Threads P :=
  let s := { s with exitArg := Function.update s.exitArg u (some exitval) }
  if u = .main (s.owner u) then s.exitLoop u
  else
    let s := s.modify u fun b => { b with exitval := exitval }
    if (s.ptcb u).detached then (s.freePTCB (s.owner u) u).goto u .exited
    else if (s.ptcb u).waitingThreads = 0 then s.goto u .exitAsleep
    else s.finishExit u

/-! ## The system -/

def perform (s : Threads P) (a : ThreadAction P) : Option (Threads P) :=
  if s.hung then none
  else match a with
  | .createThread u task => if s.pc u = .running then some (s.sysCreateThread u task) else none
  | .threadJoin u tid store =>
    if s.pc u = .running then
      match tid with
      | none => some s
      | some t => some (if s.joinRefused u t then s else s.startJoin u t (.api store))
    else none
  | .threadDetach u tid =>
    if s.pc u = .running then
      match tid with
      | none => some s
      | some t => some (s.sysThreadDetach t)
    else none
  | .threadExit u exitval =>
    if s.pc u = .running then some (s.sysThreadExit u exitval) else none
  | .resume u =>
    match s.pc u with
    | .joinWoken t (.api store) => some ((s.finishJoin u t (.api store)).goto u .running)
    | .joinWoken t .exit => some (((s.finishJoin u t .exit).goto u .running).exitLoop u)
    | .exitWoken => some (s.finishExit u)
    | _ => none
  | .releaseTCB t =>
    if s.pc t = .exited then some { s with released := Function.update s.released t true }
    else none

/-- Every process has its main thread; `sys_Exec` made its PTCB and counted it. The owner of a
thread that does not exist yet is the process `p`, whichever. -/
def initial (p : P) : Threads P where
  ptcb _ := { exitval := 0, waitingThreads := 0, detached := true }
  owner | .main q => q | .spawned _ => p
  ptcbList _ := []
  threadCount _ := 1
  pc | .main _ => .running | .spawned _ => .unborn
  spawned := 0
  hung := false
  freed _ := 0
  released _ := false
  exitArg _ := none
  joins := []

end Threads

def threadSys (P : Type) [DecidableEq P] : Sys (Threads P) (ThreadAction P) where
  init s := ∃ p, s = .initial p
  step := Threads.perform

end TinyOS
