import TinyOS.Lib.System
import TinyOS.Lib.Chain
import Mathlib.Algebra.Ring.Int.Defs

/-!
# The process table (`kernel_proc.c`)

`Exec`, `Exit` and `WaitChild`, called by any number of threads of any processes. The PCBs that are
not in use are chained through their `parent` field. A system call holds the kernel lock from its
entry to its return or to the next `kernel_wait`, so the stretches between those points are the
steps; `MAX_PROC` is a parameter.

A PCB is named by its pid. `children_list` and `exited_list` are rings of nodes in the source and
lists here, where `rlist_remove` takes a node off whichever list it is on. The threads that sleep on
a `child_exit` are read off the positions of the threads: only threads of that process sleep there.
`none` is a crash: a `NULL` dereference, or an assertion that fails. The `FIDT`, the thread list and
the arguments are left out; nothing here reads them.

**A PCB is reused, a process is not**, so the history names processes by number: process `i` is the
one the `i`-th successful `acquire_PCB` made.
-/

set_option autoImplicit false

namespace TinyOS

open Transition

def MAX_PROC : Nat := 65536

/-- `pid_state`. -/
inductive PidState where
  | free
  | alive
  | zombie
  deriving DecidableEq

structure PCB where
  pstate : PidState
  /-- The parent's PCB; on the free list, the next one. -/
  parent : Option Nat
  exitval : Int
  /-- `main_thread` is not `NULL`. -/
  mainThread : Bool
  childrenList : List Nat
  exitedList : List Nat

/-- A `WaitChild` that succeeded: the PCB of the calling process, the child reaped, the child's
parent at that time, and what was stored in `*status`. -/
structure Wait where
  caller : Nat
  child : Nat
  parent : Option Nat
  status : Option Int
  deriving DecidableEq

structure ProcTable where
  PT : Nat → PCB
  /-- `process_count`; at most `MAX_PROC`, so it does not wrap. -/
  processCount : Int
  pcbFreelist : Option Nat
  /-- History: the pid of each process. -/
  execs : List Nat
  /-- The process that has the PCB, or had it last. -/
  proc : Nat → Nat
  /-- The processes that exited, and their exit values. -/
  exits : List (Nat × Int)
  waits : List Wait
  /-- The processes whose PCBs were pushed on the free list. -/
  pushes : List Nat

namespace ProcTable

def modify (t : ProcTable) (p : Nat) (f : PCB → PCB) : ProcTable :=
  { t with PT := Function.update t.PT p (f (t.PT p)) }

/-! ## The free list -/

/-- `initialize_PCB`. -/
def initializePCB : PCB where
  pstate := .free
  parent := none
  exitval := 0
  mainThread := false
  childrenList := []
  exitedList := []

/-- A turn of the loop that builds the free list. -/
def chainPCB (p : Nat) (t : ProcTable) : ProcTable :=
  { t.modify p fun b => { b with parent := t.pcbFreelist } with pcbFreelist := some p }

/-- `initialize_processes`, without the `Exec` at its end; the loop runs downwards. -/
def initializeProcesses (maxProc : Nat) : ProcTable :=
  (List.range maxProc).foldr chainPCB
    { PT := fun _ => initializePCB, processCount := 0, pcbFreelist := none
      execs := [], proc := fun _ => 0, exits := [], waits := [], pushes := [] }

/-- `acquire_PCB`. -/
def acquirePCB (t : ProcTable) : Option (Nat × ProcTable) :=
  match t.pcbFreelist with
  | none => none
  | some p => some (p,
    { t.modify p fun b => { b with pstate := .alive } with
      pcbFreelist := (t.PT p).parent
      processCount := t.processCount + 1
      execs := t.execs ++ [p]
      proc := Function.update t.proc p t.execs.length })

/-- `release_PCB`. -/
def releasePCB (t : ProcTable) (p : Nat) : ProcTable :=
  { t.modify p fun b => { b with pstate := .free, parent := t.pcbFreelist } with
    pcbFreelist := some p
    processCount := t.processCount - 1
    pushes := t.pushes ++ [t.proc p] }

/-! ## The system calls, as far as they change the table -/

/-- `sys_Exec` by a thread of the process `cur`: the PCB of the new process, or `none` for
`NOPROC`. -/
def sysExec (t : ProcTable) (cur : Nat) : Option Nat × ProcTable :=
  match t.acquirePCB with
  | none => (none, t)
  | some (p, t) =>
    let t :=
      if p ≤ 1 then t.modify p fun b => { b with parent := none }
      else (t.modify p fun b => { b with parent := some cur }).modify cur fun b =>
        { b with childrenList := p :: b.childrenList }
    (some p, t.modify p fun b => { b with mainThread := true })

/-- `cleanup_zombie`, called by a thread of the process `cur`; `store` says whether `status` is not
`NULL`. -/
def cleanupZombie (t : ProcTable) (cur c : Nat) (store : Bool) : ProcTable :=
  let w : Wait :=
    { caller := cur, child := t.proc c, parent := (t.PT c).parent
      status := if store then some (t.PT c).exitval else none }
  let t := { t with
    PT := fun q => { t.PT q with
      childrenList := (t.PT q).childrenList.erase c
      exitedList := (t.PT q).exitedList.erase c }
    waits := t.waits ++ [w] }
  t.releasePCB c

/-- The loop of `sys_Exit` that hands the children to the initial task. The process is not the
initial task itself: that one has no children left here. -/
def reparent (t : ProcTable) (cur : Nat) : List Nat → ProcTable
  | [] => t
  | c :: cs =>
    let t := t.modify cur fun b => { b with childrenList := b.childrenList.tail }
    let t := t.modify c fun b => { b with parent := some 1 }
    let t := t.modify 1 fun b => { b with childrenList := c :: b.childrenList }
    reparent t cur cs

/-- The exited children go to the initial task too. -/
def appendExited (t : ProcTable) (cur : Nat) : ProcTable :=
  if (t.PT cur).exitedList = [] then t
  else (t.modify 1 fun b => { b with exitedList := b.exitedList ++ (t.PT cur).exitedList }).modify
    cur fun b => { b with exitedList := [] }

/-- And the process to its parent. -/
def pushExited (t : ProcTable) (cur : Nat) : ProcTable :=
  match (t.PT cur).parent with
  | none => t
  | some p => t.modify p fun b => { b with exitedList := cur :: b.exitedList }

/-- `sys_Exit` after the wait of the initial task. -/
def sysExit (t : ProcTable) (cur : Nat) (exitval : Int) : ProcTable :=
  let t := t.reparent cur (t.PT cur).childrenList
  let t := t.appendExited cur
  let t := t.pushExited cur
  { t.modify cur fun b => { b with mainThread := false, pstate := .zombie, exitval := exitval } with
    exits := t.exits ++ [(t.proc cur, exitval)] }

end ProcTable

/-! ## Threads -/

/-- What a thread in `WaitChild` waits for. -/
inductive WaitTarget where
  /-- `wait_for_specific_child`, past its tests. -/
  | child (c : Nat) (store : Bool)
  /-- `wait_for_any_child`, past its test. -/
  | any (store : Bool)
  /-- The same, called by the initial task in `Exit(exitval)`. -/
  | init (exitval : Int)
  deriving DecidableEq

inductive ProcPc where
  | unborn
  | running
  /-- Asleep on the `child_exit` of its process, or made ready. -/
  | waiting (w : WaitTarget) (ready : Bool)
  | exited
  deriving DecidableEq

structure Procs extends ProcTable where
  /-- `CURPROC` of each thread. -/
  owner : Nat → Nat
  pc : Nat → ProcPc
  threads : Nat

inductive ProcAction where
  /-- `call` says whether the task is not `NULL`. -/
  | exec (u : Nat) (call : Bool)
  | createThread (u : Nat)
  | waitChild (u : Nat) (cpid : Int) (store : Bool)
  | exit (u : Nat) (exitval : Int)
  /-- A thread that was made ready goes on. -/
  | resume (u : Nat)

namespace Procs

def goto (s : Procs) (u : Nat) (pc : ProcPc) : Procs :=
  { s with pc := Function.update s.pc u pc }

/-- A new thread of process `p`. -/
def spawnThread (s : Procs) (p : Nat) : Procs :=
  { s with
    owner := Function.update s.owner s.threads p
    pc := Function.update s.pc s.threads .running
    threads := s.threads + 1 }

/-- `kernel_broadcast(& p->child_exit)`. -/
def broadcastChildExit (s : Procs) (p : Nat) : Procs :=
  { s with
    pc := fun u =>
      match s.pc u with
      | .waiting w ready => .waiting w (ready || decide (s.owner u = p))
      | pc => pc }

/-- `sys_Exec`. -/
def sysExec (s : Procs) (u : Nat) (call : Bool) : Procs :=
  match s.toProcTable.sysExec (s.owner u) with
  | (none, _) => s
  | (some p, t) =>
    let s := { s with toProcTable := t }
    if call then s.spawnThread p else s

/-- `cleanup_zombie`. -/
def cleanupZombie (s : Procs) (u c : Nat) (store : Bool) : Procs :=
  { s with toProcTable := s.toProcTable.cleanupZombie (s.owner u) c store }

/-! ## `WaitChild` -/

/-- The loop of `wait_for_specific_child`, at its test. -/
def specificLoop (s : Procs) (u c : Nat) (store : Bool) : Procs :=
  if (s.PT c).pstate = .alive then s.goto u (.waiting (.child c store) false)
  else (s.cleanupZombie u c store).goto u .running

/-- `wait_for_specific_child`; after a test that fails it returns `NOPROC`. -/
def waitForSpecificChild (maxProc : Nat) (s : Procs) (u : Nat) (cpid : Int) (store : Bool) : Procs :=
  if cpid < 0 ∨ (maxProc : Int) ≤ cpid then s
  else
    let c := cpid.toNat
    if (s.PT c).pstate = .free ∨ (s.PT c).parent ≠ some (s.owner u) then s
    else s.specificLoop u c store

/-- The loop of `wait_for_any_child`, at its test. -/
def anyLoop (s : Procs) (u : Nat) (store : Bool) : Option Procs :=
  match (s.PT (s.owner u)).exitedList with
  | [] => some (s.goto u (.waiting (.any store) false))
  | c :: _ =>
    if (s.PT c).pstate = .zombie then some ((s.cleanupZombie u c store).goto u .running) else none

/-- `wait_for_any_child`; without children it returns `NOPROC`. -/
def waitForAnyChild (s : Procs) (u : Nat) (store : Bool) : Option Procs :=
  if (s.PT (s.owner u)).childrenList = [] then some s else s.anyLoop u store

/-- `sys_WaitChild`; `NOPROC` is -1. -/
def sysWaitChild (maxProc : Nat) (s : Procs) (u : Nat) (cpid : Int) (store : Bool) :
    Option Procs :=
  if cpid ≠ -1 then some (waitForSpecificChild maxProc s u cpid store)
  else s.waitForAnyChild u store

/-! ## `Exit` -/

/-- `sys_Exit` after the wait of the initial task. It reads `curproc->main_thread->args`, and hands
what the process leaves behind to the PCB `get_pcb(1)`. -/
def finishExit (s : Procs) (u : Nat) (exitval : Int) : Option Procs :=
  let cur := s.owner u
  let children := (s.PT cur).childrenList
  let exited := (s.PT cur).exitedList
  if (s.PT cur).mainThread = false ∨
      ((s.PT 1).pstate = .free ∧ (children ≠ [] ∨ exited ≠ [])) then none
  else
    let t := s.toProcTable.reparent cur children
    let s := { s with toProcTable := s.toProcTable.sysExit cur exitval }
    let s := if exited = [] then s else s.broadcastChildExit 1
    let s := match (t.PT cur).parent with
      | none => s
      | some p => s.broadcastChildExit p
    some (s.goto u .exited)

/-- `while(sys_WaitChild(NOPROC,NULL)!=NOPROC);`, and the rest of `sys_Exit`. The recursion is on
the exited list of the initial task, whose head each turn reaps. -/
def initLoop (u : Nat) (exitval : Int) : List Nat → Procs → Option Procs
  | exited, s =>
    if (s.PT (s.owner u)).childrenList = [] then s.finishExit u exitval
    else match exited with
      | [] => some (s.goto u (.waiting (.init exitval) false))
      | c :: cs =>
        if (s.PT c).pstate = .zombie then initLoop u exitval cs (s.cleanupZombie u c false)
        else none

/-- The initial task goes on from its sleep in `wait_for_any_child`. -/
def resumeInit (s : Procs) (u : Nat) (exitval : Int) : Option Procs :=
  match (s.PT (s.owner u)).exitedList with
  | [] => some (s.goto u (.waiting (.init exitval) false))
  | c :: cs =>
    if (s.PT c).pstate = .zombie then initLoop u exitval cs (s.cleanupZombie u c false)
    else none

/-- `sys_Exit`. -/
def sysExit (s : Procs) (u : Nat) (exitval : Int) : Option Procs :=
  if s.owner u = 1 then initLoop u exitval (s.PT 1).exitedList s
  else s.finishExit u exitval

/-! ## The system -/

def perform (maxProc : Nat) (s : Procs) : ProcAction → Option Procs
  | .exec u call => if s.pc u = .running then some (s.sysExec u call) else none
  | .createThread u => if s.pc u = .running then some (s.spawnThread (s.owner u)) else none
  | .waitChild u cpid store =>
    if s.pc u = .running then sysWaitChild maxProc s u cpid store else none
  | .exit u exitval => if s.pc u = .running then s.sysExit u exitval else none
  | .resume u =>
    match s.pc u with
    | .waiting (.child c store) true => some (s.specificLoop u c store)
    | .waiting (.any store) true => s.anyLoop u store
    | .waiting (.init exitval) true => s.resumeInit u exitval
    | _ => none

/-- The kernel has booted: `initialize_processes` has executed the null process, which has no
thread, and `boot_tinyos_kernel` the initial task. -/
def boot (maxProc : Nat) : Procs :=
  let t := (ProcTable.initializeProcesses maxProc).sysExec 0
  let t := t.2.sysExec 0
  { toProcTable := t.2
    owner := fun _ => 1
    pc := fun u => if u = 0 then .running else .unborn
    threads := 1 }

end Procs

/-- The processes, for a table of `maxProc` PCBs. -/
def procSys (maxProc : Nat) : Sys Procs ProcAction where
  init s := s = Procs.boot maxProc
  step := Procs.perform maxProc

end TinyOS
