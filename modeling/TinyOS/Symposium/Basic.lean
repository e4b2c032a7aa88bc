import TinyOS.Cond.Abstract

/-!
# The symposium (`symposium.c`)

Dining philosophers around a monitor. A philosopher's state is written under the mutex `mx` only, and
between `Mutex_Lock` and `Mutex_Unlock` (or the release in `Cond_Wait`) nobody else is in the monitor:
such a critical section is one step, and taking the lock is another one. The condition variables
`hungry[i]` are the queues of `Cond/Abstract.lean`.

`SymposiumOfProcesses` and `SymposiumOfThreads` start the philosophers, wait for them, and free the
table. They differ in what a wait is for: `WaitChild(NOPROC)` answers for any child that has exited,
and returns at once if there is none, `ThreadJoin` is for one thread. An `Exec` may fail.

Left out are the printing of the table and the Fibonacci numbers, which only burn time. `meals` is not
in the source: it counts how often a philosopher has got to eat.
-/

set_option autoImplicit false

namespace TinyOS

open Transition

/-- `PHIL`. -/
inductive Phil where
  | notHere
  | thinking
  | hungry
  | eating
  deriving DecidableEq

/-- `symposium_t`. -/
structure SymposiumT where
  N : Nat
  bites : Int

/-- Which of the two programs runs the symposium. -/
inductive SymposiumKind where
  | processes
  | threads
  deriving DecidableEq

def LEFT (i N : Nat) : Nat := (i + 1) % N

def RIGHT (i N : Nat) : Nat := (i + N - 1) % N

/-- Where a philosopher stands in `SymposiumTable_philosopher`; `j` is the loop variable. -/
inductive PhilPc where
  /-- Not started, or never started. -/
  | absent
  /-- At the first `Mutex_Lock`. -/
  | arriving
  | arrived
  /-- Thinks, and then is at `Mutex_Lock`. -/
  | thinking (j : Nat)
  /-- In the critical section before it eats. -/
  | craving (j : Nat)
  /-- In `Cond_Wait`. -/
  | asleep (j : Nat)
  /-- Made ready in `Cond_Wait`, at `Mutex_Lock(mutex)`. -/
  | woken (j : Nat)
  /-- `Cond_Wait` has returned: at the loop test. -/
  | relocked (j : Nat)
  /-- Eats, and then is at `Mutex_Lock`. -/
  | eating (j : Nat)
  /-- In the critical section after it has eaten. -/
  | sated (j : Nat)
  /-- At the last `Mutex_Lock`. -/
  | leaving
  | left
  | gone
  /-- `assert(state[i]==EATING)` has failed. -/
  | aborted
  deriving DecidableEq

/-- Where the program stands that runs the symposium. -/
inductive SymposiumPc where
  /-- In the first loop, at the start of philosopher `i`. -/
  | starting (i : Nat)
  /-- In the second loop. -/
  | waiting (i : Nat)
  /-- The table is destroyed. -/
  | done
  deriving DecidableEq

/-- `SymposiumTable`, and the threads around it. -/
structure Symposium where
  mx : Bool
  state : Nat → Phil
  hungry : Nat → CondQueue Nat
  pc : Nat → PhilPc
  main : SymposiumPc
  /-- The children that `WaitChild` has answered for. -/
  reaped : Nat → Bool
  meals : Nat → Nat

inductive SymposiumAction where
  /-- Start the next philosopher; `ok` says whether `Exec` succeeds. -/
  | start (ok : Bool)
  /-- A wait returns: `WaitChild` for the child `c`, or for none. -/
  | wait (c : Option Nat)
  /-- Philosopher `i` takes its next step. -/
  | next (i : Nat)

namespace Symposium

variable (c : SymposiumT)

def goto (s : Symposium) (i : Nat) (pc : PhilPc) : Symposium :=
  { s with pc := Function.update s.pc i pc }

def setState (s : Symposium) (i : Nat) (p : Phil) : Symposium :=
  { s with state := Function.update s.state i p }

/-- The sleeper that a signal makes ready. -/
def ready : PhilPc → PhilPc
  | .asleep j => .woken j
  | pc => pc

/-- `Cond_Signal(&(S->hungry[i]))`. -/
def signal (s : Symposium) (i : Nat) : Symposium :=
  match (s.hungry i).sleepers with
  | [] => s
  | t :: _ =>
    { s.goto t (ready (s.pc t)) with
      hungry := Function.update s.hungry i (s.hungry i).wake }

/-- `trytoeat`. -/
def trytoeat (s : Symposium) (i : Nat) : Symposium :=
  if s.state i = .hungry ∧ s.state (LEFT i c.N) ≠ .eating ∧ s.state (RIGHT i c.N) ≠ .eating then
    (s.setState i .eating).signal i
  else s

/-- The loop test, before turn `j`. -/
def turn (j : Nat) : PhilPc := if (j : Int) < c.bites then .thinking j else .leaving

/-- From the test of the inner loop on: `Cond_Wait`, or the assertion and `Mutex_Unlock`. -/
def wait (s : Symposium) (i j : Nat) : Symposium :=
  if s.state i = .hungry then
    { s.goto i (.asleep j) with
      mx := false
      hungry := Function.update s.hungry i ((s.hungry i).sleep i) }
  else if s.state i = .eating then
    { s.goto i (.eating j) with
      mx := false
      meals := Function.update s.meals i (s.meals i + 1) }
  else s.goto i .aborted

/-- `Mutex_Lock(& S->mx)`. -/
def lock (s : Symposium) (i : Nat) (pc : PhilPc) : Option Symposium :=
  if s.mx then none else some { s.goto i pc with mx := true }

/-- `Mutex_Unlock(& S->mx)`. -/
def unlock (s : Symposium) (i : Nat) (pc : PhilPc) : Symposium := { s.goto i pc with mx := false }

/-- `SymposiumTable_philosopher`, one step of philosopher `i`. -/
def next (s : Symposium) (i : Nat) : Option Symposium :=
  match s.pc i with
  | .absent | .asleep _ | .gone | .aborted => none
  | .arriving => s.lock i .arrived
  | .arrived => some ((s.setState i .thinking).unlock i (turn c 0))
  | .thinking j => s.lock i (.craving j)
  | .craving j => some (((s.setState i .hungry).trytoeat c i).wait i j)
  | .woken j => s.lock i (.relocked j)
  | .relocked j => some (s.wait i j)
  | .eating j => s.lock i (.sated j)
  | .sated j =>
    let s := s.setState i .thinking
    some (((s.trytoeat c (LEFT i c.N)).trytoeat c (RIGHT i c.N)).unlock i (turn c (j + 1)))
  | .leaving => s.lock i .left
  | .left => some ((s.setState i .notHere).unlock i .gone)

/-! ## The program that runs the symposium -/

/-- The second loop, before its `i`-th wait. -/
def waitFrom (i : Nat) : SymposiumPc := if i < c.N then .waiting i else .done

/-- The first loop, before philosopher `i`. -/
def startFrom (i : Nat) : SymposiumPc := if i < c.N then .starting i else waitFrom c 0

/-- `Exec(PhilosopherProcess, ...)` or `CreateThread(PhilosopherThread, ...)`. -/
def start (kind : SymposiumKind) (s : Symposium) (ok : Bool) : Option Symposium :=
  match s.main with
  | .starting i =>
    if ok then some { s.goto i .arriving with main := startFrom c (i + 1) }
    else if kind = .processes then some { s with main := startFrom c (i + 1) }
    else none
  | _ => none

/-- No child is left to wait for. -/
def childless (s : Symposium) : Prop := ∀ i < c.N, s.pc i ≠ .absent → s.reaped i = true

instance (s : Symposium) : Decidable (s.childless c) :=
  inferInstanceAs (Decidable (∀ i < c.N, _ → _))

/-- `WaitChild(NOPROC, NULL)` or `ThreadJoin(thread[i], NULL)` returns. -/
def await (kind : SymposiumKind) (s : Symposium) (child : Option Nat) : Option Symposium :=
  match s.main, kind, child with
  | .waiting i, .threads, _ =>
    if s.pc i = .gone then some { s with main := waitFrom c (i + 1) } else none
  | .waiting i, .processes, some p =>
    if s.pc p = .gone ∧ s.reaped p = false then
      some { s with main := waitFrom c (i + 1), reaped := Function.update s.reaped p true }
    else none
  | .waiting i, .processes, none =>
    if s.childless c then some { s with main := waitFrom c (i + 1) } else none
  | _, _, _ => none

def perform (kind : SymposiumKind) (s : Symposium) : SymposiumAction → Option Symposium
  | .start ok => s.start c kind ok
  | .wait child => s.await c kind child
  | .next i => s.next c i

/-- `SymposiumTable_init`. -/
def initial : Symposium where
  mx := false
  state _ := .notHere
  hungry _ := ⟨[], fun _ => none⟩
  pc _ := .absent
  main := startFrom c 0
  reaped _ := false
  meals _ := 0

end Symposium

def symposiumSys (c : SymposiumT) (kind : SymposiumKind) : Sys Symposium SymposiumAction where
  init s := s = .initial c
  step := Symposium.perform c kind

end TinyOS
