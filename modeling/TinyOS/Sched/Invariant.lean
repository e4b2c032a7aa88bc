import TinyOS.Lib.System
import TinyOS.Sched.Basic
import Mathlib.Tactic.Common

/-!
# The scheduler as a system, and its invariant

Any number of cores run the critical sections of `Sched/Basic.lean` in any order their position
allows: a core that runs its current thread may spawn, wake, sleep or yield; one that has begun to
sleep must go on to `yield`; one that has switched must `gain`. Nothing else orders the sections
of different cores.

The difficulty is the stretch between the moment a thread marks itself `STOPPED` and the moment
its context is saved: another core, or the timeout scan of any core, may make it ready in between,
and must not queue it, since its context is still garbage. The invariant says who answers for such
a thread. **A core owns its current thread, and — between its `yield` and its `gain` — the thread
it switched away from**; a thread has at most one owner, a thread whose context is dirty has one,
and a queued thread has none.
-/

set_option autoImplicit false

namespace TinyOS

open Transition

inductive SchedAction (C : Type) where
  | spawnThread (c : C) (prev₀ : ThreadRef C) (prevPriority₀ : Nat)
  | wakeup (c : C) (t : ThreadRef C)
  | sleepReleasing (c : C) (state : ThreadState) (timeout clock : Nat)
  | yield (c : C) (cause : SchedCause) (clock : Nat)
  | gain (c : C)

variable {C : Type}

section

variable [DecidableEq C]

namespace Sched

/-- Where the cores must stand for a critical section to be entered. Only a thread that exists is
woken, an idle thread does not sleep, and `sleep_releasing` is called with a state it accepts. -/
def Enabled (s : Sched C) : SchedAction C → Prop
  | .spawnThread c _ _ => s.coreAt c = .running
  | .wakeup c t => s.coreAt c = .running ∧ s.Live t
  | .sleepReleasing c state _ _ =>
    s.coreAt c = .running ∧ (s.tcb (s.currentThread c)).type = .normalThread ∧
      (state = .stopped ∨ state = .exited)
  | .yield c _ _ => s.coreAt c ≠ .switched
  | .gain c => s.coreAt c = .switched

instance (s : Sched C) (a : SchedAction C) : Decidable (s.Enabled a) := by
  cases a <;> unfold Enabled <;> infer_instance

/-- Perform a critical section; `none` is a failed assertion. -/
def perform (s : Sched C) : SchedAction C → Option (Sched C)
  | .spawnThread _ prev₀ prevPriority₀ => some (s.spawnThread prev₀ prevPriority₀)
  | .wakeup _ t => (s.wakeup t).map Prod.snd
  | .sleepReleasing c state timeout clock => s.sleepReleasing c state timeout clock
  | .yield c cause clock => s.yield c cause clock
  | .gain c => s.gain c

/-- What `run_scheduler` leaves on every core: the idle thread running, all lists empty. -/
def initial : Sched C where
  tcb t :=
    { type := match t with | .idle _ => .idleThread | .normal _ => .normalThread
      state := match t with | .idle _ => .running | .normal _ => .init
      phase := match t with | .idle _ => .ctxDirty | .normal _ => .ctxClean
      priority := 0, mutexContention := false, prevPriority := 0, wakeupTime := noTimeout
      prev := t }
  runQueue _ := []
  timeoutList := []
  currentThread := .idle
  coreAt _ := .running
  timeslices := 0
  spawned := 0
  released _ := 0

end Sched

variable (C) in
def schedSys : Sys (Sched C) (SchedAction C) where
  init s := s = .initial
  step s a := if s.Enabled a then s.perform a else none

end

/-- A multiple of 1000 modulo `2^64`: what `bios_clock` reads and every caller passes. -/
def OnTick (v : Nat) : Prop := ∃ k, v = 1000 * k % 2 ^ 64

/-- The clock readings of an action, and its timeout if it has one, are on the tick. -/
def SchedAction.OnTick : SchedAction C → Prop
  | .sleepReleasing _ _ timeout clock =>
    (timeout = noTimeout ∨ TinyOS.OnTick timeout) ∧ TinyOS.OnTick clock
  | .yield _ _ clock => TinyOS.OnTick clock
  | _ => True

/-- Since 125 is invertible modulo `2^61`, the ticks are the multiples of 8. -/
theorem onTick_iff {v : Nat} : OnTick v ↔ v < 2 ^ 64 ∧ v % 8 = 0 := by
  constructor
  · rintro ⟨k, rfl⟩
    omega
  · rintro ⟨hlt, h8⟩
    exact ⟨v / 8 * 2066035336255469781, by omega⟩

/-- Two ticks never add up to `NO_TIMEOUT`: all of them are even. -/
theorem OnTick.add_ne {v w : Nat} (hv : OnTick v) (hw : OnTick w) :
    (v + w) % 2 ^ 64 ≠ noTimeout := by
  have := onTick_iff.mp hv
  have := onTick_iff.mp hw
  unfold noTimeout
  omega

instance (v : Nat) : Decidable (OnTick v) := decidable_of_iff _ onTick_iff.symm

instance (a : SchedAction C) : Decidable a.OnTick := by
  cases a <;> unfold SchedAction.OnTick <;> infer_instance

namespace Sched

/-- Core `c` answers for thread `t`. -/
def Owns (s : Sched C) (c : C) (t : ThreadRef C) : Prop :=
  s.currentThread c = t ∨ (s.coreAt c = .switched ∧ (s.tcb (s.currentThread c)).prev = t)

/-- What a core in each position has as its current and previous threads. -/
def CoreOk (s : Sched C) (c : C) : Prop :=
  let b := s.tcb (s.currentThread c)
  match s.coreAt c with
  | .running => b.state = .running ∧ b.phase = .ctxDirty
  | .scheduling => (b.state = .ready ∨ b.state = .stopped ∨ b.state = .exited) ∧
      b.phase = .ctxDirty
  | .switched => b.state = .ready ∧
      (b.prev = s.currentThread c → b.phase = .ctxDirty) ∧
      (b.prev ≠ s.currentThread c → b.phase = .ctxClean ∧ (s.tcb b.prev).phase = .ctxDirty ∧
        ((s.tcb b.prev).state = .ready ∨ (s.tcb b.prev).state = .stopped ∨
          (s.tcb b.prev).state = .exited))

/-- The part of the invariant about cores and the threads they answer for. -/
structure Owners (s : Sched C) : Prop where
  dirty : ∀ t, s.Live t → (s.tcb t).phase = .ctxDirty → ∃ c, s.Owns c t
  owner : ∀ t c c', s.Owns c t → s.Owns c' t → c = c'
  owned : ∀ c t, s.Owns c t → s.Live t
  cores : ∀ c, s.CoreOk c
  current : ∀ t, s.Live t → (s.tcb t).state = .running → ∃ c, s.currentThread c = t
  exited : ∀ t, s.Live t → (s.tcb t).state = .exited → (s.tcb t).phase = .ctxDirty
  idle : ∀ c, (s.tcb (.idle c)).type = .idleThread ∧ (∀ c', s.Owns c' (.idle c) → c' = c) ∧
    ((s.tcb (.idle c)).state = .ready ∨ (s.tcb (.idle c)).state = .running)
  normal : ∀ n, s.Live (.normal n) → (s.tcb (.normal n)).type = .normalThread
  releasedOnce : ∀ n, s.released n = 0 ∨ (s.released n = 1 ∧ n < s.spawned)

/-- The invariant: ownership, and which threads each list holds. -/
structure Inv (s : Sched C) : Prop extends Owners s where
  queued : ∀ q t, t ∈ s.runQueue q ↔
    s.Live t ∧ (s.tcb t).type = .normalThread ∧ (s.tcb t).state = .ready ∧
      (s.tcb t).phase = .ctxClean ∧ (∀ c, s.currentThread c ≠ t) ∧ (s.tcb t).priority = q
  queueNodup : ∀ q, (s.runQueue q).Nodup
  sleeping : ∀ t, t ∈ s.timeoutList ↔
    s.Live t ∧ (s.tcb t).state = .stopped ∧ (s.tcb t).wakeupTime ≠ noTimeout
  sleepNodup : s.timeoutList.Nodup
  awake : ∀ t, s.Live t → (s.tcb t).state ≠ .stopped → (s.tcb t).wakeupTime = noTimeout
  priority : ∀ t, s.Live t → (s.tcb t).priority < mfqQueues ∧
    ((s.tcb t).mutexContention = true → (s.tcb t).prevPriority < mfqQueues)

end Sched

end TinyOS
