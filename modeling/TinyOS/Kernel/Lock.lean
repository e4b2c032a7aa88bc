import TinyOS.Cond.Abstract
import TinyOS.Sched.Basic
import Mathlib.Data.Set.Card

/-!
# The kernel lock (`kernel_cc.c`)

The kernel lock is a semaphore kept as a monitor: a counter `kernel_sem`, a mutex `kernel_mutex`
and a condition variable `kernel_sem_cv`. `kernel_lock`, `kernel_unlock`, `kernel_wait_wchan` (for
`kernel_wait` and `kernel_timedwait`) and `kernel_sleep` are cut at every operation on the mutex and
on a condition variable. The condition variables are the queues of `Cond/Abstract.lean`: to wait is
to release the mutex and join the sleepers.

Nothing is assumed of the other condition variables: whoever can, signals them at any time, and
their timeouts fire at any time. `kernel_unlock`, `kernel_wait_wchan` and `kernel_sleep` are entered
only from inside the kernel section, as the `SYSCALL` macro has it.
-/

set_option autoImplicit false

namespace TinyOS

open Transition

/-- How a thread leaves the kernel section. `V` names the condition variables other than
`kernel_sem_cv`. -/
inductive KernelExit (V : Type) where
  | unlock
  | wait (cv : V) (timed : Bool)
  /-- `kernel_sleep` with state `STOPPED` or `EXITED`. -/
  | sleep (state : ThreadState)

/-- Who waits for the counter: `kernel_lock`, or `kernel_wait_wchan` with the value to return. -/
inductive KernelEntry where
  | lock
  | wait (ret : Bool)

/-- Where a thread stands. -/
inductive KernelPc (V : Type) where
  | outside
  /-- `kernel_lock`, at `Mutex_Lock`. -/
  | lockEnter
  /-- At the test `kernel_sem<=0`, with the mutex. -/
  | test (k : KernelEntry)
  /-- In `Cond_Wait` on `kernel_sem_cv`, asleep. -/
  | semAsleep (k : KernelEntry)
  /-- There, made ready and about to lock the mutex. -/
  | semWoken (k : KernelEntry)
  /-- Past `kernel_sem--`, at `Mutex_Unlock`. -/
  | taken (k : KernelEntry)
  /-- In the kernel section; `ret` is what `kernel_wait_wchan` returned, if that is how it got
  there. -/
  | inside (ret : Option Bool)
  /-- On its way out, at `Mutex_Lock`. -/
  | release (r : KernelExit V)
  /-- Past `kernel_sem++`, at `Cond_Signal`. -/
  | signal (r : KernelExit V)
  /-- Past `Cond_Signal`. -/
  | signalled (r : KernelExit V)
  /-- In `cv_wait` on `cv`, asleep. -/
  | cvAsleep (cv : V) (timed : Bool)
  /-- There, made ready and about to lock the mutex. -/
  | cvWoken (cv : V)
  /-- Put to sleep by `kernel_sleep`. -/
  | stopped (state : ThreadState)

structure KernelState (T V : Type) where
  kernelMutex : Bool
  kernelSem : Int
  kernelSemCv : CondQueue T
  cvs : V → CondQueue T
  pc : T → KernelPc V

inductive KernelAction (T V : Type) where
  | kernelLock (t : T)
  /-- `kernel_unlock`, `kernel_wait_wchan` or `kernel_sleep`. -/
  | leave (t : T) (r : KernelExit V)
  /-- The next step of a thread in one of the functions. -/
  | next (t : T)
  /-- Somebody signals `cv`. -/
  | wake (cv : V)
  /-- The timeout of a sleeper expires. -/
  | expire (t : T)
  /-- Somebody wakes a thread that `kernel_sleep` stopped. -/
  | wakeup (t : T)

namespace KernelState

variable {T V : Type} [DecidableEq T] [DecidableEq V]

def goto (s : KernelState T V) (t : T) (pc : KernelPc V) : KernelState T V :=
  { s with pc := Function.update s.pc t pc }

/-- Make a thread ready that a condition variable has let go. -/
def ready (s : KernelState T V) (t : T) : KernelState T V :=
  match s.pc t with
  | .semAsleep k => s.goto t (.semWoken k)
  | .cvAsleep cv _ => s.goto t (.cvWoken cv)
  | _ => s

/-- `Cond_Signal(&kernel_sem_cv)`. -/
def signalSem (s : KernelState T V) : KernelState T V :=
  match s.kernelSemCv.sleepers with
  | [] => s
  | t :: _ => { s with kernelSemCv := s.kernelSemCv.wake }.ready t

/-- The end of `kernel_unlock`, `kernel_wait_wchan` or `kernel_sleep`: release the mutex, and sleep
or return. -/
def leave (s : KernelState T V) (t : T) : KernelExit V → KernelState T V
  | .unlock => { s with kernelMutex := false }.goto t .outside
  | .wait cv timed =>
    { s with kernelMutex := false, cvs := Function.update s.cvs cv ((s.cvs cv).sleep t) }.goto t
      (.cvAsleep cv timed)
  | .sleep state => { s with kernelMutex := false }.goto t (.stopped state)

/-- The `while(kernel_sem<=0)` loop and the decrement after it. -/
def testSem (s : KernelState T V) (t : T) (k : KernelEntry) : KernelState T V :=
  if s.kernelSem ≤ 0 then
    { s with kernelMutex := false, kernelSemCv := s.kernelSemCv.sleep t }.goto t (.semAsleep k)
  else { s with kernelSem := s.kernelSem - 1 }.goto t (.taken k)

/-- The step of a thread in one of the functions; at `Mutex_Lock` it has none while the mutex is
taken. -/
def next (s : KernelState T V) (t : T) : Option (KernelState T V) :=
  match s.pc t with
  | .outside | .inside _ | .semAsleep _ | .cvAsleep _ _ | .stopped _ => none
  | .lockEnter =>
    if s.kernelMutex then none else some ({ s with kernelMutex := true }.goto t (.test .lock))
  | .semWoken k =>
    if s.kernelMutex then none else some ({ s with kernelMutex := true }.goto t (.test k))
  | .cvWoken cv =>
    if s.kernelMutex then none
    else some ({ s with kernelMutex := true }.goto t
      (.test (.wait (decide ((s.cvs cv).outcome t = some WakeCause.signal)))))
  | .test k => some (s.testSem t k)
  | .taken k =>
    some ({ s with kernelMutex := false }.goto t
      (.inside (match k with | .lock => none | .wait ret => some ret)))
  | .release r =>
    if s.kernelMutex then none
    else some ({ s with kernelMutex := true, kernelSem := s.kernelSem + 1 }.goto t (.signal r))
  | .signal r => some (s.signalSem.goto t (.signalled r))
  | .signalled r => some (s.leave t r)

def perform (s : KernelState T V) : KernelAction T V → Option (KernelState T V)
  | .kernelLock t =>
    match s.pc t with
    | .outside => some (s.goto t .lockEnter)
    | _ => none
  | .leave t r =>
    match s.pc t with
    | .inside _ => some (s.goto t (.release r))
    | _ => none
  | .next t => s.next t
  | .wake cv =>
    match (s.cvs cv).sleepers with
    | [] => none
    | t :: _ => some ({ s with cvs := Function.update s.cvs cv (s.cvs cv).wake }.ready t)
  | .expire t =>
    match s.pc t with
    | .cvAsleep cv true =>
      some ({ s with cvs := Function.update s.cvs cv ((s.cvs cv).expire t) }.ready t)
    | _ => none
  | .wakeup t =>
    match s.pc t with
    | .stopped .stopped => some (s.goto t .outside)
    | _ => none

/-- The static initialisers, with no thread in the kernel. -/
def initial (T V : Type) : KernelState T V where
  kernelMutex := false
  kernelSem := 1
  kernelSemCv := ⟨[], fun _ => none⟩
  cvs _ := ⟨[], fun _ => none⟩
  pc _ := .outside

end KernelState

def kernelSys (T V : Type) [DecidableEq T] [DecidableEq V] :
    Sys (KernelState T V) (KernelAction T V) where
  init s := s = .initial T V
  step := KernelState.perform

/-! ## The invariant -/

namespace KernelPc

variable {V : Type}

/-- The thread holds `kernel_mutex`. -/
def holds : KernelPc V → Bool
  | .test _ | .taken _ | .signal _ | .signalled _ => true
  | _ => false

/-- The thread is inside the kernel section: past `kernel_sem--`, before `kernel_sem++`. -/
def insideKernel : KernelPc V → Bool
  | .taken _ | .inside _ | .release _ => true
  | _ => false

/-- The thread will test `kernel_sem`, or is about to make another do so. -/
def awaited : KernelPc V → Bool
  | .semWoken _ | .test _ | .signal _ => true
  | _ => false

/-- The thread sleeps on a condition variable. -/
def asleep : KernelPc V → Bool
  | .semAsleep _ | .cvAsleep _ _ => true
  | _ => false

end KernelPc

namespace KernelState

variable {T V : Type} {s : KernelState T V}

/-- **A free counter is spoken for**: while there are sleepers, somebody is on the way to it. -/
structure Inv (s : KernelState T V) : Prop where
  lock : s.kernelMutex = true ↔ ∃ t, (s.pc t).holds = true
  alone : ∀ t u, (s.pc t).holds = true → (s.pc u).holds = true → t = u
  count : (s.kernelSem = 1 ∧ ∀ t, (s.pc t).insideKernel = false) ∨
    (s.kernelSem = 0 ∧ ∃ t, (s.pc t).insideKernel = true ∧
      ∀ u, (s.pc u).insideKernel = true → u = t)
  sleepers : s.kernelSemCv.sleepers.Nodup ∧
    ∀ t, t ∈ s.kernelSemCv.sleepers ↔ ∃ k, s.pc t = .semAsleep k
  waiters : ∀ cv, (s.cvs cv).sleepers.Nodup ∧
    ∀ t, t ∈ (s.cvs cv).sleepers ↔ ∃ timed, s.pc t = .cvAsleep cv timed
  awaited : s.kernelSem = 1 → s.kernelSemCv.sleepers ≠ [] → ∃ t, (s.pc t).awaited = true

theorem inv_initial : (initial T V).Inv := by
  constructor <;> simp [initial, KernelPc.holds, KernelPc.insideKernel]

variable [DecidableEq T]

/-- A thread that is not asleep moves, and perhaps takes or releases the mutex. -/
theorem Inv.move (h : s.Inv) {t : T} {p : KernelPc V} (lock : Bool)
    (hin : p.insideKernel = (s.pc t).insideKernel) (hp : p.asleep = false)
    (ht : (s.pc t).asleep = false) (haw : (s.pc t).awaited = true → p.awaited = true)
    (hlock : lock = true ↔ p.holds = true ∨ (s.pc t).holds = false ∧ s.kernelMutex = true)
    (hholds : p.holds = true → (s.pc t).holds = true ∨ s.kernelMutex = false) :
    ({ s with kernelMutex := lock }.goto t p).Inv := by
  have hmutex := h.lock
  constructor <;> simp only [goto, Function.update_apply]
  case lock => have := h.alone t; grind
  case alone => have := h.alone; grind
  case count => have := h.count; grind
  case sleepers => have := h.sleepers; grind [KernelPc.asleep]
  case waiters => have := h.waiters; grind [KernelPc.asleep]
  case awaited => have := h.awaited; grind

/-- A thread that tests the counter and finds it 0 sleeps; else it takes the counter. -/
theorem Inv.testSem (h : s.Inv) {t : T} {k : KernelEntry} (hp : s.pc t = .test k) :
    (s.testSem t k).Inv := by
  have hone : ∀ u, (s.pc u).holds = true → u = t := fun u hu =>
    h.alone u t hu (by rw [hp]; rfl)
  have hlock : s.kernelMutex = true := h.lock.mpr ⟨t, by rw [hp]; rfl⟩
  have hsleep : t ∉ s.kernelSemCv.sleepers := by
    rw [h.sleepers.2, hp]
    simp
  unfold KernelState.testSem
  split
  · rename_i hle
    have hzero : s.kernelSem ≠ 1 := by omega
    constructor <;> simp only [goto, Function.update_apply]
    case lock => grind [KernelPc.holds]
    case alone => grind [KernelPc.holds]
    case count => have := h.count; grind [KernelPc.insideKernel]
    case sleepers =>
      refine ⟨CondQueue.nodup_sleep h.sleepers.1 hsleep, fun u => ?_⟩
      rw [CondQueue.mem_sleep, h.sleepers.2]
      by_cases hu : u = t <;> simp [hu]
    case waiters => have := h.waiters; grind
    case awaited => exact fun he => absurd he hzero
  · rename_i hle
    have hfree : s.kernelSem = 1 ∧ ∀ u, (s.pc u).insideKernel = false := by
      rcases h.count with hc | ⟨hc, -⟩
      · exact hc
      · omega
    constructor <;> simp only [goto, Function.update_apply]
    case lock => grind [KernelPc.holds]
    case alone => grind [KernelPc.holds]
    case count => grind [KernelPc.insideKernel]
    case sleepers => have := h.sleepers; grind
    case waiters => have := h.waiters; grind
    case awaited => omega

/-- A thread that leaves the kernel section gives the counter back. -/
theorem Inv.release (h : s.Inv) {t : T} {r : KernelExit V} (hp : s.pc t = .release r)
    (hf : s.kernelMutex = false) :
    ({ s with kernelMutex := true, kernelSem := s.kernelSem + 1 }.goto t (.signal r)).Inv := by
  have hfree : ∀ u, (s.pc u).holds = false := by
    intro u
    have := h.lock
    grind
  have htaken : s.kernelSem = 0 ∧ ∀ u, (s.pc u).insideKernel = true → u = t := by
    have := h.count
    grind [KernelPc.insideKernel]
  constructor <;> simp only [goto, Function.update_apply]
  case lock => grind [KernelPc.holds]
  case alone => grind [KernelPc.holds]
  case count => grind [KernelPc.insideKernel]
  case sleepers => have := h.sleepers; grind
  case waiters => have := h.waiters; grind
  case awaited => exact fun _ _ => ⟨t, by rw [if_pos rfl]; rfl⟩

/-- Whoever signals `kernel_sem_cv` has made a sleeper ready, or there is none. -/
theorem Inv.signalSem (h : s.Inv) {t : T} {r : KernelExit V} (hp : s.pc t = .signal r) :
    (s.signalSem.goto t (.signalled r)).Inv := by
  have hone : ∀ u, (s.pc u).holds = true → u = t := fun u hu =>
    h.alone u t hu (by rw [hp]; rfl)
  have hlock : s.kernelMutex = true := h.lock.mpr ⟨t, by rw [hp]; rfl⟩
  unfold KernelState.signalSem
  cases hq : s.kernelSemCv.sleepers with
  | nil =>
    constructor <;> simp only [goto, Function.update_apply]
    case lock => grind [KernelPc.holds]
    case alone => grind [KernelPc.holds]
    case count => have := h.count; grind [KernelPc.insideKernel]
    case sleepers => have := h.sleepers; grind
    case waiters => have := h.waiters; grind
    case awaited => exact fun _ hne => absurd hq hne
  | cons w rest =>
    obtain ⟨k, hw⟩ := (h.sleepers.2 w).mp (by simp [hq])
    have hwt : w ≠ t := by
      rintro rfl
      simp [hp] at hw
    have hwake : s.kernelSemCv.wake =
        ⟨rest, Function.update s.kernelSemCv.outcome w (some .signal)⟩ := by
      simp only [CondQueue.wake, hq]
    have hready : ∀ q, ({ s with kernelSemCv := q } : KernelState T V).ready w =
        { s with kernelSemCv := q }.goto w (.semWoken k) := fun q => by
      simp only [ready, hw]
    simp only [hwake, hready]
    constructor <;> simp only [goto, Function.update_apply]
    case lock => grind [KernelPc.holds]
    case alone => grind [KernelPc.holds]
    case count => have := h.count; grind [KernelPc.insideKernel]
    case sleepers => have := h.sleepers; grind
    case waiters => have := h.waiters; grind
    case awaited => exact fun _ _ => ⟨w, by rw [if_neg hwt, if_pos rfl]; rfl⟩

variable [DecidableEq V]

/-- The thread sleeps on another condition variable. -/
theorem Inv.cvWait (h : s.Inv) {t : T} {cv : V} {timed : Bool}
    (hp : s.pc t = .signalled (.wait cv timed)) :
    ({ s with
      kernelMutex := false
      cvs := Function.update s.cvs cv ((s.cvs cv).sleep t) }.goto t (.cvAsleep cv timed)).Inv := by
  have hone : ∀ u, (s.pc u).holds = true → u = t := fun u hu =>
    h.alone u t hu (by rw [hp]; rfl)
  have hsleep : t ∉ (s.cvs cv).sleepers := by
    rw [(h.waiters cv).2, hp]
    simp
  constructor <;> simp only [goto, Function.update_apply]
  case lock => grind [KernelPc.holds]
  case alone => grind [KernelPc.holds]
  case count => have := h.count; grind [KernelPc.insideKernel]
  case sleepers => have := h.sleepers; grind
  case waiters =>
    intro cv'
    have hw := h.waiters cv'
    by_cases hc : cv' = cv
    · subst hc
      simp only [if_true]
      refine ⟨CondQueue.nodup_sleep hw.1 hsleep, fun u => ?_⟩
      rw [CondQueue.mem_sleep, hw.2]
      by_cases hu : u = t <;> simp [hu]
    · simp only [if_neg hc]
      refine ⟨hw.1, fun u => ?_⟩
      rw [hw.2]
      by_cases hu : u = t <;> simp [hu, hp, Ne.symm hc]
  case awaited => have := h.awaited; grind [KernelPc.awaited]

/-- A sleeper on another condition variable is made ready, by a signal or by its timeout. -/
theorem Inv.cvReady (h : s.Inv) {t : T} {cv : V} {timed : Bool} (hp : s.pc t = .cvAsleep cv timed)
    (outcome : T → Option WakeCause) :
    ({ s with cvs := Function.update s.cvs cv ⟨(s.cvs cv).sleepers.erase t, outcome⟩ }.ready t).Inv
    := by
  have hready : ({ s with
      cvs := Function.update s.cvs cv ⟨(s.cvs cv).sleepers.erase t, outcome⟩ } :
        KernelState T V).ready t =
      { s with cvs := Function.update s.cvs cv ⟨(s.cvs cv).sleepers.erase t, outcome⟩ }.goto t
        (.cvWoken cv) := by
    simp only [ready, hp]
  rw [hready]
  constructor <;> simp only [goto, Function.update_apply]
  case lock => have := h.lock; grind [KernelPc.holds]
  case alone => have := h.alone; grind [KernelPc.holds]
  case count => have := h.count; grind [KernelPc.insideKernel]
  case sleepers => have := h.sleepers; grind
  case waiters =>
    intro cv'
    have hw := h.waiters cv'
    by_cases hc : cv' = cv
    · subst hc
      simp only [if_true, hw.1.mem_erase_iff]
      exact ⟨hw.1.erase t, by grind⟩
    · simp only [if_neg hc]
      grind
  case awaited => have := h.awaited; grind [KernelPc.awaited]

theorem Inv.next (h : s.Inv) {t : T} {s' : KernelState T V} (hs : s.next t = some s') :
    s'.Inv := by
  unfold KernelState.next at hs
  cases hp : s.pc t with
  | outside | inside | semAsleep | cvAsleep | stopped => simp [hp] at hs
  | lockEnter | semWoken | cvWoken =>
    simp only [hp] at hs
    split at hs
    · exact absurd hs (by simp)
    · rename_i hf
      obtain rfl := Option.some.inj hs
      exact h.move true (by rw [hp]; rfl) rfl (by rw [hp]; rfl) (fun _ => rfl)
        (by simp [KernelPc.holds]) (fun _ => .inr (by simpa using hf))
  | test k =>
    simp only [hp, Option.some.injEq] at hs
    exact hs ▸ h.testSem hp
  | taken k =>
    simp only [hp, Option.some.injEq] at hs
    subst hs
    exact h.move false (by rw [hp]; rfl) rfl (by rw [hp]; rfl) (by simp [hp, KernelPc.awaited])
      (by simp [hp, KernelPc.holds]) (by simp [KernelPc.holds])
  | release r =>
    simp only [hp] at hs
    split at hs
    · exact absurd hs (by simp)
    · rename_i hf
      obtain rfl := Option.some.inj hs
      exact h.release hp (by simpa using hf)
  | signal r =>
    simp only [hp, Option.some.injEq] at hs
    exact hs ▸ h.signalSem hp
  | signalled r =>
    simp only [hp, Option.some.injEq] at hs
    subst hs
    cases r with
    | wait cv timed => exact h.cvWait hp
    | unlock | sleep state =>
      exact h.move false (by rw [hp]; rfl) rfl (by rw [hp]; rfl) (by simp [hp, KernelPc.awaited])
        (by simp [hp, KernelPc.holds]) (by simp [KernelPc.holds])

theorem inv_inductive : (kernelSys T V).Inductive Inv where
  init s hs := hs ▸ inv_initial
  step s a s' h _ hs := by
    simp only [kernelSys, perform] at hs
    -- The mutex is not touched by the steps from outside the functions.
    have hsame : ∀ t p, (s.pc t).holds = false → p.holds = false → (s.kernelMutex = true ↔
        (p : KernelPc V).holds = true ∨ (s.pc t).holds = false ∧ s.kernelMutex = true) := by
      intro t p ht hp
      simp [ht, hp]
    cases a with
    | kernelLock t =>
      simp only at hs
      split at hs
      · rename_i hp
        obtain rfl := Option.some.inj hs
        exact h.move s.kernelMutex (by rw [hp]; rfl) rfl (by rw [hp]; rfl)
          (by simp [hp, KernelPc.awaited]) (hsame t _ (by rw [hp]; rfl) rfl)
          (by simp [KernelPc.holds])
      · exact absurd hs (by simp)
    | leave t r =>
      simp only at hs
      split at hs
      · rename_i hp
        obtain rfl := Option.some.inj hs
        exact h.move s.kernelMutex (by rw [hp]; rfl) rfl (by rw [hp]; rfl)
          (by simp [hp, KernelPc.awaited]) (hsame t _ (by rw [hp]; rfl) rfl)
          (by simp [KernelPc.holds])
      · exact absurd hs (by simp)
    | next t => exact h.next hs
    | wake cv =>
      simp only at hs
      split at hs
      · exact absurd hs (by simp)
      · rename_i t rest hq
        obtain rfl := Option.some.inj hs
        obtain ⟨timed, hp⟩ := ((h.waiters cv).2 t).mp (by simp [hq])
        have hwake : (s.cvs cv).wake = ⟨(s.cvs cv).sleepers.erase t,
            Function.update (s.cvs cv).outcome t (some .signal)⟩ := by
          simp [CondQueue.wake, hq]
        rw [hwake]
        exact h.cvReady hp _
    | expire t =>
      simp only at hs
      split at hs
      · rename_i cv hp
        obtain rfl := Option.some.inj hs
        exact h.cvReady hp _
      · exact absurd hs (by simp)
    | wakeup t =>
      simp only at hs
      split at hs
      · rename_i hp
        obtain rfl := Option.some.inj hs
        exact h.move s.kernelMutex (by rw [hp]; rfl) rfl (by rw [hp]; rfl)
          (by simp [hp, KernelPc.awaited]) (hsame t _ (by rw [hp]; rfl) rfl)
          (by simp [KernelPc.holds])
      · exact absurd hs (by simp)

end KernelState

/-- **The kernel lock is safe, and loses no wake-up**, whenever `kernel_mutex` is free: the counter
and the threads inside add up to 1, so at most one is inside; and a counter that is free while a
thread sleeps on it has another thread on the way to it, made ready and yet to test. -/
theorem kernel_lock_safe {T V : Type} [DecidableEq T] [DecidableEq V] {s : KernelState T V}
    (h : (kernelSys T V).Reach s) (hf : s.kernelMutex = false) :
    s.kernelSem + {t | (s.pc t).insideKernel = true}.ncard = 1 ∧
      (∀ t u, (s.pc t).insideKernel = true → (s.pc u).insideKernel = true → t = u) ∧
      ∀ t k, s.kernelSem = 1 → s.pc t = .semAsleep k → ∃ u k', u ≠ t ∧ s.pc u = .semWoken k' := by
  have hi := KernelState.inv_inductive.reachIf h
  refine ⟨?_, ?_, ?_⟩
  · rcases hi.count with ⟨hsem, hnone⟩ | ⟨hsem, t, ht, hone⟩
    · have : {t | (s.pc t).insideKernel = true} = ∅ := by
        ext u
        simp [hnone u]
      simp [this, hsem]
    · have : {t | (s.pc t).insideKernel = true} = {t} := by
        ext u
        exact ⟨hone u, fun hu => hu ▸ ht⟩
      simp [this, hsem]
  · intro t u ht hu
    rcases hi.count with ⟨-, hnone⟩ | ⟨-, v, -, hone⟩
    · simp [hnone t] at ht
    · exact (hone t ht).trans (hone u hu).symm
  · intro t k hsem hp
    have hne : s.kernelSemCv.sleepers ≠ [] :=
      List.ne_nil_of_mem ((hi.sleepers.2 t).mpr ⟨k, hp⟩)
    obtain ⟨u, hu⟩ := hi.awaited hsem hne
    -- The other two kinds hold the mutex.
    have hfree : (s.pc u).holds = false := by
      by_contra hh
      simp [hi.lock.mpr ⟨u, by simpa using hh⟩] at hf
    cases hpu : s.pc u <;> simp [hpu, KernelPc.awaited, KernelPc.holds] at hu hfree
    refine ⟨u, _, ?_, hpu⟩
    rintro rfl
    simp [hp] at hpu

/-- Thread 0 is inside while 1 goes to sleep; it leaves and signals 1, and 2 barges in at
`kernel_lock` before 1 runs. -/
theorem kernel_lock_safe_run : ∃ s : KernelState Nat Unit, s.kernelMutex = false ∧
    s.kernelSem = 1 ∧ s.kernelSem + {t | (s.pc t).insideKernel = true}.ncard = 1 := by
  obtain ⟨s, hr, hp⟩ := Sys.reachIf_of_exec (M := kernelSys Nat Unit) (C := fun _ _ => True)
    (fun _ _ => true) (.initial Nat Unit)
    [.kernelLock 0, .next 0, .next 0, .next 0, .kernelLock 1, .next 1, .next 1, .leave 0 .unlock,
      .next 0, .next 0, .next 0, .kernelLock 2]
    (fun s => s.kernelMutex = false ∧ s.kernelSem = 1) (fun _ _ _ => trivial) rfl (by decide)
  have hp := of_decide_eq_true hp
  exact ⟨s, hp.1, hp.2, (kernel_lock_safe hr hp.1).1⟩

end TinyOS
