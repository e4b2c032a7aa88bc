import TinyOS.Lib.System
import Mathlib.Tactic.Common

/-!
# The spinning mutex (`kernel_cc.c`)

`Mutex_Lock` is cut at every atomic operation: the test-and-set, each relaxed load of the loop that
spins, and the `yield` after `MUTEX_SPINS` loads. Everywhere else in this development a mutex is one
flag, locking it is one step, and the step waits until the flag is down. **That is what the code
implements** (`mutex_simulates`): whatever the interleaving, the flag is up if and only if a thread
holds the mutex, and it is one thread.

A thread takes the mutex in its test-and-set and gives it back in the clear; nothing else it does is
seen by others. A test-and-set that fails writes the flag too, but then the flag is up already.

What the atomic view leaves out is how long a step may wait. Nothing in the code orders the threads
that spin, so a thread may lose forever to others. **But a mutex that is free is taken at the latest in
the third step of any thread that waits, and where preemption is on, a thread that spins in vain gives
up its core after `MUTEX_SPINS + 1` loads** (`mutex_progress`).
-/

set_option autoImplicit false

namespace TinyOS

open Transition

/-- `MUTEX_SPINS`. -/
def mutexSpins : Nat := 1000

/-- Where a thread stands in `Mutex_Lock`. `preempt` is what `get_core_preemption()` answers: nothing
turns preemption on or off in the course of a call. -/
inductive MutexPc where
  | outside
  /-- At `__atomic_test_and_set`. -/
  | testing (preempt : Bool)
  /-- At `__atomic_load_n`, with `spin`. -/
  | loading (preempt : Bool) (spin : Nat)
  /-- In `yield(SCHED_MUTEX)`, so preemption is on. -/
  | yielding
  /-- `Mutex_Lock` has returned. -/
  | inside
  deriving DecidableEq

/-- How many steps a thread in `Mutex_Lock` is away from the test-and-set, if the mutex stays free. -/
def MutexPc.distance : MutexPc → Option Nat
  | .outside | .inside => none
  | .testing _ => some 0
  | .loading _ _ => some 1
  | .yielding => some 2

structure MutexState (T : Type) where
  lock : Bool
  pc : T → MutexPc

inductive MutexAction (T : Type) where
  /-- The call begins, with preemption on or off. -/
  | mutexLock (t : T) (preempt : Bool)
  | mutexUnlock (t : T)
  /-- The next step of a thread in `Mutex_Lock`. -/
  | next (t : T)
  deriving DecidableEq

namespace MutexState

variable {T : Type} [DecidableEq T]

def goto (s : MutexState T) (t : T) (pc : MutexPc) : MutexState T :=
  { s with pc := Function.update s.pc t pc }

@[simp] theorem goto_pc (s : MutexState T) (t u : T) (pc : MutexPc) :
    (s.goto t pc).pc u = if u = t then pc else s.pc u := Function.update_apply ..

/-- The step of a thread in `Mutex_Lock`. -/
def next (s : MutexState T) (t : T) : Option (MutexState T) :=
  match s.pc t with
  | .outside | .inside => none
  | .testing preempt =>
    if s.lock then some (s.goto t (.loading preempt mutexSpins))
    else some ({ s with lock := true }.goto t .inside)
  | .loading preempt spin =>
    if s.lock then
      if 0 < spin then some (s.goto t (.loading preempt (spin - 1)))
      else some (s.goto t (if preempt then .yielding else .loading preempt mutexSpins))
    else some (s.goto t (.testing preempt))
  | .yielding => some (s.goto t (.loading true mutexSpins))

/-- Only the thread that holds the mutex unlocks it. -/
def perform (s : MutexState T) : MutexAction T → Option (MutexState T)
  | .mutexLock t preempt => if s.pc t = .outside then some (s.goto t (.testing preempt)) else none
  | .mutexUnlock t =>
    if s.pc t = .inside then some ({ s with lock := false }.goto t .outside) else none
  | .next t => s.next t

end MutexState

/-- `MUTEX_INIT`, and nobody at it. -/
def mutexSys (T : Type) [DecidableEq T] : Sys (MutexState T) (MutexAction T) where
  init s := s = { lock := false, pc := fun _ => .outside }
  step := MutexState.perform

/-! ## What a mutex is for -/

inductive HolderAction (T : Type) where
  | acquire (t : T)
  | release (t : T)

/-- At most one thread holds it. -/
def holderSys (T : Type) [DecidableEq T] : Sys (Option T) (HolderAction T) where
  init h := h = none
  step h
    | .acquire t => if h = none then some (some t) else none
    | .release t => if h = some t then some none else none

namespace MutexState

variable {T : Type} [DecidableEq T] {s s' : MutexState T}

/-- `h` holds the mutex. -/
structure HeldBy (s : MutexState T) (h : Option T) : Prop where
  lock : s.lock = h.isSome
  inside : ∀ t, s.pc t = .inside ↔ h = some t
  spins : ∀ t preempt spin, s.pc t = .loading preempt spin → spin ≤ mutexSpins

omit [DecidableEq T] in
theorem HeldBy.initial : HeldBy { lock := false, pc := fun _ : T => .outside } none where
  lock := rfl
  inside := by simp
  spins := by simp

/-- The thread `t` moves, and `h'` holds the mutex afterwards. -/
theorem HeldBy.move {h h' : Option T} (hs : s.HeldBy h) {t : T} {pc : MutexPc} {lock : Bool}
    (hlock : lock = h'.isSome) (hothers : ∀ u, u ≠ t → (h' = some u ↔ h = some u))
    (hpc : pc = .inside ↔ h' = some t)
    (hspin : ∀ preempt spin, pc = .loading preempt spin → spin ≤ mutexSpins) :
    ({ s with lock := lock }.goto t pc).HeldBy h' where
  lock := hlock
  inside u := by
    rw [goto_pc]
    split
    · rename_i hu
      exact hu ▸ hpc
    · rename_i hu
      exact (hs.inside u).trans (hothers u hu).symm
  spins u preempt spin hu := by
    rw [goto_pc] at hu
    split at hu
    · exact hspin preempt spin hu
    · exact hs.spins u preempt spin hu

/-- It moves outside. -/
theorem HeldBy.goto {h : Option T} (hs : s.HeldBy h) {t : T} {pc : MutexPc}
    (hout : s.pc t ≠ .inside) (hpc : pc ≠ .inside)
    (hspin : ∀ preempt spin, pc = .loading preempt spin → spin ≤ mutexSpins) :
    (s.goto t pc).HeldBy h :=
  hs.move hs.lock (fun _ _ => Iff.rfl)
    (iff_of_false hpc fun he => hout ((hs.inside t).mpr he)) hspin

/-- **One step** takes the mutex, gives it back, or leaves it with who has it. -/
theorem HeldBy.step {h : Option T} (hs : s.HeldBy h) {a : MutexAction T}
    (hstep : s.perform a = some s') :
    s'.HeldBy h ∨
      (∃ t preempt, h = none ∧ a = .next t ∧ s.pc t = .testing preempt ∧ s'.HeldBy (some t)) ∨
      ∃ t, h = some t ∧ a = .mutexUnlock t ∧ s'.HeldBy none := by
  cases a with
  | mutexLock t preempt =>
    obtain ⟨hpc, hstep⟩ := Option.ite_none_right_eq_some.mp hstep
    cases hstep
    exact .inl (hs.goto (by simp [hpc]) (by simp) (by simp))
  | mutexUnlock t =>
    obtain ⟨hpc, hstep⟩ := Option.ite_none_right_eq_some.mp hstep
    cases hstep
    obtain rfl := (hs.inside t).mp hpc
    exact .inr (.inr ⟨t, rfl, rfl, hs.move rfl (fun u hu => by simp [Ne.symm hu]) (by simp) (by simp)⟩)
  | next t =>
    change s.next t = some s' at hstep
    cases hpc : s.pc t with
    | outside | inside => simp [MutexState.next, hpc] at hstep
    | testing preempt =>
      simp only [MutexState.next, hpc] at hstep
      split at hstep
      · cases hstep
        refine .inl (hs.goto (by simp [hpc]) (by simp) fun _ n hn => ?_)
        cases hn
        exact Nat.le_refl _
      · rename_i hfree
        cases hstep
        obtain rfl : h = none := by
          have := hs.lock
          simpa [hfree] using this
        exact .inr (.inl ⟨t, preempt, rfl, rfl, hpc,
          hs.move rfl (fun u hu => by simp [Ne.symm hu]) (by simp) (by simp)⟩)
    | loading preempt spin =>
      have hle := hs.spins t preempt spin hpc
      simp only [MutexState.next, hpc] at hstep
      split at hstep
      · split at hstep
        · cases hstep
          refine .inl (hs.goto (by simp [hpc]) (by simp) fun _ n hn => ?_)
          cases hn
          omega
        · cases hstep
          refine .inl (hs.goto (by simp [hpc]) ?_ ?_) <;> split <;> simp_all
      · cases hstep
        exact .inl (hs.goto (by simp [hpc]) (by simp) (by simp))
    | yielding =>
      simp only [MutexState.next, hpc] at hstep
      cases hstep
      refine .inl (hs.goto (by simp [hpc]) (by simp) fun _ n hn => ?_)
      cases hn
      exact Nat.le_refl _

/-- In every run, at most one thread holds the mutex. -/
theorem exists_heldBy (hr : (mutexSys T).Reach s) : ∃ h, s.HeldBy h := by
  induction hr with
  | init hi => exact ⟨none, hi ▸ .initial⟩
  | step _ _ hs ih =>
    obtain ⟨h, ih⟩ := ih
    rcases ih.step hs with h' | ⟨t, -, -, -, -, h'⟩ | ⟨t, -, -, h'⟩ <;> exact ⟨_, h'⟩

/-! ## Progress -/

/-- Nobody holds the mutex, and `t` is at most `r` steps away from taking it. -/
def Near (t : T) (r : Nat) (s : MutexState T) : Prop :=
  s.HeldBy none ∧ ∃ n, (s.pc t).distance = some n ∧ n ≤ r

/-- Each step of a thread brings it nearer to a mutex that is free. -/
theorem next_free {t : T} (hfree : s.lock = false) (hs : s.next t = some s') :
    s'.lock = true ∨ ∃ pc n, s' = s.goto t pc ∧ (s.pc t).distance = some (n + 1) ∧
      pc.distance = some n := by
  cases hpc : s.pc t with
  | outside | inside => simp [MutexState.next, hpc] at hs
  | testing preempt =>
    simp only [MutexState.next, hpc, hfree, Bool.false_eq_true, if_false, Option.some.injEq] at hs
    exact .inl (hs ▸ rfl)
  | loading preempt spin =>
    simp only [MutexState.next, hpc, hfree, Bool.false_eq_true, if_false, Option.some.injEq] at hs
    exact .inr ⟨_, 0, hs.symm, rfl, rfl⟩
  | yielding =>
    simp only [MutexState.next, hpc, Option.some.injEq] at hs
    exact .inr ⟨_, 1, hs.symm, rfl, rfl⟩

theorem Near.step {t : T} {r : Nat} (h : s.Near t r) {a : MutexAction T}
    (hs : s.perform a = some s') :
    s'.lock = true ∨ ∃ r', s'.Near t r' ∧ r' + (if a = .next t then 1 else 0) ≤ r := by
  obtain ⟨hheld, n, hn, hle⟩ := h
  rcases hheld.step hs with hheld' | ⟨u, -, -, -, -, hheld'⟩ | ⟨u, hu, -, -⟩
  · cases a with
    | mutexLock u preempt =>
      obtain ⟨hpc, hs⟩ := Option.ite_none_right_eq_some.mp hs
      cases hs
      have hne : t ≠ u := by
        rintro rfl
        simp [hpc, MutexPc.distance] at hn
      exact .inr ⟨n, ⟨hheld', n, by rw [goto_pc, if_neg hne, hn], Nat.le_refl n⟩, by simpa using hle⟩
    | mutexUnlock u =>
      obtain ⟨hpc, -⟩ := Option.ite_none_right_eq_some.mp hs
      exact absurd ((hheld.inside u).mp hpc) (by simp)
    | next u =>
      rcases next_free hheld.lock hs with htaken | ⟨pc, d, rfl, hd, hd'⟩
      · exact .inl htaken
      · refine .inr ?_
        by_cases hut : u = t
        · subst hut
          obtain rfl : d + 1 = n := Option.some.inj (hd.symm.trans hn)
          exact ⟨d, ⟨hheld', d, by rw [goto_pc, if_pos rfl, hd'], Nat.le_refl d⟩, by simpa using hle⟩
        · exact ⟨n, ⟨hheld', n, by rw [goto_pc, if_neg (Ne.symm hut), hn], Nat.le_refl n⟩,
            by simpa [hut] using hle⟩
  · exact .inl hheld'.lock
  · exact absurd hu (by simp)

/-- `t` spins with preemption on, for at most `r` loads before the last one. -/
def Spins (t : T) (r : Nat) (s : MutexState T) : Prop :=
  ∃ spin, s.pc t = .loading true spin ∧ spin ≤ r

/-- The load of `t` finds the mutex free, or `t` gives up its core. -/
def Stops (t : T) (s : MutexState T) (a : MutexAction T) (s' : MutexState T) : Prop :=
  a = .next t ∧ (s.lock = false ∨ s'.pc t = .yielding)

theorem Spins.step {t : T} {r : Nat} (h : s.Spins t r) {a : MutexAction T}
    (hs : s.perform a = some s') :
    Stops t s a s' ∨ ∃ r', s'.Spins t r' ∧ r' + (if a = .next t then 1 else 0) ≤ r := by
  obtain ⟨spin, hpc, hle⟩ := h
  have hother : ∀ {u : T} {pc : MutexPc} {lock : Bool}, u ≠ t →
      s' = { s with lock := lock }.goto u pc → s'.Spins t r := by
    rintro u pc lock hut rfl
    exact ⟨spin, by rw [goto_pc, if_neg (Ne.symm hut)]; exact hpc, hle⟩
  cases a with
  | mutexLock u preempt =>
    obtain ⟨hu, hs⟩ := Option.ite_none_right_eq_some.mp hs
    cases hs
    have hut : u ≠ t := by
      rintro rfl
      simp [hpc] at hu
    exact .inr ⟨r, hother hut rfl, by simp⟩
  | mutexUnlock u =>
    obtain ⟨hu, hs⟩ := Option.ite_none_right_eq_some.mp hs
    cases hs
    have hut : u ≠ t := by
      rintro rfl
      simp [hpc] at hu
    exact .inr ⟨r, hother hut rfl, by simp⟩
  | next u =>
    change s.next u = some s' at hs
    by_cases hut : u = t
    · subst hut
      simp only [MutexState.next, hpc, if_true] at hs
      split at hs
      · split at hs
        · cases hs
          exact .inr ⟨spin - 1, ⟨spin - 1, by simp, Nat.le_refl _⟩, by simp; omega⟩
        · cases hs
          exact .inl ⟨rfl, .inr (by simp)⟩
      · rename_i hfree
        exact .inl ⟨rfl, .inl (by simpa using hfree)⟩
    · have hmoved : s'.Spins t r := by
        unfold MutexState.next at hs
        split at hs
        · cases hs
        · cases hs
        · split at hs <;> cases hs <;> exact hother hut rfl
        · split at hs
          · split at hs <;> cases hs <;> exact hother hut rfl
          · cases hs
            exact hother hut rfl
        · cases hs
          exact hother hut rfl
      exact .inr ⟨r, hmoved, by simp [hut]⟩

/-- A thread spins until it yields. -/
theorem exists_spin {t : T} {spin : Nat} (hlock : s.lock = true)
    (hpc : s.pc t = .loading true spin) : ∃ s', (mutexSys T).RunIf (fun _ _ => True) s
      (List.replicate (spin + 1) (.next t)) s' := by
  induction spin generalizing s with
  | zero =>
    have hstep : s.next t = some (s.goto t .yielding) := by
      simp [MutexState.next, hpc, hlock]
    exact ⟨_, .single trivial hstep⟩
  | succ spin ih =>
    have hstep : s.next t = some (s.goto t (.loading true spin)) := by
      simp [MutexState.next, hpc, hlock]
    obtain ⟨s', hrun⟩ := ih (s := s.goto t (.loading true spin)) hlock (by simp)
    exact ⟨s', .cons trivial hstep hrun⟩

end MutexState

/-- **The spinning mutex is a mutex**, for any number of threads, with preemption on or off in
each call. -/
theorem mutex_simulates {T : Type} [DecidableEq T] :
    Sys.Simulates (mutexSys T) (holderSys T) MutexState.HeldBy where
  init s hs := ⟨none, rfl, hs ▸ .initial⟩
  step s a s' h hheld hs := by
    rcases hheld.step hs with h' | ⟨t, -, rfl, -, -, h'⟩ | ⟨t, rfl, -, h'⟩
    · exact ⟨[], h, .nil h, h'⟩
    · exact ⟨[.acquire t], some t, .single rfl, h'⟩
    · exact ⟨[.release t], none, .single (if_pos rfl), h'⟩

/-- **A free mutex is taken, and a thread does not spin for ever.** Of a thread in `Mutex_Lock`, at most
two steps come before the one in which the free mutex is taken, by whomever. Of a thread that spins
with preemption on, at most `MUTEX_SPINS` loads come before the one that finds the mutex free, or after
which it yields. -/
theorem mutex_progress {T : Type} [DecidableEq T] {s s' : MutexState T}
    {as : List (MutexAction T)} (hr : (mutexSys T).Reach s)
    (hrun : (mutexSys T).RunIf (fun _ _ => True) s as s') (t : T) :
    (s.lock = false → s.pc t ≠ .outside → 2 < as.countP (· = .next t) →
      ∃ pre a post m m', as = pre ++ a :: post ∧ pre.countP (· = .next t) ≤ 2 ∧
        (mutexSys T).Run s pre m ∧ (mutexSys T).step m a = some m' ∧ m'.lock = true) ∧
    ∀ spin, s.pc t = .loading true spin → mutexSpins < as.countP (· = .next t) →
      ∃ pre a post m m', as = pre ++ a :: post ∧ pre.countP (· = .next t) ≤ mutexSpins ∧
        (mutexSys T).Run s pre m ∧ (mutexSys T).step m a = some m' ∧
        MutexState.Stops t m a m' := by
  obtain ⟨h, hheld⟩ := MutexState.exists_heldBy hr
  constructor
  · intro hfree hout hlong
    obtain rfl : h = none := by
      have := hheld.lock
      simpa [hfree] using this
    have hnear : s.Near t 2 := by
      refine ⟨hheld, ?_⟩
      cases hpc : s.pc t with
      | outside => exact absurd hpc hout
      | inside => exact absurd ((hheld.inside t).mp hpc) (by simp)
      | testing => exact ⟨0, rfl, by decide⟩
      | loading => exact ⟨1, rfl, by decide⟩
      | yielding => exact ⟨2, rfl, by decide⟩
    exact hrun.responds (P := MutexState.Near t) (E := fun _ _ m' => m'.lock = true)
      (fun r s a s' h _ hs => by simpa using MutexState.Near.step h hs) hnear hlong
  · intro spin hpc hlong
    have hspins : s.Spins t mutexSpins := ⟨spin, hpc, hheld.spins t true spin hpc⟩
    exact hrun.responds (P := MutexState.Spins t) (E := MutexState.Stops t)
      (fun r s a s' h _ hs => by simpa using MutexState.Spins.step h hs) hspins hlong

/-- A thread spins while another one has the mutex: it yields. Once the mutex is free again, it is
taken. -/
theorem mutex_progress_run :
    (∃ (s s' : MutexState Bool) (as : List (MutexAction Bool)), (mutexSys Bool).Reach s ∧
      (mutexSys Bool).RunIf (fun _ _ => True) s as s' ∧
      ∃ pre a post m m', as = pre ++ a :: post ∧ pre.countP (· = .next true) ≤ 2 ∧
        (mutexSys Bool).Run s pre m ∧ (mutexSys Bool).step m a = some m' ∧
        m'.lock = true) ∧
    ∃ (s s' : MutexState Bool) (as : List (MutexAction Bool)), (mutexSys Bool).Reach s ∧
      (mutexSys Bool).RunIf (fun _ _ => True) s as s' ∧
      ∃ pre a post m m', as = pre ++ a :: post ∧ pre.countP (· = .next true) ≤ mutexSpins ∧
        (mutexSys Bool).Run s pre m ∧ (mutexSys Bool).step m a = some m' ∧
        MutexState.Stops true m a m' := by
  let free : MutexState Bool → Bool := fun s => !s.lock && s.pc true == .loading true mutexSpins
  let as : List (MutexAction Bool) :=
    [.next true, .next true, .mutexUnlock true, .mutexLock true true, .next true]
  obtain ⟨s, hr, hp⟩ := Sys.reachIf_of_exec (M := mutexSys Bool)
    (C := fun _ _ => True) (fun _ _ => true) ⟨false, fun _ => .outside⟩
    [.mutexLock false false, .next false, .mutexLock true true, .next true, .mutexUnlock false]
    (fun s => free s && ((mutexSys Bool).exec (fun _ _ => true) s as).isSome)
    (fun _ _ _ => trivial) rfl (by decide)
  obtain ⟨u, hru, hpu⟩ := Sys.reachIf_of_exec (M := mutexSys Bool)
    (C := fun _ _ => True) (fun _ _ => true) ⟨false, fun _ => .outside⟩
    [.mutexLock false false, .next false, .mutexLock true true, .next true]
    (fun s => s.lock && s.pc true == .loading true mutexSpins) (fun _ _ _ => trivial) rfl (by decide)
  simp only [free, Bool.and_eq_true, Bool.not_eq_true', beq_iff_eq] at hp hpu
  obtain ⟨⟨hfree, hloading⟩, hexec⟩ := hp
  obtain ⟨s', hs'⟩ := Option.isSome_iff_exists.mp hexec
  have hrun := Sys.RunIf.of_exec (C := fun _ _ => True) (fun _ _ _ => trivial) hs'
  obtain ⟨u', hspin⟩ : ∃ u', (mutexSys Bool).RunIf (fun _ _ => True) u
      (List.replicate (mutexSpins + 1) (.next true)) u' :=
    MutexState.exists_spin hpu.1 hpu.2
  exact ⟨⟨s, s', as, hr, hrun, (mutex_progress hr hrun true).1 hfree (by simp [hloading]) (by decide)⟩,
    u, u', _, hru, hspin, (mutex_progress hru hspin true).2 _ hpu.2
      (by simp [List.countP_replicate])⟩

end TinyOS
