import TinyOS.Sched.Select

/-!
# Timeouts in milliseconds

`Cond_TimedWait` and `Connect` are given a `timeout_t` in milliseconds. It is scaled to microseconds
by the caller, added to the clock in `sched_register_timeout`, and compared with the clock in
`sched_queue_select`, all in 64 bits and none of it checked. **A sleeper is never early exactly if
the clock plus the timeout fit in 64 bits** (`sleeps_until_iff`). A negative timeout, which the
documentation of `Connect` calls infinite, is a huge unsigned one: it wraps, and most often has
expired when the thread goes to sleep.
-/

set_option autoImplicit false

namespace TinyOS

open Transition

/-- The calls that sleep with a timeout. -/
inductive TimedCall where
  | condTimedWait
  | connect
  deriving DecidableEq

/-- `MILLISEC`. -/
def millisec (value : Nat) : Nat := 1000 * value % 2 ^ 64

/-- The `TimerDuration` that the call passes on. -/
def TimedCall.duration : TimedCall → Nat → Nat
  | .condTimedWait, timeout => timeout * 1000 % 2 ^ 64
  | .connect, timeout => millisec timeout

theorem TimedCall.duration_eq (call : TimedCall) (timeout : Nat) :
    call.duration timeout = 1000 * timeout % 2 ^ 64 := by
  cases call with
  | condTimedWait => rw [duration, Nat.mul_comm]
  | connect => rfl

theorem TimedCall.onTick_duration (call : TimedCall) (timeout : Nat) :
    OnTick (call.duration timeout) := ⟨timeout, call.duration_eq timeout⟩

/-- No timeout in milliseconds is `NO_TIMEOUT`, which is odd. -/
theorem TimedCall.duration_ne (call : TimedCall) (timeout : Nat) :
    call.duration timeout ≠ noTimeout := by
  rw [call.duration_eq]
  unfold noTimeout
  omega

/-- The largest reading of the clock. -/
theorem OnTick.le {v : Nat} (h : OnTick v) : v ≤ 2 ^ 64 - 8 := by
  have := onTick_iff.mp h
  omega

namespace Sched

variable {C : Type} [DecidableEq C] {s s₁ : Sched C}

/-- From `s` to `s'` the thread `t` stays asleep, whatever the cores do. -/
def StaysAsleep (t : ThreadRef C) (s s' : Sched C) : Prop :=
  Sys.ReachIf { init := (· = s), step := (schedSys C).step }
      (fun s a => a.OnTick ∧ (s.tcb t).state = .stopped) s' ∧
    (s'.tcb t).state = .stopped

/-- As long as `t` stays asleep, the timeout processing does not make it ready before the clock has
reached `deadline`. -/
def SleepsUntil (s : Sched C) (t : ThreadRef C) (deadline : Nat) : Prop :=
  ∀ s', StaysAsleep t s s' → ∀ clock, OnTick clock → ∀ s'',
    s'.expireTimeouts clock s'.timeoutList.length = some s'' →
      (s''.tcb t).state ≠ .stopped → deadline ≤ clock

/-- A thread that stays asleep keeps its wake-up time. -/
theorem StaysAsleep.wakeupTime {t : ThreadRef C} {s' : Sched C} (h : StaysAsleep t s s')
    (hi : s.Inv) (hsort : s.Sorted) :
    s'.Inv ∧ s'.Sorted ∧ (s'.tcb t).wakeupTime = (s.tcb t).wakeupTime := by
  obtain ⟨hr, hst⟩ := h
  suffices hinv : (s'.Inv ∧ s'.Sorted) ∧
      ((s'.tcb t).state = .stopped → (s'.tcb t).wakeupTime = (s.tcb t).wakeupTime) by
    exact ⟨hinv.1.1, hinv.1.2, hinv.2 hst⟩
  refine Sys.InductiveIf.reachIf
    (M := { init := (· = s), step := (schedSys C).step })
    (C := fun s a => a.OnTick ∧ (s.tcb t).state = .stopped)
    (I := fun s' => (s'.Inv ∧ s'.Sorted) ∧
      ((s'.tcb t).state = .stopped → (s'.tcb t).wakeupTime = (s.tcb t).wakeupTime))
    ⟨?_, ?_⟩ hr
  · rintro _ rfl
    exact ⟨⟨hi, hsort⟩, fun _ => rfl⟩
  · rintro m a m' ⟨hm, hw⟩ ⟨htick, hstop⟩ hs
    refine ⟨inv_sorted.step m a m' hm htick hs, fun hstop' => ?_⟩
    rcases hm.1.wakes_step hm.2 hs with hwakes | ⟨c, st, timeout, clock, rfl⟩
    · rw [(hwakes.asleep t hstop').2, hw hstop]
    · -- The thread that goes to sleep is another one: it was running.
      simp only [schedSys] at hs
      split at hs
      · rename_i he
        have hne : t ≠ m.currentThread c := by
          rintro rfl
          have := (hm.1.running he.1).1
          simp [hstop] at this
        rw [(sleepReleasing_some hs).2.1 t hne, hw hstop]
      · cases hs

/-- The timeout processing makes a sleeper ready only if it is due. -/
theorem Expired.mem_due {clock : Nat} {s' : Sched C} (he : Expired s clock s') {t : ThreadRef C}
    (hst : (s.tcb t).state = .stopped) (hne : (s'.tcb t).state ≠ .stopped) : t ∈ s.due clock := by
  by_contra hd
  rw [he.state, if_neg hd] at hne
  exact hne hst

end Sched

/-- **A thread that goes to sleep is not woken early by its timeout** exactly if the clock plus the
timeout, in microseconds, fit in 64 bits. -/
theorem sleeps_until_iff {C : Type} [DecidableEq C] {s s₁ : Sched C} {c : C} {clock : Nat}
    (hr : (schedSys C).ReachIf (fun _ a => a.OnTick) s) (hclock : OnTick clock)
    (call : TimedCall) (timeout : Nat)
    (hs : (schedSys C).step s (.sleepReleasing c .stopped (call.duration timeout) clock) =
      some s₁) :
    s₁.SleepsUntil (s.currentThread c) (clock + 1000 * timeout) ↔
      clock + 1000 * timeout < 2 ^ 64 := by
  obtain ⟨hi, hsort⟩ := Sched.inv_sorted.reachIf hr
  obtain ⟨hi₁, hsort₁⟩ := Sched.inv_sorted.step _ _ _ ⟨hi, hsort⟩
    (show SchedAction.OnTick (.sleepReleasing c .stopped (call.duration timeout) clock) from
      ⟨.inr (call.onTick_duration timeout), hclock⟩) hs
  have hsleep : s.sleepReleasing c .stopped (call.duration timeout) clock = some s₁ := by
    simp only [schedSys] at hs
    exact (Option.ite_none_right_eq_some.mp hs).2
  obtain ⟨hcur, -, hst, -, hwake⟩ := Sched.sleepReleasing_some hsleep
  have hwake := hwake rfl (call.duration_ne timeout)
  have hnt : (s₁.tcb (s.currentThread c)).wakeupTime ≠ noTimeout :=
    hwake ▸ OnTick.add_ne hclock (call.onTick_duration timeout)
  rw [call.duration_eq, Nat.add_mod_mod] at hwake
  constructor
  · intro hu
    by_contra hge
    -- At the largest reading of the clock every sleeper is due.
    obtain ⟨s', heq, -, -, he⟩ :=
      hi₁.expireTimeouts_expired (2 ^ 64 - 8) hsort₁ le_rfl
    have hlive : s₁.Live (s.currentThread c) := hi₁.owned c _ (.inl (congrFun hcur c))
    have hle : (s₁.tcb (s.currentThread c)).wakeupTime ≤ 2 ^ 64 - 8 := by
      have := onTick_iff.mp hclock
      rw [hwake]
      omega
    have hdue : s.currentThread c ∈ s₁.due (2 ^ 64 - 8) :=
      Sched.mem_due.mpr ⟨(hi₁.sleeping _).mpr ⟨hlive, hst, hnt⟩, hle⟩
    have hready : (s'.tcb (s.currentThread c)).state ≠ .stopped := by
      rw [he.state, if_pos hdue]
      simp
    have := hu s₁ ⟨.init rfl, hst⟩ (2 ^ 64 - 8) (by decide) s' heq hready
    omega
  · intro hlt s' hasleep now _ s'' heq hready
    obtain ⟨hi', hsort', hw⟩ := hasleep.wakeupTime hi₁ hsort₁
    obtain ⟨s₂, heq', -, -, he⟩ := hi'.expireTimeouts_expired now hsort' le_rfl
    obtain rfl := Option.some.inj (heq'.symm.trans heq)
    have hdue := (Sched.mem_due.mp (he.mem_due hasleep.2 hready)).2
    rwa [hw, hwake, Nat.mod_eq_of_lt hlt] at hdue

/-- At 1000, a thread calls `Connect` with a timeout of two milliseconds. -/
theorem sleeps_until_run : ∃ s₁ : Sched Bool, s₁.SleepsUntil (.normal 0) (1000 + 1000 * 2) := by
  obtain ⟨s, hr, hp⟩ := Sys.reachIf_of_exec (M := schedSys Bool) (C := fun _ a => a.OnTick)
    (fun _ a => a.OnTick) .initial
    [.spawnThread true (.idle true) 0, .wakeup true (.normal 0), .yield true .idle 1000, .gain true]
    (fun s => s.currentThread true = .normal 0 ∧ ((schedSys Bool).step s
      (.sleepReleasing true .stopped (TimedCall.connect.duration 2) 1000)).isSome)
    (fun _ _ => of_decide_eq_true) rfl (by decide)
  obtain ⟨hcur, hsome⟩ := of_decide_eq_true hp
  obtain ⟨s₁, hs⟩ := Option.isSome_iff_exists.mp hsome
  exact ⟨s₁, hcur ▸ (sleeps_until_iff hr (by decide) .connect 2 hs).mpr (by decide)⟩

/-- At 1000, a thread calls `Connect` with a timeout of -1: `2 ^ 64 - 1` milliseconds. It is due at
once. -/
theorem not_sleeps_until : ¬ ∀ (s s₁ : Sched Bool) (c : Bool) (clock timeout : Nat)
    (call : TimedCall), (schedSys Bool).ReachIf (fun _ a => a.OnTick) s → OnTick clock →
      timeout < 2 ^ 64 →
      (schedSys Bool).step s (.sleepReleasing c .stopped (call.duration timeout) clock) =
        some s₁ →
      s₁.SleepsUntil (s.currentThread c) (clock + 1000 * timeout) := by
  intro hall
  obtain ⟨s, hr, hp⟩ := Sys.reachIf_of_exec (M := schedSys Bool) (C := fun _ a => a.OnTick)
    (fun _ a => a.OnTick) .initial
    [.spawnThread true (.idle true) 0, .wakeup true (.normal 0), .yield true .idle 1000, .gain true]
    (fun s => ((schedSys Bool).step s
        (.sleepReleasing true .stopped (TimedCall.connect.duration (2 ^ 64 - 1)) 1000)).any
      fun (s₁ : Sched Bool) => (s₁.tcb (s.currentThread true)).state = .stopped ∧
        (s₁.expireTimeouts 1000 s₁.timeoutList.length).any fun (s' : Sched Bool) =>
          (s'.tcb (s.currentThread true)).state ≠ .stopped)
    (fun _ _ => of_decide_eq_true) rfl (by decide)
  obtain ⟨s₁, hs, hp⟩ := (Option.any_eq_true ..).mp hp
  obtain ⟨hst, hp⟩ := of_decide_eq_true hp
  obtain ⟨s', hs', hne⟩ := (Option.any_eq_true ..).mp hp
  have hle := hall s s₁ true 1000 (2 ^ 64 - 1) .connect hr (by decide) (by decide) hs s₁
    ⟨.init rfl, hst⟩ 1000 (by decide) s' hs' (of_decide_eq_true hne)
  omega

end TinyOS
