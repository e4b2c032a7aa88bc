import Mathlib
import TinyOS.Sched.Boost
import TinyOS.Sched.Select

/-!
# No thread starves (`kernel_sched.c`)

`sched_queue_select` takes the first queue that is not empty, so a thread on a lower one waits as long as
threads of a better priority keep coming. What ends its wait is the boost that `yield` performs every
`MFQ_TIMESLICES` time slices: the head of each queue moves up to the tail of the next one. **A thread is
chosen in the end, and the number of `yield`s until then is bounded** (`no_starvation`): with at most `n`
threads queued at a time, a thread at place `k` of queue `q` waits for at most
`(q * n + k + 1) * (MFQ_TIMESLICES + cores)` of them, whoever is spawned and woken meanwhile.

Three things carry the proof:

* what is put on a queue is put at its end, so nobody loses a place there (`Waits.append`);
* a boost takes a thread one place forward, or one queue up, and then there are less than `n` ahead of it
  (`Waits.boost`). On queue 0 the boost does nothing for it, but there every `yield` takes the head;
* the time slices are counted in `gain`, so a core that has switched has one that is not counted yet
  (`Paced`). There is a boost at the latest when all of them are.
-/

set_option autoImplicit false

namespace TinyOS

open Transition

/-- `MAX_CORES` (`bios.h`). -/
def maxCores : Nat := 32

variable {C : Type}

/-- A core chooses its next thread. -/
def SchedAction.isYield : SchedAction C → Bool
  | .yield _ _ _ => true
  | _ => false

namespace Sched

variable {s s' : Sched C} {t : ThreadRef C} {q k n : Nat}

/-! ## Places -/

/-- `k` threads are ahead of `t` in queue `q`. -/
def Waits (s : Sched C) (t : ThreadRef C) (q k : Nat) : Prop :=
  q < mfqQueues ∧ (s.runQueue q)[k]? = some t

instance [DecidableEq C] (s : Sched C) (t : ThreadRef C) (q k : Nat) : Decidable (s.Waits t q k) :=
  inferInstanceAs (Decidable (_ ∧ _))

theorem Waits.mem (h : s.Waits t q k) : t ∈ s.runQueue q := List.mem_of_getElem? h.2

theorem Waits.lt (h : s.Waits t q k) : k < (s.runQueue q).length :=
  (List.getElem?_eq_some_iff.mp h.2).1

theorem Waits.append (h : s.Waits t q k) {l : List (ThreadRef C)}
    (hq : s'.runQueue q = s.runQueue q ++ l) : s'.Waits t q k :=
  ⟨h.1, by rw [hq, List.getElem?_append_left h.lt, h.2]⟩

/-- The head of the first queue that is not empty is taken: `t` itself, or a thread ahead of it, or
one on a better queue. -/
theorem Waits.popFirst (h : s.Waits t q k) {next : Option (ThreadRef C)}
    (hp : s.popFirst = (next, s')) :
    next = some t ∨ ∃ k', s'.Waits t q k' ∧ k' ≤ k ∧ (q = 0 → k' < k) := by
  cases next with
  | none =>
    obtain ⟨-, hempty⟩ := popFirst_none hp
    exact absurd h.mem (by simp [hempty q h.1])
  | some u =>
    obtain ⟨p, -, hbelow, hhead, hother, -⟩ := popFirst_first hp
    by_cases hqp : q = p
    · subst hqp
      have hk := h.2
      rw [hhead] at hk
      cases k with
      | zero => exact .inl hk
      | succ k => exact .inr ⟨k, ⟨h.1, hk⟩, Nat.le_succ k, fun _ => Nat.lt_succ_self k⟩
    · refine .inr ⟨k, ⟨h.1, by rw [hother q hqp]; exact h.2⟩, le_rfl, ?_⟩
      rintro rfl
      have hnil := hbelow 0 (Nat.pos_of_ne_zero fun he => hqp he.symm)
      exact absurd h.mem (by simp [hnil])

theorem runQueue_length_le (s : Sched C) (hq : q < mfqQueues) :
    (s.runQueue q).length ≤ s.queuedThreads.length := by
  rw [queuedThreads, List.flatMap_def]
  exact (List.sublist_flatten_of_mem
    (List.mem_map_of_mem (List.mem_range.mpr hq))).length_le

variable [DecidableEq C]

/-- **A boost brings a thread forward.** -/
theorem Waits.boost (hl : s.Leveled) (h : s.Waits t q k) (hn : s.queuedThreads.length ≤ n) :
    ∃ q' k', s.schedBoost.Waits t q' k' ∧ q' ≤ q ∧ q' * n + k' ≤ q * n + k ∧
      (0 < q → q' * n + k' < q * n + k) := by
  obtain ⟨hq, hk⟩ := h
  cases q with
  | zero =>
    have hqueue := hl.schedBoost_runQueue hq
    exact ⟨0, k, Waits.append (s := s) ⟨hq, hk⟩ hqueue, le_rfl, le_rfl, fun h => absurd h (lt_irrefl 0)⟩
  | succ p =>
    rw [← taken_left] at hk
    cases k with
    | zero =>
      -- It is the head, and goes to the end of the queue above, where at most `n - 1` are before it.
      have hp : p < mfqQueues := by omega
      obtain ⟨rest, hrun⟩ : ∃ rest, s.runQueue (p + 1) = t :: rest := by
        rw [taken_left] at hk
        cases hcase : s.runQueue (p + 1) with
        | nil => simp [hcase] at hk
        | cons u rest => exact ⟨rest, by simpa [hcase] using hk⟩
      have hqueue : s.schedBoost.runQueue p = s.left p ++ [t] := by
        rw [hl.schedBoost_runQueue hp, if_pos hq]
        simp [taken, hrun]
      have hlength : (s.left p).length < n := by
        have hle := s.schedBoost.runQueue_length_le hp
        rw [hqueue, hl.queuedThreads_schedBoost, List.length_append] at hle
        simp only [List.length_singleton] at hle
        omega
      have hless : p * n + (s.left p).length < (p + 1) * n + 0 := by
        rw [Nat.succ_mul]
        omega
      exact ⟨p, (s.left p).length, ⟨hp, by rw [hqueue]; simp⟩, Nat.le_succ p, hless.le, fun _ => hless⟩
    | succ k =>
      -- The thread at the head goes up.
      have hqueue := hl.schedBoost_runQueue hq
      have htail : s.left (p + 1) = (s.runQueue (p + 1)).tail := by simp [left]
      have hleft : (s.left (p + 1))[k]? = some t := by
        rw [taken_left] at hk
        rw [htail, List.getElem?_tail]
        exact hk
      have hwaits : s.schedBoost.Waits t (p + 1) k := by
        refine ⟨hq, ?_⟩
        rw [hqueue, List.getElem?_append_left (List.getElem?_eq_some_iff.mp hleft).1, hleft]
      exact ⟨p + 1, k, hwaits, le_rfl, by omega, fun _ => by omega⟩

/-! ## What a `yield` does to the queues -/

theorem schedQueueAdd_timeslices {u : ThreadRef C} (hs : s.schedQueueAdd u = some s') :
    s'.timeslices = s.timeslices := by
  unfold schedQueueAdd at hs
  simp only at hs
  split at hs
  · cases hs
  · cases hs
    rfl

theorem schedMakeReady_timeslices {u : ThreadRef C} (hs : s.schedMakeReady u = some s') :
    s'.timeslices = s.timeslices := by
  unfold schedMakeReady at hs
  split at hs
  · simp only [Option.bind_eq_bind] at hs
    obtain ⟨s₁, hs₁, hs⟩ := Option.bind_eq_some_iff.mp hs
    have h₁ : s₁.timeslices = s.timeslices := by
      unfold cancelTimeout at hs₁
      split at hs₁
      · cases hs₁
        rfl
      · split at hs₁ <;> cases hs₁
        rfl
    split at hs
    · exact (schedQueueAdd_timeslices hs).trans h₁
    · cases hs
      exact h₁
  · cases hs

theorem expireTimeouts_timeslices {clock fuel : Nat} :
    ∀ {s : Sched C}, s.expireTimeouts clock fuel = some s' → s'.timeslices = s.timeslices := by
  induction fuel with
  | zero =>
    intro s hs
    unfold Sched.expireTimeouts at hs
    split at hs <;> cases hs
    rfl
  | succ fuel ih =>
    intro s hs
    unfold Sched.expireTimeouts at hs
    split at hs
    · cases hs
      rfl
    · split at hs
      · cases hs
        rfl
      · obtain ⟨s₁, hs₁, hs⟩ := Option.bind_eq_some_iff.mp hs
        exact (ih hs).trans (schedMakeReady_timeslices hs₁)

theorem yieldCurrent_queues {c : C} {cause : SchedCause} {r : Bool}
    (hs : s.yieldCurrent c cause = some (r, s')) :
    s'.runQueue = s.runQueue ∧ s'.timeslices = s.timeslices := by
  unfold yieldCurrent at hs
  simp only at hs
  split at hs <;> cases hs <;> exact ⟨rfl, rfl⟩

theorem Leveled.schedBoost_timeslices (hl : s.Leveled) : s.schedBoost.timeslices = s.timeslices := by
  rw [hl.schedBoost_eq]
  rfl

/-- The stages of a `yield`: up to the boost, the threads that are due, and the choice. -/
structure Stages (s : Sched C) (c : C) (clock : Nat) (s₁ s₂ s₃ : Sched C)
    (next : Option (ThreadRef C)) (s' : Sched C) : Prop where
  inv : s₁.Inv
  before : s₁.runQueue = s.runQueue ∧ s₁.timeslices = s.timeslices
  expired : Expired s₁.maybeBoost clock s₂
  popped : s₂.popFirst = (next, s₃)
  runQueue : s'.runQueue = s₃.runQueue
  chosen : ∀ u, next = some u → s'.currentThread c = u
  timeslices : s'.timeslices = if mfqTimeslices ≤ s.timeslices then 0 else s.timeslices
  coreAt : s'.coreAt = Function.update s.coreAt c .switched

theorem Inv.stages (h : s.Inv) (hsort : s.Sorted) {c : C} {cause : SchedCause} {clock : Nat}
    (hat : s.coreAt c ≠ .switched) (hs : s.yield c cause clock = some s') :
    ∃ s₁ s₂ s₃ next, Stages s c clock s₁ s₂ s₃ next s' := by
  obtain ⟨r, s₁, heq₁, hy⟩ := h.yieldCurrent cause hat
  obtain ⟨hqueue, hslices⟩ := yieldCurrent_queues heq₁
  have hk := hy.inv.maybeBoost
  obtain ⟨s₂, heq₂, -, -, he⟩ := hk.inv.expireTimeouts_expired clock
    (((wakes_yieldCurrent heq₁).trans (wakes_maybeBoost s₁)).sorted hk.inv hsort) le_rfl
  rw [yield_eq, heq₁] at hs
  simp only [Option.bind_some, schedQueueSelect, heq₂, Option.map_some] at hs
  obtain rfl := Option.some.inj hs
  have hpop : s₂.popFirst.2.coreAt = s₂.coreAt ∧ s₂.popFirst.2.timeslices = s₂.timeslices := by
    rcases popFirst_cases s₂ with hp | ⟨q, u, rest, -, hp⟩ <;> rw [hp] <;> exact ⟨rfl, rfl⟩
  refine ⟨s₁, s₂, s₂.popFirst.2, s₂.popFirst.1, hy.inv, ⟨hqueue, hslices⟩, he, rfl, rfl, ?_, ?_, ?_⟩
  · intro u hu
    simp [switchTo, hu]
  · show s₂.popFirst.2.timeslices = _
    rw [hpop.2, expireTimeouts_timeslices heq₂, ← hslices]
    unfold Sched.maybeBoost
    split
    · exact (hy.inv.timeslices 0).inv.leveled.schedBoost_timeslices
    · rfl
  · show Function.update s₂.popFirst.2.coreAt c .switched = _
    rw [hpop.1, he.cores.coreAt, hk.cores.coreAt, hy.coreAt, Function.update_idem]

/-- **One `yield`** chooses the thread, or brings it forward: on queue 0, and wherever there is a
boost. -/
theorem Waits.yield (h : s.Inv) (hsort : s.Sorted) {c : C} {cause : SchedCause} {clock : Nat}
    (hat : s.coreAt c ≠ .switched) (hs : s.yield c cause clock = some s') (hw : s.Waits t q k)
    (hn : s.queuedThreads.length ≤ n) :
    s'.currentThread c = t ∨ ∃ q' k', s'.Waits t q' k' ∧ q' * n + k' ≤ q * n + k ∧
      (mfqTimeslices ≤ s.timeslices ∨ q = 0 → q' * n + k' < q * n + k) := by
  obtain ⟨s₁, s₂, s₃, next, hst⟩ := h.stages hsort hat hs
  have hw₁ : s₁.Waits t q k := ⟨hw.1, by rw [hst.before.1]; exact hw.2⟩
  have hn₁ : s₁.queuedThreads.length ≤ n := by
    rw [queuedThreads, hst.before.1]
    exact hn
  obtain ⟨q₂, k₂, hw₂, hq₂, hle₂, hlt₂⟩ : ∃ q' k', s₁.maybeBoost.Waits t q' k' ∧ q' ≤ q ∧
      q' * n + k' ≤ q * n + k ∧
      (mfqTimeslices ≤ s.timeslices ∧ 0 < q → q' * n + k' < q * n + k) := by
    unfold Sched.maybeBoost
    rw [hst.before.2]
    split
    · have hzero := hst.inv.timeslices 0
      obtain ⟨q', k', hw', hq', hle, hlt⟩ := Waits.boost (s := { s₁ with timeslices := 0 })
        hzero.inv.leveled hw₁ hn₁
      exact ⟨q', k', hw', hq', hle, fun hb => hlt hb.2⟩
    · rename_i hno
      exact ⟨q, k, hw₁, le_rfl, le_rfl, fun hb => absurd hb.1 hno⟩
  rcases (hw₂.append (hst.expired.runQueue q₂)).popFirst hst.popped with
    hnext | ⟨k₃, hw₃, hle₃, hlt₃⟩
  · exact .inl (hst.chosen t hnext)
  · refine .inr ⟨q₂, k₃, ⟨hw₃.1, by rw [hst.runQueue]; exact hw₃.2⟩, by omega, fun hb => ?_⟩
    rcases Nat.eq_zero_or_pos q with rfl | hpos
    · obtain rfl := Nat.le_zero.mp hq₂
      have := hlt₃ rfl
      omega
    · have := hlt₂ ⟨hb.resolve_right hpos.ne', hpos⟩
      omega

theorem sleepReleasing_queues {c : C} {st : ThreadState} {timeout clock : Nat}
    (hs : s.sleepReleasing c st timeout clock = some s') :
    s'.runQueue = s.runQueue ∧ s'.timeslices = s.timeslices ∧
      s'.coreAt = Function.update s.coreAt c .scheduling := by
  unfold Sched.sleepReleasing at hs
  split at hs
  · simp only [Option.bind_eq_bind] at hs
    split at hs
    · cases hs
      exact ⟨rfl, rfl, rfl⟩
    · obtain ⟨s₁, hs₁, hs⟩ := Option.bind_eq_some_iff.mp hs
      cases hs
      unfold Sched.schedRegisterTimeout at hs₁
      split at hs₁
      · cases hs₁
        exact ⟨rfl, rfl, rfl⟩
      · split at hs₁ <;> cases hs₁
        exact ⟨rfl, rfl, rfl⟩
  · cases hs

/-- No other critical section takes a thread off its queue. -/
theorem Waits.keep (h : s.Inv) (hw : s.Waits t q k) {a : SchedAction C} (ha : a.isYield = false)
    (hs : (schedSys C).step s a = some s') : s'.Waits t q k := by
  simp only [schedSys] at hs
  split at hs
  · rename_i he
    cases a with
    | spawnThread c prev₀ prevPriority₀ =>
      cases hs
      exact hw
    | wakeup c u =>
      obtain ⟨⟨r, s₁⟩, heq, rfl⟩ := Option.map_eq_some_iff.mp hs
      unfold Sched.wakeup at heq
      split at heq
      · rename_i hu
        obtain ⟨s₂, heq₂, hm⟩ := h.schedMakeReady_spec he.2 hu
        rw [heq₂] at heq
        cases heq
        exact hw.append (hm.runQueue q)
      · cases heq
        exact hw
    | sleepReleasing c st timeout clock =>
      refine ⟨hw.1, ?_⟩
      rw [(sleepReleasing_queues hs).1]
      exact hw.2
    | yield => cases ha
    | gain c =>
      obtain ⟨s₁, heq, hm⟩ := h.gain_spec he
      obtain rfl := Option.some.inj (heq.symm.trans hs)
      exact hw.append (hm.runQueue q)
  · cases hs

/-! ## The pace of the boosts -/

theorem gain_timeslices {c : C} (hs : s.gain c = some s') :
    s'.timeslices = (s.timeslices + 1) % 2 ^ 32 := by
  unfold Sched.gain at hs
  simp only at hs
  split at hs
  · cases hs
    rfl
  · split at hs
    · split at hs
      · exact schedQueueAdd_timeslices hs
      · cases hs
        rfl
    · cases hs
      unfold releaseTCB
      split <;> rfl
    · cases hs
      rfl
    · cases hs
    · cases hs

variable [Fintype C]

/-- How many cores have switched, and not counted the time slice that begins. -/
def pending (s : Sched C) : Nat := (Finset.univ.filter fun c => s.coreAt c = .switched).card

omit [DecidableEq C] in
theorem pending_le (s : Sched C) : s.pending ≤ Fintype.card C := Finset.card_filter_le _ _

theorem pending_update {c : C} {x : CoreAt} (h : s'.coreAt = Function.update s.coreAt c x) :
    s'.pending + (if s.coreAt c = .switched then 1 else 0) =
      s.pending + if x = .switched then 1 else 0 := by
  have hsplit : ∀ f : C → CoreAt, (Finset.univ.filter fun d => f d = .switched).card =
      (if f c = .switched then 1 else 0) +
        ∑ d ∈ Finset.univ.erase c, if f d = .switched then 1 else 0 := by
    intro f
    rw [Finset.card_filter]
    exact (Finset.add_sum_erase _ (fun d => if f d = .switched then 1 else 0)
      (Finset.mem_univ c)).symm
  have hrest : (∑ d ∈ Finset.univ.erase c, if s'.coreAt d = .switched then 1 else 0) =
      ∑ d ∈ Finset.univ.erase c, if s.coreAt d = .switched then 1 else 0 := by
    refine Finset.sum_congr rfl fun d hd => ?_
    rw [h, Function.update_of_ne (Finset.ne_of_mem_erase hd)]
  rw [pending, pending, hsplit, hsplit s.coreAt, hrest, h, Function.update_self]
  omega

omit [DecidableEq C] in
theorem pending_congr (h : s'.coreAt = s.coreAt) : s'.pending = s.pending := by
  rw [pending, pending, h]

/-- There are at most so many time slices between two boosts. -/
def Paced (s : Sched C) : Prop := s.timeslices + s.pending < mfqTimeslices + Fintype.card C

/-- How many `yield`s may come before the next boost. -/
def slack (s : Sched C) : Nat := mfqTimeslices + Fintype.card C - (s.timeslices + s.pending)

omit [DecidableEq C] in
theorem Paced.congr (h : s.Paced) (heq : s'.timeslices + s'.pending = s.timeslices + s.pending) :
    s'.Paced ∧ s'.slack = s.slack :=
  ⟨by rw [Paced, heq]; exact h, by rw [slack, slack, heq]⟩

/-- A `yield` that does not boost has one less to come. -/
theorem Paced.yield (h : s.Paced) {c : C} (hat : s.coreAt c ≠ .switched)
    (hslices : s'.timeslices = if mfqTimeslices ≤ s.timeslices then 0 else s.timeslices)
    (hcore : s'.coreAt = Function.update s.coreAt c .switched) :
    s'.Paced ∧ (s.timeslices < mfqTimeslices → s'.slack + 1 = s.slack) ∧
      s'.slack < mfqTimeslices + Fintype.card C := by
  have hpending := pending_update hcore
  rw [if_neg hat, if_pos rfl] at hpending
  have hle := s'.pending_le
  unfold Paced slack at *
  split at hslices <;> simp only [mfqTimeslices] at * <;> omega

/-- The other critical sections count as many time slices as begin. -/
theorem Paced.keep (h : s.Paced) (hi : s.Inv) (hC : Fintype.card C ≤ maxCores) {a : SchedAction C}
    (ha : a.isYield = false) (hs : (schedSys C).step s a = some s') :
    s'.Paced ∧ s'.slack = s.slack := by
  simp only [schedSys] at hs
  split at hs
  · rename_i he
    cases a with
    | spawnThread c prev₀ prevPriority₀ =>
      cases hs
      exact ⟨h, rfl⟩
    | wakeup c u =>
      obtain ⟨⟨r, s₁⟩, heq, rfl⟩ := Option.map_eq_some_iff.mp hs
      unfold Sched.wakeup at heq
      split at heq
      · rename_i hu
        obtain ⟨s₂, heq₂, hm⟩ := hi.schedMakeReady_spec he.2 hu
        rw [heq₂] at heq
        cases heq
        exact h.congr (by rw [hm.timeslices, pending_congr hm.cores.coreAt])
      · cases heq
        exact ⟨h, rfl⟩
    | sleepReleasing c st timeout clock =>
      obtain ⟨-, hslices, hcore⟩ := sleepReleasing_queues hs
      have hpending := pending_update hcore
      simp only [he.1, reduceCtorEq, if_false, Nat.add_zero] at hpending
      exact h.congr (by rw [hslices, hpending])
    | yield => cases ha
    | gain c =>
      have hslices := gain_timeslices hs
      obtain ⟨s₁, heq, hm⟩ := hi.gain_spec he
      obtain rfl := Option.some.inj (heq.symm.trans hs)
      have hcore : s₁.coreAt = Function.update s.coreAt c .running := by
        funext d
        rw [hm.coreAt, Function.update_apply]
      have hpending := pending_update hcore
      rw [show s.coreAt c = .switched from he, if_pos rfl, if_neg (by simp)] at hpending
      have hsmall : s.timeslices + 1 < 2 ^ 32 := by
        unfold Paced at h
        simp only [mfqTimeslices, maxCores] at *
        omega
      rw [Nat.mod_eq_of_lt hsmall] at hslices
      exact h.congr (by omega)
  · cases hs

theorem paced_inductive (hC : Fintype.card C ≤ maxCores) :
    (schedSys C).InductiveIf (fun _ a => a.OnTick) fun s => (s.Inv ∧ s.Sorted) ∧ s.Paced where
  init s hs := by
    refine ⟨inv_sorted.init s hs, ?_⟩
    obtain rfl : s = .initial := hs
    have hpending : (Sched.initial : Sched C).pending = 0 := by
      simp [pending, Sched.initial]
    rw [Paced, hpending]
    exact Nat.lt_add_right _ (show 0 < mfqTimeslices by decide)
  step s a s' h ht hs := by
    refine ⟨inv_sorted.step s a s' h.1 ht hs, ?_⟩
    cases ha : a.isYield with
    | false => exact (h.2.keep h.1.1 hC ha hs).1
    | true =>
      cases a with
      | yield c cause clock =>
        simp only [schedSys] at hs
        split at hs
        · rename_i he
          obtain ⟨s₁, s₂, s₃, next, hst⟩ := h.1.1.stages h.1.2 he hs
          exact (h.2.yield he hst.timeslices hst.coreAt).1
        · cases hs
      | _ => cases ha

/-! ## The bound -/

/-- `t` will have been chosen after at most `r` more `yield`s. -/
def DueIn (n : Nat) (t : ThreadRef C) (r : Nat) (s : Sched C) : Prop :=
  ((s.Inv ∧ s.Sorted) ∧ s.Paced) ∧ ∃ q k, s.Waits t q k ∧
    (q * n + k) * (mfqTimeslices + Fintype.card C) + s.slack ≤ r

theorem DueIn.step (hC : Fintype.card C ≤ maxCores) {r : Nat} (h : s.DueIn n t r)
    {a : SchedAction C} (ht : a.OnTick) (hn : s.queuedThreads.length ≤ n)
    (hs : (schedSys C).step s a = some s') :
    (∃ c cause clock, a = .yield c cause clock ∧ s'.currentThread c = t) ∨
      ∃ r', s'.DueIn n t r' ∧ r' + (if a.isYield then 1 else 0) ≤ r := by
  obtain ⟨hinv, q, k, hw, hle⟩ := h
  have hinv' := (paced_inductive hC).step s a s' hinv ht hs
  cases ha : a.isYield with
  | false =>
    have hslack := (hinv.2.keep hinv.1.1 hC ha hs).2
    exact .inr ⟨r, ⟨hinv', q, k, hw.keep hinv.1.1 ha hs, by rw [hslack]; exact hle⟩, le_rfl⟩
  | true =>
    cases a with
    | yield c cause clock =>
      simp only [schedSys] at hs
      split at hs
      · rename_i he
        rcases hw.yield hinv.1.1 hinv.1.2 he hs hn with hchosen | ⟨q', k', hw', hrank, hless⟩
        · exact .inl ⟨c, cause, clock, rfl, hchosen⟩
        · obtain ⟨s₁, s₂, s₃, next, hst⟩ := hinv.1.1.stages hinv.1.2 he hs
          obtain ⟨-, hslack, hbound⟩ := hinv.2.yield he hst.timeslices hst.coreAt
          refine .inr ⟨_, ⟨hinv', q', k', hw', le_rfl⟩, ?_⟩
          generalize mfqTimeslices + Fintype.card C = B at *
          rcases Nat.lt_or_ge s.timeslices mfqTimeslices with hno | hboost
          · have hmul := Nat.mul_le_mul_right B hrank
            have := hslack hno
            simp only [if_true]
            omega
          · -- What the boost gains is more than the pace that begins again.
            have hmul := Nat.mul_le_mul_right B (Nat.succ_le_of_lt (hless (.inl hboost)))
            rw [Nat.succ_mul] at hmul
            simp only [if_true]
            omega
      · cases hs
    | _ => cases ha

end Sched

/-- **No thread starves.** In every run that is long enough, a thread that is queued is chosen by a
core, and in time: with at most `n` threads queued at once, a thread at place `k` of queue `q` after
at most `(q * n + k + 1) * (MFQ_TIMESLICES + cores)` other choices. -/
theorem no_starvation {C : Type} [DecidableEq C] [Fintype C] (hC : Fintype.card C ≤ maxCores)
    {n : Nat} {s s' : Sched C} {as : List (SchedAction C)}
    (hr : (schedSys C).ReachIf (fun _ a => a.OnTick) s)
    (hrun : (schedSys C).RunIf (fun s a => a.OnTick ∧ s.queuedThreads.length ≤ n) s as s')
    {t : ThreadRef C} {q k : Nat} (ht : s.Waits t q k)
    (hlong : (q * n + k + 1) * (mfqTimeslices + Fintype.card C) < as.countP SchedAction.isYield) :
    ∃ pre c cause clock post m m', as = pre ++ .yield c cause clock :: post ∧
      pre.countP SchedAction.isYield ≤ (q * n + k + 1) * (mfqTimeslices + Fintype.card C) ∧
      (schedSys C).Run s pre m ∧ (schedSys C).step m (.yield c cause clock) = some m' ∧
      m'.currentThread c = t := by
  have hdue : s.DueIn n t ((q * n + k + 1) * (mfqTimeslices + Fintype.card C)) := by
    refine ⟨(Sched.paced_inductive hC).reachIf hr, q, k, ht, ?_⟩
    rw [Nat.succ_mul]
    exact Nat.add_le_add_left (Nat.sub_le ..) _
  obtain ⟨pre, a, post, m, m', has, hpre, hrun, hstep, c, cause, clock, rfl, hchosen⟩ :=
    hrun.responds (P := Sched.DueIn n t)
      (E := fun _ a s' => ∃ c cause clock, a = .yield c cause clock ∧ s'.currentThread c = t)
      (fun r s a s' h hc hs => Sched.DueIn.step hC h hc.1 hc.2 hs) hdue hlong
  exact ⟨pre, c, cause, clock, post, m, m', has, hpre, hrun, hstep, hchosen⟩

/-- A thread is woken, and the only core yields seven times. -/
theorem no_starvation_run : ∃ (s s' : Sched Unit) (as : List (SchedAction Unit)),
    ((schedSys Unit).RunIf (fun s a => a.OnTick ∧ s.queuedThreads.length ≤ 1) s as s' ∧
      s.Waits (.normal 0) 0 0 ∧ as.countP SchedAction.isYield = 7) ∧
      ∃ pre c cause clock post m m', as = pre ++ .yield c cause clock :: post ∧
        pre.countP SchedAction.isYield ≤ (0 * 1 + 0 + 1) * (mfqTimeslices + Fintype.card Unit) ∧
        (schedSys Unit).Run s pre m ∧ (schedSys Unit).step m (.yield c cause clock) = some m' ∧
        m'.currentThread c = .normal 0 := by
  let as : List (SchedAction Unit) :=
    (List.replicate 7 [.yield () .quantum 0, .gain ()]).flatten
  let check : Sched Unit → SchedAction Unit → Bool := fun s a =>
    decide (a.OnTick ∧ s.queuedThreads.length ≤ 1)
  obtain ⟨s, hr, hp⟩ := Sys.reachIf_of_exec (M := schedSys Unit) (C := fun _ a => a.OnTick)
    (fun _ a => decide a.OnTick) .initial
    [.spawnThread () (.idle ()) 0, .wakeup () (.normal 0)]
    (fun s => decide (s.Waits (.normal 0) 0 0) && ((schedSys Unit).exec check s as).isSome)
    (fun _ _ h => of_decide_eq_true h) rfl (by decide)
  obtain ⟨hwaits, hrun⟩ := Bool.and_eq_true_iff.mp hp
  obtain ⟨s', hs'⟩ := Option.isSome_iff_exists.mp hrun
  have hwaits := of_decide_eq_true hwaits
  have hrun : (schedSys Unit).RunIf (fun s a => a.OnTick ∧ s.queuedThreads.length ≤ 1) s as s' :=
    Sys.RunIf.of_exec (fun _ _ h => of_decide_eq_true h) hs'
  exact ⟨s, s', as, ⟨hrun, hwaits, by decide⟩,
    no_starvation (by decide) hr hrun hwaits (by decide)⟩

end TinyOS
