import TinyOS.Sched.Invariant

/-!
# Every critical section keeps the scheduler's invariant

Each function of `Sched/Basic.lean` is described once, by what it does to the fields the invariant
reads (`MadeReady`, `Reprioritized`, `Boosted`, …); the invariant is carried across that
description and never across the function's body. The descriptions of the functions that cannot
touch ownership share `SameCores`.
-/

set_option autoImplicit false

namespace TinyOS

namespace Sched

variable {C : Type} {s s' : Sched C}

/-- Nothing that decides who exists and who owns whom changed. -/
structure SameCores (s s' : Sched C) : Prop where
  current : s'.currentThread = s.currentThread
  coreAt : s'.coreAt = s.coreAt
  spawned : s'.spawned = s.spawned
  released : s'.released = s.released
  prev : ∀ t, (s'.tcb t).prev = (s.tcb t).prev
  type : ∀ t, (s'.tcb t).type = (s.tcb t).type

theorem SameCores.live (h : SameCores s s') (t : ThreadRef C) : s'.Live t ↔ s.Live t := by
  cases t <;> simp [Live, h.spawned, h.released]

theorem SameCores.owns (h : SameCores s s') (c : C) (t : ThreadRef C) :
    s'.Owns c t ↔ s.Owns c t := by
  simp [Owns, h.current, h.coreAt, h.prev]

theorem SameCores.trans {s'' : Sched C} (h : SameCores s s') (h' : SameCores s' s'') :
    SameCores s s'' :=
  ⟨h'.current.trans h.current, h'.coreAt.trans h.coreAt, h'.spawned.trans h.spawned,
    h'.released.trans h.released, fun t => (h'.prev t).trans (h.prev t),
    fun t => (h'.type t).trans (h.type t)⟩

theorem SameCores.refl (s : Sched C) : SameCores s s :=
  ⟨rfl, rfl, rfl, rfl, fun _ => rfl, fun _ => rfl⟩

/-- Ownership reads no list, no priority and no wake-up time. -/
theorem Owners.congr (h : s.Owners) (hc : SameCores s s')
    (hs : ∀ u, (s'.tcb u).state = (s.tcb u).state) (hp : ∀ u, (s'.tcb u).phase = (s.tcb u).phase) :
    s'.Owners where
  dirty u := by simpa only [hc.live, hp, hc.owns] using h.dirty u
  owner u := by simpa only [hc.owns] using h.owner u
  owned c u := by simpa only [hc.owns, hc.live] using h.owned c u
  cores c := by simpa only [CoreOk, hc.current, hc.coreAt, hs, hp, hc.prev] using h.cores c
  current u := by simpa only [hc.live, hs, hc.current] using h.current u
  exited u := by simpa only [hc.live, hs, hp] using h.exited u
  idle c := by simpa only [hc.type, hc.owns, hs] using h.idle c
  normal n := by simpa only [hc.live, hc.type] using h.normal n
  releasedOnce n := by simpa only [hc.released, hc.spawned] using h.releasedOnce n

/-! ## What the invariant says of one thread -/

namespace Inv

theorem not_queued (h : s.Inv) {t : ThreadRef C} (ht : (s.tcb t).state ≠ .ready) (q : Nat) :
    t ∉ s.runQueue q := fun hm => ht ((h.queued q t).mp hm).2.2.1

theorem not_queued_of_dirty (h : s.Inv) {t : ThreadRef C} (ht : (s.tcb t).phase = .ctxDirty)
    (q : Nat) : t ∉ s.runQueue q :=
  fun hm => by simp [((h.queued q t).mp hm).2.2.2.1] at ht

theorem not_sleeping (h : s.Inv) {t : ThreadRef C} (ht : (s.tcb t).state ≠ .stopped) :
    t ∉ s.timeoutList := fun hm => ht ((h.sleeping t).mp hm).2.1

/-- A current thread that is not waiting to start is dirty. -/
theorem dirty_of_current (h : s.Inv) {c : C}
    (hs : (s.tcb (s.currentThread c)).state ≠ .ready) :
    (s.tcb (s.currentThread c)).phase = .ctxDirty := by
  have hc := h.cores c
  unfold CoreOk at hc
  cases hat : s.coreAt c <;> simp only [hat] at hc
  · exact hc.2
  · exact hc.2
  · exact absurd hc.1 hs

/-- Only a thread that was allocated is ever blocked. -/
theorem normal_of_blocked (h : s.Inv) {t : ThreadRef C} (hl : s.Live t)
    (hr : (s.tcb t).state ≠ .ready) (hn : (s.tcb t).state ≠ .running) :
    (s.tcb t).type = .normalThread := by
  cases t with
  | idle c => exact absurd (h.idle c).2.2 (by simp [hr, hn])
  | normal n => exact h.normal n hl

/-- A thread that no core owns has its context saved. -/
theorem clean_of_unowned (h : s.Inv) {t : ThreadRef C} (hl : s.Live t) (ho : ∀ c, ¬ s.Owns c t) :
    (s.tcb t).phase = .ctxClean := by
  cases hp : (s.tcb t).phase with
  | ctxClean => rfl
  | ctxDirty =>
    obtain ⟨c, hc⟩ := h.dirty t hl hp
    exact absurd hc (ho c)

/-- A thread that no core owns is not running. -/
theorem not_running_of_unowned (h : s.Inv) {t : ThreadRef C} (hl : s.Live t)
    (ho : ∀ c, ¬ s.Owns c t) : (s.tcb t).state ≠ .running := by
  intro hr
  obtain ⟨c, hc⟩ := h.current t hl hr
  exact ho c (.inl hc)

/-- No core answers for a queued thread. -/
theorem unowned_of_queued (h : s.Inv) {q : Nat} {t : ThreadRef C} (hm : t ∈ s.runQueue q)
    (c : C) : ¬ s.Owns c t := by
  obtain ⟨-, -, -, hclean, hcur, -⟩ := (h.queued q t).mp hm
  rintro (hc | ⟨hat, hp⟩)
  · exact hcur c hc
  · have hc := h.cores c
    simp only [CoreOk, hat, hp, hclean] at hc
    grind

theorem not_linked [DecidableEq C] (h : s.Inv) {t : ThreadRef C} (hr : (s.tcb t).state = .ready)
    (hd : (∃ c, s.currentThread c = t) ∨ (s.tcb t).phase = .ctxDirty) : ¬ s.Linked t := by
  rintro (hm | ⟨q, -, hm⟩)
  · exact h.not_sleeping (by simp [hr]) hm
  · obtain ⟨-, -, -, hclean, hcur, -⟩ := (h.queued q t).mp hm
    rcases hd with ⟨c, hc⟩ | hd
    · exact hcur c hc
    · simp [hclean] at hd

end Inv

/-- `yield`'s adjustments stay within the queues, and change nothing else. -/
theorem adjustPriority_bound (cause : SchedCause) {b : TCB C} (hb : b.priority < mfqQueues ∧
    (b.mutexContention = true → b.prevPriority < mfqQueues)) :
    let b' := adjustPriority cause (restoreFairness cause b)
    (b'.priority < mfqQueues ∧ (b'.mutexContention = true → b'.prevPriority < mfqQueues)) ∧
      b'.state = b.state ∧ b'.phase = b.phase ∧ b'.wakeupTime = b.wakeupTime ∧
      b'.prev = b.prev ∧ b'.type = b.type := by
  unfold mfqQueues at *
  cases cause <;> simp only [adjustPriority, restoreFairness, mfqQueues] <;> grind

/-- What `yield` may do between its first step and its choice of the next thread. -/
structure Kept (s s' : Sched C) : Prop where
  inv : s'.Inv
  cores : SameCores s s'
  state : ∀ t, (s.tcb t).state ≠ .stopped → (s'.tcb t).state = (s.tcb t).state

theorem Kept.trans {s'' : Sched C} (h : Kept s s') (h' : Kept s' s'') : Kept s s'' :=
  ⟨h'.inv, h.cores.trans h'.cores, fun t ht =>
    (h'.state t ((h.state t ht).symm ▸ ht)).trans (h.state t ht)⟩

theorem Inv.kept_refl (h : s.Inv) : Kept s s := ⟨h, .refl s, fun _ _ => rfl⟩

/-- The number of time slices is no part of the invariant. -/
theorem Inv.timeslices (h : s.Inv) (n : Nat) : Kept s { s with timeslices := n } := by
  have hc : SameCores s { s with timeslices := n } :=
    ⟨rfl, rfl, rfl, rfl, fun _ => rfl, fun _ => rfl⟩
  have ho := h.toOwners.congr hc (fun _ => rfl) (fun _ => rfl)
  refine ⟨⟨ho, fun q t => ?_, h.queueNodup, fun t => ?_, h.sleepNodup, fun t => ?_, fun t => ?_⟩,
    hc, fun _ _ => rfl⟩
  · rw [hc.live]; exact h.queued q t
  · rw [hc.live]; exact h.sleeping t
  · rw [hc.live]; exact h.awake t
  · rw [hc.live]; exact h.priority t

variable [DecidableEq C]

/-! ## Making a blocked thread ready -/

/-- What `sched_make_ready` does to a blocked thread: it leaves `TIMEOUT_LIST`, and joins its run
queue if its context is saved. -/
structure MadeReady (s : Sched C) (t : ThreadRef C) (s' : Sched C) : Prop where
  cores : SameCores s s'
  state : ∀ u, (s'.tcb u).state = if u = t then .ready else (s.tcb u).state
  phase : ∀ u, (s'.tcb u).phase = (s.tcb u).phase
  wakeupTime : ∀ u, (s'.tcb u).wakeupTime = if u = t then noTimeout else (s.tcb u).wakeupTime
  priority : ∀ u, (s'.tcb u).priority = (s.tcb u).priority
  mutexContention : ∀ u, (s'.tcb u).mutexContention = (s.tcb u).mutexContention
  prevPriority : ∀ u, (s'.tcb u).prevPriority = (s.tcb u).prevPriority
  timeslices : s'.timeslices = s.timeslices
  timeoutList : s'.timeoutList = s.timeoutList.erase t
  runQueue : ∀ q, s'.runQueue q = s.runQueue q ++
    if (s.tcb t).phase = .ctxClean ∧ q = (s.tcb t).priority then [t] else []

theorem Inv.madeReady (h : s.Inv) {t : ThreadRef C} (hl : s.Live t)
    (hs : (s.tcb t).state = .stopped ∨ (s.tcb t).state = .init) (hm : MadeReady s t s') :
    s'.Inv := by
  have hnr : (s.tcb t).state ≠ .ready := by rcases hs with hs | hs <;> simp [hs]
  have hnq := h.not_queued hnr
  have hcur : ∀ c, s.currentThread c = t → (s.tcb t).phase = .ctxDirty := by
    rintro c rfl
    exact h.dirty_of_current hnr
  have hnorm := h.normal_of_blocked hl hnr (by rcases hs with hs | hs <;> simp [hs])
  constructor
  case queued =>
    intro q u
    have := h.queued q u
    simp only [hm.runQueue, hm.cores.live, hm.cores.type, hm.state, hm.phase, hm.cores.current,
      hm.priority]
    grind
  case queueNodup =>
    intro q
    have := h.queueNodup q
    rw [hm.runQueue]
    grind
  case sleeping =>
    intro u
    have := h.sleeping u
    simp only [hm.timeoutList, hm.cores.live, hm.state, hm.wakeupTime, h.sleepNodup.mem_erase_iff]
    grind
  case sleepNodup => exact hm.timeoutList ▸ h.sleepNodup.erase t
  case awake =>
    intro u
    have := h.awake u
    simp only [hm.cores.live, hm.state, hm.wakeupTime]
    grind
  case priority =>
    intro u
    simpa only [hm.cores.live, hm.priority, hm.mutexContention, hm.prevPriority] using h.priority u
  case toOwners =>
    constructor
    case dirty =>
      intro u
      simpa only [hm.cores.live, hm.phase, hm.cores.owns] using h.dirty u
    case owner =>
      intro u
      simpa only [hm.cores.owns] using h.owner u
    case owned =>
      intro c u
      simpa only [hm.cores.owns, hm.cores.live] using h.owned c u
    case cores =>
      intro c
      have := h.cores c
      simp only [CoreOk, hm.cores.current, hm.cores.coreAt, hm.state, hm.phase,
        hm.cores.prev] at this ⊢
      split <;> grind
    case current =>
      intro u
      have := h.current u
      simp only [hm.cores.live, hm.state, hm.cores.current]
      grind
    case exited =>
      intro u
      have := h.exited u
      simp only [hm.cores.live, hm.state, hm.phase]
      grind
    case idle =>
      intro c
      have := h.idle c
      simp only [hm.cores.type, hm.cores.owns, hm.state]
      grind
    case normal =>
      intro n
      simpa only [hm.cores.live, hm.cores.type] using h.normal n
    case releasedOnce =>
      intro n
      simpa only [hm.cores.released, hm.cores.spawned] using h.releasedOnce n

@[simp] theorem modify_tcb (s : Sched C) (t u : ThreadRef C) (f : TCB C → TCB C) :
    (s.modify t f).tcb u = if u = t then f (s.tcb u) else s.tcb u := by
  by_cases h : u = t
  · subst h; simp [modify]
  · simp [modify, h]

section

variable (s : Sched C) (t : ThreadRef C) (f : TCB C → TCB C)

@[simp] theorem modify_runQueue : (s.modify t f).runQueue = s.runQueue := rfl
@[simp] theorem modify_timeoutList : (s.modify t f).timeoutList = s.timeoutList := rfl
@[simp] theorem modify_currentThread : (s.modify t f).currentThread = s.currentThread := rfl
@[simp] theorem modify_coreAt : (s.modify t f).coreAt = s.coreAt := rfl
@[simp] theorem modify_spawned : (s.modify t f).spawned = s.spawned := rfl
@[simp] theorem modify_released : (s.modify t f).released = s.released := rfl

end

/-- A blocked thread leaves `TIMEOUT_LIST` if it is on it, and is on no other list. -/
theorem Inv.cancelTimeout_eq (h : s.Inv) {t : ThreadRef C} (hl : s.Live t)
    (hs : (s.tcb t).state = .stopped ∨ (s.tcb t).state = .init) :
    s.cancelTimeout t = some
      { s with
        timeoutList := s.timeoutList.erase t
        tcb := Function.update s.tcb t { s.tcb t with wakeupTime := noTimeout } } := by
  have hnr : (s.tcb t).state ≠ .ready := by rcases hs with hs | hs <;> simp [hs]
  unfold cancelTimeout
  split
  · rename_i hw
    have hns : t ∉ s.timeoutList := fun hm => ((h.sleeping t).mp hm).2.2 hw
    have htcb : Function.update s.tcb t { s.tcb t with wakeupTime := noTimeout } = s.tcb := by
      rw [← hw]
      exact Function.update_eq_self t s.tcb
    rw [List.erase_of_not_mem hns, htcb]
  · rename_i hw
    have hst : (s.tcb t).state = .stopped := by
      by_contra hns
      exact hw (h.awake t hl hns)
    have hm : t ∈ s.timeoutList := (h.sleeping t).mpr ⟨hl, hst, hw⟩
    rw [if_pos ⟨.inl hm, hst⟩]
    have hq : (fun q => (s.runQueue q).erase t) = s.runQueue :=
      funext fun q => List.erase_of_not_mem (h.not_queued hnr q)
    simp only [unlink, modify, hq]

theorem Inv.schedMakeReady_spec (h : s.Inv) {t : ThreadRef C} (hl : s.Live t)
    (hs : (s.tcb t).state = .stopped ∨ (s.tcb t).state = .init) :
    ∃ s', s.schedMakeReady t = some s' ∧ MadeReady s t s' := by
  have hnr : (s.tcb t).state ≠ .ready := by rcases hs with hs | hs <;> simp [hs]
  unfold schedMakeReady
  rw [if_pos hs, h.cancelTimeout_eq hl hs]
  simp only [Option.bind_eq_bind, Option.bind_some, modify_tcb, if_true, Function.update_self]
  split
  · rename_i hp
    have hlt := (h.priority t hl).1
    have hfree : ¬ ((t ∈ s.timeoutList.erase t ∨ ∃ q < mfqQueues, t ∈ s.runQueue q) ∨
        mfqQueues ≤ (s.tcb t).priority) := by
      rintro ((hm | ⟨q, -, hm⟩) | hge)
      · exact absurd hm h.sleepNodup.not_mem_erase
      · exact h.not_queued hnr q hm
      · omega
    simp only [schedQueueAdd, Linked, modify_tcb, modify_timeoutList, if_true,
      Function.update_self, modify_runQueue, if_neg hfree, Option.some.injEq, exists_eq_left']
    constructor <;> (try constructor) <;>
      simp only [modify_tcb, modify_currentThread, modify_coreAt,
        modify_spawned, modify_released, Function.update_apply] <;> grind
  · rename_i hp
    simp only [Option.some.injEq, exists_eq_left']
    constructor <;> (try constructor) <;>
      simp only [modify_tcb, modify_runQueue, modify_currentThread, modify_coreAt,
        modify_spawned, modify_released, Function.update_apply] <;> grind

/-! ## The timeout scan -/

/-- The scan makes the sleepers whose time has come ready, one after the other, and it does not
run out of fuel. -/
theorem Inv.expireTimeouts (clock : Nat) : ∀ {fuel : Nat} {s : Sched C}, s.Inv →
    s.timeoutList.length ≤ fuel → ∃ s', s.expireTimeouts clock fuel = some s' ∧ Kept s s'
  | 0, s, h, hf => by
    have hnil : s.timeoutList = [] := List.length_eq_zero_iff.mp (by omega)
    exact ⟨s, by simp [Sched.expireTimeouts, hnil], h.kept_refl⟩
  | fuel + 1, s, h, hf => by
    rw [Sched.expireTimeouts]
    split
    · exact ⟨s, rfl, h.kept_refl⟩
    · rename_i t rest hlist
      split
      · exact ⟨s, rfl, h.kept_refl⟩
      · obtain ⟨hl, hst, -⟩ := (h.sleeping t).mp (by simp [hlist])
        obtain ⟨s₁, heq, hm⟩ := h.schedMakeReady_spec hl (.inl hst)
        have h₁ := h.madeReady hl (.inl hst) hm
        have hlen : s₁.timeoutList.length ≤ fuel := by
          rw [hm.timeoutList, hlist, List.erase_cons_head]
          simpa [hlist] using hf
        obtain ⟨s', heq', hk⟩ := Inv.expireTimeouts clock h₁ hlen
        have hk₁ : Kept s s₁ := by
          refine ⟨h₁, hm.cores, fun u hu => ?_⟩
          rw [hm.state, if_neg]
          rintro rfl
          exact hu hst
        exact ⟨s', by rw [heq, Option.bind_some, heq'], hk₁.trans hk⟩

/-! ## Priorities -/

/-- A change of one thread's scheduling parameters only. -/
structure Reprioritized (s : Sched C) (t : ThreadRef C) (s' : Sched C) : Prop where
  cores : SameCores s s'
  state : ∀ u, (s'.tcb u).state = (s.tcb u).state
  phase : ∀ u, (s'.tcb u).phase = (s.tcb u).phase
  wakeupTime : ∀ u, (s'.tcb u).wakeupTime = (s.tcb u).wakeupTime
  others : ∀ u, u ≠ t → (s'.tcb u).priority = (s.tcb u).priority ∧
    (s'.tcb u).mutexContention = (s.tcb u).mutexContention ∧
    (s'.tcb u).prevPriority = (s.tcb u).prevPriority
  bound : (s'.tcb t).priority < mfqQueues ∧
    ((s'.tcb t).mutexContention = true → (s'.tcb t).prevPriority < mfqQueues)

/-- A thread that is not queued may change priority. -/
theorem Inv.reprioritized (h : s.Inv) {t : ThreadRef C} (hd : (s.tcb t).phase = .ctxDirty)
    (hm : Reprioritized s t s') (hq : s'.runQueue = s.runQueue)
    (ht : s'.timeoutList = s.timeoutList) : s'.Inv := by
  constructor
  case queued =>
    intro q u
    have := h.queued q u
    have := hm.others u
    simp only [hq, hm.cores.live, hm.cores.type, hm.state, hm.phase, hm.cores.current]
    grind
  case queueNodup => exact hq ▸ h.queueNodup
  case sleeping =>
    intro u
    simpa only [ht, hm.cores.live, hm.state, hm.wakeupTime] using h.sleeping u
  case sleepNodup => exact ht ▸ h.sleepNodup
  case awake =>
    intro u
    simpa only [hm.cores.live, hm.state, hm.wakeupTime] using h.awake u
  case priority =>
    intro u hl
    by_cases hut : u = t
    · exact hut ▸ hm.bound
    · obtain ⟨h₁, h₂, h₃⟩ := hm.others u hut
      rw [h₁, h₂, h₃]
      exact h.priority u ((hm.cores.live u).mp hl)
  case toOwners => exact h.toOwners.congr hm.cores hm.state hm.phase

/-- The boost of one queue. -/
structure Boosted (s : Sched C) (i : Nat) (t : ThreadRef C) (rest : List (ThreadRef C))
    (s' : Sched C) : Prop where
  cores : SameCores s s'
  state : ∀ u, (s'.tcb u).state = (s.tcb u).state
  phase : ∀ u, (s'.tcb u).phase = (s.tcb u).phase
  wakeupTime : ∀ u, (s'.tcb u).wakeupTime = (s.tcb u).wakeupTime
  mutexContention : ∀ u, (s'.tcb u).mutexContention = (s.tcb u).mutexContention
  prevPriority : ∀ u, (s'.tcb u).prevPriority = (s.tcb u).prevPriority
  priority : ∀ u, (s'.tcb u).priority = if u = t then (s.tcb u).priority - 1
    else (s.tcb u).priority
  timeoutList : s'.timeoutList = s.timeoutList
  runQueue : ∀ q, s'.runQueue q = if q = i then s.runQueue i ++ [t]
    else if q = i + 1 then rest else s.runQueue q

theorem Inv.boosted (h : s.Inv) {i : Nat} {t : ThreadRef C} {rest : List (ThreadRef C)}
    (hq : s.runQueue (i + 1) = t :: rest) (hm : Boosted s i t rest s') : s'.Inv := by
  have ht := (h.queued (i + 1) t).mp (by simp [hq])
  have hnd : t ∉ rest ∧ rest.Nodup := by
    have := h.queueNodup (i + 1)
    rw [hq] at this
    exact List.nodup_cons.mp this
  constructor
  case queued =>
    intro q u
    have := h.queued q u
    have := h.queued (i + 1) u
    have := h.queued i u
    simp only [hm.runQueue, hm.cores.live, hm.cores.type, hm.state, hm.phase, hm.cores.current,
      hm.priority]
    grind
  case queueNodup =>
    intro q
    have := h.queueNodup q
    have := h.queued i t
    have := h.queueNodup i
    rw [hm.runQueue]
    grind
  case sleeping =>
    intro u
    simpa only [hm.timeoutList, hm.cores.live, hm.state, hm.wakeupTime] using h.sleeping u
  case sleepNodup => exact hm.timeoutList ▸ h.sleepNodup
  case awake =>
    intro u
    simpa only [hm.cores.live, hm.state, hm.wakeupTime] using h.awake u
  case priority =>
    intro u hl
    have := h.priority u ((hm.cores.live u).mp hl)
    simp only [hm.priority, hm.mutexContention, hm.prevPriority]
    grind
  case toOwners => exact h.toOwners.congr hm.cores hm.state hm.phase

theorem Inv.boostFrom (h : s.Inv) (i : Nat) : Kept s (s.boostFrom i) := by
  unfold Sched.boostFrom
  split
  · exact h.kept_refl
  · rename_i t rest hq
    have hm : Boosted s i t rest (s.boostFrom i) := by
      unfold Sched.boostFrom
      rw [hq]
      constructor <;> (try constructor) <;>
        simp only [modify_tcb, modify_runQueue, modify_currentThread, modify_coreAt,
          modify_spawned, modify_released, Function.update_apply] <;> grind
    have hinv := h.boosted hq hm
    have hk : Kept s (s.boostFrom i) := ⟨hinv, hm.cores, fun u _ => hm.state u⟩
    simpa only [Sched.boostFrom, hq] using hk

theorem Inv.schedBoost (h : s.Inv) : Kept s s.schedBoost := by
  unfold Sched.schedBoost
  generalize List.range (mfqQueues - 1) = l
  induction l generalizing s with
  | nil => exact h.kept_refl
  | cons i l ih =>
    have hk := h.boostFrom i
    exact hk.trans (ih hk.inv)

theorem Inv.maybeBoost (h : s.Inv) : Kept s s.maybeBoost := by
  unfold Sched.maybeBoost
  split
  · have hk := h.timeslices 0
    exact hk.trans hk.inv.schedBoost
  · exact h.kept_refl

end Sched

end TinyOS
