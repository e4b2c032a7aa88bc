import TinyOS.Lib.Agenda
import TinyOS.Sched.Correct

/-!
# Choosing the next thread

`sched_queue_select` first empties `TIMEOUT_LIST` up to the clock and then pops the first run queue
that is not empty. `Expired` describes the first loop as a whole: the sleepers that are *due* leave
the list, become ready, and join their queues in the order of their wake-up times, except for those
whose context is not saved yet.

The loop stops at the first sleeper that is not due, so it needs `TIMEOUT_LIST` in the order of the
wake-up times. `sched_register_timeout` keeps it so.
-/

set_option autoImplicit false

namespace TinyOS

open Transition

namespace Sched

variable {C : Type}

/-- `TIMEOUT_LIST` is in the order of the wake-up times. -/
def Sorted (s : Sched C) : Prop := Agenda.Sorted (fun t => (s.tcb t).wakeupTime) s.timeoutList

/-- And the threads with the same one are in the order in which they were put there. -/
def InOrder (s : Sched C) (since : ThreadRef C → Nat) : Prop :=
  Agenda.InOrder (fun t => (s.tcb t).wakeupTime) since s.timeoutList

/-- The sleepers whose time has come. -/
def due (s : Sched C) (clock : Nat) : List (ThreadRef C) :=
  s.timeoutList.filter fun t => (s.tcb t).wakeupTime ≤ clock

/-- A run queue once the threads that are due have joined it. -/
def readyQueue (s : Sched C) (clock q : Nat) : List (ThreadRef C) :=
  s.runQueue q ++ (s.due clock).filter fun t =>
    (s.tcb t).phase = .ctxClean ∧ (s.tcb t).priority = q

/-- The threads to choose from: in a run queue already, or due and with a saved context. -/
def Queued (s : Sched C) (clock : Nat) (t : ThreadRef C) : Prop :=
  (∃ q < mfqQueues, t ∈ s.runQueue q) ∨ t ∈ s.due clock ∧ (s.tcb t).phase = .ctxClean

theorem mem_due {s : Sched C} {clock : Nat} {t : ThreadRef C} :
    t ∈ s.due clock ↔ t ∈ s.timeoutList ∧ (s.tcb t).wakeupTime ≤ clock := by
  simp [due]

variable [DecidableEq C] {s s' : Sched C}

/-- `sched_queue_select`. -/
def schedQueueSelect (s : Sched C) (clock : Nat) : Option (Option (ThreadRef C) × Sched C) :=
  (s.expireTimeouts clock s.timeoutList.length).map popFirst

/-- Where `yield` calls it. -/
theorem yield_eq (s : Sched C) (c : C) (cause : SchedCause) (clock : Nat) :
    s.yield c cause clock = (s.yieldCurrent c cause).bind fun (ready, s) =>
      (s.maybeBoost.schedQueueSelect clock).bind fun (next, s) =>
        some (s.switchTo c (next.getD (if ready then s.currentThread c else .idle c))) := by
  simp only [Sched.yield, schedQueueSelect, Option.bind_eq_bind, Option.bind_map]
  rfl

/-! ## Going to sleep -/

/-- **`sched_register_timeout` keeps the order**, for a thread that is on no list and arrives
last. -/
theorem InOrder.schedRegisterTimeout {since : ThreadRef C → Nat} (h : s.InOrder since)
    {t : ThreadRef C} (hn : ¬ s.Linked t) (hlast : ∀ u ∈ s.timeoutList, since u < since t)
    (timeout clock : Nat) :
    ∃ s', s.schedRegisterTimeout t timeout clock = some s' ∧ s'.InOrder since := by
  unfold Sched.schedRegisterTimeout
  split
  · exact ⟨s, rfl, h⟩
  · refine ⟨_, rfl, ?_⟩
    have hne : ∀ u ∈ s.timeoutList, u ≠ t := by
      rintro u hu rfl
      exact hn (.inl hu)
    refine Agenda.InOrder.insert (Agenda.InOrder.congr h fun u hu => ?_) hlast
    simp only [modify_tcb, if_neg (hne u hu)]

/-- It puts the thread there with the time at which it is to wake. -/
theorem schedRegisterTimeout_some {t : ThreadRef C} {timeout clock : Nat}
    (hs : s.schedRegisterTimeout t timeout clock = some s') (ht : timeout ≠ noTimeout) :
    s'.tcb = Function.update s.tcb t { s.tcb t with wakeupTime := (clock + timeout) % 2 ^ 64 } ∧
      s'.timeoutList = Agenda.insert (fun u => (s'.tcb u).wakeupTime) t s.timeoutList ∧
      s'.currentThread = s.currentThread := by
  unfold Sched.schedRegisterTimeout at hs
  rw [if_neg ht] at hs
  split at hs
  · cases hs
  · cases hs
    exact ⟨rfl, rfl, rfl⟩

theorem Sorted.schedRegisterTimeout (h : s.Sorted) {t : ThreadRef C} {timeout clock : Nat}
    (hs : s.schedRegisterTimeout t timeout clock = some s') (hn : t ∉ s.timeoutList) :
    s'.Sorted := by
  by_cases ht : timeout = noTimeout
  · unfold Sched.schedRegisterTimeout at hs
    rw [if_pos ht] at hs
    cases hs
    exact h
  · obtain ⟨htcb, hlist, -⟩ := schedRegisterTimeout_some hs ht
    unfold Sorted
    rw [hlist]
    refine Agenda.Sorted.insert (Agenda.Sorted.congr h fun u hu => ?_) t
    have hne : u ≠ t := ne_of_mem_of_not_mem hu hn
    rw [htcb, Function.update_of_ne hne]

/-! ## Waking up -/

/-- What the first loop of `sched_queue_select` does. -/
structure Expired (s : Sched C) (clock : Nat) (s' : Sched C) : Prop where
  cores : SameCores s s'
  state : ∀ u, (s'.tcb u).state = if u ∈ s.due clock then .ready else (s.tcb u).state
  wakeupTime : ∀ u, (s'.tcb u).wakeupTime = if u ∈ s.due clock then noTimeout
    else (s.tcb u).wakeupTime
  phase : ∀ u, (s'.tcb u).phase = (s.tcb u).phase
  priority : ∀ u, (s'.tcb u).priority = (s.tcb u).priority
  timeoutList : s'.timeoutList = s.timeoutList.filter fun t => clock < (s.tcb t).wakeupTime
  runQueue : ∀ q, s'.runQueue q = s.readyQueue clock q

/-- No sleeper is due. -/
theorem expired_refl {clock : Nat} (h : s.due clock = []) : Expired s clock s where
  cores := .refl s
  state u := by simp [h]
  wakeupTime u := by simp [h]
  phase u := rfl
  priority u := rfl
  timeoutList := by
    refine (List.filter_eq_self.mpr fun t ht => ?_).symm
    have hnd : t ∉ s.due clock := by simp [h]
    rw [mem_due] at hnd
    simpa using fun hle => hnd ⟨ht, hle⟩
  runQueue q := by simp [readyQueue, h]

/-- The first sleeper is due, and made ready; the rest of the loop follows. -/
theorem MadeReady.expired {clock : Nat} {t : ThreadRef C} {rest : List (ThreadRef C)}
    {s'' : Sched C} (hm : MadeReady s t s') (hl : s.timeoutList = t :: rest)
    (hnd : s.timeoutList.Nodup) (hdue : (s.tcb t).wakeupTime ≤ clock)
    (he : Expired s' clock s'') : Expired s clock s'' := by
  have hlist : s'.timeoutList = rest := by rw [hm.timeoutList, hl, List.erase_cons_head]
  have htr : t ∉ rest := (List.nodup_cons.mp (hl ▸ hnd)).1
  have hsame : ∀ u ∈ rest, (s'.tcb u).wakeupTime = (s.tcb u).wakeupTime := fun u hu => by
    rw [hm.wakeupTime, if_neg (ne_of_mem_of_not_mem hu htr)]
  have hcons : s.due clock = t :: s'.due clock := by
    rw [due, due, hl, hlist, List.filter_cons_of_pos (by simpa using hdue)]
    congr 1
    exact List.filter_congr fun u hu => by rw [hsame u hu]
  have hnot : t ∉ s'.due clock := fun hm' => htr (hlist ▸ (mem_due.mp hm').1)
  refine ⟨hm.cores.trans he.cores, fun u => ?_, fun u => ?_, fun u => ?_, fun u => ?_, ?_,
    fun q => ?_⟩
  · -- The states, then the wake-up times: `t` is one of those that are due now.
    rw [he.state, hm.state, hcons]
    by_cases hu : u = t
    · simp [hu]
    · simp [hu]
  · rw [he.wakeupTime, hm.wakeupTime, hcons]
    by_cases hu : u = t
    · simp [hu]
    · simp [hu]
  · rw [he.phase, hm.phase]
  · rw [he.priority, hm.priority]
  · rw [he.timeoutList, hlist, hl, List.filter_cons_of_neg (by simpa using hdue)]
    exact List.filter_congr fun u hu => by rw [hsame u hu]
  · -- The first one is at the head of those that join the queue.
    rw [he.runQueue, readyQueue, readyQueue, hm.runQueue, hcons, List.filter_cons,
      List.append_assoc]
    simp only [hm.phase, hm.priority]
    congr 1
    by_cases ht : (s.tcb t).phase = .ctxClean ∧ (s.tcb t).priority = q
    · obtain ⟨hp, rfl⟩ := ht
      simp [hp]
    · have hq : ¬ ((s.tcb t).phase = .ctxClean ∧ q = (s.tcb t).priority) := fun hc =>
        ht ⟨hc.1, hc.2.symm⟩
      simp [ht, hq]

/-- **The first loop**, on a sorted list; the induction is on the list. -/
theorem Inv.expireTimeouts_expired (clock : Nat) : ∀ {fuel : Nat} {s : Sched C}, s.Inv →
    s.Sorted → s.timeoutList.length ≤ fuel →
      ∃ s', s.expireTimeouts clock fuel = some s' ∧ s'.Inv ∧ s'.Sorted ∧ Expired s clock s'
  | 0, s, h, hsort, hf => by
    have hnil : s.timeoutList = [] := List.length_eq_zero_iff.mp (by omega)
    exact ⟨s, by simp [Sched.expireTimeouts, hnil], h, hsort, expired_refl (by simp [due, hnil])⟩
  | fuel + 1, s, h, hsort, hf => by
    rw [Sched.expireTimeouts]
    split
    · rename_i hnil
      exact ⟨s, rfl, h, hsort, expired_refl (by simp [due, hnil])⟩
    · rename_i t rest hl
      split
      · -- The first sleeper is not due, and so no later one is.
        rename_i hlt
        have hnone : s.due clock = [] := by
          unfold Sorted at hsort
          rw [hl] at hsort
          rw [due, hl]
          exact hsort.filter_le_of_lt hlt
        exact ⟨s, rfl, h, hsort, expired_refl hnone⟩
      · rename_i hge
        have hdue := not_lt.mp hge
        obtain ⟨hlive, hst, -⟩ := (h.sleeping t).mp (by simp [hl])
        obtain ⟨s₁, heq, hm⟩ := h.schedMakeReady_spec hlive (.inl hst)
        have h₁ := h.madeReady hlive (.inl hst) hm
        have hlist : s₁.timeoutList = rest := by rw [hm.timeoutList, hl, List.erase_cons_head]
        have htr : t ∉ rest := (List.nodup_cons.mp (hl ▸ h.sleepNodup)).1
        have hsort₁ : s₁.Sorted := by
          unfold Sorted at hsort ⊢
          rw [hl] at hsort
          rw [hlist]
          refine Agenda.Sorted.congr (List.pairwise_cons.mp hsort).2 fun u hu => ?_
          rw [hm.wakeupTime, if_neg (ne_of_mem_of_not_mem hu htr)]
        have hlen : s₁.timeoutList.length ≤ fuel := by
          rw [hlist]
          simpa [hl] using hf
        obtain ⟨s', heq', h', hsort', he⟩ := Inv.expireTimeouts_expired clock h₁ hsort₁ hlen
        exact ⟨s', by rw [heq, Option.bind_some, heq'], h', hsort',
          hm.expired hl h.sleepNodup hdue he⟩

/-! ## Choosing -/

omit [DecidableEq C] in
/-- The second loop takes the head of the first queue that is not empty. -/
theorem popFirst_first {t : ThreadRef C} (hp : s.popFirst = (some t, s')) :
    ∃ q < mfqQueues, (∀ q' < q, s.runQueue q' = []) ∧ s.runQueue q = t :: s'.runQueue q ∧
      (∀ q', q' ≠ q → s'.runQueue q' = s.runQueue q') ∧ s'.tcb = s.tcb ∧
      s'.timeoutList = s.timeoutList := by
  unfold popFirst at hp
  split at hp
  · cases hp
  · rename_i q hq
    obtain ⟨hne, hlt, hfirst⟩ := List.find?_range_eq_some.mp hq
    obtain ⟨hhead, rfl⟩ := Prod.mk.inj hp
    refine ⟨q, List.mem_range.mp hlt, fun q' hq' => by simpa using hfirst q' hq', ?_, ?_, rfl, rfl⟩
    · simp only [Function.update_self]
      exact (List.cons_head?_tail hhead).symm
    · exact fun q' hq' => Function.update_of_ne hq' _ _

omit [DecidableEq C] in
theorem popFirst_none (hp : s.popFirst = (none, s')) :
    s' = s ∧ ∀ q < mfqQueues, s.runQueue q = [] := by
  unfold popFirst at hp
  split at hp
  · rename_i hq
    cases hp
    refine ⟨rfl, fun q hlt => ?_⟩
    simpa using List.find?_eq_none.mp hq q (List.mem_range.mpr hlt)
  · rename_i q hq
    have hne := List.find?_some hq
    obtain ⟨hhead, -⟩ := Prod.mk.inj hp
    simp [List.head?_eq_none_iff.mp hhead] at hne

omit [DecidableEq C] in
/-- The threads to choose from are those in the queues after the first loop. -/
theorem Inv.queued_iff (h : s.Inv) (clock : Nat) (t : ThreadRef C) :
    s.Queued clock t ↔ ∃ q < mfqQueues, t ∈ s.readyQueue clock q := by
  simp only [Queued, readyQueue, List.mem_append, List.mem_filter, decide_eq_true_eq]
  constructor
  · rintro (⟨q, hq, hm⟩ | ⟨hd, hp⟩)
    · exact ⟨q, hq, .inl hm⟩
    · have hlive := ((h.sleeping t).mp (mem_due.mp hd).1).1
      exact ⟨_, (h.priority t hlive).1, .inr ⟨hd, hp, rfl⟩⟩
  · rintro ⟨q, hq, hm | ⟨hd, hp, -⟩⟩
    · exact .inl ⟨q, hq, hm⟩
    · exact .inr ⟨hd, hp⟩

omit [DecidableEq C] in
/-- A thread in a queue has the priority of the queue. -/
theorem Inv.priority_of_mem (h : s.Inv) {clock q : Nat} {t : ThreadRef C}
    (hm : t ∈ s.readyQueue clock q) : (s.tcb t).priority = q := by
  simp only [readyQueue, List.mem_append, List.mem_filter, decide_eq_true_eq] at hm
  rcases hm with hm | ⟨-, -, hp⟩
  · exact ((h.queued q t).mp hm).2.2.2.2.2
  · exact hp

/-- What `sched_queue_select` returns and leaves behind. -/
structure Selected (s : Sched C) (clock : Nat) (next : Option (ThreadRef C)) (s' : Sched C) :
    Prop where
  /-- The sleepers that are due are ready, and off `TIMEOUT_LIST`; no other thread changed. -/
  ready : ∀ u ∈ s.due clock, (s'.tcb u).state = .ready
  asleep : ∀ u, u ∉ s.due clock → (s'.tcb u).state = (s.tcb u).state ∧
    (s'.tcb u).wakeupTime = (s.tcb u).wakeupTime
  timeoutList : s'.timeoutList = s.timeoutList.filter fun t => clock < (s.tcb t).wakeupTime
  /-- The thread returned has the smallest priority number, and entered its queue first. -/
  first : ∀ t, next = some t → s.Queued clock t ∧
    (∀ u, s.Queued clock u → (s.tcb t).priority ≤ (s.tcb u).priority) ∧
    s.readyQueue clock (s.tcb t).priority = t :: s'.runQueue (s.tcb t).priority
  /-- No other queue changed. -/
  others : ∀ q, (∀ t, next = some t → q ≠ (s.tcb t).priority) →
    s'.runQueue q = s.readyQueue clock q
  none_iff : next = none ↔ ¬ ∃ t, s.Queued clock t

theorem Inv.selected (h : s.Inv) {clock : Nat} {s₁ : Sched C} (he : Expired s clock s₁)
    {next : Option (ThreadRef C)} (hp : s₁.popFirst = (next, s')) : Selected s clock next s' := by
  have hmem := h.queued_iff clock
  have hready : ∀ u ∈ s.due clock, (s₁.tcb u).state = .ready := fun u hu => by
    rw [he.state, if_pos hu]
  have hasleep : ∀ u, u ∉ s.due clock → (s₁.tcb u).state = (s.tcb u).state ∧
      (s₁.tcb u).wakeupTime = (s.tcb u).wakeupTime := fun u hu => by
    rw [he.state, he.wakeupTime, if_neg hu, if_neg hu]
    exact ⟨rfl, rfl⟩
  cases next with
  | none =>
    obtain ⟨rfl, hempty⟩ := popFirst_none hp
    refine ⟨hready, hasleep, he.timeoutList, by simp, fun q _ => he.runQueue q, ?_⟩
    refine iff_of_true rfl ?_
    rintro ⟨t, ht⟩
    obtain ⟨q, hq, hm⟩ := (hmem t).mp ht
    rw [← he.runQueue, hempty q hq] at hm
    exact absurd hm (by simp)
  | some t =>
    obtain ⟨q, hq, hbelow, hhead, hother, htcb, hlist⟩ := popFirst_first hp
    rw [he.runQueue] at hhead
    have hm : t ∈ s.readyQueue clock q := by simp [hhead]
    have hprio := h.priority_of_mem hm
    have hqueued : s.Queued clock t := (hmem t).mpr ⟨q, hq, hm⟩
    refine ⟨htcb ▸ hready, htcb ▸ hasleep, hlist.trans he.timeoutList, ?_, ?_, ?_⟩
    · rintro u hu
      obtain rfl := Option.some.inj hu
      rw [hprio]
      refine ⟨hqueued, fun u hu => ?_, hhead⟩
      obtain ⟨q', -, hm'⟩ := (hmem u).mp hu
      rw [h.priority_of_mem hm']
      -- A smaller priority number is a queue before the one that was taken, and those are empty.
      by_contra hlt
      have hnil := hbelow q' (by omega)
      rw [he.runQueue] at hnil
      simp [hnil] at hm'
    · intro q' hne
      have hq' : q' ≠ q := fun e => hne t rfl (e.trans hprio.symm)
      rw [hother q' hq', he.runQueue]
    · exact iff_of_false (by simp) fun hno => hno ⟨t, hqueued⟩

/-! ## The order in a run -/

/-- No thread went to sleep, and those that still sleep have their wake-up times. -/
structure Wakes (s s' : Sched C) : Prop where
  timeoutList : s'.timeoutList.Sublist s.timeoutList
  asleep : ∀ u, (s'.tcb u).state = .stopped →
    (s.tcb u).state = .stopped ∧ (s'.tcb u).wakeupTime = (s.tcb u).wakeupTime

omit [DecidableEq C] in
theorem Wakes.refl (s : Sched C) : Wakes s s := ⟨.refl _, fun _ hu => ⟨hu, rfl⟩⟩

omit [DecidableEq C] in
theorem Wakes.trans {s'' : Sched C} (h : Wakes s s') (h' : Wakes s' s'') : Wakes s s'' where
  timeoutList := h'.timeoutList.trans h.timeoutList
  asleep u hu := by
    obtain ⟨hu', hw'⟩ := h'.asleep u hu
    obtain ⟨hu'', hw⟩ := h.asleep u hu'
    exact ⟨hu'', hw'.trans hw⟩

omit [DecidableEq C] in
theorem Wakes.sorted (h : Wakes s s') (hi : s'.Inv) (hs : s.Sorted) : s'.Sorted :=
  Agenda.Sorted.congr (List.Pairwise.sublist h.timeoutList hs) fun u hu =>
    (h.asleep u ((hi.sleeping u).mp hu).2.1).2

omit [DecidableEq C] in
/-- A change of other fields. -/
theorem wakes_of_eq (hl : s'.timeoutList = s.timeoutList)
    (hs : ∀ u, (s'.tcb u).state = .stopped → (s.tcb u).state = .stopped)
    (hw : ∀ u, (s'.tcb u).wakeupTime = (s.tcb u).wakeupTime) : Wakes s s' :=
  ⟨hl ▸ .refl _, fun u hu => ⟨hs u hu, hw u⟩⟩

theorem wakes_spawnThread (s : Sched C) (prev₀ : ThreadRef C) (prevPriority₀ : Nat) :
    Wakes s (s.spawnThread prev₀ prevPriority₀) := by
  refine ⟨.refl _, fun u hu => ?_⟩
  by_cases hn : u = .normal s.spawned
  · subst hn
    simp [Sched.spawnThread] at hu
  · simpa [Sched.spawnThread, hn] using hu

theorem MadeReady.wakes {t : ThreadRef C} (hm : MadeReady s t s') : Wakes s s' := by
  refine ⟨hm.timeoutList ▸ List.erase_sublist, fun u hu => ?_⟩
  rw [hm.state] at hu
  split at hu
  · cases hu
  · rename_i hne
    rw [hm.wakeupTime, if_neg hne]
    exact ⟨hu, rfl⟩

theorem Inv.wakes_wakeup (h : s.Inv) {t : ThreadRef C} (hl : s.Live t) {r : Bool}
    (hs : s.wakeup t = some (r, s')) : Wakes s s' := by
  unfold Sched.wakeup at hs
  split at hs
  · rename_i hst
    obtain ⟨s₁, heq, hm⟩ := h.schedMakeReady_spec hl hst
    rw [heq] at hs
    cases hs
    exact hm.wakes
  · cases hs
    exact .refl s

theorem Expired.wakes {clock : Nat} (he : Expired s clock s') : Wakes s s' := by
  refine ⟨he.timeoutList ▸ List.filter_sublist, fun u hu => ?_⟩
  rw [he.state] at hu
  split at hu
  · cases hu
  · rename_i hne
    rw [he.wakeupTime, if_neg hne]
    exact ⟨hu, rfl⟩

theorem wakes_yieldCurrent {c : C} {cause : SchedCause} {r : Bool}
    (hs : s.yieldCurrent c cause = some (r, s')) : Wakes s s' := by
  have hkeep : ∀ b : TCB C, (adjustPriority cause (restoreFairness cause b)).state = b.state ∧
      (adjustPriority cause (restoreFairness cause b)).wakeupTime = b.wakeupTime := by
    intro b
    cases cause <;> simp only [adjustPriority, restoreFairness] <;> grind
  unfold Sched.yieldCurrent at hs
  simp only [modify_tcb, if_true] at hs
  split at hs
  · -- The current thread was running.
    cases hs
    refine wakes_of_eq rfl (fun u hu => ?_) fun u => ?_
    · simp only [modify_tcb] at hu
      split at hu
      · cases hu
      · exact hu
    · simp only [modify_tcb]
      split
      · exact (hkeep _).2
      · rfl
  all_goals try cases hs
  all_goals
    refine wakes_of_eq rfl (fun u hu => ?_) fun u => ?_
    · simp only [modify_tcb] at hu
      split at hu
      · rwa [(hkeep _).1] at hu
      · exact hu
    · simp only [modify_tcb]
      split
      · exact (hkeep _).2
      · rfl

theorem wakes_boostFrom (s : Sched C) (i : Nat) : Wakes s (s.boostFrom i) := by
  unfold Sched.boostFrom
  split
  · exact .refl s
  · refine wakes_of_eq rfl (fun u hu => ?_) fun u => ?_
    · simp only [modify_tcb] at hu
      split at hu <;> exact hu
    · simp only [modify_tcb]
      split <;> rfl

theorem wakes_maybeBoost (s : Sched C) : Wakes s s.maybeBoost := by
  have hboost : ∀ (l : List Nat) (s : Sched C), Wakes s (l.foldl boostFrom s) := by
    intro l
    induction l with
    | nil => exact fun s => .refl s
    | cons i l ih => exact fun s => (wakes_boostFrom s i).trans (ih _)
  unfold Sched.maybeBoost
  split
  · have hreset : Wakes s { s with timeslices := 0 } :=
      wakes_of_eq rfl (fun _ hu => hu) fun _ => rfl
    exact hreset.trans (hboost _ _)
  · exact .refl s

omit [DecidableEq C] in
theorem wakes_popFirst (s : Sched C) : Wakes s s.popFirst.2 := by
  rcases popFirst_cases s with hp | ⟨q, t, rest, -, hp⟩
  · rw [hp]
    exact .refl s
  · rw [hp]
    exact wakes_of_eq rfl (fun _ hu => hu) fun _ => rfl

theorem wakes_switchTo (s : Sched C) (c : C) (next : ThreadRef C) :
    Wakes s (s.switchTo c next) := by
  refine wakes_of_eq rfl (fun u hu => ?_) fun u => ?_
  · simp only [switchTo, modify_tcb] at hu
    split at hu <;> exact hu
  · simp only [switchTo, modify_tcb]
    split <;> rfl

theorem Inv.wakes_yield (h : s.Inv) (hsort : s.Sorted) {c : C} {cause : SchedCause} {clock : Nat}
    (hat : s.coreAt c ≠ .switched) (hs : s.yield c cause clock = some s') : Wakes s s' := by
  obtain ⟨r, s₁, heq₁, hy⟩ := h.yieldCurrent cause hat
  have hw₁ := wakes_yieldCurrent heq₁
  have hk₂ := hy.inv.maybeBoost
  have hw₂ := hw₁.trans (wakes_maybeBoost s₁)
  obtain ⟨s₃, heq₃, -, -, he⟩ :=
    hk₂.inv.expireTimeouts_expired clock (hw₂.sorted hk₂.inv hsort) le_rfl
  rw [yield_eq, heq₁] at hs
  simp only [Option.bind_some, schedQueueSelect, heq₃, Option.map_some] at hs
  obtain rfl := Option.some.inj hs
  exact ((hw₂.trans he.wakes).trans (wakes_popFirst s₃)).trans (wakes_switchTo _ c _)

theorem Gained.wakes {c : C} {t p : ThreadRef C} (hm : Gained s c t p s') : Wakes s s' := by
  refine wakes_of_eq hm.timeoutList (fun u hu => ?_) hm.wakeupTime
  rw [hm.state] at hu
  split at hu
  · cases hu
  · exact hu

/-- What `sleep_releasing` does to the thread that calls it, and to `TIMEOUT_LIST`. -/
theorem sleepReleasing_some {c : C} {st : ThreadState} {timeout clock : Nat}
    (hs : s.sleepReleasing c st timeout clock = some s') :
    s'.currentThread = s.currentThread ∧ (∀ u, u ≠ s.currentThread c → s'.tcb u = s.tcb u) ∧
      (s'.tcb (s.currentThread c)).state = st ∧
      (s.currentThread c ∉ s.timeoutList → s.Sorted → s'.Sorted) ∧
      (st = .stopped → timeout ≠ noTimeout →
        (s'.tcb (s.currentThread c)).wakeupTime = (clock + timeout) % 2 ^ 64) := by
  unfold Sched.sleepReleasing at hs
  split at hs
  · rename_i hst
    have hsorted : s.Sorted → s.currentThread c ∉ s.timeoutList →
        (s.modify (s.currentThread c) fun b => { b with state := st }).Sorted := fun h hn =>
      Agenda.Sorted.congr h fun u hu => by
        simp only [modify_tcb, if_neg (ne_of_mem_of_not_mem hu hn)]
    simp only [Option.bind_eq_bind] at hs
    split at hs
    · rename_i he
      cases hs
      refine ⟨rfl, fun u hu => by simp [hu], by simp, fun hn h => hsorted h hn, fun hstop => ?_⟩
      rw [he] at hstop
      cases hstop
    · obtain ⟨s₁, hs₁, hs⟩ := Option.bind_eq_some_iff.mp hs
      cases hs
      by_cases ht : timeout = noTimeout
      · unfold Sched.schedRegisterTimeout at hs₁
        rw [if_pos ht] at hs₁
        cases hs₁
        exact ⟨rfl, fun u hu => by simp [hu], by simp, fun hn h => hsorted h hn,
          fun _ hne => absurd ht hne⟩
      · obtain ⟨htcb, -, hcur⟩ := schedRegisterTimeout_some hs₁ ht
        have hkept : s.currentThread c ∉ s.timeoutList → s.Sorted → s₁.Sorted := fun hn h =>
          (hsorted h hn).schedRegisterTimeout hs₁ hn
        refine ⟨hcur, fun u hu => ?_, ?_, hkept, fun _ _ => ?_⟩
        · show s₁.tcb u = _
          rw [htcb, Function.update_of_ne hu]
          simp [hu]
        · show (s₁.tcb _).state = _
          simp [htcb]
        · show (s₁.tcb _).wakeupTime = _
          simp [htcb]
  · cases hs

/-- A step in which nobody goes to sleep. -/
theorem Inv.wakes_step (h : s.Inv) (hsort : s.Sorted) {a : SchedAction C}
    (hs : (schedSys C).step s a = some s') :
    Wakes s s' ∨ ∃ c st timeout clock, a = .sleepReleasing c st timeout clock := by
  simp only [schedSys] at hs
  split at hs
  · rename_i he
    cases a with
    | spawnThread c prev₀ prevPriority₀ =>
      obtain rfl := Option.some.inj hs
      exact .inl (wakes_spawnThread s prev₀ prevPriority₀)
    | wakeup c t =>
      obtain ⟨⟨r, s₁⟩, heq, rfl⟩ := Option.map_eq_some_iff.mp hs
      exact .inl (h.wakes_wakeup he.2 heq)
    | sleepReleasing c st timeout clock => exact .inr ⟨c, st, timeout, clock, rfl⟩
    | yield c cause clock => exact .inl (h.wakes_yield hsort he hs)
    | gain c =>
      obtain ⟨s₁, heq, hm⟩ := h.gain_spec he
      obtain rfl := Option.some.inj (heq.symm.trans hs)
      exact .inl hm.wakes
  · cases hs

omit [DecidableEq C] in
/-- The thread that goes to sleep was running, so it is on no list. -/
theorem Inv.running (h : s.Inv) {c : C} (hat : s.coreAt c = .running) :
    (s.tcb (s.currentThread c)).state = .running ∧ s.currentThread c ∉ s.timeoutList := by
  have hcore : (s.tcb (s.currentThread c)).state = .running ∧
      (s.tcb (s.currentThread c)).phase = .ctxDirty := by
    simpa only [CoreOk, hat] using h.cores c
  exact ⟨hcore.1, h.not_sleeping (by simp [hcore.1])⟩

theorem Inv.sorted_step (h : s.Inv) (hsort : s.Sorted) {a : SchedAction C}
    (hi : s'.Inv) (hs : (schedSys C).step s a = some s') : s'.Sorted := by
  rcases h.wakes_step hsort hs with hw | ⟨c, st, timeout, clock, rfl⟩
  · exact hw.sorted hi hsort
  · simp only [schedSys] at hs
    split at hs
    · rename_i he
      exact (sleepReleasing_some hs).2.2.2.1 (h.running he.1).2 hsort
    · cases hs

/-- **In every run** the invariant holds and `TIMEOUT_LIST` is sorted. -/
theorem inv_sorted : (schedSys C).InductiveIf (fun _ a => a.OnTick) fun s => s.Inv ∧ s.Sorted where
  init s hs := ⟨inv_inductive.init s hs, by rw [show s = .initial from hs]; exact List.Pairwise.nil⟩
  step s a s' h ht hs :=
    have hi := inv_inductive.step s a s' h.1 ht hs
    ⟨hi, h.1.sorted_step h.2 hi hs⟩

end Sched

/-- **The timeout list is kept in order, and `sched_queue_select` chooses as it should**, at any
clock value. -/
theorem sched_select {C : Type} [DecidableEq C] (s : Sched C) :
    (∀ since t timeout clock, s.InOrder since → ¬ s.Linked t →
      (∀ u ∈ s.timeoutList, since u < since t) →
        ∃ s', s.schedRegisterTimeout t timeout clock = some s' ∧ s'.InOrder since) ∧
    (s.Inv → s.Sorted → ∀ clock, ∃ next s', s.schedQueueSelect clock = some (next, s') ∧
      s.Selected clock next s') := by
  refine ⟨fun since t timeout clock h hn hlast => h.schedRegisterTimeout hn hlast timeout clock,
    fun h hsort clock => ?_⟩
  obtain ⟨s₁, heq, -, -, he⟩ := h.expireTimeouts_expired clock hsort le_rfl
  obtain ⟨next, s', hp⟩ : ∃ next s', s₁.popFirst = (next, s') := ⟨_, _, rfl⟩
  exact ⟨next, s', by rw [Sched.schedQueueSelect, heq, Option.map_some, hp], h.selected he hp⟩

/-- A thread sleeps until 3000 and another one runs, which then goes to sleep too. At 4000 the
first is due and chosen. -/
theorem sched_select_run : ∃ s : Sched Bool,
    (∃ s', s.schedRegisterTimeout (.normal 1) 2000 1000 = some s' ∧
      s'.InOrder fun t => if t = .normal 1 then 1 else 0) ∧
    ∃ s', s.schedQueueSelect 4000 = some (some (.normal 0), s') ∧
      s.Selected 4000 (some (.normal 0)) s' := by
  obtain ⟨s, hr, hp⟩ := Sys.reachIf_of_exec (M := schedSys Bool) (C := fun _ a => a.OnTick)
    (fun _ a => a.OnTick) .initial
    [.spawnThread true (.idle true) 0, .wakeup true (.normal 0), .spawnThread true (.idle true) 0,
      .wakeup true (.normal 1), .yield true .idle 1000, .gain true,
      .sleepReleasing true .stopped 2000 1000, .yield true .user 1000, .gain true]
    (fun s => s.timeoutList = [.normal 0] ∧ ¬ s.Linked (.normal 1) ∧
      (s.schedQueueSelect 4000).map Prod.fst = some (some (.normal 0)))
    (fun _ _ => of_decide_eq_true) rfl (by decide)
  obtain ⟨hl, hn, hnext⟩ := of_decide_eq_true hp
  obtain ⟨hi, hsort⟩ := Sched.inv_sorted.reachIf hr
  refine ⟨s, (sched_select s).1 _ (.normal 1) 2000 1000 ?_ hn ?_, ?_⟩
  · unfold Sched.InOrder
    rw [hl]
    exact List.pairwise_singleton _ _
  · intro u hu
    rw [hl, List.mem_singleton] at hu
    subst hu
    decide
  · obtain ⟨next, s', heq, hsel⟩ := (sched_select s).2 hi hsort 4000
    rw [heq] at hnext
    obtain rfl := Option.some.inj hnext
    exact ⟨s', heq, hsel⟩

end TinyOS
