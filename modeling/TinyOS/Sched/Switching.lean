import TinyOS.Sched.Preservation

/-!
# The critical sections that change what a core owns

`sleep_releasing` and the start of `yield` take the current thread out of `RUNNING` but leave it
with the core (`Descheduled`); the choice of the next thread hands the core a second thread
(`Switched`); `gain` lets go of the first (`Gained`). Each description is again all the invariant
needs to know of the function.
-/

set_option autoImplicit false

namespace TinyOS

namespace Sched

variable {C : Type} [DecidableEq C] {s s' : Sched C}

/-! ## Leaving `RUNNING` -/

/-- The current thread of core `c` leaves `RUNNING` for state `st`; if it stops with wake-up time
`w`, it is put on `TIMEOUT_LIST`. -/
structure Descheduled (s : Sched C) (c : C) (st : ThreadState) (w : Nat) (s' : Sched C) :
    Prop where
  current : s'.currentThread = s.currentThread
  coreAt : ∀ c', s'.coreAt c' = if c' = c then .scheduling else s.coreAt c'
  spawned : s'.spawned = s.spawned
  released : s'.released = s.released
  type : ∀ u, (s'.tcb u).type = (s.tcb u).type
  state : ∀ u, (s'.tcb u).state = if u = s.currentThread c then st else (s.tcb u).state
  phase : ∀ u, (s'.tcb u).phase = (s.tcb u).phase
  wakeupTime : ∀ u, (s'.tcb u).wakeupTime = if u = s.currentThread c then w
    else (s.tcb u).wakeupTime
  priority : ∀ u, (s'.tcb u).priority = (s.tcb u).priority
  mutexContention : ∀ u, (s'.tcb u).mutexContention = (s.tcb u).mutexContention
  prevPriority : ∀ u, (s'.tcb u).prevPriority = (s.tcb u).prevPriority
  prev : ∀ u, (s'.tcb u).prev = (s.tcb u).prev
  timeoutList : s'.timeoutList.Perm
    (if w = noTimeout then s.timeoutList else s.currentThread c :: s.timeoutList)
  runQueue : s'.runQueue = s.runQueue

theorem Descheduled.live {c : C} {st : ThreadState} {w : Nat} (hm : Descheduled s c st w s')
    (t : ThreadRef C) : s'.Live t ↔ s.Live t := by
  cases t <;> simp [Live, hm.spawned, hm.released]

theorem Inv.descheduled (h : s.Inv) (c : C) (st : ThreadState) (w : Nat)
    (hat : s.coreAt c = .running)
    (hst : st = .ready ∨ (st = .stopped ∨ st = .exited) ∧
      (s.tcb (s.currentThread c)).type = .normalThread)
    (hw : st ≠ .stopped → w = noTimeout) (hm : Descheduled s c st w s') : s'.Inv := by
  have hcore : (s.tcb (s.currentThread c)).state = .running ∧
      (s.tcb (s.currentThread c)).phase = .ctxDirty := by
    simpa only [CoreOk, hat] using h.cores c
  have hcl : s.Live (s.currentThread c) := h.owned c _ (.inl rfl)
  have howns : ∀ c' u, s'.Owns c' u ↔ s.Owns c' u := by
    intro c' u
    simp only [Owns, hm.current, hm.coreAt, hm.prev]
    grind
  constructor
  case toOwners =>
    constructor
    case dirty =>
      intro u
      simpa only [hm.live, hm.phase, howns] using h.dirty u
    case owner =>
      intro u
      simpa only [howns] using h.owner u
    case owned =>
      intro c' u
      simpa only [howns, hm.live] using h.owned c' u
    case cores =>
      intro c'
      have hc' := h.cores c'
      have := h.owner (s.currentThread c) c c' (.inl rfl)
      simp only [CoreOk, hm.current, hm.coreAt, hm.state, hm.phase, hm.prev, Owns] at *
      by_cases hcc : c' = c
      · subst hcc
        simp only [if_true]
        grind
      · simp only [if_neg hcc]
        split <;> grind
    case current =>
      intro u
      have := h.current u
      simp only [hm.live, hm.state, hm.current]
      grind
    case exited =>
      intro u
      have := h.exited u
      simp only [hm.live, hm.state, hm.phase]
      grind
    case idle =>
      intro c'
      have := h.idle c'
      simp only [hm.type, howns, hm.state]
      grind
    case normal =>
      intro n
      simpa only [hm.live, hm.type] using h.normal n
    case releasedOnce =>
      intro n
      simpa only [hm.released, hm.spawned] using h.releasedOnce n
  case queued =>
    intro q u
    have := h.queued q u
    simp only [hm.runQueue, hm.live, hm.type, hm.state, hm.phase, hm.current, hm.priority]
    grind
  case queueNodup => exact hm.runQueue ▸ h.queueNodup
  case sleeping =>
    intro u
    have := h.sleeping u
    simp only [hm.timeoutList.mem_iff, hm.live, hm.state, hm.wakeupTime]
    grind
  case sleepNodup =>
    have := h.not_sleeping (t := s.currentThread c) (by simp [hcore.1])
    have := h.sleepNodup
    rw [hm.timeoutList.nodup_iff]
    grind
  case awake =>
    intro u
    have := h.awake u
    simp only [hm.live, hm.state, hm.wakeupTime]
    grind
  case priority =>
    intro u
    simpa only [hm.live, hm.priority, hm.mutexContention, hm.prevPriority] using h.priority u

/-! ## The context switch -/

/-- Core `c` switches to `next`, which leaves its run queue. -/
structure Switched (s : Sched C) (c : C) (next : ThreadRef C) (s' : Sched C) : Prop where
  current : ∀ c', s'.currentThread c' = if c' = c then next else s.currentThread c'
  coreAt : ∀ c', s'.coreAt c' = if c' = c then .switched else s.coreAt c'
  spawned : s'.spawned = s.spawned
  released : s'.released = s.released
  type : ∀ u, (s'.tcb u).type = (s.tcb u).type
  state : ∀ u, (s'.tcb u).state = (s.tcb u).state
  phase : ∀ u, (s'.tcb u).phase = (s.tcb u).phase
  wakeupTime : ∀ u, (s'.tcb u).wakeupTime = (s.tcb u).wakeupTime
  priority : ∀ u, (s'.tcb u).priority = (s.tcb u).priority
  mutexContention : ∀ u, (s'.tcb u).mutexContention = (s.tcb u).mutexContention
  prevPriority : ∀ u, (s'.tcb u).prevPriority = (s.tcb u).prevPriority
  prev : ∀ u, (s'.tcb u).prev = if u = next then s.currentThread c else (s.tcb u).prev
  timeoutList : s'.timeoutList = s.timeoutList
  runQueue : ∀ q, s'.runQueue q = (s.runQueue q).erase next

theorem Switched.live {c : C} {next : ThreadRef C} (hm : Switched s c next s')
    (t : ThreadRef C) : s'.Live t ↔ s.Live t := by
  cases t <;> simp [Live, hm.spawned, hm.released]

/-- What `yield` may choose: a ready thread whose context is saved and for which no core answers,
or the thread it switches away from. -/
structure Choosable (s : Sched C) (c : C) (next : ThreadRef C) : Prop where
  live : s.Live next
  ready : (s.tcb next).state = .ready
  free : next = s.currentThread c ∨ ∀ c', ¬ s.Owns c' next
  idle : ∀ c', next = .idle c' → c' = c

theorem Inv.switched (h : s.Inv) {c : C} {next : ThreadRef C} (hat : s.coreAt c = .scheduling)
    (hn : Choosable s c next) (hm : Switched s c next s') : s'.Inv := by
  have hcore : ((s.tcb (s.currentThread c)).state = .ready ∨
      (s.tcb (s.currentThread c)).state = .stopped ∨
      (s.tcb (s.currentThread c)).state = .exited) ∧
      (s.tcb (s.currentThread c)).phase = .ctxDirty := by
    simpa only [CoreOk, hat] using h.cores c
  have hcl : s.Live (s.currentThread c) := h.owned c _ (.inl rfl)
  have hother : ∀ c', c' ≠ c → ¬ s.Owns c' next := by
    intro c' hc' ho
    rcases hn.free with rfl | hf
    · exact hc' (h.owner _ _ _ ho (.inl rfl))
    · exact hf c' ho
  -- The switching core owns both threads; the others own what they did.
  have howns : ∀ c' u, s'.Owns c' u ↔
      if c' = c then u = next ∨ u = s.currentThread c else s.Owns c' u := by
    intro c' u
    have := hother c'
    simp only [Owns, hm.current, hm.coreAt, hm.prev] at *
    grind
  have hmine : ∀ u, s.Owns c u ↔ s.currentThread c = u := by
    intro u
    simp [Owns, hat]
  constructor
  case toOwners =>
    constructor
    case dirty =>
      intro u
      have := h.dirty u
      simp only [hm.live, hm.phase, howns]
      grind
    case owner =>
      intro u c₁ c₂
      have := h.owner u c₁ c₂
      have := h.owner u c c₁
      have := h.owner u c c₂
      have := hother c₁
      have := hother c₂
      simp only [howns]
      grind
    case owned =>
      intro c' u
      have := h.owned c' u
      have := hn.live
      simp only [howns, hm.live]
      grind
    case cores =>
      intro c'
      have hc' := h.cores c'
      have := hother c'
      have hclean : next ≠ s.currentThread c → (s.tcb next).phase = .ctxClean := fun hne =>
        h.clean_of_unowned hn.live (hn.free.resolve_left hne)
      have := hn.ready
      simp only [CoreOk, Owns, hm.current, hm.coreAt, hm.state, hm.phase, hm.prev] at *
      by_cases hcc : c' = c
      · subst hcc
        simp only [if_true]
        grind
      · simp only [if_neg hcc]
        split <;> grind
    case current =>
      intro u
      have := h.current u
      simp only [hm.live, hm.state, hm.current]
      grind
    case exited =>
      intro u
      simpa only [hm.live, hm.state, hm.phase] using h.exited u
    case idle =>
      intro c'
      obtain ⟨htype, howner, hstate⟩ := h.idle c'
      have hmine' := hmine (.idle c')
      have hnext := hn.idle c'
      simp only [hm.type, howns, hm.state]
      refine ⟨htype, fun c₁ ho => ?_, hstate⟩
      have := howner c₁
      grind
    case normal =>
      intro n
      simpa only [hm.live, hm.type] using h.normal n
    case releasedOnce =>
      intro n
      simpa only [hm.released, hm.spawned] using h.releasedOnce n
  case queued =>
    intro q u
    have := h.queued q u
    have := h.not_queued_of_dirty hcore.2 q
    simp only [hm.runQueue, (h.queueNodup q).mem_erase_iff, hm.live, hm.type, hm.state, hm.phase,
      hm.current, hm.priority]
    grind
  case queueNodup =>
    intro q
    exact hm.runQueue q ▸ (h.queueNodup q).erase next
  case sleeping =>
    intro u
    simpa only [hm.timeoutList, hm.live, hm.state, hm.wakeupTime] using h.sleeping u
  case sleepNodup => exact hm.timeoutList ▸ h.sleepNodup
  case awake =>
    intro u
    simpa only [hm.live, hm.state, hm.wakeupTime] using h.awake u
  case priority =>
    intro u
    simpa only [hm.live, hm.priority, hm.mutexContention, hm.prevPriority] using h.priority u

/-! ## After the switch -/

/-- `gain` on core `c`, whose current thread is `t` and which switched away from `p`. -/
structure Gained (s : Sched C) (c : C) (t p : ThreadRef C) (s' : Sched C) : Prop where
  current : s'.currentThread = s.currentThread
  coreAt : ∀ c', s'.coreAt c' = if c' = c then .running else s.coreAt c'
  spawned : s'.spawned = s.spawned
  released : ∀ n, s'.released n =
    if p = .normal n ∧ p ≠ t ∧ (s.tcb p).state = .exited then s.released n + 1 else s.released n
  type : ∀ u, (s'.tcb u).type = (s.tcb u).type
  state : ∀ u, (s'.tcb u).state = if u = t then .running else (s.tcb u).state
  phase : ∀ u, (s'.tcb u).phase = if u = t then .ctxDirty else if u = p then .ctxClean
    else (s.tcb u).phase
  wakeupTime : ∀ u, (s'.tcb u).wakeupTime = (s.tcb u).wakeupTime
  priority : ∀ u, (s'.tcb u).priority = (s.tcb u).priority
  mutexContention : ∀ u, (s'.tcb u).mutexContention = (s.tcb u).mutexContention
  prevPriority : ∀ u, (s'.tcb u).prevPriority = (s.tcb u).prevPriority
  prev : ∀ u, (s'.tcb u).prev = (s.tcb u).prev
  timeoutList : s'.timeoutList = s.timeoutList
  runQueue : ∀ q, s'.runQueue q = s.runQueue q ++
    if p ≠ t ∧ (s.tcb p).state = .ready ∧ (s.tcb p).type = .normalThread ∧
      q = (s.tcb p).priority then [p] else []

theorem Inv.gained (h : s.Inv) {c : C} {t p : ThreadRef C} (hat : s.coreAt c = .switched)
    (ht : s.currentThread c = t) (hp : (s.tcb t).prev = p) (hm : Gained s c t p s') : s'.Inv := by
  have hcore : (s.tcb t).state = .ready ∧ (p = t → (s.tcb t).phase = .ctxDirty) ∧
      (p ≠ t → (s.tcb t).phase = .ctxClean ∧ (s.tcb p).phase = .ctxDirty ∧
        ((s.tcb p).state = .ready ∨ (s.tcb p).state = .stopped ∨ (s.tcb p).state = .exited)) := by
    simpa only [CoreOk, hat, ht, hp] using h.cores c
  have htl : s.Live t := h.owned c t (.inl ht)
  have hpl : s.Live p := h.owned c p (.inr ⟨hat, ht ▸ hp⟩)
  have hpidle : (s.tcb p).state = .exited → ∃ n, p = .normal n := by
    intro hpe
    cases p with
    | idle c' => have := (h.idle c').2.2; simp [hpe] at this
    | normal n => exact ⟨n, rfl⟩
  -- A thread stops existing exactly when `gain` releases it.
  have hlive : ∀ u, s'.Live u ↔ s.Live u ∧ ¬ (u = p ∧ p ≠ t ∧ (s.tcb p).state = .exited) := by
    intro u
    cases u with
    | idle c' =>
      have : ¬ (ThreadRef.idle c' = p ∧ p ≠ t ∧ (s.tcb p).state = .exited) := by
        rintro ⟨rfl, -, hpe⟩
        obtain ⟨n, hn⟩ := hpidle hpe
        exact absurd hn (by simp)
      simp only [Live, this, not_false_eq_true, and_true]
    | normal n =>
      simp only [Live, hm.spawned, hm.released]
      grind
  have howns : ∀ c' u, s'.Owns c' u ↔ if c' = c then t = u else s.Owns c' u := by
    intro c' u
    simp only [Owns, hm.current, hm.coreAt, hm.prev]
    grind
  have hmine : ∀ u, s.Owns c u ↔ t = u ∨ p = u := by
    intro u
    simp [Owns, hat, ht, hp]
  constructor
  case toOwners =>
    constructor
    case dirty =>
      intro u
      rw [hlive, hm.phase]
      rintro ⟨hl, -⟩ hd
      by_cases hut : u = t
      · exact ⟨c, by rw [howns, if_pos rfl, hut]⟩
      · rw [if_neg hut] at hd
        have hup : u ≠ p := by
          rintro rfl
          simp at hd
        rw [if_neg hup] at hd
        obtain ⟨c', hc'⟩ := h.dirty u hl hd
        refine ⟨c', ?_⟩
        rw [howns, if_neg]
        · exact hc'
        · rintro rfl
          rcases (hmine u).mp hc' with rfl | rfl
          · exact hut rfl
          · exact hup rfl
    case owner =>
      intro u c₁ c₂
      have := h.owner u c₁ c₂
      have := h.owner u c c₁
      have := h.owner u c c₂
      simp only [howns]
      grind
    case owned =>
      intro c' u
      have := h.owned c' u
      have := h.owner u c c'
      simp only [howns, hlive]
      grind
    case cores =>
      intro c'
      have hc' := h.cores c'
      have h₁ := h.owner t c c'
      have h₂ := h.owner p c c'
      simp only [CoreOk, hm.current, hm.coreAt, hm.state, hm.phase, hm.prev] at *
      by_cases hcc : c' = c
      · subst hcc
        simp only [if_true, ht, and_self]
      · simp only [if_neg hcc]
        have hne : s.currentThread c' ≠ t := fun he =>
          hcc (h₁ ((hmine t).mpr (.inl rfl)) (.inl he)).symm
        have hnp : s.currentThread c' ≠ p := fun he =>
          hcc (h₂ ((hmine p).mpr (.inr rfl)) (.inl he)).symm
        cases hat' : s.coreAt c' with
        | running => simpa only [hat', if_neg hne, if_neg hnp] using hc'
        | scheduling => simpa only [hat', if_neg hne, if_neg hnp] using hc'
        | switched =>
          have hne' : (s.tcb (s.currentThread c')).prev ≠ t := fun he =>
            hcc (h₁ ((hmine t).mpr (.inl rfl)) (.inr ⟨hat', he⟩)).symm
          have hnp' : (s.tcb (s.currentThread c')).prev ≠ p := fun he =>
            hcc (h₂ ((hmine p).mpr (.inr rfl)) (.inr ⟨hat', he⟩)).symm
          simpa only [hat', if_neg hne, if_neg hnp, if_neg hne', if_neg hnp'] using hc'
    case current =>
      intro u
      have := h.current u
      simp only [hlive, hm.state, hm.current]
      grind
    case exited =>
      intro u
      have := h.exited u
      simp only [hlive, hm.state, hm.phase]
      grind
    case idle =>
      intro c'
      obtain ⟨htype, howner, hstate⟩ := h.idle c'
      have hmine' := hmine (.idle c')
      simp only [hm.type, howns, hm.state]
      refine ⟨htype, fun c₁ ho => ?_, by grind⟩
      have := howner c₁
      grind
    case normal =>
      intro n
      rw [hlive, hm.type]
      exact fun hl => h.normal n hl.1
    case releasedOnce =>
      intro n
      have := h.releasedOnce n
      rw [hm.released, hm.spawned]
      split
      · rename_i hr
        obtain ⟨rfl, -, -⟩ := hr
        simp only [Live] at hpl
        omega
      · exact this
  case queued =>
    intro q u
    have := h.queued q u
    have := h.owner u c
    have := h.not_queued_of_dirty (t := p)
    simp only [hm.runQueue, hlive, hm.type, hm.state, hm.phase, hm.current, hm.priority]
    simp only [Owns] at *
    grind
  case queueNodup =>
    intro q
    have := h.queueNodup q
    have := h.not_queued_of_dirty (t := p)
    rw [hm.runQueue]
    grind
  case sleeping =>
    intro u
    have := h.sleeping u
    simp only [hm.timeoutList, hlive, hm.state, hm.wakeupTime]
    grind
  case sleepNodup => exact hm.timeoutList ▸ h.sleepNodup
  case awake =>
    intro u
    have := h.awake u
    simp only [hlive, hm.state, hm.wakeupTime]
    grind
  case priority =>
    intro u
    have := h.priority u
    simp only [hlive, hm.priority, hm.mutexContention, hm.prevPriority]
    grind

end Sched

end TinyOS
