import TinyOS.Sched.Switching

/-!
# The scheduler is correct

What each critical section does, `none` included: from a state that satisfies the invariant, every
section a core may enter succeeds, so no assertion fails. `sched_safe` reads the invariant back in
the terms of the source's lists.
-/

set_option autoImplicit false

namespace TinyOS

open Transition

namespace Sched

variable {C : Type} [DecidableEq C] {s s' : Sched C}

/-! ## The sections one by one -/

theorem Inv.spawnThread (h : s.Inv) (prev₀ : ThreadRef C) (prevPriority₀ : Nat) :
    (s.spawnThread prev₀ prevPriority₀).Inv := by
  have hnew : ¬ s.Live (.normal s.spawned) := by simp [Live]
  have hrel : s.released s.spawned = 0 := by
    have := h.releasedOnce s.spawned
    omega
  have hlive : ∀ u, (s.spawnThread prev₀ prevPriority₀).Live u ↔
      s.Live u ∨ u = .normal s.spawned := by
    intro u
    cases u with
    | idle c => simp [Live]
    | normal n =>
      simp only [Live, Sched.spawnThread, ThreadRef.normal.injEq]
      grind
  have htcb : ∀ u, u ≠ .normal s.spawned →
      (s.spawnThread prev₀ prevPriority₀).tcb u = s.tcb u := fun u hu =>
    Function.update_of_ne hu _ _
  have hold : ∀ u, s.Live u → (s.spawnThread prev₀ prevPriority₀).tcb u = s.tcb u := fun u hu =>
    htcb u (by rintro rfl; exact hnew hu)
  have hcur : ∀ c, s.Live (s.currentThread c) := fun c => h.owned c _ (.inl rfl)
  have howns : ∀ c u, (s.spawnThread prev₀ prevPriority₀).Owns c u ↔ s.Owns c u := by
    intro c u
    have : ((s.spawnThread prev₀ prevPriority₀).tcb (s.currentThread c)).prev =
        (s.tcb (s.currentThread c)).prev := by rw [hold _ (hcur c)]
    simp only [Owns]
    exact or_congr Iff.rfl (and_congr Iff.rfl (by rw [← this]; rfl))
  have hself : (s.spawnThread prev₀ prevPriority₀).tcb (.normal s.spawned) =
      { type := .normalThread, state := .init, phase := .ctxClean, priority := 0
        mutexContention := false, prevPriority := prevPriority₀, wakeupTime := noTimeout
        prev := prev₀ } := Function.update_self ..
  constructor
  case toOwners =>
    constructor
    case dirty =>
      intro u hu hd
      rcases (hlive u).mp hu with hl | rfl
      · obtain ⟨c, hc⟩ := h.dirty u hl (by rwa [hold u hl] at hd)
        exact ⟨c, (howns c u).mpr hc⟩
      · simp [hself] at hd
    case owner =>
      intro u
      simpa only [howns] using h.owner u
    case owned =>
      intro c u hc
      exact (hlive u).mpr (.inl (h.owned c u ((howns c u).mp hc)))
    case cores =>
      intro c
      have hc := h.cores c
      have hprev : s.coreAt c = .switched → s.Live (s.tcb (s.currentThread c)).prev := fun hat =>
        h.owned c _ (.inr ⟨hat, rfl⟩)
      have e : (s.spawnThread prev₀ prevPriority₀).currentThread = s.currentThread := rfl
      have e' : (s.spawnThread prev₀ prevPriority₀).coreAt = s.coreAt := rfl
      simp only [CoreOk, e, e', hold _ (hcur c)] at hc ⊢
      cases hat : s.coreAt c with
      | running => simpa only [hat] using hc
      | scheduling => simpa only [hat] using hc
      | switched =>
        simp only [hat, hold _ (hprev hat)] at hc ⊢
        exact hc
    case current =>
      intro u hu hr
      rcases (hlive u).mp hu with hl | rfl
      · exact h.current u hl (by rwa [hold u hl] at hr)
      · simp [hself] at hr
    case exited =>
      intro u hu he
      rcases (hlive u).mp hu with hl | rfl
      · rw [hold u hl] at he ⊢
        exact h.exited u hl he
      · simp [hself] at he
    case idle =>
      intro c
      rw [htcb _ (by simp)]
      simpa only [howns] using h.idle c
    case normal =>
      intro n hn
      rcases (hlive _).mp hn with hl | he
      · rw [hold _ hl]
        exact h.normal n hl
      · rw [he, hself]
    case releasedOnce =>
      intro n
      have := h.releasedOnce n
      simp only [Sched.spawnThread]
      omega
  case queued =>
    intro q u
    have hq : (s.spawnThread prev₀ prevPriority₀).runQueue = s.runQueue := rfl
    have hc : (s.spawnThread prev₀ prevPriority₀).currentThread = s.currentThread := rfl
    by_cases hu : u = .normal s.spawned
    · subst hu
      have hn : .normal s.spawned ∉ s.runQueue q := fun hm => hnew ((h.queued q _).mp hm).1
      simp [hq, hn, hself]
    · simp only [hq, hc, hlive, htcb u hu, hu, or_false]
      exact h.queued q u
  case queueNodup => exact h.queueNodup
  case sleeping =>
    intro u
    have hq : (s.spawnThread prev₀ prevPriority₀).timeoutList = s.timeoutList := rfl
    by_cases hu : u = .normal s.spawned
    · subst hu
      have hn : .normal s.spawned ∉ s.timeoutList := fun hm => hnew ((h.sleeping _).mp hm).1
      simp [hq, hn, hself]
    · simp only [hq, hlive, htcb u hu, hu, or_false]
      exact h.sleeping u
  case sleepNodup => exact h.sleepNodup
  case awake =>
    intro u hu hs
    rcases (hlive u).mp hu with hl | rfl
    · rw [hold u hl] at hs ⊢
      exact h.awake u hl hs
    · simp [hself]
  case priority =>
    intro u hu
    rcases (hlive u).mp hu with hl | rfl
    · rw [hold u hl]
      exact h.priority u hl
    · simp [hself, mfqQueues]

theorem Inv.wakeup (h : s.Inv) {t : ThreadRef C} (hl : s.Live t) :
    ∃ r s', s.wakeup t = some (r, s') ∧ s'.Inv ∧ SameCores s s' := by
  unfold Sched.wakeup
  split
  · rename_i hs
    obtain ⟨s', heq, hm⟩ := h.schedMakeReady_spec hl hs
    exact ⟨true, s', by rw [heq, Option.map_some], h.madeReady hl hs hm, hm.cores⟩
  · exact ⟨false, s, rfl, h, .refl s⟩

/-- A timeout, if there is one, inserts the thread somewhere in `TIMEOUT_LIST`. -/
theorem schedRegisterTimeout_spec {t : ThreadRef C} (timeout clock : Nat) (hn : ¬ s.Linked t) :
    ∃ l, l.Perm (if timeout = noTimeout then s.timeoutList else t :: s.timeoutList) ∧
      s.schedRegisterTimeout t timeout clock = some { s with
        tcb := Function.update s.tcb t { s.tcb t with
          wakeupTime := if timeout = noTimeout then (s.tcb t).wakeupTime
            else (clock + timeout) % 2 ^ 64 }
        timeoutList := l } := by
  unfold schedRegisterTimeout
  split
  · exact ⟨s.timeoutList, .refl _, by simp⟩
  · exact ⟨_, List.perm_orderedInsert _ _ _, rfl⟩

theorem Inv.sleepReleasing (h : s.Inv) {c : C} {st : ThreadState} {timeout clock : Nat}
    (hat : s.coreAt c = .running) (ht : (s.tcb (s.currentThread c)).type = .normalThread)
    (hst : st = .stopped ∨ st = .exited)
    (htick : (timeout = noTimeout ∨ OnTick timeout) ∧ OnTick clock) :
    ∃ s', s.sleepReleasing c st timeout clock = some s' ∧ s'.Inv ∧
      s'.released = s.released := by
  have hcore : (s.tcb (s.currentThread c)).state = .running ∧
      (s.tcb (s.currentThread c)).phase = .ctxDirty := by
    simpa only [CoreOk, hat] using h.cores c
  have hcl : s.Live (s.currentThread c) := h.owned c _ (.inl rfl)
  have hwake := h.awake _ hcl (by simp [hcore.1])
  have hnl : ¬ s.Linked (s.currentThread c) := by
    rintro (hm | ⟨q, -, hm⟩)
    · exact h.not_sleeping (by simp [hcore.1]) hm
    · exact h.not_queued_of_dirty hcore.2 q hm
  unfold Sched.sleepReleasing
  rw [if_pos hst]
  simp only [Option.bind_eq_bind]
  split
  · rename_i he
    refine ⟨_, rfl, ?_, rfl⟩
    refine h.descheduled c st noTimeout hat (.inr ⟨hst, ht⟩) (fun _ => rfl) ?_
    constructor <;>
      simp only [modify_tcb, modify_currentThread, modify_coreAt, modify_spawned, modify_released,
        modify_timeoutList, modify_runQueue, Function.update_apply] <;> grind
  · rename_i he
    have hs : st = .stopped := hst.resolve_right he
    have hnl' : ¬ (s.modify (s.currentThread c) fun b => { b with state := st }).Linked
        (s.currentThread c) := hnl
    obtain ⟨l, hperm, heq⟩ := schedRegisterTimeout_spec timeout clock hnl'
    rw [heq]
    refine ⟨_, rfl, ?_, rfl⟩
    have hne : timeout ≠ noTimeout → (clock + timeout) % 2 ^ 64 ≠ noTimeout := fun hn =>
      OnTick.add_ne htick.2 (htick.1.resolve_left hn)
    refine h.descheduled c st (if timeout = noTimeout then noTimeout else (clock + timeout) % 2 ^ 64)
      hat (.inr ⟨hst, ht⟩) (fun hne => absurd hs hne) ?_
    constructor <;>
      simp only [modify_tcb, modify_currentThread, modify_coreAt, modify_spawned, modify_released,
        modify_runQueue, modify_timeoutList, Function.update_apply] at hperm ⊢ <;> grind

/-! ## `yield` -/

/-- `yield` up to its choice: core `c` is between threads, and its current thread is ready if and
only if `yield` remembers so. -/
structure Yielding (s : Sched C) (c : C) (r : Bool) (s' : Sched C) : Prop where
  inv : s'.Inv
  current : s'.currentThread = s.currentThread
  coreAt : s'.coreAt = Function.update s.coreAt c .scheduling
  released : s'.released = s.released
  ready : r = true → (s'.tcb (s.currentThread c)).state = .ready
  blocked : r = false → (s'.tcb (s.currentThread c)).type = .normalThread
  exited : (s.tcb (s.currentThread c)).state = .exited →
    (s'.tcb (s.currentThread c)).state = .exited

theorem Yielding.kept {c : C} {r : Bool} {s'' : Sched C} (hy : Yielding s c r s')
    (hk : Kept s' s'') : Yielding s c r s'' where
  inv := hk.inv
  current := hk.cores.current.trans hy.current
  coreAt := hk.cores.coreAt.trans hy.coreAt
  released := hk.cores.released.trans hy.released
  ready hr := by
    have := hy.ready hr
    rw [hk.state _ (by simp [this]), this]
  blocked hr := (hk.cores.type _).trans (hy.blocked hr)
  exited he := by
    have := hy.exited he
    rw [hk.state _ (by simp [this]), this]

theorem Inv.yieldCurrent (h : s.Inv) {c : C} (cause : SchedCause)
    (hat : s.coreAt c ≠ .switched) :
    ∃ r s', s.yieldCurrent c cause = some (r, s') ∧ Yielding s c r s' := by
  have hcl : s.Live (s.currentThread c) := h.owned c _ (.inl rfl)
  obtain ⟨hbound, hstate, hphase, hwake, hprev, htype⟩ :=
    adjustPriority_bound cause (h.priority _ hcl)
  have hdirty : (s.tcb (s.currentThread c)).phase = .ctxDirty := by
    have hc := h.cores c
    unfold CoreOk at hc
    cases hat' : s.coreAt c <;> simp only [hat'] at hc
    · exact hc.2
    · exact hc.2
    · exact absurd hat' hat
  -- First the priority alone, with the core where it was.
  have hrep : Reprioritized s (s.currentThread c)
      (s.modify (s.currentThread c) fun b => adjustPriority cause (restoreFairness cause b)) := by
    constructor
    case cores =>
      constructor <;> simp only [modify_tcb, modify_currentThread, modify_coreAt, modify_spawned,
        modify_released] <;> grind
    all_goals
      simp only [modify_tcb]
      grind
  have h₁ := h.reprioritized hdirty hrep rfl rfl
  generalize hs₁ : (s.modify (s.currentThread c)
    fun b => adjustPriority cause (restoreFairness cause b)) = s₁ at hrep h₁
  have hst₁ : (s₁.tcb (s.currentThread c)).state = (s.tcb (s.currentThread c)).state :=
    hrep.state _
  have hc₁ : s₁.currentThread = s.currentThread := hrep.cores.current
  unfold Sched.yieldCurrent
  simp only [hs₁, hst₁]
  have hcore := h₁.cores c
  cases hat' : s.coreAt c with
  | switched => exact absurd hat' hat
  | running =>
    simp only [CoreOk, hrep.cores.coreAt, hat', hc₁] at hcore
    rw [← hst₁, hcore.1]
    refine ⟨true, _, rfl, ⟨?_, hc₁, ?_, hrep.cores.released, fun _ => ?_, by simp, ?_⟩⟩
    · refine h₁.descheduled c .ready noTimeout
        (by rw [hrep.cores.coreAt, hat']) (.inl rfl) (fun _ => rfl) ?_
      have hw := h₁.awake (s.currentThread c) ((hrep.cores.live _).mpr hcl) (by simp [hcore.1])
      constructor <;>
        simp only [modify_tcb, modify_currentThread, modify_coreAt, modify_spawned,
          modify_released, modify_timeoutList, modify_runQueue, Function.update_apply] <;> grind
    · rw [modify_coreAt, hrep.cores.coreAt]
    · simp
    · rw [← hst₁, hcore.1]
      simp
  | scheduling =>
    simp only [CoreOk, hrep.cores.coreAt, hat', hc₁] at hcore
    have hsame : { s₁ with coreAt := Function.update s₁.coreAt c .scheduling } = s₁ := by
      rw [← hat', ← hrep.cores.coreAt, Function.update_eq_self]
    have hupd : s₁.coreAt = Function.update s.coreAt c .scheduling := by
      rw [hrep.cores.coreAt, ← hat', Function.update_eq_self]
    have hex : (s.tcb (s.currentThread c)).state = .exited →
        (s₁.tcb (s.currentThread c)).state = .exited := fun he => hst₁.trans he
    have hl₁ : s₁.Live (s.currentThread c) := (hrep.cores.live _).mpr hcl
    rw [← hst₁, hsame]
    rcases hcore.1 with hr | hr | hr <;> rw [hr]
    · exact ⟨true, s₁, rfl, h₁, hc₁, hupd, hrep.cores.released, fun _ => hr, by simp, hex⟩
    · exact ⟨false, s₁, rfl, h₁, hc₁, hupd, hrep.cores.released, by simp,
        fun _ => h₁.normal_of_blocked hl₁ (by simp [hr]) (by simp [hr]), hex⟩
    · exact ⟨false, s₁, rfl, h₁, hc₁, hupd, hrep.cores.released, by simp,
        fun _ => h₁.normal_of_blocked hl₁ (by simp [hr]) (by simp [hr]), hex⟩

omit [DecidableEq C] in
/-- The second loop of `sched_queue_select` either finds all queues empty, or pops the head of
one. -/
theorem popFirst_cases (s : Sched C) : s.popFirst = (none, s) ∨
    ∃ q t rest, s.runQueue q = t :: rest ∧
      s.popFirst = (some t, { s with runQueue := Function.update s.runQueue q rest }) := by
  unfold popFirst
  split
  · exact .inl rfl
  · rename_i q hq
    have hne := List.find?_some hq
    cases hl : s.runQueue q with
    | nil => simp [hl] at hne
    | cons t rest => exact .inr ⟨q, t, rest, hl, by simp⟩

theorem switched_switchTo (s : Sched C) (c : C) {next : ThreadRef C}
    {runQueue : Nat → List (ThreadRef C)} (hq : ∀ q, runQueue q = (s.runQueue q).erase next) :
    Switched s c next ({ s with runQueue }.switchTo c next) := by
  constructor <;>
    simp only [switchTo, modify_tcb, modify_currentThread, modify_coreAt, modify_spawned,
      modify_released, modify_timeoutList, modify_runQueue, Function.update_apply, hq] <;>
    grind

theorem Inv.yield (h : s.Inv) {c : C} (cause : SchedCause) (clock : Nat)
    (hat : s.coreAt c ≠ .switched) :
    ∃ s', s.yield c cause clock = some s' ∧ s'.Inv ∧ s'.released = s.released ∧
      s'.coreAt c = .switched ∧
      (s'.tcb (s'.currentThread c)).prev = s.currentThread c ∧
      ((s.tcb (s.currentThread c)).state = .exited →
        (s'.tcb (s.currentThread c)).state = .exited) := by
  obtain ⟨r, s₁, heq₁, hy₁⟩ := h.yieldCurrent cause hat
  have hy₂ := hy₁.kept hy₁.inv.maybeBoost
  obtain ⟨s₃, heq₃, hk₃⟩ := hy₂.inv.expireTimeouts clock le_rfl
  have hy := hy₂.kept hk₃
  have hi := hy.inv
  have hat₃ : s₃.coreAt c = .scheduling := by simp [hy.coreAt]
  have hmine : ∀ u, s₃.Owns c u ↔ s₃.currentThread c = u := by
    intro u
    simp [Owns, hat₃]
  have hdone : ∀ (next : ThreadRef C) (s₄ : Sched C), Choosable s₃ c next →
      Switched s₃ c next s₄ → s₄.Inv ∧ s₄.released = s.released ∧ s₄.coreAt c = .switched ∧
      (s₄.tcb (s₄.currentThread c)).prev = s.currentThread c ∧
      ((s.tcb (s.currentThread c)).state = .exited →
        (s₄.tcb (s.currentThread c)).state = .exited) := by
    intro next s₄ hn hm
    refine ⟨hi.switched hat₃ hn hm, hm.released.trans hy.released, by simp [hm.coreAt], ?_, ?_⟩
    · rw [hm.current, if_pos rfl, hm.prev, if_pos rfl, hy.current]
    · rw [hm.state]
      exact hy.exited
  unfold Sched.yield
  simp only [heq₁, heq₃, Option.bind_eq_bind, Option.bind_some]
  refine ⟨_, rfl, ?_⟩
  rcases popFirst_cases s₃ with hpop | ⟨q, t, rest, hq, hpop⟩
  · rw [hpop]
    simp only [Option.getD_none]
    refine hdone (if r = true then s₃.currentThread c else .idle c) _ ?_ ?_
    · split
      · rename_i hr
        exact ⟨hi.owned c _ (.inl rfl), hy.current ▸ hy.ready hr, .inl rfl, fun c' hc' =>
          (((hi.idle c').2.1 c) (.inl hc')).symm⟩
      · rename_i hr
        have hno : ∀ c', ¬ s₃.Owns c' (.idle c) := by
          intro c' ho
          have hcc := (hi.idle c).2.1 c' ho
          subst hcc
          have htype := hy.blocked (by simpa using hr)
          rw [← hy.current, (hmine _).mp ho, (hi.idle c').1] at htype
          simp at htype
        refine ⟨trivial, (hi.idle c).2.2.resolve_right
          (hi.not_running_of_unowned trivial hno), .inr hno, fun c' hc' => by simpa using hc'.symm⟩
    · have hnq : ∀ q, (if r = true then s₃.currentThread c else .idle c) ∉ s₃.runQueue q := by
        intro q hm
        split at hm
        · exact ((hi.queued q _).mp hm).2.2.2.2.1 c rfl
        · have := ((hi.queued q _).mp hm).2.1
          simp [(hi.idle c).1] at this
      exact switched_switchTo s₃ c fun q => (List.erase_of_not_mem (hnq q)).symm
  · rw [hpop]
    simp only [Option.getD_some]
    have ht := (hi.queued q t).mp (by simp [hq])
    have hm : t ∈ s₃.runQueue q := by simp [hq]
    refine hdone _ _ ⟨ht.1, ht.2.2.1, .inr (hi.unowned_of_queued hm), ?_⟩ ?_
    · rintro c' rfl
      simp [(hi.idle c').1] at ht
    · have hother : ∀ q', q' ≠ q → t ∉ s₃.runQueue q' := by
        intro q' hne hm
        exact hne (((hi.queued q' t).mp hm).2.2.2.2.2.symm.trans ht.2.2.2.2.2)
      refine switched_switchTo s₃ c fun q' => ?_
      by_cases hqq : q' = q
      · rw [hqq, Function.update_self, hq, List.erase_cons_head]
      · rw [Function.update_of_ne hqq, List.erase_of_not_mem (hother q' hqq)]

/-! ## `gain` -/

theorem Inv.gain_spec (h : s.Inv) {c : C} (hat : s.coreAt c = .switched) :
    ∃ s', s.gain c = some s' ∧
      Gained s c (s.currentThread c) (s.tcb (s.currentThread c)).prev s' := by
  have hcore := h.cores c
  simp only [CoreOk, hat] at hcore
  generalize ht : s.currentThread c = t at hcore ⊢
  generalize hp : (s.tcb t).prev = p at hcore ⊢
  unfold Sched.gain
  simp only [ht, hp]
  split
  · rename_i htp
    refine ⟨_, rfl, ?_⟩
    constructor <;>
      simp only [modify_tcb, modify_currentThread, modify_coreAt, modify_spawned, modify_released,
        modify_timeoutList, modify_runQueue, Function.update_apply] <;> grind
  · rename_i htp
    have hpt : p ≠ t := fun e => htp e.symm
    obtain ⟨-, hdirty, hstate⟩ := hcore.2.2 hpt
    have hpl : s.Live p := h.owned c p (.inr ⟨hat, ht ▸ hp⟩)
    have hlt := (h.priority p hpl).1
    simp only [modify_tcb, if_true, if_neg hpt]
    rcases hstate with hs | hs | hs
    · rw [hs]
      simp only
      split
      · rename_i hidle
        have hfree : ¬ s.Linked p := h.not_linked hs (.inr hdirty)
        have hnorm : (s.tcb p).type = .normalThread := by
          cases hty : (s.tcb p).type with
          | idleThread => exact absurd hty hidle
          | normalThread => rfl
        have hfree' : ¬ ((p ∈ s.timeoutList ∨ ∃ q < mfqQueues, p ∈ s.runQueue q) ∨
            mfqQueues ≤ (s.tcb p).priority) := by
          rintro (hl | hge)
          · exact hfree hl
          · omega
        simp only [schedQueueAdd, Linked, modify_tcb, modify_timeoutList, modify_runQueue, if_true,
          if_neg hpt, if_neg hfree', Option.some.injEq, exists_eq_left']
        constructor <;>
          simp only [modify_tcb, modify_currentThread, modify_coreAt, modify_spawned,
            modify_released, Function.update_apply] <;> grind
      · rename_i hidle
        refine ⟨_, rfl, ?_⟩
        constructor <;>
          simp only [modify_tcb, modify_currentThread, modify_coreAt, modify_spawned,
            modify_released, modify_timeoutList, modify_runQueue, Function.update_apply] <;> grind
    · rw [hs]
      refine ⟨_, rfl, ?_⟩
      constructor <;>
        simp only [modify_tcb, modify_currentThread, modify_coreAt, modify_spawned,
          modify_released, modify_timeoutList, modify_runQueue, Function.update_apply] <;> grind
    · rw [hs]
      refine ⟨_, rfl, ?_⟩
      have hnp : ∀ c', p ≠ .idle c' := by
        rintro c' rfl
        have := (h.idle c').2.2
        simp [hs] at this
      cases p with
      | idle c' => exact absurd rfl (hnp c')
      | normal n =>
        constructor <;>
          simp only [releaseTCB, modify_tcb, modify_currentThread, modify_coreAt, modify_spawned,
            modify_released, modify_timeoutList, modify_runQueue, Function.update_apply] <;> grind

theorem Inv.gain (h : s.Inv) {c : C} (hat : s.coreAt c = .switched) :
    ∃ s', s.gain c = some s' ∧ s'.Inv := by
  obtain ⟨s', heq, hm⟩ := h.gain_spec hat
  exact ⟨s', heq, h.gained hat rfl rfl hm⟩

/-! ## The whole system -/

omit [DecidableEq C] in
theorem inv_initial : (Sched.initial : Sched C).Inv := by
  have howns : ∀ (c : C) t, (Sched.initial : Sched C).Owns c t ↔ .idle c = t := by
    intro c t
    simp [Owns, Sched.initial]
  have hlive : ∀ n, ¬ (Sched.initial : Sched C).Live (.normal n) := by
    intro n
    simp [Live, Sched.initial]
  constructor
  case toOwners =>
    constructor
    case dirty =>
      intro t ht _
      cases t with
      | idle c => exact ⟨c, (howns c _).mpr rfl⟩
      | normal n => exact absurd ht (hlive n)
    case owner =>
      intro t c c' hc hc'
      simpa using ((howns c t).mp hc).trans ((howns c' t).mp hc').symm
    case owned =>
      intro c t hc
      exact (howns c t).mp hc ▸ trivial
    case cores => exact fun c => ⟨rfl, rfl⟩
    case current =>
      intro t ht _
      cases t with
      | idle c => exact ⟨c, rfl⟩
      | normal n => exact absurd ht (hlive n)
    case exited =>
      intro t ht he
      cases t with
      | idle c => simp [Sched.initial] at he
      | normal n => exact absurd ht (hlive n)
    case idle =>
      intro c
      exact ⟨rfl, fun c' hc' => by simpa using (howns c' _).mp hc', .inr rfl⟩
    case normal => exact fun n hn => absurd hn (hlive n)
    case releasedOnce => exact fun n => .inl rfl
  case queued =>
    intro q t
    cases t with
    | idle c => simp [Sched.initial]
    | normal n => simp [Sched.initial, Live]
  case queueNodup => exact fun q => List.nodup_nil
  case sleeping =>
    intro t
    simp [Sched.initial]
  case sleepNodup => exact List.nodup_nil
  case awake => exact fun t _ _ => rfl
  case priority =>
    intro t _
    simp [Sched.initial, mfqQueues]

/-- **No assertion fails**: a critical section that a core may enter succeeds, and keeps the
invariant. -/
theorem Inv.perform (h : s.Inv) {a : SchedAction C} (he : s.Enabled a) (ht : a.OnTick) :
    ∃ s', s.perform a = some s' ∧ s'.Inv := by
  cases a with
  | spawnThread c prev₀ prevPriority₀ => exact ⟨_, rfl, h.spawnThread prev₀ prevPriority₀⟩
  | wakeup c t =>
    obtain ⟨r, s', heq, hs', -⟩ := h.wakeup he.2
    exact ⟨s', by rw [Sched.perform, heq, Option.map_some], hs'⟩
  | sleepReleasing c st timeout clock =>
    obtain ⟨s', heq, hs', -⟩ := h.sleepReleasing he.1 he.2.1 he.2.2 ht
    exact ⟨s', heq, hs'⟩
  | yield c cause clock =>
    obtain ⟨s', heq, hs', -⟩ := h.yield cause clock he
    exact ⟨s', heq, hs'⟩
  | gain c => exact h.gain he

theorem inv_inductive :
    (schedSys C).InductiveIf (fun _ a => a.OnTick) Sched.Inv where
  init s hs := hs ▸ inv_initial
  step s a s' h ht hs := by
    simp only [schedSys] at hs
    split at hs
    · rename_i he
      obtain ⟨s₁, heq, hs₁⟩ := h.perform he ht
      exact Option.some.inj (heq.symm.trans hs) ▸ hs₁
    · exact absurd hs (by simp)

/-- `yield` has chosen `t` on some core, and `t` has not called `gain` yet. -/
def Chosen (s : Sched C) (t : ThreadRef C) : Prop :=
  ∃ c, s.coreAt c = .switched ∧ s.currentThread c = t

/-- The next `gain` of core `c` follows a switch away from `t`. -/
def Leaving (s : Sched C) (c : C) (t : ThreadRef C) : Prop :=
  s.coreAt c = .switched ∧ (s.tcb (s.currentThread c)).prev = t ∧ s.currentThread c ≠ t

/-- What holds between two critical sections. -/
structure Safe (s : Sched C) : Prop where
  /-- A normal thread is in `SCHED[q]` if and only if it is ready, its context is saved, it has not
  just been chosen, and `q` is its priority. -/
  queued : ∀ n q, s.Live (.normal n) → (.normal n ∈ s.runQueue q ↔
    (s.tcb (.normal n)).state = .ready ∧ (s.tcb (.normal n)).phase = .ctxClean ∧
      ¬ s.Chosen (.normal n) ∧ (s.tcb (.normal n)).priority = q)
  priority : ∀ n, s.Live (.normal n) → (s.tcb (.normal n)).priority < mfqQueues
  /-- It is in `TIMEOUT_LIST` if and only if it is stopped and has a wake-up time. -/
  sleeping : ∀ n, s.Live (.normal n) → (.normal n ∈ s.timeoutList ↔
    (s.tcb (.normal n)).state = .stopped ∧ (s.tcb (.normal n)).wakeupTime ≠ noTimeout)
  /-- A `sched_node` is in at most one list, at most once. -/
  linkedOnce : (∀ q, (s.runQueue q).Nodup) ∧ s.timeoutList.Nodup ∧
    (∀ q t, t ∈ s.runQueue q → t ∉ s.timeoutList) ∧
    ∀ q q' t, t ∈ s.runQueue q → t ∈ s.runQueue q' → q = q'
  /-- The lists hold nothing but normal threads that exist. -/
  linkedLive : ∀ t, s.Linked t → s.Live t ∧ (s.tcb t).type = .normalThread
  /-- No thread is current on two cores. -/
  currentInj : ∀ c c', s.currentThread c = s.currentThread c' → c = c'
  /-- An exited thread is in no list, and one core answers for it: that core has yet to yield, or
  its next `gain` releases the thread, for the first time. -/
  exited : ∀ n, s.Live (.normal n) → (s.tcb (.normal n)).state = .exited →
    ¬ s.Linked (.normal n) ∧ ∃! c, s.Owns c (.normal n) ∧
      ((s.coreAt c = .scheduling ∧ ∀ cause clock, ∃ s', s.yield c cause clock = some s' ∧
          s'.Leaving c (.normal n) ∧ (s'.tcb (.normal n)).state = .exited) ∨
        s.Leaving c (.normal n) ∧ ∃ s', s.gain c = some s' ∧ s'.released n = 1)
  /-- Nothing else releases a thread, and nothing releases it twice. -/
  released : ∀ a s' n, a.OnTick → (schedSys C).step s a = some s' →
    s'.released n ≠ s.released n → s.released n = 0 ∧ s'.released n = 1 ∧
      (s.tcb (.normal n)).state = .exited ∧ ∃ c, a = .gain c ∧ s.Leaving c (.normal n)
  releasedOnce : ∀ n, s.released n ≤ 1
  /-- No assertion fails. -/
  succeeds : ∀ a : SchedAction C, s.Enabled a → a.OnTick → (s.perform a).isSome

omit [DecidableEq C] in
/-- A ready thread with a saved context that some core runs has just been chosen there. -/
theorem Inv.chosen_iff (h : s.Inv) {t : ThreadRef C} (hr : (s.tcb t).state = .ready)
    (hp : (s.tcb t).phase = .ctxClean) : s.Chosen t ↔ ∃ c, s.currentThread c = t := by
  constructor
  · rintro ⟨c, -, hc⟩
    exact ⟨c, hc⟩
  · rintro ⟨c, rfl⟩
    have hc := h.cores c
    unfold CoreOk at hc
    cases hat : s.coreAt c <;> simp only [hat, hr, hp] at hc
    · simp at hc
    · simp at hc
    · exact ⟨c, hat, rfl⟩

omit [DecidableEq C] in
/-- Who answers for an exited thread, and how it is about to be released. -/
theorem Inv.exited_cases (h : s.Inv) {n : Nat} (hl : s.Live (.normal n))
    (he : (s.tcb (.normal n)).state = .exited) : ∃ c, s.Owns c (.normal n) ∧
      (s.coreAt c = .scheduling ∧ s.currentThread c = .normal n ∨ s.Leaving c (.normal n)) := by
  obtain ⟨c, hc⟩ := h.dirty _ hl (h.exited _ hl he)
  refine ⟨c, hc, ?_⟩
  have hcore := h.cores c
  unfold CoreOk at hcore
  rcases hc with hc | ⟨hat, hp⟩
  · left
    cases hat : s.coreAt c <;> simp only [hat, hc, he] at hcore
    · simp at hcore
    · exact ⟨rfl, hc⟩
    · simp at hcore
  · right
    refine ⟨hat, hp, fun hcur => ?_⟩
    simp only [hat, hcur, he] at hcore
    simp at hcore

theorem Inv.released_step (h : s.Inv) {a : SchedAction C} (ht : a.OnTick)
    (hs : (schedSys C).step s a = some s') {n : Nat} (hne : s'.released n ≠ s.released n) :
    s.released n = 0 ∧ s'.released n = 1 ∧ (s.tcb (.normal n)).state = .exited ∧
      ∃ c, a = .gain c ∧ s.Leaving c (.normal n) := by
  simp only [schedSys] at hs
  split at hs
  · rename_i he
    cases a with
    | spawnThread c prev₀ prevPriority₀ =>
      obtain rfl := Option.some.inj hs
      exact absurd rfl hne
    | wakeup c t =>
      obtain ⟨r, s₁, heq, -, hc⟩ := h.wakeup he.2
      rw [Sched.perform, heq, Option.map_some] at hs
      obtain rfl := Option.some.inj hs
      exact absurd (congrFun hc.released n) hne
    | sleepReleasing c st timeout clock =>
      obtain ⟨s₁, heq, -, hr⟩ := h.sleepReleasing he.1 he.2.1 he.2.2 ht
      obtain rfl := Option.some.inj (heq.symm.trans hs)
      exact absurd (congrFun hr n) hne
    | yield c cause clock =>
      obtain ⟨s₁, heq, -, hr, -⟩ := h.yield cause clock he
      obtain rfl := Option.some.inj (heq.symm.trans hs)
      exact absurd (congrFun hr n) hne
    | gain c =>
      obtain ⟨s₁, heq, hm⟩ := h.gain_spec he
      obtain rfl := Option.some.inj (heq.symm.trans hs)
      rw [hm.released] at hne ⊢
      split at hne
      · rename_i hp
        obtain ⟨hp, hpt, hpe⟩ := hp
        have hl := h.owned c _ (.inr ⟨he, hp⟩)
        rw [if_pos ⟨hp, hpt, hpe⟩, hl.2]
        exact ⟨rfl, rfl, hp ▸ hpe, c, rfl, he, hp, fun hcur => hpt (hp.trans hcur.symm)⟩
      · exact absurd rfl hne
  · exact absurd hs (by simp)

theorem Inv.safe (h : s.Inv) : s.Safe where
  queued n q hl := by
    rw [h.queued]
    constructor
    · rintro ⟨-, -, hr, hp, hc, hq⟩
      refine ⟨hr, hp, fun hch => ?_, hq⟩
      obtain ⟨c, hcc⟩ := (h.chosen_iff hr hp).mp hch
      exact hc c hcc
    · rintro ⟨hr, hp, hc, hq⟩
      exact ⟨hl, h.normal n hl, hr, hp, fun c hcc => hc ((h.chosen_iff hr hp).mpr ⟨c, hcc⟩), hq⟩
  priority n hl := (h.priority _ hl).1
  sleeping n hl := by
    rw [h.sleeping]
    exact and_iff_right hl
  linkedOnce := by
    refine ⟨h.queueNodup, h.sleepNodup, fun q t hq hs => ?_, fun q q' t hq hq' => ?_⟩
    · have := ((h.queued q t).mp hq).2.2.1
      simp [((h.sleeping t).mp hs).2.1] at this
    · exact ((h.queued q t).mp hq).2.2.2.2.2.symm.trans ((h.queued q' t).mp hq').2.2.2.2.2
  linkedLive t ht := by
    rcases ht with hs | ⟨q, -, hq⟩
    · obtain ⟨hl, hst, -⟩ := (h.sleeping t).mp hs
      exact ⟨hl, h.normal_of_blocked hl (by simp [hst]) (by simp [hst])⟩
    · have hq := (h.queued q t).mp hq
      exact ⟨hq.1, hq.2.1⟩
  currentInj c c' he := h.owner _ c c' (.inl rfl) (.inl he.symm)
  exited n hl he := by
    refine ⟨?_, ?_⟩
    · rintro (hs | ⟨q, -, hq⟩)
      · exact h.not_sleeping (by simp [he]) hs
      · exact h.not_queued (by simp [he]) q hq
    · obtain ⟨c, ho, hc⟩ := h.exited_cases hl he
      refine ⟨c, ⟨ho, ?_⟩, fun c' hc' => h.owner _ c' c hc'.1 ho⟩
      rcases hc with ⟨hat, hcur⟩ | hleave
      · refine .inl ⟨hat, fun cause clock => ?_⟩
        obtain ⟨s', heq, hs', -, hat', hprev, hex⟩ := h.yield (c := c) cause clock (by simp [hat])
        have he' := hex (by rw [hcur, he])
        rw [hcur] at hprev he'
        refine ⟨s', heq, ⟨hat', hprev, fun hcur' => ?_⟩, he'⟩
        have hcore := hs'.cores c
        simp only [CoreOk, hat', hcur', he'] at hcore
        simp at hcore
      · obtain ⟨s', heq, hm⟩ := h.gain_spec hleave.1
        refine .inr ⟨hleave, s', heq, ?_⟩
        have hne : (s.tcb (s.currentThread c)).prev ≠ s.currentThread c := fun hp =>
          hleave.2.2 (hp.symm.trans hleave.2.1)
        rw [hm.released, if_pos ⟨hleave.2.1, hne, hleave.2.1 ▸ he⟩, hl.2]
  released a s' n ht hs hne := h.released_step ht hs hne
  releasedOnce n := by
    have := h.releasedOnce n
    omega
  succeeds a he ht := by
    obtain ⟨s', heq, -⟩ := h.perform he ht
    rw [heq]
    rfl

end Sched

/-- **The scheduler's lists and states agree** between any two critical sections of any run, on
any number of cores. -/
theorem sched_safe {C : Type} [DecidableEq C] {s : Sched C}
    (h : (schedSys C).ReachIf (fun _ a => a.OnTick) s) : s.Safe :=
  (Sched.inv_inductive.reachIf h).safe

/-- Two cores; a thread stops with a timeout and is made ready by its expiry before its core has
switched away from it: it is ready but not queued, for its context is not saved yet. -/
theorem sched_safe_run : ∃ s : Sched Bool, s.Safe ∧
    ((s.tcb (.normal 0)).state = .ready ∧ (s.tcb (.normal 0)).phase = .ctxDirty ∧
      ¬ s.Linked (.normal 0)) := by
  obtain ⟨s, hr, hp⟩ := Sys.reachIf_of_exec (M := schedSys Bool) (C := fun _ a => a.OnTick)
    (fun _ a => a.OnTick) .initial
    [.spawnThread true (.idle true) 0, .wakeup true (.normal 0), .yield true .idle 1000,
      .gain true, .sleepReleasing true .stopped 2000 1000, .yield false .idle 4000]
    (fun s => (s.tcb (.normal 0)).state = .ready ∧ (s.tcb (.normal 0)).phase = .ctxDirty ∧
      ¬ s.Linked (.normal 0))
    (fun _ _ => of_decide_eq_true) rfl (by decide)
  exact ⟨s, sched_safe hr, of_decide_eq_true hp⟩

end TinyOS
