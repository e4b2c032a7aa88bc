import Mathlib
import TinyOS.Sched.Select

/-!
# Priorities and contention (`kernel_sched.c`)

A thread that finds a mutex taken yields with `SCHED_MUTEX`, and loses a priority level each time.
**When it yields for another reason, it is as if it had never contended**: its priority is what that
cause makes of the priority it had before (`contention_restored`).

What it had is saved in its TCB, beside a flag. The live priority may change in between: each
contended yield lowers it, and `sched_boost` raises it while the thread waits in its queue. No boost
changes it between the restoring and the end of `yield`: the current thread of a core is in no queue.

The history has, for each thread, the priority before the first yield of the contention episode that
it is in.
-/

set_option autoImplicit false

namespace TinyOS

open Transition

variable {C : Type}

/-- What a `yield` makes of a priority. -/
def SchedCause.apply : SchedCause → Nat → Nat
  | .mutex, p | .quantum, p => if p < mfqQueues - 1 then p + 1 else p
  | .user, p | .pipe, p | .io, p => p - 1
  | .poll, p | .idle, p => p

/-- The episodes that threads are in. -/
abbrev Episodes (C : Type) := ThreadRef C → Option Nat

/-- An episode begins with a contended yield, and ends with any other. -/
def noteEpisode [DecidableEq C] (s : Sched C) (a : SchedAction C) (_ : Sched C) (h : Episodes C) :
    Episodes C :=
  match a with
  | .spawnThread _ _ _ => Function.update h (.normal s.spawned) none
  | .yield c cause _ =>
    let t := s.currentThread c
    Function.update h t (if cause = .mutex then some ((h t).getD (s.tcb t).priority) else none)
  | _ => h

namespace Sched

/-! ## What touches the priorities -/

/-- The priority of every thread, and what is saved of it, are as before. -/
def SamePriorities (s s' : Sched C) : Prop :=
  ∀ u, (s'.tcb u).priority = (s.tcb u).priority ∧
    (s'.tcb u).mutexContention = (s.tcb u).mutexContention ∧
    (s'.tcb u).prevPriority = (s.tcb u).prevPriority

theorem SamePriorities.refl (s : Sched C) : SamePriorities s s := fun _ => ⟨rfl, rfl, rfl⟩

theorem SamePriorities.trans {s s' s'' : Sched C} (h : SamePriorities s s')
    (h' : SamePriorities s' s'') : SamePriorities s s'' := fun u =>
  ⟨(h' u).1.trans (h u).1, (h' u).2.1.trans (h u).2.1, (h' u).2.2.trans (h u).2.2⟩

theorem samePriorities_of_tcb {s s' : Sched C} (h : s'.tcb = s.tcb) : SamePriorities s s' := by
  intro u
  rw [h]
  exact ⟨rfl, rfl, rfl⟩

variable [DecidableEq C] {s s' : Sched C}

theorem samePriorities_modify (s : Sched C) (t : ThreadRef C) {f : TCB C → TCB C}
    (hf : ∀ b, (f b).priority = b.priority ∧ (f b).mutexContention = b.mutexContention ∧
      (f b).prevPriority = b.prevPriority) : SamePriorities s (s.modify t f) := by
  intro u
  rw [modify_tcb]
  split
  · rename_i hu
    rw [hu]
    exact hf _
  · exact ⟨rfl, rfl, rfl⟩

theorem samePriorities_schedQueueAdd {t : ThreadRef C} (hs : s.schedQueueAdd t = some s') :
    SamePriorities s s' := by
  unfold schedQueueAdd at hs
  simp only at hs
  split at hs
  · cases hs
  · cases hs
    exact samePriorities_of_tcb rfl

theorem samePriorities_schedMakeReady {t : ThreadRef C} (hs : s.schedMakeReady t = some s') :
    SamePriorities s s' := by
  unfold schedMakeReady at hs
  split at hs
  · simp only [Option.bind_eq_bind] at hs
    obtain ⟨s₁, hs₁, hs⟩ := Option.bind_eq_some_iff.mp hs
    have h₁ : SamePriorities s s₁ := by
      unfold cancelTimeout at hs₁
      split at hs₁
      · cases hs₁
        exact .refl s
      · split at hs₁
        · cases hs₁
          exact samePriorities_modify (s.unlink t) t fun _ => ⟨rfl, rfl, rfl⟩
        · cases hs₁
    have h₂ := h₁.trans (samePriorities_modify s₁ t (f := fun b => { b with state := .ready })
      fun _ => ⟨rfl, rfl, rfl⟩)
    split at hs
    · exact h₂.trans (samePriorities_schedQueueAdd hs)
    · cases hs
      exact h₂
  · cases hs

theorem samePriorities_wakeup {t : ThreadRef C} {r : Bool} (hs : s.wakeup t = some (r, s')) :
    SamePriorities s s' := by
  unfold wakeup at hs
  split at hs
  · obtain ⟨s₁, hs₁, hs⟩ := Option.map_eq_some_iff.mp hs
    cases hs
    exact samePriorities_schedMakeReady hs₁
  · cases hs
    exact .refl s

theorem samePriorities_sleepReleasing {c : C} {st : ThreadState} {timeout clock : Nat}
    (hs : s.sleepReleasing c st timeout clock = some s') : SamePriorities s s' := by
  unfold sleepReleasing at hs
  split at hs
  · have h₁ := samePriorities_modify s (s.currentThread c) (f := fun b => { b with state := st })
      fun _ => ⟨rfl, rfl, rfl⟩
    simp only [Option.bind_eq_bind] at hs
    split at hs
    · cases hs
      exact h₁
    · obtain ⟨s₂, hs₂, hs⟩ := Option.bind_eq_some_iff.mp hs
      cases hs
      refine h₁.trans ?_
      unfold schedRegisterTimeout at hs₂
      split at hs₂
      · cases hs₂
        exact samePriorities_of_tcb rfl
      · split at hs₂
        · cases hs₂
        · cases hs₂
          intro u
          exact samePriorities_modify
            (s.modify (s.currentThread c) fun b => { b with state := st }) (s.currentThread c)
            (f := fun b => { b with wakeupTime := (clock + timeout) % 2 ^ 64 })
            (fun _ => ⟨rfl, rfl, rfl⟩) u
  · cases hs

theorem samePriorities_expireTimeouts {clock fuel : Nat}
    (hs : s.expireTimeouts clock fuel = some s') : SamePriorities s s' := by
  induction fuel generalizing s with
  | zero =>
    unfold expireTimeouts at hs
    split at hs
    · cases hs
      exact .refl _
    · cases hs
  | succ fuel ih =>
    unfold expireTimeouts at hs
    split at hs
    · cases hs
      exact .refl _
    · split at hs
      · cases hs
        exact .refl _
      · obtain ⟨s₁, hs₁, hs⟩ := Option.bind_eq_some_iff.mp hs
        exact (samePriorities_schedMakeReady hs₁).trans (ih hs)

omit [DecidableEq C] in
theorem samePriorities_popFirst (s : Sched C) : SamePriorities s s.popFirst.2 := by
  rcases popFirst_cases s with hp | ⟨q, t, rest, -, hp⟩
  · rw [hp]
    exact .refl s
  · rw [hp]
    exact samePriorities_of_tcb rfl

theorem samePriorities_switchTo (s : Sched C) (c : C) (next : ThreadRef C) :
    SamePriorities s (s.switchTo c next) :=
  samePriorities_modify s next (f := fun b => { b with prev := s.currentThread c })
    fun _ => ⟨rfl, rfl, rfl⟩

omit [DecidableEq C] in
theorem releaseTCB_tcb (s : Sched C) (t : ThreadRef C) : (s.releaseTCB t).tcb = s.tcb := by
  cases t <;> rfl

theorem samePriorities_gain {c : C} (hs : s.gain c = some s') : SamePriorities s s' := by
  have hrunning : ∀ (t : ThreadRef C) (n : Nat) (at' : C → CoreAt), SamePriorities s
      (({ s with timeslices := n, coreAt := at' } : Sched C).modify t fun b =>
        { b with state := .running, phase := .ctxDirty }) := fun t n at' =>
    samePriorities_modify ({ s with timeslices := n, coreAt := at' } : Sched C) t
      (f := fun b => { b with state := .running, phase := .ctxDirty }) fun _ => ⟨rfl, rfl, rfl⟩
  unfold gain at hs
  simp only at hs
  split at hs
  · cases hs
    exact hrunning _ _ _
  · have hclean := (hrunning (s.currentThread c) ((s.timeslices + 1) % 2 ^ 32)
      (Function.update s.coreAt c .running)).trans
        (samePriorities_modify _ (s.tcb (s.currentThread c)).prev
          (f := fun b => { b with phase := .ctxClean }) fun _ => ⟨rfl, rfl, rfl⟩)
    split at hs
    · split at hs
      · exact hclean.trans (samePriorities_schedQueueAdd hs)
      · cases hs
        exact hclean
    · cases hs
      exact hclean.trans (samePriorities_of_tcb (releaseTCB_tcb _ _))
    · cases hs
      exact hclean
    · cases hs
    · cases hs

/-! ## The boost -/

/-- A boost saves nothing, and the threads it promotes are in queues. -/
theorem boostFrom_tcb (s : Sched C) (i : Nat) (u : ThreadRef C) :
    ((s.boostFrom i).tcb u).mutexContention = (s.tcb u).mutexContention ∧
      ((s.boostFrom i).tcb u).prevPriority = (s.tcb u).prevPriority ∧
      (u ∉ s.runQueue (i + 1) → ((s.boostFrom i).tcb u).priority = (s.tcb u).priority) := by
  unfold boostFrom
  split
  · exact ⟨rfl, rfl, fun _ => rfl⟩
  · rename_i t rest hq
    simp only [modify_tcb]
    split
    · rename_i hu
      exact ⟨rfl, rfl, fun hno => absurd (by rw [hq, hu]; exact List.mem_cons_self) hno⟩
    · exact ⟨rfl, rfl, fun _ => rfl⟩

/-- **`sched_boost` does not touch a thread that is on a core.** -/
theorem Inv.maybeBoost_tcb (h : s.Inv) (u : ThreadRef C) :
    (s.maybeBoost.tcb u).mutexContention = (s.tcb u).mutexContention ∧
      (s.maybeBoost.tcb u).prevPriority = (s.tcb u).prevPriority ∧
      ((∃ c, s.currentThread c = u) → (s.maybeBoost.tcb u).priority = (s.tcb u).priority) := by
  have hboost : ∀ (l : List Nat) (s : Sched C), s.Inv →
      ((l.foldl Sched.boostFrom s).tcb u).mutexContention = (s.tcb u).mutexContention ∧
      ((l.foldl Sched.boostFrom s).tcb u).prevPriority = (s.tcb u).prevPriority ∧
      ((∃ c, s.currentThread c = u) →
        ((l.foldl Sched.boostFrom s).tcb u).priority = (s.tcb u).priority) := by
    intro l
    induction l with
    | nil => exact fun s _ => ⟨rfl, rfl, fun _ => rfl⟩
    | cons i l ih =>
      intro s h
      have hk := h.boostFrom i
      obtain ⟨hc, hp, hprio⟩ := boostFrom_tcb s i u
      obtain ⟨hc', hp', hprio'⟩ := ih (s.boostFrom i) hk.inv
      refine ⟨hc'.trans hc, hp'.trans hp, ?_⟩
      rintro ⟨c, hcur⟩
      have hno : u ∉ s.runQueue (i + 1) := fun hm => ((h.queued _ u).mp hm).2.2.2.2.1 c hcur
      exact (hprio' ⟨c, by rw [hk.cores.current]; exact hcur⟩).trans (hprio hno)
  unfold Sched.maybeBoost
  split
  · exact hboost _ _ (h.timeslices 0).inv
  · exact ⟨rfl, rfl, fun _ => rfl⟩

/-! ## `yield` -/

/-- What `yield` makes of the TCB of the thread that calls it. -/
theorem yieldCurrent_tcb {c : C} {cause : SchedCause} {r : Bool}
    (hs : s.yieldCurrent c cause = some (r, s')) (u : ThreadRef C) :
    let b := if u = s.currentThread c then adjustPriority cause (restoreFairness cause (s.tcb u))
      else s.tcb u
    s'.currentThread = s.currentThread ∧ (s'.tcb u).priority = b.priority ∧
      (s'.tcb u).mutexContention = b.mutexContention ∧
      (s'.tcb u).prevPriority = b.prevPriority := by
  unfold yieldCurrent at hs
  simp only at hs
  by_cases hu : u = s.currentThread c <;> split at hs <;> cases hs <;> simp [hu]

/-- `yield`, with what it does to the priorities. -/
theorem Inv.yield_tcb (h : s.Inv) {c : C} {cause : SchedCause} {clock : Nat}
    (hat : s.coreAt c ≠ .switched) (hs : s.yield c cause clock = some s') (u : ThreadRef C) :
    let b := if u = s.currentThread c then adjustPriority cause (restoreFairness cause (s.tcb u))
      else s.tcb u
    (s'.tcb u).mutexContention = b.mutexContention ∧ (s'.tcb u).prevPriority = b.prevPriority ∧
      (u = s.currentThread c → (s'.tcb u).priority = b.priority) := by
  obtain ⟨r, s₁, heq₁, hy⟩ := h.yieldCurrent cause hat
  obtain ⟨-, hprio₁, hcont₁, hprev₁⟩ := yieldCurrent_tcb heq₁ u
  obtain ⟨hcont₂, hprev₂, hprio₂⟩ := hy.inv.maybeBoost_tcb u
  unfold Sched.yield at hs
  simp only [heq₁, Option.bind_eq_bind, Option.bind_some] at hs
  obtain ⟨s₃, heq₃, hs⟩ := Option.bind_eq_some_iff.mp hs
  obtain rfl := Option.some.inj hs
  obtain ⟨hprio, hcont, hprev⟩ := ((samePriorities_expireTimeouts heq₃).trans
    (samePriorities_popFirst s₃)).trans (samePriorities_switchTo _ c _) u
  refine ⟨(hcont.trans hcont₂).trans hcont₁, (hprev.trans hprev₂).trans hprev₁, fun hu => ?_⟩
  exact (hprio.trans (hprio₂ ⟨c, by rw [hy.current]; exact hu.symm⟩)).trans hprio₁

/-! ## Episodes -/

/-- What is saved is the history: a flag for each thread that is in an episode, and the priority
that it had. -/
def Saved (s : Sched C) (h : Episodes C) : Prop :=
  ∀ u, h u = if (s.tcb u).mutexContention then some (s.tcb u).prevPriority else none

omit [DecidableEq C] in
theorem Saved.congr {h : Episodes C} (hsaved : s.Saved h) (hs : SamePriorities s s') :
    s'.Saved h := by
  intro u
  rw [(hs u).2.1, (hs u).2.2]
  exact hsaved u

omit [DecidableEq C] in
/-- A contended yield saves the priority, once. -/
theorem adjust_saved (cause : SchedCause) (b : TCB C) :
    let b' := adjustPriority cause (restoreFairness cause b)
    (if b'.mutexContention then some b'.prevPriority else none) =
      if cause = .mutex then
        some ((if b.mutexContention then some b.prevPriority else none).getD b.priority)
      else none := by
  cases cause <;> simp only [adjustPriority, restoreFairness] <;> grind

omit [DecidableEq C] in
/-- Any other yield restores it. -/
theorem adjust_restores {cause : SchedCause} (hcause : cause ≠ .mutex) (b : TCB C) :
    (adjustPriority cause (restoreFairness cause b)).priority =
      cause.apply (if b.mutexContention then b.prevPriority else b.priority) := by
  cases cause <;> simp only [adjustPriority, restoreFairness, SchedCause.apply] <;> grind

theorem Inv.saved_yield (h : s.Inv) {ep : Episodes C} (hsaved : s.Saved ep) {c : C}
    {cause : SchedCause} {clock : Nat} (hat : s.coreAt c ≠ .switched)
    (hs : s.yield c cause clock = some s') :
    s'.Saved (noteEpisode s (.yield c cause clock) s' ep) := by
  intro u
  obtain ⟨hcont, hprev, -⟩ := h.yield_tcb hat hs u
  simp only [noteEpisode, Function.update_apply]
  rw [hcont, hprev]
  by_cases hu : u = s.currentThread c
  · simp only [hu, if_true]
    rw [adjust_saved, hsaved]
  · simp only [if_neg hu]
    exact hsaved u

theorem saved_step (h : s.Inv) {ep : Episodes C} (hsaved : s.Saved ep) {a : SchedAction C}
    (hs : (schedSys C).step s a = some s') : s'.Saved (noteEpisode s a s' ep) := by
  simp only [schedSys] at hs
  split at hs
  · rename_i he
    cases a with
    | spawnThread c prev₀ prevPriority₀ =>
      obtain rfl := Option.some.inj hs
      intro u
      simp only [noteEpisode, Sched.spawnThread, Function.update_apply]
      split
      · rfl
      · exact hsaved u
    | wakeup c t =>
      obtain ⟨⟨r, s₁⟩, heq, rfl⟩ := Option.map_eq_some_iff.mp hs
      exact hsaved.congr (samePriorities_wakeup heq)
    | sleepReleasing c st timeout clock => exact hsaved.congr (samePriorities_sleepReleasing hs)
    | yield c cause clock => exact h.saved_yield hsaved he hs
    | gain c => exact hsaved.congr (samePriorities_gain hs)
  · cases hs

theorem saved_inductive : ((schedSys C).record (fun _ => none) noteEpisode).InductiveIf
    (fun _ a => a.OnTick) fun x => x.1.Inv ∧ x.1.Saved x.2 where
  init := by
    rintro ⟨s, ep⟩ ⟨hs, rfl⟩
    obtain rfl : s = .initial := hs
    exact ⟨inv_initial, fun u => rfl⟩
  step := by
    rintro ⟨s, ep⟩ a x ⟨hi, hsaved⟩ ht hs
    obtain ⟨s', hs', rfl⟩ := Option.map_eq_some_iff.mp hs
    exact ⟨inv_inductive.step s a s' hi ht hs', saved_step hi hsaved hs'⟩

end Sched

/-- **Contention leaves no trace in the priority**: a thread in an episode that yields for another
reason gets what that cause makes of the priority it had before the episode. -/
theorem contention_restored {C : Type} [DecidableEq C] {x : Sched C × Episodes C}
    (hr : ((schedSys C).record (fun _ => none) noteEpisode).ReachIf (fun _ a => a.OnTick) x)
    {c : C} {cause : SchedCause} {clock : Nat} {s' : Sched C}
    (hs : (schedSys C).step x.1 (.yield c cause clock) = some s') (hcause : cause ≠ .mutex)
    {p : Nat} (hp : x.2 (x.1.currentThread c) = some p) :
    (s'.tcb (x.1.currentThread c)).priority = cause.apply p := by
  obtain ⟨hi, hsaved⟩ := Sched.saved_inductive.reachIf hr
  simp only [schedSys] at hs
  split at hs
  · rename_i he
    obtain ⟨-, -, hprio⟩ := hi.yield_tcb he hs (x.1.currentThread c)
    have hrestored := hprio rfl
    rw [if_pos rfl, Sched.adjust_restores hcause] at hrestored
    rw [hrestored]
    rw [hsaved] at hp
    obtain ⟨hcont, hprev⟩ := Option.ite_none_right_eq_some.mp hp
    rw [if_pos hcont, Option.some.inj hprev]
  · cases hs

/-- A thread whose quantum expires twice contends three times; then it sleeps at a pipe. -/
theorem contention_restored_run : ∃ (x : Sched Bool × Episodes Bool) (s' : Sched Bool),
    (schedSys Bool).step x.1 (.yield true .pipe 1000) = some s' ∧
    x.2 (x.1.currentThread true) = some 2 ∧ (x.1.tcb (x.1.currentThread true)).priority = 5 ∧
    (s'.tcb (x.1.currentThread true)).priority = SchedCause.pipe.apply 2 := by
  obtain ⟨x, hr, hp⟩ := Sys.reachIf_of_exec
    (M := (schedSys Bool).record (fun _ => none) noteEpisode) (C := fun _ a => a.OnTick)
    (fun _ a => a.OnTick) (.initial, fun _ => none)
    [.spawnThread true (.idle true) 0, .wakeup true (.normal 0), .yield true .idle 1000, .gain true,
      .yield true .quantum 1000, .gain true, .yield true .quantum 1000, .gain true,
      .yield true .mutex 1000, .gain true, .yield true .mutex 1000, .gain true,
      .yield true .mutex 1000, .gain true]
    (fun x => decide (((schedSys Bool).step x.1 (.yield true .pipe 1000)).isSome = true ∧
      x.2 (x.1.currentThread true) = some 2 ∧ (x.1.tcb (x.1.currentThread true)).priority = 5))
    (fun _ _ => of_decide_eq_true)
    (show (schedSys Bool).init .initial ∧ _ = _ from ⟨rfl, rfl⟩) (by decide +kernel)
  obtain ⟨hsome, hep, hprio⟩ := of_decide_eq_true hp
  obtain ⟨s', hs'⟩ := Option.isSome_iff_exists.mp hsome
  exact ⟨x, s', hs', hep, hprio, contention_restored hr hs' (by decide) hep⟩

end TinyOS
