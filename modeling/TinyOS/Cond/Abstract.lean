import TinyOS.Cond.Correct

/-!
# What a condition variable is for

Seen from its callers a condition variable is a queue of sleepers: a wait appends the caller *at the
moment it releases the mutex*, a signal makes the first sleeper ready, a timeout makes any sleeper
ready. `cond_simulates` shows that the code is that queue, with two places where the code's steps
do not line up with the abstract ones:

* the waiter is pushed on the ring *before* the mutex is released, and stops *after* it — but it
  holds `waitset_lock` all the while, so nobody can tell;
* a waiter that timed out stays on the ring until it gets the lock — but a signaller passes over
  it.

Components that use condition variables (the kernel lock) are verified on top of this queue.
-/

set_option autoImplicit false

namespace TinyOS

open Transition

/-- The sleepers, longest first, and what ended the last sleep of each thread. -/
structure CondQueue (T : Type) where
  sleepers : List T
  outcome : T → Option WakeCause

inductive CondEvent (T : Type) where
  /-- Release the mutex and sleep. -/
  | sleep (t : T)
  /-- Make the first sleeper ready. -/
  | wake
  /-- A timeout makes a sleeper ready. -/
  | expire (t : T)

namespace CondQueue

variable {T : Type} [DecidableEq T]

def sleep (q : CondQueue T) (t : T) : CondQueue T where
  sleepers := q.sleepers ++ [t]
  outcome := Function.update q.outcome t none

/-- Make the first sleeper ready, if there is one. -/
def wake (q : CondQueue T) : CondQueue T :=
  match q.sleepers with
  | [] => q
  | t :: rest => ⟨rest, Function.update q.outcome t (some .signal)⟩

def expire (q : CondQueue T) (t : T) : CondQueue T where
  sleepers := q.sleepers.erase t
  outcome := Function.update q.outcome t (some .timeout)

theorem mem_sleep {q : CondQueue T} {t u : T} : u ∈ (q.sleep t).sleepers ↔
    u ∈ q.sleepers ∨ u = t := by
  simp [sleep]

theorem nodup_sleep {q : CondQueue T} {t : T} (h : q.sleepers.Nodup) (ht : t ∉ q.sleepers) :
    (q.sleep t).sleepers.Nodup :=
  h.append (List.nodup_singleton t) (by simpa using ht)

def perform (q : CondQueue T) : CondEvent T → Option (CondQueue T)
  | .sleep t => if t ∈ q.sleepers then none else some (q.sleep t)
  | .wake => if q.sleepers = [] then none else some q.wake
  | .expire t => if t ∈ q.sleepers then some (q.expire t) else none

end CondQueue

def condQueueSys (T : Type) [DecidableEq T] : Sys (CondQueue T) (CondEvent T) where
  init q := q = ⟨[], fun _ => none⟩
  step := CondQueue.perform

namespace CondState

variable {T M : Type} [DecidableEq T] [DecidableEq M] {s s' : CondState T M} {l : List T}

/-- The thread has released its mutex in `cv_wait`, and is not ready yet. -/
def released (s : CondState T M) (t : T) : Bool :=
  match s.pc t with
  | .waitReleased _ _ | .asleep _ _ => true
  | _ => false

/-- The thread sleeps, or is on its way back. -/
def slept (s : CondState T M) (t : T) : Bool :=
  match s.pc t with
  | .asleep _ _ | .woken _ | .tidied _ | .relock _ | .returned _ => true
  | _ => false

/-- The abstract queue of a state: the threads that have released their mutex and are not ready,
in the order of arrival. -/
structure Abstracts (s : CondState T M) (q : CondQueue T) : Prop where
  inv : ∃ l, s.Inv l
  mem : ∀ t, t ∈ q.sleepers ↔ s.released t = true
  sorted : q.sleepers.Pairwise fun t u => s.ticket t < s.ticket u
  last : ∀ t m timed, s.pc t = .waitPushed m timed → ∀ u ∈ q.sleepers, s.ticket u < s.ticket t
  outcome : ∀ t, s.released t = true ∨ s.slept t = true → q.outcome t = s.cause t

omit [DecidableEq T] [DecidableEq M] in
/-- A step that moves one thread, and neither puts it to sleep nor makes it ready, is not seen. -/
theorem Abstracts.stutter {q : CondQueue T} (h : s.Abstracts q) (hinv : ∃ l, s'.Inv l) (t : T)
    (hpc : ∀ u, u ≠ t → s'.pc u = s.pc u) (hrel : s'.released t = s.released t)
    (hslept : s'.slept t = true → s.released t = true ∨ s.slept t = true) (htick : s'.ticket = s.ticket)
    (hpushed : ∀ m timed, s'.pc t ≠ .waitPushed m timed)
    (hcause : ∀ u, u ≠ t ∨ s'.slept u = true → s'.cause u = s.cause u)
    (hcalm : s.released t = false ∨ s'.cause = s.cause) : s'.Abstracts q := by
  have hrel' : ∀ u, s'.released u = s.released u := by
    intro u
    by_cases hu : u = t
    · rw [hu, hrel]
    · simp only [released, hpc u hu]
  refine ⟨hinv, fun u => by rw [h.mem, hrel'], by rw [htick]; exact h.sorted,
    fun u m timed hu v hv => ?_, fun u hu => ?_⟩
  · rw [htick]
    have hut : u ≠ t := by
      rintro rfl
      exact hpushed m timed hu
    exact h.last u m timed ((hpc u hut).symm.trans hu) v hv
  · have hu' : s.released u = true ∨ s.slept u = true := by
      rcases hu with hu | hu
      · exact .inl ((hrel' u).symm.trans hu)
      · by_cases hut : u = t
        · rw [hut] at hu ⊢
          exact hslept hu
        · exact .inr (by simpa only [slept, hpc u hut] using hu)
    rw [h.outcome u hu']
    by_cases hut : u = t
    · rcases hcalm with hr | hc
      · exact (hcause u (.inr (hu.resolve_left (by simp [hut, hrel, hr])))).symm
      · rw [hc]
    · exact (hcause u (.inl hut)).symm

/-- The mutex is released: the thread joins the sleepers. -/
theorem Abstracts.sleep {q : CondQueue T} (h : s.Abstracts q) {t : T} {m : M} {timed : Bool}
    (hp : s.pc t = .waitPushed m timed) (hinv : ∃ l, s'.Inv l)
    (hs : s' = { s with mutex := Function.update s.mutex m false }.goto t (.waitReleased m timed)) :
    (condQueueSys T).Run q [.sleep t] (q.sleep t) ∧ s'.Abstracts (q.sleep t) := by
  obtain ⟨l, hi⟩ := h.inv
  have hn : t ∉ q.sleepers := fun hm => by simpa [released, hp] using (h.mem t).mp hm
  have hfresh := hi.fresh t m timed (.inr (.inl hp))
  refine ⟨.single (by simp only [condQueueSys, CondQueue.perform, if_neg hn]), hinv, ?_, ?_, ?_, ?_⟩
  · intro u
    simp only [CondQueue.sleep, List.mem_append, List.mem_singleton, h.mem, hs, released, goto_pc]
    by_cases hu : u = t
    · simp [hu]
    · simp [hu]
  · subst hs
    exact List.pairwise_append.mpr ⟨h.sorted, List.pairwise_singleton _ _, fun u hu v hv =>
      List.mem_singleton.mp hv ▸ h.last t m timed hp u hu⟩
  · subst hs
    intro u m' timed' hu
    simp only [goto_pc] at hu
    by_cases hut : u = t
    · simp [hut] at hu
    · rw [if_neg hut] at hu
      exact absurd (hi.alone u t (by rw [hu]; rfl) (by rw [hp]; rfl)) hut
  · subst hs
    intro u hu
    simp only [CondQueue.sleep, Function.update_apply]
    by_cases hut : u = t
    · rw [if_pos hut, hut]
      exact hfresh.2.2.symm
    · rw [if_neg hut]
      simp only [released, slept, goto_pc, if_neg hut] at hu
      exact h.outcome u hu

omit [DecidableEq M] in
/-- A timeout or a signaller makes the sleeper `t` ready: it leaves the queue. -/
theorem Abstracts.ready {q : CondQueue T} (h : s.Abstracts q) {t : T} {m : M} {c : WakeCause}
    (hinv : ∃ l, s'.Inv l) (hw : s'.pc t = .woken m)
    (hpc : ∀ u, u ≠ t → s'.released u = s.released u ∧ s'.slept u = s.slept u)
    (hpushed : ∀ u m timed, s'.pc u = .waitPushed m timed → s.pc u = .waitPushed m timed)
    (htick : s'.ticket = s.ticket) (hcause : s'.cause = Function.update s.cause t (some c)) :
    s'.Abstracts ⟨q.sleepers.erase t, Function.update q.outcome t (some c)⟩ := by
  have hnd : q.sleepers.Nodup := h.sorted.imp fun hlt he => by simp [he] at hlt
  refine ⟨hinv, fun u => ?_, ?_, fun u m' timed' hu v hv => ?_, fun u hu => ?_⟩
  · rw [hnd.mem_erase_iff, h.mem]
    by_cases hut : u = t
    · subst hut
      simp [released, hw]
    · rw [(hpc u hut).1]
      exact and_iff_right hut
  · rw [htick]
    exact h.sorted.erase t
  · rw [htick]
    exact h.last u m' timed' (hpushed u m' timed' hu) v (List.mem_of_mem_erase hv)
  · rw [hcause]
    simp only [Function.update_apply]
    by_cases hut : u = t
    · rw [if_pos hut, if_pos hut]
    · rw [if_neg hut, if_neg hut]
      rw [(hpc u hut).1, (hpc u hut).2] at hu
      exact h.outcome u hu

omit [DecidableEq M] in
/-- The thread that a signaller makes ready is the first sleeper. -/
theorem Abstracts.wake_eq {q : CondQueue T} (h : s.Abstracts q) {t : T} {all : Bool} {w : T}
    (hp : s.pc t = .sigWake all w) (hw : (s.pc w).stopped = true) :
    q.sleepers ≠ [] ∧
      q.wake = ⟨q.sleepers.erase w, Function.update q.outcome w (some .signal)⟩ := by
  obtain ⟨l, hi⟩ := h.inv
  have hstop : ∀ u, s.released u = true → (s.pc u).stopped = true := by
    intro u hu
    unfold released at hu
    split at hu
    · rename_i m timed hpu
      have := hi.alone u t (by rw [hpu]; rfl) (by rw [hp]; rfl)
      rw [this, hp] at hpu
      exact absurd hpu (by simp)
    · rename_i m timed hpu
      rw [hpu]
      rfl
    · exact absurd hu (by simp)
  have hmem : w ∈ q.sleepers := (h.mem w).mpr (by
    cases hpw : s.pc w <;> simp [hpw, CondPc.stopped] at hw
    simp [released, hpw])
  unfold CondQueue.wake
  cases hq : q.sleepers with
  | nil => simp [hq] at hmem
  | cons a rest =>
    rw [hq] at hmem
    have hsorted := h.sorted
    rw [hq] at hsorted
    have haw : a = w := by
      rcases List.mem_cons.mp hmem with rfl | hr
      · rfl
      · have hlt := (List.pairwise_cons.mp hsorted).1 w hr
        have ha : s.released a = true := (h.mem a).mp (by simp [hq])
        exact absurd (hi.longest hp (hstop a ha)) (Nat.not_le.mpr hlt)
    subst haw
    simp

omit [DecidableEq M] in
/-- The waiter is pushed: its ticket is the last one. -/
theorem Abstracts.push {q : CondQueue T} (h : s.Abstracts q) {t : T} {m : M} {timed : Bool}
    (hp : s.pc t = .waitLock m timed)
    (hinv : ∃ l, (({ s with waitsetLock := true }.pushWaiter t).goto t (.waitPushed m timed)).Inv l) :
    (({ s with waitsetLock := true }.pushWaiter t).goto t (.waitPushed m timed)).Abstracts q := by
  obtain ⟨l, hi⟩ := h.inv
  have hl : t ∉ l := fun hm => by simpa [hp, CondPc.waiting] using ((hi.mem t).mp hm).1
  obtain ⟨waitset, links, heq, -⟩ :=
    Ringed.pushWaiter (s := { s with waitsetLock := true }) hi.ringed hl
  rw [heq] at hinv ⊢
  have ht : t ∉ q.sleepers := fun hm => by simpa [released, hp] using (h.mem t).mp hm
  have hne : ∀ u ∈ q.sleepers, u ≠ t := fun u hu e => ht (e ▸ hu)
  have htick : ∀ u ∈ q.sleepers, Function.update s.ticket t s.arrivals u = s.ticket u := fun u hu =>
    Function.update_of_ne (hne u hu) _ _
  refine ⟨hinv, fun u => ?_, ?_, fun u m' timed' hu v hv => ?_, fun u hu => ?_⟩
  · rw [h.mem]
    by_cases hut : u = t <;> simp [released, hut, hp]
  · refine h.sorted.imp_of_mem fun hu hv huv => ?_
    simpa only [goto, htick _ hu, htick _ hv] using huv
  · simp only [goto, htick v hv]
    by_cases hut : u = t
    · have hw : (s.pc v).waiting = true := by
        have hv := (h.mem v).mp hv
        unfold released at hv
        split at hv <;> simp_all [CondPc.waiting]
      rw [hut, Function.update_self]
      exact hi.arrived v hw
    · rw [Function.update_of_ne hut]
      exact h.last u m' timed' (by simpa [hut] using hu) v hv
  · have hut : u ≠ t := by
      rintro rfl
      simp [released, slept] at hu
    exact h.outcome u (by simpa [released, slept, hut] using hu)

/-- The steps of a thread inside one of the functions. -/
theorem Abstracts.next {q : CondQueue T} (h : s.Abstracts q) {t : T}
    (hs : (condSys T M).step s (.next t) = some s') :
    ∃ bs q', (condQueueSys T).Run q bs q' ∧ s'.Abstracts q' := by
  obtain ⟨l, hi⟩ := h.inv
  have hinv : ∃ l, s'.Inv l := inv_inductive.step _ _ _ h.inv trivial hs
  simp only [condSys, perform, CondState.next] at hs
  -- All steps but four move only the thread itself, and are not seen.
  have hquiet : (∀ u, u ≠ t → s'.pc u = s.pc u) → s'.released t = s.released t →
      (s'.slept t = true → s.released t = true ∨ s.slept t = true) → s'.ticket = s.ticket →
      (∀ m timed, s'.pc t ≠ .waitPushed m timed) → s'.cause = s.cause →
      ∃ bs q', (condQueueSys T).Run q bs q' ∧ s'.Abstracts q' :=
    fun hpc hrel hsl htick hpushed hcause => ⟨[], q, .nil q, h.stutter hinv t hpc hrel hsl htick
      hpushed (fun u _ => by rw [hcause]) (.inr hcause)⟩
  cases hp : s.pc t with
  | idle | asleep | returned => simp [hp] at hs
  | waitLock m timed =>
    simp only [hp] at hs
    split at hs
    · exact absurd hs (by simp)
    · obtain rfl := Option.some.inj hs
      exact ⟨[], q, .nil q, h.push hp hinv⟩
  | waitPushed m timed =>
    simp only [hp, Option.some.injEq] at hs
    exact ⟨_, _, h.sleep hp hinv hs.symm⟩
  | waitReleased m timed =>
    simp only [hp, Option.some.injEq] at hs
    subst hs
    exact hquiet (fun u hu => by simp [hu]) (by simp [released, hp]) (by simp [released, hp]) rfl
      (by simp) rfl
  | tidied m | sigUnlock all =>
    simp only [hp, Option.some.injEq] at hs
    subst hs
    exact hquiet (fun u hu => by simp [hu]) (by simp [released, hp]) (by simp [slept, hp]) rfl
      (by simp) rfl
  | sigMark all w =>
    simp only [hp, Option.some.injEq] at hs
    subst hs
    exact hquiet (fun u hu => by simp [hu]) (by cases all <;> simp [released, hp])
      (by cases all <;> simp [slept]) rfl (by cases all <;> simp) rfl
  | relock m | sigLock all =>
    simp only [hp] at hs
    split at hs
    · exact absurd hs (by simp)
    · obtain rfl := Option.some.inj hs
      exact hquiet (fun u hu => by simp [hu]) (by simp [released, hp]) (by simp [slept, hp]) rfl
        (by simp) rfl
  | woken m =>
    simp only [hp] at hs
    split at hs
    · exact absurd hs (by simp)
    · obtain ⟨waitset, links, heq, -⟩ := hi.tidyUp_eq hp
      rw [heq, Option.map_some, Option.some.injEq] at hs
      subst hs
      exact hquiet (fun u hu => by simp [hu]) (by simp [released, hp]) (by simp [slept, hp]) rfl
        (by simp) rfl
  | sigScan all =>
    simp only [hp, Option.some.injEq] at hs
    subst hs
    have htick : (s.scan t all).ticket = s.ticket ∧ (s.scan t all).cause = s.cause ∧
        (s.scan t all).released t = false ∧ (s.scan t all).slept t = false ∧
        ∀ m timed, (s.scan t all).pc t ≠ .waitPushed m timed := by
      unfold CondState.scan
      split
      · simp [goto, released, slept]
      · simp [goto, released, slept, removeFromRing_eq]
    exact hquiet (fun u hu => scan_pc hu) (by rw [htick.2.2.1]; simp [released, hp])
      (by rw [htick.2.2.2.1]; simp) htick.1 htick.2.2.2.2 htick.2.1
  | sigWake all w =>
    simp only [hp, Option.some.injEq] at hs
    subst hs
    by_cases hw : ∃ m timed, s.pc w = .asleep m timed
    · obtain ⟨m, timed, hw⟩ := hw
      obtain ⟨hne, hwake⟩ := h.wake_eq hp (by rw [hw]; rfl)
      have hwt : w ≠ t := by
        rintro rfl
        simp [hp] at hw
      have heq : s.wakeup t all w = { (s.makeReady w m .signal).goto t (.sigMark all w) with
          made := Function.update s.made t (s.made t ++ [w]) } := by
        simp only [CondState.wakeup, hw]
      rw [heq] at hinv ⊢
      refine ⟨[.wake], q.wake,
        .single (by simp only [condQueueSys, CondQueue.perform, if_neg hne]), ?_⟩
      rw [hwake]
      have hpc : ∀ u, ({ (s.makeReady w m .signal).goto t (.sigMark all w) with
          made := Function.update s.made t (s.made t ++ [w]) } : CondState T M).pc u =
          if u = t then .sigMark all w else if u = w then .woken m else s.pc u := by
        intro u
        simp only [makeReady, goto, Function.update_apply]
      refine h.ready (m := m) hinv (by rw [hpc, if_neg hwt, if_pos rfl]) (fun u hu => ?_)
        (fun u m' timed' hu => ?_) rfl rfl
      · by_cases hut : u = t
        · simp [released, slept, hut, hp]
        · simp [released, slept, makeReady, hut, hu]
      · rw [hpc] at hu
        split at hu
        · exact absurd hu (by simp)
        · split at hu
          · exact absurd hu (by simp)
          · exact hu
    · have heq : s.wakeup t all w = s.goto t (.sigScan all) := by
        unfold CondState.wakeup
        split
        · rename_i m timed hpw
          exact absurd ⟨m, timed, hpw⟩ hw
        · rfl
      rw [heq] at hinv hquiet ⊢
      exact hquiet (fun u hu => by simp [hu]) (by simp [released, hp]) (by simp [slept]) rfl
        (by simp) rfl

end CondState

/-- **A condition variable is a queue of sleepers.** -/
theorem cond_simulates {T M : Type} [DecidableEq T] [DecidableEq M] :
    Sys.Simulates (condSys T M) (condQueueSys T) CondState.Abstracts where
  init s hs := by
    subst hs
    exact ⟨_, rfl, ⟨[], CondState.inv_initial⟩, by simp [CondState.released, CondState.initial], .nil,
      by simp, fun _ _ => rfl⟩
  step s a s' q h hs := by
    have hinv : ∃ l, s'.Inv l := CondState.inv_inductive.step _ _ _ h.inv trivial hs
    cases a with
    | next t => exact h.next hs
    | lock t m | unlock t m =>
      simp only [condSys, CondState.perform] at hs
      split at hs
      · obtain rfl := Option.some.inj hs
        exact ⟨[], q, .nil q, hinv, h.mem, h.sorted, h.last, h.outcome⟩
      · exact absurd hs (by simp)
    | wait t m timed =>
      simp only [condSys, CondState.perform] at hs
      split at hs
      · rename_i ho
        have hr : s.released t = false := by
          unfold CondState.Outside at ho
          unfold CondState.released
          split at ho <;> simp_all
        obtain rfl := Option.some.inj hs
        refine ⟨[], q, .nil q, h.stutter hinv t (fun u hu => by simp [hu, CondState.initWaiter])
          (by rw [hr]; simp [CondState.released]) (by simp [CondState.slept]) rfl (by simp)
          (fun u hu => ?_) (.inl hr)⟩
        have hut : u ≠ t := by
          rintro rfl
          simp [CondState.slept] at hu
        simp [CondState.goto, CondState.initWaiter, hut]
      · exact absurd hs (by simp)
    | signal t all =>
      simp only [condSys, CondState.perform] at hs
      split at hs
      · rename_i ho
        have hr : s.released t = false := by
          unfold CondState.Outside at ho
          unfold CondState.released
          split at ho <;> simp_all
        obtain rfl := Option.some.inj hs
        exact ⟨[], q, .nil q, h.stutter hinv t (fun u hu => by simp [hu])
          (by rw [hr]; simp [CondState.released]) (by simp [CondState.slept]) rfl (by simp)
          (fun u _ => rfl) (.inl hr)⟩
      · exact absurd hs (by simp)
    | timeout t =>
      simp only [condSys, CondState.perform] at hs
      split at hs
      · rename_i m hp
        obtain rfl := Option.some.inj hs
        have ht : t ∈ q.sleepers := (h.mem t).mpr (by simp [CondState.released, hp])
        refine ⟨[.expire t], q.expire t, .single ?_, h.ready (m := m) hinv ?_ ?_ ?_ rfl rfl⟩
        · simp only [condQueueSys, CondQueue.perform, if_pos ht]
        · simp [CondState.makeReady]
        · intro u hu
          simp [CondState.released, CondState.slept, CondState.makeReady, hu]
        · intro u m' timed' hu
          by_cases hut : u = t
          · simp [CondState.makeReady, hut] at hu
          · simpa [CondState.makeReady, hut] using hu
      · exact absurd hs (by simp)

end TinyOS
