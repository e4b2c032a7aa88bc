import TinyOS.Cond.Invariant

/-!
# The condition variable keeps its waiters in order and loses no signal

`cond_correct` reads the invariant back in the terms of the source: what the ring holds, whom a
signal or a broadcast makes ready, what `cv_wait` returns. That no signal is lost is a statement
about runs: from the moment a waiter has released its mutex, **a signal either makes somebody
ready, or finds that waiter made ready already**. A signaller that locks the mutex after the waiter
released it is one case; the statement does not need to know why the signal comes later.
-/

set_option autoImplicit false

namespace TinyOS

open Transition

namespace CondState

variable {T M : Type} [DecidableEq T] [DecidableEq M] {s s' : CondState T M} {l : List T}

/-- The waiter has released its mutex, and nothing has made it ready since. -/
def Released (s : CondState T M) (w : T) : Prop :=
  (∃ m timed, s.pc w = .waitReleased m timed) ∨ (s.pc w).stopped = true

/-- Action `a` makes `w` ready, and why. -/
def Readies (s : CondState T M) (a : CondAction T M) (s' : CondState T M) (w : T) : Prop :=
  (a = .timeout w ∧ s'.cause w = some .timeout) ∨
    ∃ t all, a = .next t ∧ s.pc t = .sigWake all w ∧ s'.made t = s.made t ++ [w] ∧
      s'.cause w = some .signal

structure Safe (s : CondState T M) : Prop where
  /-- The ring holds the waiters that are not removed, in the order of arrival. -/
  ring : ∃ l, IsRing s.links.next l ∧ s.waitset = l.head? ∧
    (∀ t, t ∈ l ↔ (s.pc t).waiting = true ∧ s.removed t = false) ∧
    l.Pairwise fun t u => s.ticket t < s.ticket u
  /-- `waitset` is `NULL` if and only if there is no such waiter. -/
  empty : s.waitset = none ↔ ¬ ∃ t, (s.pc t).waiting = true ∧ s.removed t = false
  /-- A stopped waiter that a signaller makes ready is the one that has waited longest. -/
  longest : ∀ t all w, s.pc t = .sigWake all w → (s.pc w).stopped = true →
    ∀ u, (s.pc u).stopped = true → s.ticket w ≤ s.ticket u
  /-- A signal has made exactly one thread ready, or none because no waiter was stopped. -/
  signal : ∀ t, s.pc t = .sigUnlock false → (∃ w, s.made t = [w]) ∨
    (s.made t = [] ∧ s.waitset = none ∧ ∀ u, (s.pc u).stopped = false)
  /-- A broadcast leaves no waiter stopped, and `waitset` empty. -/
  broadcast : ∀ t, s.pc t = .sigUnlock true →
    s.waitset = none ∧ ∀ u, (s.pc u).stopped = false
  /-- `cv_wait` returns 1 if and only if a signal made its thread ready. -/
  result : ∀ t r, s.pc t = .returned r →
    (r = true ↔ s.cause t = some .signal) ∧ (r = false ↔ s.cause t = some .timeout)
  /-- The assertion does not fail. -/
  tidies : ∀ t m, s.pc t = .woken m → s.waitsetLock = false → (s.next t).isSome
  /-- Nothing else makes a stopped thread ready. -/
  readied : ∀ a s' w, (condSys T M).step s a = some s' → (s.pc w).stopped = true →
    (s'.pc w).stopped = false → s.Readies a s' w
  /-- A signal that ends after a waiter released its mutex has made a thread ready, or that waiter
  has been made ready in the meantime. -/
  notLost : ∀ as s' w t all, (condSys T M).Run s as s' → s.Released w → s'.pc t = .sigUnlock all →
    s'.made t ≠ [] ∨ ∃ pre a post m m', as = pre ++ a :: post ∧ (condSys T M).Run s pre m ∧
      (condSys T M).step m a = some m' ∧ (condSys T M).Run m' post s' ∧ m.Readies a m' w

omit [DecidableEq T] [DecidableEq M] in
theorem Inv.longest (h : s.Inv l) {t : T} {all : Bool} {w : T} (hp : s.pc t = .sigWake all w)
    {u : T} (hu : (s.pc u).stopped = true) : s.ticket w ≤ s.ticket u := by
  have hw : (s.pc t).wakes = some w := by rw [hp]; rfl
  rcases h.mem_of_stopped hu with hm | ⟨v, hv⟩
  · exact Nat.le_of_lt ((h.waking t w hw).2.2.2.2 u hm)
  · have hvt := h.alone v t (CondPc.holds_of_wakes hv) (CondPc.holds_of_wakes hw)
    rw [hvt, hw] at hv
    exact Nat.le_of_eq (congrArg _ (Option.some.inj hv))

omit [DecidableEq M] in
@[simp] theorem goto_pc (t u : T) (p : CondPc T M) :
    (s.goto t p).pc u = if u = t then p else s.pc u := by
  simp only [goto, Function.update_apply]

omit [DecidableEq M] in
@[simp] theorem pushWaiter_pc (t : T) : (s.pushWaiter t).pc = s.pc := by
  unfold pushWaiter
  split <;> rfl

omit [DecidableEq M] in
@[simp] theorem removeFromRing_pc (w : T) : (s.removeFromRing w).pc = s.pc := by
  rw [removeFromRing_eq]

omit [DecidableEq M] in
theorem tidyUp_pc {t : T} (h : s.tidyUp t = some s') : s'.pc = s.pc := by
  unfold tidyUp at h
  split at h
  · rw [Option.some.inj h]
  · split at h
    · exact absurd h (by simp)
    · rw [← Option.some.inj h, removeFromRing_pc]

omit [DecidableEq M] in
theorem scan_pc {t u : T} {all : Bool} (hu : u ≠ t) : (s.scan t all).pc u = s.pc u := by
  unfold scan
  split <;> simp [hu]

omit [DecidableEq M] in
/-- `wakeup` moves the signaller and, if it was asleep, the waiter. -/
theorem wakeup_pc {t u : T} {all : Bool} (w : T) (hu : u ≠ t) :
    (s.wakeup t all w).pc u = s.pc u ∨ (u = w ∧ (s.wakeup t all w).made t = s.made t ++ [w] ∧
      (s.wakeup t all w).cause w = some .signal) := by
  unfold wakeup
  split
  · by_cases huw : u = w
    · exact .inr ⟨huw, by simp, by simp [makeReady, goto]⟩
    · exact .inl (by simp [makeReady, hu, huw])
  · exact .inl (by simp [hu])

/-- A thread that a step moves takes the step itself, or begins a call, or is made ready. -/
theorem step_pc {a : CondAction T M} (hs : (condSys T M).step s a = some s') (u : T) :
    s'.pc u = s.pc u ∨ s.Readies a s' u ∨ s.Outside u ∨ a = .next u := by
  simp only [condSys] at hs
  cases a with
  | lock t m | unlock t m =>
    simp only [perform] at hs
    split at hs
    · exact .inl (by rw [← Option.some.inj hs])
    · exact absurd hs (by simp)
  | wait t m timed | signal t all =>
    simp only [perform] at hs
    split at hs
    · rename_i ho
      by_cases hu : u = t
      · exact .inr (.inr (.inl (hu ▸ ho)))
      · exact .inl (by rw [← Option.some.inj hs]; simp [hu, initWaiter])
    · exact absurd hs (by simp)
  | timeout t =>
    simp only [perform] at hs
    split at hs
    · obtain rfl := Option.some.inj hs
      by_cases hu : u = t
      · exact .inr (.inl (.inl ⟨by rw [hu], by simp [makeReady, goto, hu]⟩))
      · exact .inl (by simp [makeReady, hu])
    · exact absurd hs (by simp)
  | next t =>
    by_cases hu : u = t
    · exact .inr (.inr (.inr (by rw [hu])))
    · simp only [perform, CondState.next] at hs
      cases hp : s.pc t with
      | idle | asleep | returned => simp [hp] at hs
      | waitLock m timed | relock m | sigLock all =>
        simp only [hp] at hs
        split at hs
        · exact absurd hs (by simp)
        · exact .inl (by rw [← Option.some.inj hs]; simp [hu])
      | waitPushed m timed | waitReleased m timed | tidied m | sigMark all w | sigUnlock all =>
        simp only [hp] at hs
        exact .inl (by rw [← Option.some.inj hs]; simp [hu])
      | woken m =>
        simp only [hp] at hs
        split at hs
        · exact absurd hs (by simp)
        · obtain ⟨s₁, h₁, rfl⟩ := Option.map_eq_some_iff.mp hs
          exact .inl (by simp [hu, tidyUp_pc h₁])
      | sigScan all =>
        simp only [hp] at hs
        exact .inl (by rw [← Option.some.inj hs, scan_pc hu])
      | sigWake all w =>
        simp only [hp] at hs
        rw [← Option.some.inj hs]
        rcases wakeup_pc w hu with h | ⟨rfl, hmade, hcause⟩
        · exact .inl h
        · exact .inr (.inl (.inr ⟨t, all, rfl, hp, hmade, hcause⟩))

/-- Only a timeout or a signaller makes a stopped thread ready. -/
theorem readied_of_step {a : CondAction T M} (hs : (condSys T M).step s a = some s') {w : T}
    (hw : (s.pc w).stopped = true) (hw' : (s'.pc w).stopped = false) : s.Readies a s' w := by
  obtain ⟨m, timed, hp⟩ : ∃ m timed, s.pc w = .asleep m timed := by
    cases hp : s.pc w <;> simp [hp, CondPc.stopped] at hw
    exact ⟨_, _, rfl⟩
  rcases step_pc hs w with h | h | h | rfl
  · simp [h, hw] at hw'
  · exact h
  · simp [Outside, hp] at h
  · simp [condSys, perform, CondState.next, hp] at hs

/-- A waiter that has released its mutex stays so until it is made ready. -/
theorem Released.step {a : CondAction T M} (hs : (condSys T M).step s a = some s') {w : T}
    (hw : s.Released w) : s'.Released w ∨ s.Readies a s' w := by
  rcases hw with ⟨m, timed, hp⟩ | hw
  · rcases step_pc hs w with h | h | h | rfl
    · exact .inl (.inl ⟨m, timed, h.trans hp⟩)
    · exact .inr h
    · simp [Outside, hp] at h
    · simp only [condSys, perform, CondState.next, hp, Option.some.injEq] at hs
      subst hs
      exact .inl (.inr (by simp [CondPc.stopped]))
  · cases hw' : (s'.pc w).stopped with
    | true => exact .inl (.inr hw')
    | false => exact .inr (readied_of_step hs hw hw')

theorem Inv.safe (h : s.Inv l) : s.Safe where
  ring := ⟨l, h.ringed.ring, h.ringed.waitset, h.mem, h.sorted⟩
  empty := by
    rw [h.ringed.waitset, List.head?_eq_none_iff]
    constructor
    · rintro rfl ⟨t, ht⟩
      exact absurd ((h.mem t).mpr ht) List.not_mem_nil
    · intro hn
      exact List.eq_nil_iff_forall_not_mem.mpr fun t ht => hn ⟨t, (h.mem t).mp ht⟩
  longest t all w hp _ u hu := h.longest hp hu
  signal t hp := by
    have hlen := h.signalled t (.inr hp)
    rcases h.found t false hp with ⟨-, hne⟩ | ⟨hl, hstop⟩
    · exact .inl (List.length_eq_one_iff.mp (by
        have := List.length_pos_iff.mpr hne
        omega))
    · cases hm : s.made t with
      | nil => exact .inr ⟨rfl, by rw [h.ringed.waitset, hl]; rfl, hstop⟩
      | cons w rest =>
        rw [hm] at hlen
        exact .inl ⟨w, by rw [List.length_eq_zero_iff.mp (Nat.le_zero.mp
          (Nat.le_of_succ_le_succ hlen))]⟩
  broadcast t hp := by
    rcases h.found t true hp with ⟨ha, -⟩ | ⟨hl, hstop⟩
    · exact absurd ha (by simp)
    · exact ⟨by rw [h.ringed.waitset, hl]; rfl, hstop⟩
  result t r hp := by
    rw [h.returned t r hp]
    cases r <;> simp
  tidies t m hp hf := by
    obtain ⟨waitset, links, heq, -⟩ := h.tidyUp_eq hp
    simp [CondState.next, hp, hf, heq]
  readied a s' w hs hw hw' := readied_of_step hs hw hw'
  notLost as s' w t all hrun hw hp := by
    have hI : ∀ (s₁ : CondState T M) a s₂, (∃ l, s₁.Inv l) → (condSys T M).step s₁ a = some s₂ →
        ∃ l, s₂.Inv l := fun s₁ a s₂ hi hs => inv_inductive.step s₁ a s₂ hi trivial hs
    rcases Sys.Run.until (P := fun s₁ => s₁.Released w)
      (E := fun m a m' => m.Readies a m' w) hI
      (fun s₁ a s₂ _ hr hs => Released.step hs hr) hrun ⟨l, h⟩ hw with hr | he
    · left
      obtain ⟨l', h'⟩ : ∃ l, s'.Inv l := Sys.Inductive.run inv_inductive hrun ⟨l, h⟩
      rcases hr with ⟨m, timed, hpw⟩ | hstop
      · have : w = t := h'.alone w t (by rw [hpw]; rfl) (by rw [hp]; rfl)
        rw [this, hp] at hpw
        exact absurd hpw (by simp)
      · rcases h'.found t all hp with ⟨-, hne⟩ | ⟨-, hnone⟩
        · exact hne
        · simp [hnone w] at hstop
    · exact .inr he

end CondState

/-- **The condition variable is correct**, at every state that any interleaving reaches. -/
theorem cond_correct {T M : Type} [DecidableEq T] [DecidableEq M] {s : CondState T M}
    (h : (condSys T M).Reach s) : s.Safe := by
  obtain ⟨l, hl⟩ := CondState.inv_inductive.reachIf h
  exact hl.safe

/-- Two threads wait; the first times out, and before it is back on its feet a third signals: the
signal passes over it and makes the second ready. -/
theorem cond_correct_run : ∃ s : CondState Nat Unit, s.Safe ∧ s.pc 0 = .woken () ∧
    s.pc 2 = .sigUnlock false ∧ s.made 2 = [1] := by
  obtain ⟨s, hr, hp⟩ := Sys.reachIf_of_exec (M := condSys Nat Unit) (C := fun _ _ => True)
    (fun _ _ => true) (.initial Nat Unit)
    [.lock 0 (), .wait 0 () true, .next 0, .next 0, .next 0, .lock 1 (), .wait 1 () false, .next 1,
      .next 1, .next 1, .timeout 0, .lock 2 (), .signal 2 false, .next 2, .next 2, .next 2, .next 2,
      .next 2, .next 2]
    (fun s => s.pc 0 = .woken () ∧ s.pc 2 = .sigUnlock false ∧ s.made 2 = [1])
    (fun _ _ _ => trivial) rfl (by decide)
  exact ⟨s, cond_correct hr, of_decide_eq_true hp⟩

end TinyOS
