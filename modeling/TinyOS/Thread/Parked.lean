import TinyOS.Thread.Join

/-!
# Threads that are parked

A thread that exits before anybody joins it parks on the `waiting` of its PTCB, to be woken by its
first joiner; a joiner parks on `thread_join`, to be woken when the thread exits. `ThreadDetach`
wakes the joiners, since nobody may join the thread any more. **It does not wake the thread itself**:
one that is parked in `ThreadExit` when it is detached sleeps there for ever, for every later join is
refused (`not_parked_awaited`).

As long as no thread is detached while it is parked, whoever sleeps has somebody to wake it
(`parked_awaited`). The calls are to be `Sound` besides, as in `Thread/Join.lean`: where a thread is
detached while others wait to join it, the last of them frees its PTCB, and the next `CreateThread`
may be given the block while the thread still runs.
-/

set_option autoImplicit false

namespace TinyOS

open Transition

namespace Threads

variable {P : Type} [DecidableEq P] {s s' : Threads P}

/-- No wake-up is pending. -/
def Quiet (s : Threads P) : Prop :=
  ∀ u, s.pc u ≠ .exitWoken ∧ ∀ t k, s.pc u ≠ .joinWoken t k

/-- Whoever is asleep has somebody to wake it. This is about the states in which no wake-up is
pending. -/
structure Awaited (s : Threads P) : Prop where
  /-- A thread asleep in `ThreadExit` may still be joined, and nobody joins it yet. -/
  parked : ∀ t, s.pc t = .exitAsleep →
    (s.ptcb t).detached = false ∧ (s.ptcb t).waitingThreads = 0
  /-- A thread asleep in `ThreadJoin` waits for one that has not called `ThreadExit`. -/
  joining : ∀ u t k, s.pc u = .joinAsleep t k → (s.pc t).exiting = false

/-- No thread is detached while it is parked in `ThreadExit`. -/
def SparesParked (s : Threads P) : ThreadAction P → Prop
  | .threadDetach _ (some t) => s.pc t ≠ .exitAsleep
  | _ => True

instance (s : Threads P) : (a : ThreadAction P) → Decidable (s.SparesParked a)
  | .threadDetach _ (some _) => inferInstanceAs (Decidable (_ ≠ _))
  | .threadDetach _ none | .threadJoin _ _ _ | .createThread _ _ | .threadExit _ _ | .resume _
  | .releaseTCB _ => inferInstanceAs (Decidable True)

/-- The invariant; `J t` lists the threads in a join of `t`. -/
structure Handshake (s : Threads P) (J : Tid P → List (Tid P)) : Prop where
  main : ∀ p, s.owner (.main p) = p
  unborn : ∀ n, s.spawned ≤ n → s.pc (.spawned n) = .unborn ∧
    (s.ptcb (.spawned n)).detached = true ∧ J (.spawned n) = []
  joiners : ∀ t u, u ∈ J t ↔ (s.pc u).joins t = true
  nodup : ∀ t, (J t).Nodup
  count : ∀ t, (s.ptcb t).waitingThreads = (J t).length
  /-- A joiner waits for a thread that has neither exited nor been detached. -/
  asleep : ∀ u t k, s.pc u = .joinAsleep t k →
    (s.ptcb t).detached = false ∧ s.pc t ≠ .exited
  parked : ∀ t, s.pc t = .exitAsleep → J t = [] ∧ (s.ptcb t).detached = false
  exited : ∀ t, s.pc t = .exited → (s.ptcb t).detached = true

variable {J : Tid P → List (Tid P)}

theorem handshake_initial (p : P) : (Threads.initial p).Handshake fun _ => [] := by
  have hpc : ∀ t, (Threads.initial p).pc t = .running ∨ (Threads.initial p).pc t = .unborn := by
    intro t
    cases t <;> simp [initial]
  constructor
  case joiners =>
    intro t u
    rcases hpc u with h | h <;> simp [h, ThreadPc.joins]
  case asleep | parked | exited =>
    intro t
    rcases hpc t with h | h <;> simp [h]
  all_goals simp [initial]

namespace Handshake

theorem joining (h : s.Handshake J) : s.Joining J := ⟨h.joiners, h.nodup, h.count⟩

theorem of_joining (main : ∀ p, s.owner (.main p) = p)
    (unborn : ∀ n, s.spawned ≤ n → s.pc (.spawned n) = .unborn ∧
      (s.ptcb (.spawned n)).detached = true ∧ J (.spawned n) = [])
    (joining : s.Joining J)
    (asleep : ∀ u t k, s.pc u = .joinAsleep t k →
      (s.ptcb t).detached = false ∧ s.pc t ≠ .exited)
    (parked : ∀ t, s.pc t = .exitAsleep → J t = [] ∧ (s.ptcb t).detached = false)
    (exited : ∀ t, s.pc t = .exited → (s.ptcb t).detached = true) : s.Handshake J where
  main := main
  unborn := unborn
  joiners := joining.joiners
  nodup := joining.nodup
  count := joining.count
  asleep := asleep
  parked := parked
  exited := exited

theorem awaited (h : s.Handshake J) (hq : s.Quiet) : s.Awaited where
  parked t ht := by
    obtain ⟨hJ, hd⟩ := h.parked t ht
    exact ⟨hd, by rw [h.count, hJ]; rfl⟩
  joining u t k hu := by
    have hmem : u ∈ J t := by
      rw [h.joiners, hu]
      simp [ThreadPc.joins]
    have hne := (h.asleep u t k hu).2
    cases ht : s.pc t with
    | exitAsleep => simp [(h.parked t ht).1] at hmem
    | exitWoken => exact absurd ht (hq t).1
    | exited => exact absurd ht hne
    | _ => rfl

/-- A thread joins another one, and wakes it if it is parked. -/
theorem startJoin (h : s.Handshake J) {u t : Tid P} (k : JoinCaller) (hu : s.pc u = .running)
    (hr : s.joinRefused u t = false) :
    (s.startJoin u t k).Handshake (Function.update J t (J t ++ [u])) := by
  simp only [joinRefused, decide_eq_false_iff_not, not_or, not_not, not_and] at hr
  obtain ⟨howner, ⟨-, htm⟩, hdet⟩ := hr
  have hd : (s.ptcb t).detached = false := by
    by_contra hd
    exact htm (hdet (by simpa using hd))
  have hne : s.pc t ≠ .exited := by
    intro he
    simp [h.exited t he] at hd
  have hjoining := h.joining.startJoin t k (u := u) (by simp [hu, ThreadPc.joins])
  have hpc := s.startJoin_pc u t k
  have hptcb := s.startJoin_ptcb u t k
  obtain ⟨e₁, -, -, -, -, -, e₂⟩ := s.startJoin_rest u t k
  generalize s.startJoin u t k = s' at *
  -- `t` is not detached and so neither unborn nor gone.
  apply of_joining <;> try simp only [hpc, hptcb, e₁, e₂, Function.update_apply]
  case main => exact h.main
  case unborn => have := h.unborn; grind
  case joining => exact hjoining
  case asleep => have := h.asleep; grind
  case parked => have := h.parked; grind
  case exited => have := h.exited; grind

/-- A joiner that was woken returns. -/
theorem finishJoin (h : s.Handshake J) {u t : Tid P} {k : JoinCaller}
    (hu : s.pc u = .joinWoken t k) :
    ((s.finishJoin u t k).goto u .running).Handshake (Function.update J t ((J t).erase u)) := by
  have hjoining := h.joining.finishJoin hu
  have hpc := s.finishJoin_pc u t k
  have hptcb := s.finishJoin_ptcb u t k
  obtain ⟨e₁, e₂, -⟩ := s.finishJoin_list u t k
  generalize (s.finishJoin u t k).goto u .running = s' at *
  apply of_joining <;> try simp only [hpc, hptcb, e₁, e₂, Function.update_apply]
  case main => exact h.main
  case unborn => have := h.unborn; grind
  case joining => exact hjoining
  case asleep => have := h.asleep; grind
  case parked => have := h.parked; grind
  case exited => have := h.exited; grind

theorem create (h : s.Handshake J) (u : Tid P) (task : Bool) :
    (s.sysCreateThread u task).Handshake J := by
  unfold sysCreateThread
  cases task with
  | false => exact h
  | true =>
    obtain ⟨hnew, -, hJ⟩ := h.unborn s.spawned le_rfl
    have hjoining := h.joining.create hnew hJ u true
    simp only [if_true]
    apply of_joining <;> try simp only [Function.update_apply]
    case main => have := h.main; grind
    case unborn => have := h.unborn; grind
    case joining => exact hjoining
    case asleep => have := h.asleep; grind
    case parked => have := h.parked; grind
    case exited => have := h.exited; grind

/-- No joiner sleeps on a thread once it was detached. -/
theorem not_joinAsleep (h : s.Handshake J) {t : Tid P} (ht : s.pc t ≠ .exited) (v : Tid P)
    (k : JoinCaller) : (s.sysThreadDetach t).pc v ≠ .joinAsleep t k := by
  rw [sysThreadDetach_pc ht]
  split
  · rw [ne_eq, ThreadPc.wake_eq_joinAsleep]
    exact fun hc => hc.2 rfl
  · rename_i hw
    intro hv
    have hm : v ∈ J t := by
      rw [h.joiners, hv]
      simp [ThreadPc.joins]
    have := List.length_pos_of_mem hm
    have := h.count t
    omega

/-- A thread that is not parked is detached, by another one or by itself. -/
theorem detach (h : s.Handshake J) {t : Tid P} (ht : s.pc t ≠ .exitAsleep) :
    (s.sysThreadDetach t).Handshake J := by
  by_cases hne : s.pc t = .exited
  · unfold sysThreadDetach
    rwa [if_pos hne]
  · have hnot := h.not_joinAsleep hne
    have hptcb := sysThreadDetach_ptcb hne
    -- The joiners of `t` may have been made ready; nobody else moves.
    have hjoining := h.joining.detach hne
    have hkeep : ∀ v q, (∀ t', q.joins t' = false) →
        ((s.sysThreadDetach t).pc v = q ↔ s.pc v = q) := by
      intro v q hq
      rw [sysThreadDetach_pc hne]
      split
      · exact ThreadPc.wake_eq hq
      · rfl
    have hasleep : ∀ v t' k, (s.sysThreadDetach t).pc v = .joinAsleep t' k →
        s.pc v = .joinAsleep t' k := by
      intro v t' k hv
      rw [sysThreadDetach_pc hne] at hv
      split at hv
      · exact (ThreadPc.wake_eq_joinAsleep.mp hv).1
      · exact hv
    have hparked := fun v => hkeep v .exitAsleep fun _ => rfl
    have hexited := fun v => hkeep v .exited fun _ => rfl
    have hunborn := fun v => hkeep v .unborn fun _ => rfl
    rw [sysThreadDetach_rest] at hjoining ⊢
    generalize s.sysThreadDetach t = s' at *
    apply of_joining <;> try simp only [hptcb]
    case main => exact h.main
    case unborn => have := h.unborn; grind
    case joining => exact hjoining
    case asleep => have := h.asleep; grind
    case parked => have := h.parked; grind
    case exited => have := h.exited; grind

/-- A thread for which nobody sleeps leaves for good. -/
theorem leave (h : s.Handshake J) {u : Tid P} (hu : ∀ t, (s.pc u).joins t = false)
    (hb : s.pc u ≠ .unborn) (hd : (s.ptcb u).detached = true)
    (hn : ∀ v k, s.pc v ≠ .joinAsleep u k) : (s.goto u .exited).Handshake J := by
  apply of_joining <;> try simp only [goto, Function.update_apply]
  case main => exact h.main
  case unborn => have := h.unborn; grind
  case joining => exact h.joining.goto fun t => (hu t).symm
  case asleep => have := h.asleep; grind
  case parked => have := h.parked; grind
  case exited => have := h.exited; grind

/-- The end of `ThreadExit` wakes the joiners. -/
theorem finishExit (h : s.Handshake J) {u : Tid P} (hu : ∀ t, (s.pc u).joins t = false)
    (hb : s.pc u ≠ .unborn) (hp : s.pc u ≠ .exitAsleep) (he : s.pc u ≠ .exited) :
    (s.finishExit u).Handshake J := by
  refine (h.detach hp).leave (fun t => ?_) ?_ ?_ (h.not_joinAsleep he)
  · rw [sysThreadDetach_pc he]
    split <;> simp [hu]
  · rw [sysThreadDetach_pc he]
    split
    · rwa [ne_eq, ThreadPc.wake_eq fun _ => rfl]
    · exact hb
  · rw [sysThreadDetach_ptcb he, if_pos rfl]

/-- The exit value, and what the PTCB of a thread that leaves is counted in, are no part of the
invariant. -/
theorem congr (h : s.Handshake J) (ho : s'.owner = s.owner) (hn : s'.spawned = s.spawned)
    (hpc : s'.pc = s.pc) (hp : ∀ t, (s'.ptcb t).waitingThreads = (s.ptcb t).waitingThreads ∧
      (s'.ptcb t).detached = (s.ptcb t).detached) : s'.Handshake J where
  main := ho ▸ h.main
  unborn n := by
    rw [hn, hpc, (hp _).2]
    exact h.unborn n
  joiners := hpc ▸ h.joiners
  nodup := h.nodup
  count t := (hp t).1.trans (h.count t)
  asleep u t k := by
    rw [hpc, (hp t).2]
    exact h.asleep u t k
  parked t := by
    rw [hpc, (hp t).2]
    exact h.parked t
  exited t := by
    rw [hpc, (hp t).2]
    exact h.exited t

theorem exitLoop (h : s.Handshake J) {u : Tid P} (hu : s.pc u = .running) :
    ∃ J', (s.exitLoop u).Handshake J' := by
  unfold Threads.exitLoop
  split
  · exact ⟨J, by rwa [goto_self hu]⟩
  · rename_i t _ _
    split
    · exact ⟨J, h.congr rfl rfl rfl fun _ => ⟨rfl, rfl⟩⟩
    · rename_i hr
      exact ⟨_, h.startJoin .exit hu (by simpa using hr)⟩

/-- A thread without joiners that may be joined parks. -/
theorem park (h : s.Handshake J) {u : Tid P} (hu : s.pc u = .running)
    (hd : (s.ptcb u).detached = false) (hJ : J u = []) : (s.goto u .exitAsleep).Handshake J := by
  apply of_joining <;> try simp only [goto, Function.update_apply]
  case main => exact h.main
  case unborn => have := h.unborn; grind
  case joining => exact h.joining.goto fun t => by rw [hu]; rfl
  case asleep => have := h.asleep; grind
  case parked => have := h.parked; grind
  case exited => have := h.exited; grind

theorem threadExit (h : s.Handshake J) {u : Tid P} (v : Int) (hu : s.pc u = .running) :
    ∃ J', (s.sysThreadExit u v).Handshake J' := by
  unfold sysThreadExit
  simp only
  split
  · have h₁ : ({ s with exitArg := Function.update s.exitArg u (some v) }).Handshake J :=
      h.congr rfl rfl rfl fun _ => ⟨rfl, rfl⟩
    exact h₁.exitLoop hu
  · -- What the thread stores does not matter.
    have h₁ : ({ s with exitArg := Function.update s.exitArg u (some v) }.modify u
        fun b => { b with exitval := v }).Handshake J := by
      refine h.congr rfl rfl rfl fun t => ?_
      simp only [modify, Function.update_apply]
      split
      · rename_i ht
        subst ht
        exact ⟨rfl, rfl⟩
      · exact ⟨rfl, rfl⟩
    have hu₁ : ({ s with exitArg := Function.update s.exitArg u (some v) }.modify u
        fun b => { b with exitval := v }).pc u = .running := hu
    generalize ({ s with exitArg := Function.update s.exitArg u (some v) }.modify u
      fun b => { b with exitval := v }) = s₁ at h₁ hu₁
    have hnj₁ : ∀ t, (s₁.pc u).joins t = false := by simp [hu₁, ThreadPc.joins]
    split
    · rename_i hd
      have h₂ : (s₁.freePTCB (s₁.owner u) u).Handshake J :=
        h₁.congr rfl rfl rfl fun _ => ⟨rfl, rfl⟩
      refine ⟨J, h₂.leave hnj₁ (by simp [freePTCB, hu₁]) hd fun w k hw => ?_⟩
      have := (h₁.asleep w u k hw).1
      simp [hd] at this
    · rename_i hd
      split
      · rename_i hw
        have hJ : J u = [] := by
          have := h₁.count u
          exact List.length_eq_zero_iff.mp (by omega)
        exact ⟨J, h₁.park hu₁ (by simpa using hd) hJ⟩
      · exact ⟨J, h₁.finishExit hnj₁ (by simp [hu₁]) (by simp [hu₁]) (by simp [hu₁])⟩

theorem resume (h : s.Handshake J) {u : Tid P} (hp : s.perform (.resume u) = some s') :
    ∃ J', s'.Handshake J' := by
  simp only [perform] at hp
  split at hp
  · cases hp
  · split at hp
    · rename_i t store hu
      cases hp
      exact ⟨_, h.finishJoin hu⟩
    · rename_i t hu
      cases hp
      exact (h.finishJoin hu).exitLoop (Function.update_self ..)
    · rename_i hu
      cases hp
      exact ⟨J, h.finishExit (by simp [hu, ThreadPc.joins]) (by simp [hu]) (by simp [hu])
        (by simp [hu])⟩
    · cases hp

/-- **One step** keeps the invariant, if it meets the condition. -/
theorem perform (h : s.Handshake J) {a : ThreadAction P} (hc : s.SparesParked a)
    (hp : s.perform a = some s') : ∃ J', s'.Handshake J' := by
  cases a with
  | resume u => exact h.resume hp
  | createThread u task =>
    simp only [Threads.perform] at hp
    split at hp
    · cases hp
    · obtain ⟨-, hs⟩ := Option.ite_none_right_eq_some.mp hp
      cases hs
      exact ⟨J, h.create u task⟩
  | threadExit u v =>
    simp only [Threads.perform] at hp
    split at hp
    · cases hp
    · obtain ⟨hu, hs⟩ := Option.ite_none_right_eq_some.mp hp
      cases hs
      exact h.threadExit v hu
  | releaseTCB t =>
    simp only [Threads.perform] at hp
    split at hp
    · cases hp
    · obtain ⟨-, hs⟩ := Option.ite_none_right_eq_some.mp hp
      cases hs
      exact ⟨J, h.congr rfl rfl rfl fun _ => ⟨rfl, rfl⟩⟩
  | threadJoin u tid store =>
    simp only [Threads.perform] at hp
    split at hp
    · cases hp
    · obtain ⟨hu, hs⟩ := Option.ite_none_right_eq_some.mp hp
      cases tid with
      | none =>
        cases hs
        exact ⟨J, h⟩
      | some t =>
        cases hs
        split
        · exact ⟨J, h⟩
        · rename_i hr
          exact ⟨_, h.startJoin (.api store) hu (by simpa using hr)⟩
  | threadDetach u tid =>
    simp only [Threads.perform] at hp
    split at hp
    · cases hp
    · obtain ⟨-, hs⟩ := Option.ite_none_right_eq_some.mp hp
      cases tid with
      | none =>
        cases hs
        exact ⟨J, h⟩
      | some t =>
        cases hs
        exact ⟨J, h.detach hc⟩

theorem inductive_handshake :
    (threadSys P).InductiveIf (fun s a => s.SparesParked a) fun s => ∃ J, s.Handshake J where
  init := by
    rintro _ ⟨p, rfl⟩
    exact ⟨_, handshake_initial p⟩
  step s a s' h hc hp := h.elim fun _ h => h.perform hc hp

end Handshake

end Threads

/-- **Nobody is left parked**, in every run of sound calls in which no thread is detached while it is
parked in `ThreadExit`. -/
theorem parked_awaited (P : Type) [DecidableEq P] (s : Threads P)
    (hr : (threadSys P).ReachIf (fun s a => s.Sound a ∧ s.SparesParked a) s) (hq : s.Quiet) :
    s.Awaited := by
  obtain ⟨J, h⟩ := Threads.Handshake.inductive_handshake.reachIf (hr.mono fun _ _ hc => hc.2)
  exact h.awaited hq

/-- One thread is parked in `ThreadExit`, and the main thread sleeps until another one exits. -/
theorem parked_awaited_run : ∃ s : Threads Unit, s.Awaited ∧
    s.pc (.spawned 0) = .exitAsleep ∧ s.pc (.main ()) = .joinAsleep (.spawned 1) (.api false) := by
  obtain ⟨s, hr, hp⟩ := Sys.reachIf_of_exec (M := threadSys Unit)
    (C := fun s a => s.Sound a ∧ s.SparesParked a)
    (fun s a => decide (s.Sound a ∧ s.SparesParked a)) (Threads.initial ())
    [.createThread (.main ()) true, .createThread (.main ()) true, .threadExit (.spawned 0) 7,
      .threadJoin (.main ()) (some (.spawned 1)) false]
    (fun s => decide (s.pc (.spawned 0) = .exitAsleep ∧
      s.pc (.main ()) = .joinAsleep (.spawned 1) (.api false) ∧ s.pc (.spawned 1) = .running ∧
      s.spawned = 2))
    (fun s a h => of_decide_eq_true h) ⟨(), rfl⟩ (by decide)
  obtain ⟨hx, hm, hr₁, hn⟩ := of_decide_eq_true hp
  obtain ⟨J, hJ⟩ := Threads.Handshake.inductive_handshake.reachIf (hr.mono fun _ _ hc => hc.2)
  refine ⟨s, parked_awaited Unit s hr fun u => ?_, hx, hm⟩
  match u with
  | .main () => simp [hm]
  | .spawned 0 => simp [hx]
  | .spawned 1 => simp [hr₁]
  | .spawned (n + 2) => simp [(hJ.unborn (n + 2) (by omega)).1]

/-- A thread parks, and then the main thread detaches it: nobody can wake it any more. -/
theorem not_parked_awaited :
    ¬ ∀ s : Threads Unit, (threadSys Unit).Reach s → s.Quiet → s.Awaited := by
  intro hall
  obtain ⟨s, hr, hp⟩ := Sys.reachIf_of_exec (M := threadSys Unit) (C := fun s a => s.SparesParked a)
    (fun s a => decide (s.SparesParked a)) (Threads.initial ())
    [.createThread (.main ()) true, .threadExit (.spawned 0) 7]
    (fun s => decide (s.pc (.spawned 0) = .exitAsleep ∧ s.pc (.main ()) = .running ∧
      s.spawned = 1 ∧ s.hung = false ∧ (s.ptcb (.spawned 0)).waitingThreads = 0))
    (fun s a h => of_decide_eq_true h) ⟨(), rfl⟩ (by decide)
  obtain ⟨hx, hm, hn, hh, hw⟩ := of_decide_eq_true hp
  obtain ⟨J, hJ⟩ := Threads.Handshake.inductive_handshake.reachIf hr
  have hstep : (threadSys Unit).step s (.threadDetach (.main ()) (some (.spawned 0))) =
      some (s.sysThreadDetach (.spawned 0)) := by
    simp [threadSys, Threads.perform, hh, hm]
  have hne : s.pc (.spawned 0) ≠ .exited := by simp [hx]
  have hpc : ∀ u, (s.sysThreadDetach (.spawned 0)).pc u = s.pc u := fun u => by
    rw [Threads.sysThreadDetach_pc hne, if_neg (by omega)]
  have hquiet : (s.sysThreadDetach (.spawned 0)).Quiet := by
    intro u
    rw [hpc]
    cases u with
    | main q => simp [hm]
    | spawned n =>
      cases n with
      | zero => simp [hx]
      | succ n => simp [(hJ.unborn (n + 1) (by omega)).1]
  have hd := ((hall _ (hr.reach.next hstep) hquiet).parked (.spawned 0) (by rw [hpc, hx])).1
  rw [Threads.sysThreadDetach_ptcb hne, if_pos rfl] at hd
  cases hd

end TinyOS
