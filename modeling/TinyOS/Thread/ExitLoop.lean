import TinyOS.Thread.Join
import Mathlib.Logic.Function.Iterate

/-!
# The loop of the main thread

The main thread's `ThreadExit` waits for the other threads of its process:
`while(!is_rlist_empty(&pcb->ptcb_list))` it calls `sys_ThreadJoin` on the first one, and does not
look at what that returns. **A join of a thread that is detached is refused at once**, neither blocks
nor takes anything off the list, and the loop goes round for ever, with the kernel lock
(`exit_loop_progresses_iff`). A thread is detached by `ThreadDetach`, and also when it exits: one
that has exited stays first on the list until the last of its joiners has returned, and these cannot
return as long as the loop holds the lock.
-/

set_option autoImplicit false

namespace TinyOS

open Transition

namespace Threads

variable {P : Type} [DecidableEq P] {s s' : Threads P}

/-- One iteration of the loop, up to `kernel_wait` or to the next test; `none` if the test fails. -/
def exitIteration (s : Threads P) (u : Tid P) : Option (Threads P) :=
  match s.ptcbList (s.owner u) with
  | [] => none
  | t :: _ => some (if s.joinRefused u t then s else s.startJoin u t .exit)

/-- The thread `u` has blocked in `kernel_wait`, or a PTCB has left the list of its process. -/
def Progresses (s s' : Threads P) (u : Tid P) : Prop :=
  (∃ t k, s'.pc u = .joinAsleep t k) ∨ ∃ t ∈ s.ptcbList (s.owner u), t ∉ s'.ptcbList (s.owner u)

/-- From `s`, the main thread `u` comes to the test of its loop, in state `s'`: it calls
`ThreadExit`, or goes on after a join. -/
inductive ComesToTest (s : Threads P) (u : Tid P) : Threads P → Prop
  | call (v : Int) : s.pc u = .running →
      ComesToTest s u { s with exitArg := Function.update s.exitArg u (some v) }
  | back (t : Tid P) : s.pc u = .joinWoken t .exit →
      ComesToTest s u ((s.finishJoin u t .exit).goto u .running)

/-- The loop of `Thread/Basic.lean` in terms of its iterations: it spins if one comes back to the
test with nothing changed. -/
theorem exitLoop_eq {u : Tid P} (hu : s.pc u = .running) : s.exitLoop u =
    match s.exitIteration u with
    | none => s
    | some s' => if s'.pc u = .running then { s with hung := true } else s' := by
  unfold Threads.exitLoop exitIteration
  cases s.ptcbList (s.owner u) with
  | nil => exact goto_self hu
  | cons t rest =>
    cases hr : s.joinRefused u t with
    | true => simp [hr, hu]
    | false => simp [hr, startJoin_pc]

/-! ## The lists, in any run -/

/-- The lists hold threads that `CreateThread` made for the process. -/
structure Listed (s : Threads P) : Prop where
  main : ∀ p, s.owner (.main p) = p
  list : ∀ p t, t ∈ s.ptcbList p → (∃ n < s.spawned, t = .spawned n) ∧ s.owner t = p

namespace Listed

omit [DecidableEq P] in
theorem mono (h : s.Listed) (ho : s'.owner = s.owner) (hn : s'.spawned = s.spawned)
    (hl : ∀ p, (s'.ptcbList p).Sublist (s.ptcbList p)) : s'.Listed where
  main := ho ▸ h.main
  list p t ht := by
    rw [ho, hn]
    exact h.list p t ((hl p).subset ht)

theorem startJoin (h : s.Listed) (u t : Tid P) (k : JoinCaller) : (s.startJoin u t k).Listed := by
  obtain ⟨ho, hl, -, -, -, -, hn⟩ := s.startJoin_rest u t k
  exact h.mono ho hn fun p => by rw [hl]

theorem finishJoin (h : s.Listed) (u t : Tid P) (k : JoinCaller) :
    ((s.finishJoin u t k).goto u .running).Listed := by
  obtain ⟨ho, hn, hl⟩ := s.finishJoin_list u t k
  exact h.mono ho hn hl

theorem detach (h : s.Listed) (t : Tid P) : (s.sysThreadDetach t).Listed := by
  rw [sysThreadDetach_rest]
  exact h.mono rfl rfl fun _ => .refl _

theorem exitLoop (h : s.Listed) (u : Tid P) : (s.exitLoop u).Listed := by
  unfold Threads.exitLoop
  split
  · exact h.mono rfl rfl fun _ => .refl _
  · split
    · exact h.mono rfl rfl fun _ => .refl _
    · exact h.startJoin u _ .exit

theorem create (h : s.Listed) (u : Tid P) (task : Bool) : (s.sysCreateThread u task).Listed := by
  unfold sysCreateThread
  cases task with
  | false => exact h
  | true =>
    have hnew : ∀ p, .spawned s.spawned ∉ s.ptcbList p := by
      intro p hm
      obtain ⟨⟨n, hn, he⟩, -⟩ := h.list p _ hm
      cases he
      exact absurd hn (lt_irrefl _)
    simp only [if_true]
    constructor
    case main =>
      intro p
      simp [h.main p]
    case list =>
      intro p t ht
      have hlist := h.list p t
      have := hnew p
      simp only [Function.update_apply] at ht ⊢
      grind

theorem threadExit (h : s.Listed) (u : Tid P) (v : Int) : (s.sysThreadExit u v).Listed := by
  have h₁ : ({ s with exitArg := Function.update s.exitArg u (some v) }).Listed :=
    h.mono rfl rfl fun _ => .refl _
  unfold sysThreadExit
  simp only
  split
  · exact h₁.exitLoop u
  · split
    · exact h.mono rfl rfl fun _ => List.erase_sublist
    · split
      · exact h.mono rfl rfl fun _ => .refl _
      · have h₂ : (({ s with exitArg := Function.update s.exitArg u (some v) } : Threads P).modify u
            fun b => { b with exitval := v }).Listed := h.mono rfl rfl fun _ => .refl _
        exact (h₂.detach u).mono rfl rfl fun _ => .refl _

theorem perform (h : s.Listed) {a : ThreadAction P} (hp : s.perform a = some s') : s'.Listed := by
  unfold Threads.perform at hp
  split at hp
  · cases hp
  · cases a with
    | createThread u task =>
      obtain ⟨-, hs⟩ := Option.ite_none_right_eq_some.mp hp
      cases hs
      exact h.create u task
    | threadJoin u tid store =>
      obtain ⟨-, hs⟩ := Option.ite_none_right_eq_some.mp hp
      cases tid with
      | none =>
        cases hs
        exact h
      | some t =>
        cases hs
        split
        · exact h
        · exact h.startJoin u t _
    | threadDetach u tid =>
      obtain ⟨-, hs⟩ := Option.ite_none_right_eq_some.mp hp
      cases tid with
      | none =>
        cases hs
        exact h
      | some t =>
        cases hs
        exact h.detach t
    | threadExit u v =>
      obtain ⟨-, hs⟩ := Option.ite_none_right_eq_some.mp hp
      cases hs
      exact h.threadExit u v
    | resume u =>
      simp only at hp
      split at hp
      · cases hp
        exact h.finishJoin u _ _
      · cases hp
        exact (h.finishJoin u _ _).exitLoop u
      · cases hp
        exact (h.detach u).mono rfl rfl fun _ => .refl _
      · cases hp
    | releaseTCB t =>
      obtain ⟨-, hs⟩ := Option.ite_none_right_eq_some.mp hp
      cases hs
      exact h.mono rfl rfl fun _ => .refl _

theorem inductive_listed : (threadSys P).Inductive (Listed (P := P)) where
  init := by
    rintro _ ⟨p, rfl⟩
    exact ⟨fun _ => rfl, fun _ _ ht => absurd ht List.not_mem_nil⟩
  step _ _ _ h _ hp := h.perform hp

/-- Coming to the test, the thread runs; the lists are as they were, or shorter. -/
theorem comesToTest (h : s.Listed) {u : Tid P} (hc : s.ComesToTest u s') :
    s'.Listed ∧ s'.pc u = .running := by
  cases hc with
  | call v hu => exact ⟨h.mono rfl rfl fun _ => .refl _, hu⟩
  | back t hu => exact ⟨h.finishJoin u t .exit, Function.update_self ..⟩

/-- A main thread is refused the join of a thread on its list exactly if that one is detached. -/
theorem joinRefused_iff (h : s.Listed) {p : P} {t : Tid P} (ht : t ∈ s.ptcbList p) :
    s.joinRefused (.main p) t = true ↔ (s.ptcb t).detached = true := by
  obtain ⟨⟨n, -, rfl⟩, ho⟩ := h.list p t ht
  simp [joinRefused, ho, h.main]

end Listed

end Threads

/-- **An iteration of the loop blocks, or takes a PTCB off the list,** exactly if the first thread on
the list is not detached; one that does neither changes nothing, and so the loop spins. In every run,
wherever the main thread comes to the test of its loop. -/
theorem exit_loop_progresses_iff (P : Type) [DecidableEq P] (s s' s'' : Threads P) (p : P)
    (hr : (threadSys P).Reach s) (hc : s.ComesToTest (.main p) s')
    (hi : s'.exitIteration (.main p) = some s'') :
    (s'.Progresses s'' (.main p) ↔ ∀ t, (s'.ptcbList p).head? = some t →
      (s'.ptcb t).detached = false) ∧
    (¬ s'.Progresses s'' (.main p) → s'' = s') := by
  obtain ⟨hl, hu⟩ := (Threads.Listed.inductive_listed.reachIf hr).comesToTest hc
  unfold Threads.exitIteration at hi
  rw [hl.main] at hi
  split at hi
  · cases hi
  · rename_i t rest hlist
    have hrefused := hl.joinRefused_iff (p := p) (t := t) (by simp [hlist])
    simp only [hlist, List.head?_cons, Option.some.injEq, forall_eq']
    split at hi
    · rename_i href
      cases hi
      have hno : ¬ s'.Progresses s' (.main p) := by
        rintro (⟨t, k, hj⟩ | ⟨t, hm, hn⟩)
        · simp [hu] at hj
        · exact hn hm
      exact ⟨iff_of_false hno (by simp [hrefused.mp href]), fun _ => rfl⟩
    · rename_i href
      cases hi
      have hyes : s'.Progresses (s'.startJoin (.main p) t .exit) (.main p) :=
        .inl ⟨t, .exit, by rw [Threads.startJoin_pc, if_pos rfl]⟩
      exact ⟨iff_of_true hyes (by simpa [hrefused] using href), fun hno => absurd hyes hno⟩

/-- The main thread exits while another thread runs, and blocks. -/
theorem exit_loop_progresses_run : ∃ s' s'' : Threads Unit,
    s'.exitIteration (.main ()) = some s'' ∧ s'.Progresses s'' (.main ()) := by
  obtain ⟨s, hr, hp⟩ := Sys.reachIf_of_exec (M := threadSys Unit) (C := fun _ _ => True)
    (fun _ _ => true) (Threads.initial ()) [.createThread (.main ()) true]
    (fun s => decide (s.pc (.main ()) = .running ∧ s.ptcbList (s.owner (.main ())) = [.spawned 0] ∧
      s.ptcbList () = [.spawned 0] ∧ (s.ptcb (.spawned 0)).detached = false))
    (fun _ _ _ => trivial) ⟨(), rfl⟩ (by decide)
  obtain ⟨hu, hown, hl, hd⟩ := of_decide_eq_true hp
  obtain ⟨s'', hi⟩ : ∃ s'', ({ s with exitArg := Function.update s.exitArg (.main ()) (some 7) } :
      Threads Unit).exitIteration (.main ()) = some s'' := by
    unfold Threads.exitIteration
    rw [hown]
    exact ⟨_, rfl⟩
  refine ⟨_, s'', hi, ((exit_loop_progresses_iff Unit s _ s'' () hr (.call 7 hu) hi).1).mpr ?_⟩
  simp [hl, hd]

/-- A thread is detached while it runs, and the main thread exits: it goes round its loop without
end. -/
theorem not_exit_loop_progresses : ¬ ∀ (s s' s'' : Threads Unit), (threadSys Unit).Reach s →
    s.ComesToTest (.main ()) s' → s'.exitIteration (.main ()) = some s'' →
      s'.Progresses s'' (.main ()) := by
  intro hall
  obtain ⟨s, hr, hp⟩ := Sys.reachIf_of_exec (M := threadSys Unit) (C := fun _ _ => True)
    (fun _ _ => true) (Threads.initial ())
    [.createThread (.main ()) true, .threadDetach (.main ()) (some (.spawned 0))]
    (fun s => decide (s.pc (.main ()) = .running ∧
      s.ptcbList (s.owner (.main ())) = [.spawned 0] ∧
      s.joinRefused (.main ()) (.spawned 0) = true))
    (fun _ _ _ => trivial) ⟨(), rfl⟩ (by decide)
  obtain ⟨hu, hl, href⟩ := of_decide_eq_true hp
  obtain ⟨s', hs'⟩ : ∃ s' : Threads Unit,
      s' = { s with exitArg := Function.update s.exitArg (.main ()) (some 7) } := ⟨_, rfl⟩
  have hc : s.ComesToTest (.main ()) s' := hs' ▸ .call 7 hu
  have hi : s'.exitIteration (.main ()) = some s' := by
    subst hs'
    have href' : ({ s with exitArg := Function.update s.exitArg (.main ()) (some 7) } :
      Threads Unit).joinRefused (.main ()) (.spawned 0) = true := href
    unfold Threads.exitIteration
    simp only [hl, href', if_true]
  rcases hall s s' s' hr hc hi with ⟨t, k, hj⟩ | ⟨t, hm, hn⟩
  · subst hs'
    simp [hu] at hj
  · exact hn hm

end TinyOS
