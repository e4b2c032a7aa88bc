import TinyOS.Thread.Join

/-!
# Thread handles

A `Tid_t` is the address of a TCB, and both `ThreadJoin` and `ThreadDetach` follow it before they
look at anything else. `Thread/Basic.lean` lets a block that was released keep its contents; here
**an access to a released block is a failure of the call**, and a call is followed field by field.

`sys_ThreadJoin` compares the owner of the thread with the calling process. `sys_ThreadDetach`
compares nothing: it detaches any thread that has not exited, of whichever process
(`foreign_refused_iff`).
-/

set_option autoImplicit false

namespace TinyOS

open Transition

/-- How a call ends its first stretch. -/
inductive HandleCall (P : Type) where
  /-- It reads a TCB or a PTCB that was released. -/
  | released
  /-- `kernel_wait`. -/
  | blocks (s : Threads P)
  | ret (code : Int) (s : Threads P)

/-- The state it leaves, if it leaves one. -/
def HandleCall.state {P : Type} : HandleCall P → Option (Threads P)
  | .released => none
  | .blocks s | .ret _ s => some s

namespace Threads

variable {P : Type} [DecidableEq P] {s s' : Threads P}

/-- `sys_ThreadJoin`, up to `kernel_wait`. -/
def sysThreadJoin (s : Threads P) (u : Tid P) (tid : Option (Tid P)) (store : Bool) :
    HandleCall P :=
  match tid with
  | none => .ret (-1) s
  | some t =>
    -- `((TCB*)tid)->owner_ptcb` and `((TCB*)tid)->owner_pcb`.
    if s.released t then .released
    else if s.owner t ≠ s.owner u then .ret (-1) s
    else if t = u ∨ t = .main (s.owner u) then .ret (-1) s
    -- `ptcb->detached`.
    else if s.freed t ≠ 0 then .released
    else if (s.ptcb t).detached then .ret (-1) s
    else .blocks (s.startJoin u t (.api store))

/-- `sys_ThreadDetach`. -/
def sysThreadDetachTid (s : Threads P) (tid : Option (Tid P)) : HandleCall P :=
  match tid with
  | none => .ret (-1) s
  | some t =>
    -- `((TCB*)tid)->owner_ptcb` and `((TCB*)tid)->state`.
    if s.released t then .released
    else if s.pc t = .exited then .ret (-1) s
    -- `ptcb->detached = 1`.
    else if s.freed t ≠ 0 then .released
    else .ret 0 (s.sysThreadDetach t)

/-- Where no access fails, these are the steps of the system. -/
theorem perform_threadJoin (hh : s.hung = false) {u : Tid P} (hu : s.pc u = .running)
    {tid : Option (Tid P)} {store : Bool} (hs : (s.sysThreadJoin u tid store).state = some s') :
    s.perform (.threadJoin u tid store) = some s' := by
  cases tid with
  | none =>
    cases hs
    simp [perform, hh, hu]
  | some t =>
    simp only [perform, hh, Bool.false_eq_true, if_false, hu, if_true]
    simp only [sysThreadJoin] at hs
    split at hs
    · cases hs
    · split at hs
      · rename_i ho
        cases hs
        simp [joinRefused, ho]
      · rename_i ho
        split at hs
        · rename_i hm
          cases hs
          simp [joinRefused, hm]
        · rename_i hm
          split at hs
          · cases hs
          · split at hs
            · rename_i hd
              cases hs
              simp [joinRefused, hd, (not_or.mp hm).2]
            · rename_i hd
              cases hs
              have hr : s.joinRefused u t = false := by
                simp only [joinRefused, decide_eq_false_iff_not]
                rintro (h | h | h)
                · exact ho h
                · exact hm h
                · exact hd h.1
              simp [hr]

theorem perform_threadDetach (hh : s.hung = false) {u : Tid P} (hu : s.pc u = .running)
    {tid : Option (Tid P)} (hs : (s.sysThreadDetachTid tid).state = some s') :
    s.perform (.threadDetach u tid) = some s' := by
  cases tid with
  | none =>
    cases hs
    simp [perform, hh, hu]
  | some t =>
    simp only [perform, hh, Bool.false_eq_true, if_false, hu, if_true]
    simp only [sysThreadDetachTid] at hs
    split at hs
    · cases hs
    · split at hs
      · rename_i he
        cases hs
        rw [sysThreadDetach, if_pos he]
      · split at hs
        · cases hs
        · cases hs
          rfl

/-- The handle of a thread that exists or did, but is no live thread of the process of `u`: its
process is another one, or its TCB was released. -/
def Foreign (s : Threads P) (u t : Tid P) : Prop :=
  s.pc t ≠ .unborn ∧ (s.owner t ≠ s.owner u ∨ s.released t = true)

end Threads

/-- **A handle that names no live thread of the calling process is refused**, and nothing changes,
by `ThreadJoin` exactly if its TCB was not released, and by `ThreadDetach` exactly if moreover the
thread has exited. -/
theorem foreign_refused_iff (P : Type) [DecidableEq P] (s : Threads P) (u t : Tid P)
    (hf : s.Foreign u t) (store : Bool) :
    (s.sysThreadJoin u (some t) store = .ret (-1) s ↔ s.released t = false) ∧
    (s.sysThreadDetachTid (some t) = .ret (-1) s ↔ s.released t = false ∧ s.pc t = .exited) := by
  obtain ⟨-, hforeign⟩ := hf
  cases hr : s.released t with
  | true => simp [Threads.sysThreadJoin, Threads.sysThreadDetachTid, hr]
  | false =>
    have ho : s.owner t ≠ s.owner u := hforeign.resolve_right (by simp [hr])
    constructor
    · simp [Threads.sysThreadJoin, hr, ho]
    · simp only [Threads.sysThreadDetachTid, hr, Bool.false_eq_true, if_false, true_and]
      split
      · rename_i he
        simp [he]
      · rename_i he
        split <;> simp [he]

/-- A thread of another process that has exited. -/
theorem foreign_refused_exited : ∃ s : Threads Bool,
    s.sysThreadJoin (.main false) (some (.spawned 0)) true = .ret (-1) s ∧
      s.sysThreadDetachTid (some (.spawned 0)) = .ret (-1) s := by
  obtain ⟨s, -, hp⟩ := Sys.reachIf_of_exec (M := threadSys Bool) (C := fun _ _ => True)
    (fun _ _ => true) (Threads.initial false)
    [.createThread (.main true) true, .threadJoin (.main true) (some (.spawned 0)) true,
      .threadExit (.spawned 0) 7]
    (fun s => decide (s.owner (.spawned 0) ≠ s.owner (.main false) ∧
      s.released (.spawned 0) = false ∧ s.pc (.spawned 0) = .exited))
    (fun _ _ _ => trivial) ⟨false, rfl⟩ (by decide)
  obtain ⟨ho, hr, he⟩ := of_decide_eq_true hp
  have h := foreign_refused_iff Bool s (.main false) (.spawned 0) ⟨by simp [he], .inl ho⟩ true
  exact ⟨s, h.1.mpr hr, h.2.mpr ⟨hr, he⟩⟩

/-- A process detaches a running thread of another one, which cannot be joined any more. -/
theorem not_foreign_refused : ¬ ∀ s : Threads Bool, (threadSys Bool).Reach s →
    ∀ u t store, s.pc u = .running → s.Foreign u t →
      s.sysThreadJoin u (some t) store = .ret (-1) s ∧
        s.sysThreadDetachTid (some t) = .ret (-1) s := by
  intro hall
  obtain ⟨s, hr, hp⟩ := Sys.reachIf_of_exec (M := threadSys Bool) (C := fun _ _ => True)
    (fun _ _ => true) (Threads.initial false) [.createThread (.main true) true]
    (fun s => decide (s.pc (.main false) = .running ∧ s.pc (.spawned 0) = .running ∧
      s.owner (.spawned 0) ≠ s.owner (.main false) ∧ s.released (.spawned 0) = false ∧
      s.freed (.spawned 0) = 0))
    (fun _ _ _ => trivial) ⟨false, rfl⟩ (by decide)
  obtain ⟨hu, ht, ho, hrel, hf⟩ := of_decide_eq_true hp
  have hd := (hall s hr (.main false) (.spawned 0) true hu ⟨by simp [ht], .inl ho⟩).2
  simp [Threads.sysThreadDetachTid, hrel, ht, hf] at hd

end TinyOS
