import TinyOS.Proc.Invariant

/-!
# Reaping children

`wait_for_specific_child` looks at the parent of the child once, before it sleeps. When it wakes and
finds that the child is not alive any more, it takes it for a zombie of its own. **It is not one if
another thread of the process reaped it meanwhile**: the PCB is on the free list already, or belongs
to another process, and is pushed a second time. The free list then runs in a circle
(`not_procs_safe`).

In every run in which a woken `wait_for_specific_child` that finds its child not alive finds a
zombie of its own, the table is sound (`procs_safe`). `wait_for_any_child` needs no such condition:
it takes the child from the list of its process at the moment it reaps it.
-/

set_option autoImplicit false

namespace TinyOS

open Transition Chain

namespace Procs

variable {maxProc : Nat} {s s' : Procs}

/-- Every process that exits is returned by one `WaitChild`, and the PCBs are kept account of. -/
structure Safe (maxProc : Nat) (s : Procs) : Prop where
  /-- No process is returned twice, -/
  once : (s.waits.map (·.child)).Nodup
  /-- each is returned to its parent, with its own exit value, -/
  own : ∀ w ∈ s.waits, w.parent = some w.caller ∧
    ∃ v, (w.child, v) ∈ s.exits ∧ (w.status = none ∨ w.status = some v)
  exitOnce : (s.exits.map (·.1)).Nodup
  /-- and its PCB is pushed then, and only then. -/
  pushed : s.pushes = s.waits.map (·.child)
  /-- The free list is acyclic, and holds the PCBs that are free. -/
  freelist : ∃ free, IsChain (fun p => (s.PT p).parent) s.pcbFreelist free ∧ free.Nodup ∧
    ∀ p, p ∈ free ↔ p < maxProc ∧ (s.PT p).pstate = .free
  count : s.processCount =
    ((List.range maxProc).filter fun p => decide ((s.PT p).pstate ≠ .free)).length
  /-- Two processes whose PCBs were not pushed have two pids. -/
  pids : ∀ i < s.execs.length, ∀ j < s.execs.length, i ∉ s.pushes → j ∉ s.pushes →
    s.execs[i]? = s.execs[j]? → i = j

/-- A woken `wait_for_specific_child` finds its child alive, or a zombie of its own process. -/
def Sound (s : Procs) : ProcAction → Prop
  | .resume u =>
    match s.pc u with
    | .waiting (.child c _) true =>
      (s.PT c).pstate = .alive ∨ (s.PT c).pstate = .zombie ∧ (s.PT c).parent = some (s.owner u)
    | _ => True
  | _ => True

instance (s : Procs) (a : ProcAction) : Decidable (s.Sound a) := by
  unfold Sound
  split
  · split <;> infer_instance
  · infer_instance

theorem unborn_broadcastChildExit (s : Procs) (p u : Nat) :
    (s.broadcastChildExit p).pc u = .unborn ↔ s.pc u = .unborn := by
  simp only [broadcastChildExit]
  cases s.pc u <;> simp

def Inv (maxProc : Nat) (s : Procs) : Prop := ∃ free, s.toProcTable.Inv maxProc free

theorem Inv.sysExec (h : s.Inv maxProc) (u : Nat) (call : Bool) :
    (s.sysExec u call).Inv maxProc := by
  obtain ⟨free, h⟩ := h
  have hi := h.sysExec (s.owner u)
  unfold Procs.sysExec
  split
  · exact ⟨free, h⟩
  · rename_i p t he
    rw [he] at hi
    split <;> exact hi

theorem Inv.cleanupZombie (h : s.Inv maxProc) {u c : Nat} (store : Bool)
    (hz : (s.PT c).pstate = .zombie) (hp : (s.PT c).parent = some (s.owner u)) :
    (s.cleanupZombie u c store).Inv maxProc :=
  h.elim fun _ h => ⟨_, h.cleanupZombie store hz hp⟩

theorem Inv.specificLoop (h : s.Inv maxProc) {u c : Nat} (store : Bool)
    (hc : (s.PT c).pstate = .alive ∨
      (s.PT c).pstate = .zombie ∧ (s.PT c).parent = some (s.owner u)) :
    (s.specificLoop u c store).Inv maxProc := by
  unfold Procs.specificLoop
  split
  · exact h
  · rename_i ha
    obtain ⟨hz, hp⟩ := hc.resolve_left ha
    exact h.cleanupZombie store hz hp

/-- At the call, the tests make sure of it. -/
theorem Inv.waitForSpecificChild (h : s.Inv maxProc) (u : Nat) (cpid : Int) (store : Bool) :
    (waitForSpecificChild maxProc s u cpid store).Inv maxProc := by
  unfold Procs.waitForSpecificChild
  split
  · exact h
  · simp only
    split
    · exact h
    · rename_i ht
      obtain ⟨hf, hp⟩ := not_or.mp ht
      refine h.specificLoop store ?_
      cases hs : (s.PT cpid.toNat).pstate with
      | free => exact absurd hs hf
      | alive => exact .inl rfl
      | zombie => exact .inr ⟨rfl, not_not.mp hp⟩

/-- The head of the exited list is a zombie of the process. -/
theorem Inv.head (h : s.Inv maxProc) {p c : Nat} {cs : List Nat}
    (hl : (s.PT p).exitedList = c :: cs) :
    (s.PT c).pstate = .zombie ∧ (s.PT c).parent = some p :=
  h.elim fun _ h => (h.exited p c).mp (hl ▸ List.mem_cons_self)

theorem Inv.anyLoop (h : s.Inv maxProc) {u : Nat} {store : Bool}
    (hs : s.anyLoop u store = some s') : s'.Inv maxProc := by
  unfold Procs.anyLoop at hs
  split at hs
  · cases hs
    exact h
  · rename_i c cs hl
    obtain ⟨hz, hp⟩ := h.head hl
    rw [if_pos hz] at hs
    cases hs
    exact h.cleanupZombie store hz hp

theorem Inv.finishExit (h : s.Inv maxProc) {u : Nat} {v : Int}
    (hinit : s.owner u = 1 → (s.PT 1).childrenList = [])
    (hs : s.finishExit u v = some s') : s'.Inv maxProc := by
  unfold Procs.finishExit at hs
  simp only at hs
  split at hs
  · exact absurd hs (by simp)
  · rename_i hm
    obtain ⟨free, h⟩ := h
    have hi := h.sysExit v (by simpa using (not_or.mp hm).1) hinit
    have htable : s'.toProcTable = s.toProcTable.sysExit (s.owner u) v := by
      obtain rfl := Option.some.inj hs
      simp only [goto]
      repeat' split
      all_goals rfl
    exact ⟨free, htable ▸ hi⟩

/-- The initial task reaps one child after the other. -/
theorem Inv.initLoop (h : s.Inv maxProc) {u : Nat} {v : Int} {exited : List Nat}
    (hl : (s.PT (s.owner u)).exitedList = exited) (hs : initLoop u v exited s = some s') :
    s'.Inv maxProc := by
  induction exited generalizing s with
  | nil =>
    unfold Procs.initLoop at hs
    split at hs
    · rename_i hc
      exact h.finishExit (fun hu => hu ▸ hc) hs
    · cases hs
      exact h
  | cons c cs ih =>
    unfold Procs.initLoop at hs
    split at hs
    · rename_i hc
      exact h.finishExit (fun hu => hu ▸ hc) hs
    · obtain ⟨hz, hp⟩ := h.head hl
      simp only [hz, if_true] at hs
      refine ih (h.cleanupZombie false hz hp) ?_ hs
      -- The child was at the head of the list.
      simp [Procs.cleanupZombie, ProcTable.cleanupZombie_PT, hl]

theorem Inv.resumeInit (h : s.Inv maxProc) {u : Nat} {v : Int}
    (hs : s.resumeInit u v = some s') : s'.Inv maxProc := by
  unfold Procs.resumeInit at hs
  split at hs
  · cases hs
    exact h
  · rename_i c cs hl
    obtain ⟨hz, hp⟩ := h.head hl
    rw [if_pos hz] at hs
    refine (h.cleanupZombie false hz hp).initLoop ?_ hs
    simp [Procs.cleanupZombie, ProcTable.cleanupZombie_PT, hl]

theorem Inv.sysExit (h : s.Inv maxProc) {u : Nat} {v : Int} (hs : s.sysExit u v = some s') :
    s'.Inv maxProc := by
  unfold Procs.sysExit at hs
  split at hs
  · rename_i hu
    exact h.initLoop (by rw [hu]) hs
  · rename_i hu
    exact h.finishExit (fun he => absurd he hu) hs

/-- **One step** keeps the invariant, if it meets the condition. -/
theorem inductive_inv (h : 2 ≤ maxProc) :
    (procSys maxProc).InductiveIf (fun s a => s.Sound a) (Inv maxProc) where
  init := by
    rintro _ rfl
    rw [ProcTable.boot_eq h]
    exact ⟨_, ProcTable.inv_booted h⟩
  step s a s' h hc hp := by
    cases a with
    | exec u call =>
      obtain ⟨-, hs⟩ := Option.ite_none_right_eq_some.mp hp
      cases hs
      exact h.sysExec u call
    | createThread u =>
      obtain ⟨-, hs⟩ := Option.ite_none_right_eq_some.mp hp
      cases hs
      exact h
    | waitChild u cpid store =>
      obtain ⟨-, hs⟩ := Option.ite_none_right_eq_some.mp hp
      unfold Procs.sysWaitChild at hs
      split at hs
      · cases hs
        exact h.waitForSpecificChild u cpid store
      · unfold Procs.waitForAnyChild at hs
        split at hs
        · cases hs
          exact h
        · exact h.anyLoop hs
    | exit u v =>
      obtain ⟨-, hs⟩ := Option.ite_none_right_eq_some.mp hp
      exact h.sysExit hs
    | resume u =>
      simp only [procSys, perform] at hp
      simp only [Sound] at hc
      split at hp
      · rename_i c store hpc
        cases hp
        rw [hpc] at hc
        exact h.specificLoop store hc
      · exact h.anyLoop hp
      · exact h.resumeInit hp
      · exact absurd hp (by simp)

theorem Inv.safe (h : s.Inv maxProc) : s.Safe maxProc := by
  obtain ⟨free, h⟩ := h
  have hnd := h.chain.nodup
  refine ⟨?_, h.waits, h.exitOnce.1, h.reaped, ⟨free, h.chain, hnd, h.unused⟩, ?_, ?_⟩
  · rw [← h.reaped]
    exact h.pushed.1
  · -- The free list and the PCBs in use make up the table.
    have hperm : free.Perm ((List.range maxProc).filter fun p =>
        decide ((s.PT p).pstate = .free)) := by
      refine (List.perm_ext_iff_of_nodup hnd (List.nodup_range.filter _)).mpr fun p => ?_
      rw [h.unused]
      simp
    have hsplit := List.length_eq_length_filter_add (l := List.range maxProc)
      fun p => decide ((s.PT p).pstate = .free)
    have hcount := h.count
    simp only [List.length_range, ← hperm.length_eq, ← decide_not] at hsplit
    simp only [ne_eq]
    omega
  · intro i hi j hj hpi hpj he
    obtain ⟨p, hp, rfl⟩ := (h.gone i hi).resolve_left hpi
    obtain ⟨q, hq, rfl⟩ := (h.gone j hj).resolve_left hpj
    rw [(h.holds p hp).1, (h.holds q hq).1] at he
    rw [Option.some.inj he]

end Procs

/-- **Children are reaped once**, in every run in which each `wait_for_specific_child` that wakes
and finds its child not alive finds a zombie of its own process. -/
theorem procs_safe (maxProc : Nat) (h : 2 ≤ maxProc) (s : Procs)
    (hr : (procSys maxProc).ReachIf (fun s a => s.Sound a) s) : s.Safe maxProc :=
  Procs.Inv.safe ((Procs.inductive_inv h).reachIf hr)

/-- Two children exit. One is waited for by its pid, the other as any child. -/
theorem procs_safe_run : 2 ≤ MAX_PROC ∧ ∃ s, Procs.Safe MAX_PROC s ∧
    s.waits = [{ caller := 1, child := 3, parent := some 1, status := some 6 },
      { caller := 1, child := 2, parent := some 1, status := some 5 }] := by
  obtain ⟨s, hr, hp⟩ := Sys.reachIf_of_exec (M := procSys MAX_PROC) (C := fun s a => s.Sound a)
    (fun s a => decide (s.Sound a)) _
    [.exec 0 true, .exec 0 true, .waitChild 0 3 true, .exit 1 5, .resume 0, .exit 2 6, .resume 0,
      .waitChild 0 (-1) true]
    (fun s => decide (s.waits =
      [{ caller := 1, child := 3, parent := some 1, status := some 6 },
        { caller := 1, child := 2, parent := some 1, status := some 5 }]))
    (fun s a h => of_decide_eq_true h) (ProcTable.boot_eq (by decide)).symm (by decide)
  exact ⟨by decide, s, procs_safe MAX_PROC (by decide) s hr, of_decide_eq_true hp⟩

/-- Two threads of the initial task wait for the same child. Both return its pid, and the free list
runs in a circle. -/
theorem not_procs_safe : ¬ ∀ s, (procSys MAX_PROC).Reach s → s.Safe MAX_PROC := by
  intro hall
  obtain ⟨s, hr, hp⟩ := Sys.reachIf_of_exec (M := procSys MAX_PROC) (C := fun _ _ => True)
    (fun _ _ => true) _
    [.exec 0 true, .createThread 0, .waitChild 0 2 true, .waitChild 2 2 true, .exit 1 5,
      .resume 0, .resume 2]
    (fun s => decide (s.waits.map (·.child) = [2, 2] ∧ s.pcbFreelist = some 2 ∧
      (s.PT 2).parent = some 2))
    (fun _ _ _ => trivial) (ProcTable.boot_eq (by decide)).symm (by decide)
  obtain ⟨hw, -, -⟩ := of_decide_eq_true hp
  have := (hall s hr).once
  simp [hw] at this

end TinyOS
