import Mathlib
import TinyOS.Proc.Reap

/-!
# Processes and their threads (`kernel_proc.c`, `kernel_threads.c`)

The processes of `Proc/Basic.lean`, with `ThreadExit`. A main thread that returns from its task
calls `ThreadExit`, which joins all threads of the process, and then `Exit`. But **`Exit` itself looks
at no other thread**: whichever thread calls it, the process becomes a zombie at once, its parent may
reap it, and the PCB goes to the next process while its old threads still run
(`not_tasks_alive`).

Of the PTCB of a thread, `waiting_threads` and `detached` are kept; whoever sleeps on its condition
variables is read off the positions of the threads.
-/

set_option autoImplicit false

namespace TinyOS

open Transition

/-- Where a thread is in `ThreadExit`. -/
inductive ExitPc where
  /-- Asleep on the `thread_join` of `t` (or made ready): the main thread. -/
  | joining (t : Nat) (ready : Bool)
  /-- Asleep on its own `waiting`: any other. -/
  | waiting (ready : Bool)
  deriving DecidableEq

structure Tasks extends Procs where
  /-- The thread of `main_thread`, if it has one. -/
  mainTid : Nat → Option Nat
  ptcbList : Nat → List Nat
  waitingThreads : Nat → Int
  detached : Nat → Bool
  inExit : Nat → Option ExitPc
  /-- A main thread goes round its loop for ever, with the kernel lock. -/
  hung : Bool

inductive TaskAction where
  /-- `Exec`, `CreateThread`, `WaitChild` and `Exit`, and their ends. -/
  | proc (a : ProcAction)
  | threadExit (u : Nat)
  /-- A thread that was made ready in `ThreadExit` goes on. -/
  | resumeExit (u : Nat)

namespace Tasks

/-! ## New threads -/

/-- The PTCB that `sys_Exec` makes for the process `p`, and for its thread `u` if it has one. -/
def execPTCB (s : Tasks) (u p : Nat) (call : Bool) : Tasks :=
  { s with
    mainTid := Function.update s.mainTid p (if call then some u else none)
    waitingThreads := Function.update s.waitingThreads u 0
    detached := Function.update s.detached u true }

/-- And `sys_CreateThread` for its thread. -/
def createPTCB (s : Tasks) (u p : Nat) : Tasks :=
  { s with
    ptcbList := Function.update s.ptcbList p (s.ptcbList p ++ [u])
    waitingThreads := Function.update s.waitingThreads u 0
    detached := Function.update s.detached u false }

/-! ## `ThreadExit` -/

def setExit (s : Tasks) (u : Nat) (pc : Option ExitPc) : Tasks :=
  { s with inExit := Function.update s.inExit u pc }

/-- `kernel_sleep(EXITED, ..)`. -/
def exited (s : Tasks) (u : Nat) : Tasks :=
  { s with
    pc := Function.update s.pc u .exited
    inExit := Function.update s.inExit u none }

/-- `Cond_Broadcast(& ptcb->waiting)`. -/
def broadcastWaiting (s : Tasks) (t : Nat) : Tasks :=
  if s.inExit t = some (.waiting false) then s.setExit t (some (.waiting true)) else s

/-- `Cond_Broadcast(& ptcb->thread_join)`. -/
def broadcastJoin (s : Tasks) (t : Nat) : Tasks :=
  { s with
    inExit := fun u =>
      match s.inExit u with
      | some (.joining t' ready) => some (.joining t' (ready || decide (t' = t)))
      | pc => pc }

/-- `rlist_remove(& ptcb->pthread); free(ptcb);`. -/
def freePTCB (s : Tasks) (t : Nat) : Tasks :=
  { s with ptcbList := fun p => (s.ptcbList p).erase t }

/-- The tests of `sys_ThreadJoin`. -/
def joinRefused (s : Tasks) (u t : Nat) : Bool :=
  s.owner t ≠ s.owner u ∨ (t = u ∨ s.mainTid (s.owner u) = some t) ∨ s.detached t = true

/-- `sys_ThreadJoin` past its tests, up to `kernel_wait`. -/
def startJoin (s : Tasks) (u t : Nat) : Tasks :=
  ({ s with
    waitingThreads := Function.update s.waitingThreads t (s.waitingThreads t + 1) }.broadcastWaiting
      t).setExit u (some (.joining t false))

/-- And from `kernel_wait` on. -/
def finishJoin (s : Tasks) (t : Nat) : Tasks :=
  let s := { s with
    waitingThreads := Function.update s.waitingThreads t (s.waitingThreads t - 1) }
  if s.waitingThreads t = 0 then s.freePTCB t else s

/-- The loop of the main thread, at its test; a join that is refused is tried again for ever. -/
def exitLoop (s : Tasks) (u : Nat) : Tasks :=
  match s.ptcbList (s.owner u) with
  | [] => s.setExit u none
  | t :: _ => if s.joinRefused u t then { s with hung := true } else s.startJoin u t

/-- The end of `sys_ThreadExit` for a thread that is joined: it detaches itself. -/
def finishThreadExit (s : Tasks) (u : Nat) : Tasks :=
  let s := { s with detached := Function.update s.detached u true }
  (if 0 < s.waitingThreads u then s.broadcastJoin u else s).exited u

/-- `sys_ThreadExit`. It follows `pcb->main_thread`. -/
def sysThreadExit (s : Tasks) (u : Nat) : Option Tasks :=
  if (s.PT (s.owner u)).mainThread = false then none
  else if s.mainTid (s.owner u) = some u then some (s.exitLoop u)
  else if s.detached u then some ((s.freePTCB u).exited u)
  else if s.waitingThreads u = 0 then some (s.setExit u (some (.waiting false)))
  else some (s.finishThreadExit u)

/-! ## The system -/

/-- The thread that acts. -/
def actor : ProcAction → Nat
  | .exec u _ | .createThread u | .waitChild u _ _ | .exit u _ | .resume u => u

/-- The PTCB that `a` has made, in the step from `s` to `s'`. -/
def addPTCB (s s' : Tasks) : ProcAction → Tasks
  | .exec _ call =>
    match s.pcbFreelist with
    | none => s'
    | some p => s'.execPTCB s.threads p call
  | .createThread u => s'.createPTCB s.threads (s.owner u)
  | _ => s'

def perform (maxProc : Nat) (s : Tasks) (a : TaskAction) : Option Tasks :=
  if s.hung then none
  else match a with
  | .proc a =>
    if s.inExit (actor a) = none then
      (s.toProcs.perform maxProc a).map fun t => s.addPTCB { s with toProcs := t } a
    else none
  | .threadExit u =>
    if s.pc u = .running ∧ s.inExit u = none then s.sysThreadExit u else none
  | .resumeExit u =>
    if s.pc u = .running then
      match s.inExit u with
      | some (.joining t true) => some ((s.finishJoin t).exitLoop u)
      | some (.waiting true) => some (s.finishThreadExit u)
      | _ => none
    else none

/-- The initial task has its main thread. -/
def boot (maxProc : Nat) : Tasks where
  toProcs := .boot maxProc
  mainTid p := if p = 1 then some 0 else none
  ptcbList _ := []
  waitingThreads _ := 0
  detached u := decide (u = 0)
  inExit _ := none
  hung := false

end Tasks

/-- The processes and their threads, for a table of `maxProc` PCBs. -/
def taskSys (maxProc : Nat) : Sys Tasks TaskAction where
  init s := s = Tasks.boot maxProc
  step := Tasks.perform maxProc

/-! ## Threads that have not exited -/

namespace ProcTable

variable {t t' : ProcTable}

theorem modify_pstate (t : ProcTable) (p q : Nat) {f : PCB → PCB}
    (hf : ∀ b, (f b).pstate = b.pstate) : ((t.modify p f).PT q).pstate = (t.PT q).pstate := by
  simp only [ProcTable.modify, Function.update_apply]
  split
  · rename_i hq
    rw [hf, hq]
  · rfl

/-- `Exec` makes the PCB that it answers alive, and touches no other state. -/
theorem sysExec_pstate {cur : Nat} {o : Option Nat} (h : t.sysExec cur = (o, t')) (q : Nat) :
    (t'.PT q).pstate = if o = some q then .alive else (t.PT q).pstate := by
  unfold ProcTable.sysExec at h
  split at h
  · obtain ⟨rfl, rfl⟩ := Prod.mk.inj h
    simp
  · rename_i p t₁ ha
    obtain ⟨rfl, rfl⟩ := Prod.mk.inj h
    unfold acquirePCB at ha
    split at ha
    · exact absurd ha (by simp)
    · obtain ⟨rfl, rfl⟩ := Prod.mk.inj (Option.some.inj ha)
      simp only [modify_pstate, implies_true]
      split <;> simp only [modify_pstate, implies_true]
      all_goals
        simp only [ProcTable.modify, Function.update_apply, Option.some.injEq, eq_comm (a := q)]
        split <;> simp_all

theorem reparent_pstate (t : ProcTable) (cur : Nat) (cs : List Nat) (q : Nat) :
    ((t.reparent cur cs).PT q).pstate = (t.PT q).pstate := by
  induction cs generalizing t with
  | nil => rfl
  | cons c cs ih =>
    rw [reparent, ih]
    simp only [modify_pstate, implies_true]

/-- `Exit` makes the process a zombie, and touches no other state. -/
theorem sysExit_pstate (t : ProcTable) (cur : Nat) (v : Int) (q : Nat) :
    ((t.sysExit cur v).PT q).pstate = if q = cur then .zombie else (t.PT q).pstate := by
  have happend : ∀ t : ProcTable, ((t.appendExited cur).PT q).pstate = (t.PT q).pstate := by
    intro t
    unfold appendExited
    split
    · rfl
    · simp only [modify_pstate, implies_true]
  have hpush : ∀ t : ProcTable, ((t.pushExited cur).PT q).pstate = (t.PT q).pstate := by
    intro t
    unfold pushExited
    split
    · rfl
    · simp only [modify_pstate, implies_true]
  simp only [ProcTable.sysExit, ProcTable.modify, Function.update_apply]
  split
  · rfl
  · rw [hpush, happend, reparent_pstate]

end ProcTable

namespace Procs

variable {maxProc : Nat} {s s' : Procs}

/-- The thread exists and is not `EXITED`. -/
def live (s : Procs) (u : Nat) : Prop := s.pc u ≠ .unborn ∧ s.pc u ≠ .exited

instance (s : Procs) (u : Nat) : Decidable (s.live u) := inferInstanceAs (Decidable (_ ∧ _))

structure Lives (s : Procs) : Prop where
  /-- Every thread is in a process that is alive. -/
  alive : ∀ u, s.live u → (s.PT (s.owner u)).pstate = .alive
  born : ∀ u, s.threads ≤ u → s.pc u = .unborn

/-- All threads of its process have exited but `u`. -/
def LastOf (s : Procs) (u : Nat) : Prop :=
  ∀ v < s.threads, s.owner v = s.owner u → s.live v → v = u

instance (s : Procs) (u : Nat) : Decidable (s.LastOf u) :=
  inferInstanceAs (Decidable (∀ v < s.threads, _))

@[simp] theorem live_broadcastChildExit (s : Procs) (p u : Nat) :
    (s.broadcastChildExit p).live u ↔ s.live u := by
  simp only [live, broadcastChildExit]
  cases s.pc u <;> simp

@[simp] theorem live_table (s : Procs) (t : ProcTable) (u : Nat) :
    ({ s with toProcTable := t } : Procs).live u ↔ s.live u := Iff.rfl

theorem live_goto {u v : Nat} {pc : ProcPc} (h : (s.goto u pc).live v) :
    v = u ∧ pc ≠ .unborn ∧ pc ≠ .exited ∨ v ≠ u ∧ s.live v := by
  unfold live goto at h
  by_cases hv : v = u
  · subst hv
    exact .inl ⟨rfl, by simpa using h⟩
  · exact .inr ⟨hv, by simpa [live, hv] using h⟩

/-- A thread that was there goes somewhere. -/
theorem Lives.goto (h : s.Lives) {u : Nat} (hu : s.live u) (pc : ProcPc) :
    (s.goto u pc).Lives where
  alive v hv := by
    rcases live_goto hv with ⟨rfl, -⟩ | ⟨-, hv⟩
    · exact h.alive v hu
    · exact h.alive v hv
  born v hv := by
    have hb := h.born v hv
    have hne : v ≠ u := fun he => hu.1 (he ▸ hb)
    simpa [Procs.goto, hne] using hb

theorem Lives.spawnThread (h : s.Lives) {p : Nat} (hp : (s.PT p).pstate = .alive) :
    (s.spawnThread p).Lives where
  alive v hv := by
    by_cases hvt : v = s.threads
    · subst hvt
      simpa [Procs.spawnThread] using hp
    · have hv : s.live v := by simpa [live, Procs.spawnThread, hvt] using hv
      simpa [Procs.spawnThread, hvt] using h.alive v hv
  born v hv := by
    have hv : s.threads + 1 ≤ v := hv
    have hne : v ≠ s.threads := by omega
    simpa [Procs.spawnThread, hne] using h.born v (by omega)

/-- The table changes; the processes that were alive are alive. -/
theorem Lives.table (h : s.Lives) {t : ProcTable}
    (ht : ∀ q, (s.PT q).pstate = .alive → (t.PT q).pstate = .alive) :
    { s with toProcTable := t }.Lives := ⟨fun v hv => ht _ (h.alive v hv), h.born⟩

theorem Lives.sysExec (h : s.Lives) (u : Nat) (call : Bool) : (s.sysExec u call).Lives := by
  unfold Procs.sysExec
  split
  · exact h
  · rename_i p t he
    have ht := fun q => ProcTable.sysExec_pstate he q
    have hlives : { s with toProcTable := t }.Lives := h.table fun q hq => by
      rw [ht q]
      split
      · rfl
      · exact hq
    split
    · exact hlives.spawnThread (by simpa using ht p)
    · exact hlives

theorem Lives.cleanupZombie (h : s.Lives) {u c : Nat} (store : Bool)
    (hz : (s.PT c).pstate = .zombie) : (s.cleanupZombie u c store).Lives :=
  h.table fun q hq => by
    have hne : q ≠ c := by
      rintro rfl
      simp [hz] at hq
    simpa [ProcTable.cleanupZombie_PT, hne] using hq

theorem Lives.specificLoop (h : s.Lives) {u c : Nat} (hu : s.live u) (store : Bool)
    (hc : (s.PT c).pstate = .alive ∨ (s.PT c).pstate = .zombie) :
    (s.specificLoop u c store).Lives := by
  unfold Procs.specificLoop
  split
  · exact h.goto hu _
  · rename_i ha
    exact (h.cleanupZombie store (hc.resolve_left ha)).goto hu _

theorem Lives.anyLoop (h : s.Lives) {u : Nat} (hu : s.live u) {store : Bool}
    (hs : s.anyLoop u store = some s') : s'.Lives := by
  unfold Procs.anyLoop at hs
  split at hs
  · cases hs
    exact h.goto hu _
  · split at hs
    · rename_i hz
      cases hs
      exact (h.cleanupZombie store hz).goto hu _
    · exact absurd hs (by simp)

/-- **`Exit` by the last thread of its process.** -/
theorem Lives.finishExit (h : s.Lives) {u : Nat} (hu : s.live u) {v : Int} (hlast : s.LastOf u)
    (hs : s.finishExit u v = some s') : s'.Lives := by
  unfold Procs.finishExit at hs
  simp only at hs
  split at hs
  · exact absurd hs (by simp)
  · obtain rfl := Option.some.inj hs
    generalize ((s.toProcTable.reparent (s.owner u) (s.PT (s.owner u)).childrenList).PT
      (s.owner u)).parent = o
    constructor
    case alive =>
      intro w hw
      rcases live_goto hw with ⟨-, -, hne⟩ | ⟨hwu, hw⟩
      · exact absurd rfl hne
      · -- Another process: its state is what it was.
        have hw' : s.live w := by
          cases o <;> simp only at hw <;> split at hw <;> simpa using hw
        have hlt : w < s.threads := by
          by_contra hge
          exact hw'.1 (h.born w (by omega))
        have howner : s.owner w ≠ s.owner u := fun he => hwu (hlast w hlt he hw')
        have htable := s.toProcTable.sysExit_pstate (s.owner u) v (s.owner w)
        rw [if_neg howner, h.alive w hw'] at htable
        cases o <;> simp only [Procs.goto] <;> split <;> exact htable
    case born =>
      intro w hw
      have hthreads : s.threads ≤ w := by
        cases o <;> simp only [Procs.goto] at hw <;> split at hw <;> exact hw
      have hb := h.born w hthreads
      have hne : w ≠ u := fun he => hu.1 (he ▸ hb)
      cases o <;> simp only [Procs.goto, Function.update_of_ne hne] <;> split <;>
        simpa [unborn_broadcastChildExit] using hb

/-! ## The wait of the initial task -/

/-- `Exit` gets past its wait: the children that are left have exited, and will be reaped. -/
def Finishes (s : Procs) (u : Nat) : Prop :=
  s.owner u = 1 → ∀ c ∈ (s.PT (s.owner u)).childrenList, (s.PT c).pstate = .zombie

instance (s : Procs) (u : Nat) : Decidable (s.Finishes u) := inferInstanceAs (Decidable (_ → _))

theorem Lives.initLoop (h : s.Lives) (hi : s.Inv maxProc) {u : Nat} (hu : s.live u) {v : Int}
    {exited : List Nat} (hl : (s.PT (s.owner u)).exitedList = exited)
    (hlast : (∀ c ∈ (s.PT (s.owner u)).childrenList, (s.PT c).pstate = .zombie) → s.LastOf u)
    (hs : initLoop u v exited s = some s') : s'.Lives := by
  induction exited generalizing s with
  | nil =>
    unfold Procs.initLoop at hs
    split at hs
    · rename_i hc
      exact h.finishExit hu (hlast fun c hm => by simp [hc] at hm) hs
    · cases hs
      exact h.goto hu _
  | cons c cs ih =>
    unfold Procs.initLoop at hs
    split at hs
    · rename_i hc
      exact h.finishExit hu (hlast fun c hm => by simp [hc] at hm) hs
    · obtain ⟨hz, hp⟩ := hi.head hl
      simp only [hz, if_true] at hs
      have hpt := s.cleanupZombie_PT (s.owner u) c false
      refine ih (h.cleanupZombie false hz) (hi.cleanupZombie false hz hp) hu ?_
        (fun hf => hlast fun c' hm => ?_) hs
      · simp [Procs.cleanupZombie, hpt, hl]
      · -- A child that is reaped later is a zombie now.
        by_cases hc' : c' = c
        · rw [hc', hz]
        · have := hf c' (by simpa [Procs.cleanupZombie, hpt, List.mem_erase_of_ne hc'] using hm)
          simpa [Procs.cleanupZombie, hpt, hc'] using this

theorem Lives.sysExit (h : s.Lives) (hi : s.Inv maxProc) {u : Nat} (hu : s.live u) {v : Int}
    (hlast : s.Finishes u → s.LastOf u) (hs : s.sysExit u v = some s') : s'.Lives := by
  unfold Procs.sysExit at hs
  split at hs
  · rename_i howner
    exact h.initLoop hi hu (by rw [howner]) (fun hf => hlast fun _ => hf) hs
  · rename_i howner
    exact h.finishExit hu (hlast fun he => absurd he howner) hs

theorem Lives.resumeInit (h : s.Lives) (hi : s.Inv maxProc) {u : Nat} (hu : s.live u) {v : Int}
    (hlast : s.Finishes u → s.LastOf u) (hs : s.resumeInit u v = some s') : s'.Lives := by
  unfold Procs.resumeInit at hs
  split at hs
  · cases hs
    exact h.goto hu _
  · rename_i c cs hl
    obtain ⟨hz, hp⟩ := hi.head hl
    rw [if_pos hz] at hs
    -- Its first turn is a turn of the loop.
    have hchildren : (s.PT (s.owner u)).childrenList ≠ [] := by
      obtain ⟨free, hi⟩ := hi
      exact List.ne_nil_of_mem (a := c) ((hi.children _ c).mpr ⟨by simp [hz], hp⟩)
    refine h.initLoop (v := v) hi hu hl (fun hf => hlast fun _ => hf) ?_
    unfold Procs.initLoop
    rw [if_neg hchildren]
    simpa only [hz, if_true] using hs

/-- When `Exit` gets past its wait, all other threads of the process have exited. -/
def ExitsLast (s : Procs) : ProcAction → Prop
  | .exit u _ => s.Finishes u → s.LastOf u
  | .resume u =>
    match s.pc u with
    | .waiting (.init _) _ => s.Finishes u → s.LastOf u
    | _ => True
  | _ => True

instance (s : Procs) : (a : ProcAction) → Decidable (s.ExitsLast a)
  | .exit u _ => inferInstanceAs (Decidable (s.Finishes u → s.LastOf u))
  | .resume u =>
    (match s.pc u with
    | .waiting (.init _) _ => inferInstanceAs (Decidable (s.Finishes u → s.LastOf u))
    | .waiting (.child ..) _ | .waiting (.any _) _ | .unborn | .running | .exited => .isTrue trivial :
      Decidable (match s.pc u with
        | .waiting (.init _) _ => s.Finishes u → s.LastOf u
        | _ => True))
  | .exec .. | .createThread _ | .waitChild .. => .isTrue trivial

/-- **One step.** -/
theorem Lives.perform (h : s.Lives) (hi : s.Inv maxProc) {a : ProcAction} (hc : s.Sound a)
    (hlast : s.ExitsLast a) (hs : s.perform maxProc a = some s') : s'.Lives := by
  have hrunning : ∀ {u}, s.pc u = .running → s.live u := fun hu => by simp [live, hu]
  cases a with
  | exec u call =>
    obtain ⟨-, hs⟩ := Option.ite_none_right_eq_some.mp hs
    cases hs
    exact h.sysExec u call
  | createThread u =>
    obtain ⟨hu, hs⟩ := Option.ite_none_right_eq_some.mp hs
    cases hs
    exact h.spawnThread (h.alive u (hrunning hu))
  | waitChild u cpid store =>
    obtain ⟨hu, hs⟩ := Option.ite_none_right_eq_some.mp hs
    unfold Procs.sysWaitChild at hs
    split at hs
    · cases hs
      unfold waitForSpecificChild
      split
      · exact h
      · simp only
        split
        · exact h
        · rename_i ht
          refine h.specificLoop (hrunning hu) store ?_
          cases hstate : (s.PT cpid.toNat).pstate with
          | free => exact absurd (.inl hstate) ht
          | alive => exact .inl rfl
          | zombie => exact .inr rfl
    · unfold Procs.waitForAnyChild at hs
      split at hs
      · cases hs
        exact h
      · exact h.anyLoop (hrunning hu) hs
  | exit u v =>
    obtain ⟨hu, hs⟩ := Option.ite_none_right_eq_some.mp hs
    exact h.sysExit hi (hrunning hu) hlast hs
  | resume u =>
    simp only [Procs.perform] at hs
    simp only [Sound, ExitsLast] at hc hlast
    split at hs
    · rename_i c store hpc
      cases hs
      rw [hpc] at hc
      exact h.specificLoop (by simp [live, hpc]) store (hc.imp_right And.left)
    · rename_i hpc
      exact h.anyLoop (by simp [live, hpc]) hs
    · rename_i v hpc
      rw [hpc] at hlast
      exact h.resumeInit hi (by simp [live, hpc]) hlast hs
    · exact absurd hs (by simp)

end Procs

/-! ## The system -/

namespace Tasks

variable {maxProc : Nat} {s s' : Tasks}

/-- `WaitChild` finds what it waited for, and the last thread of a process calls `Exit`. -/
def Sound (s : Tasks) : TaskAction → Prop
  | .proc a => s.toProcs.Sound a ∧ s.ExitsLast a
  | _ => True

instance (s : Tasks) (a : TaskAction) : Decidable (s.Sound a) := by
  unfold Sound
  split <;> infer_instance

/-- A thread that runs or may run belongs to a process that is alive and has a main thread. -/
def Safe (s : Tasks) : Prop := ∀ u, s.live u →
  (s.PT (s.owner u)).pstate = .alive ∧ (s.PT (s.owner u)).mainThread = true

theorem addPTCB_toProcs (s s' : Tasks) (a : ProcAction) :
    (s.addPTCB s' a).toProcs = s'.toProcs := by
  cases a <;> simp only [addPTCB]
  · split <;> rfl
  · rfl

/-- **`ThreadExit` touches no process**: the thread goes on, or is `EXITED`. -/
theorem finishThreadExit_toProcs (s : Tasks) (u : Nat) :
    (s.finishThreadExit u).toProcs = s.toProcs.goto u .exited := by
  unfold finishThreadExit
  simp only
  split <;> rfl

theorem exitLoop_toProcs (s : Tasks) (u : Nat) : (s.exitLoop u).toProcs = s.toProcs := by
  unfold exitLoop
  split
  · rfl
  · split
    · rfl
    · unfold startJoin broadcastWaiting
      split <;> rfl

theorem finishJoin_toProcs (s : Tasks) (t : Nat) : (s.finishJoin t).toProcs = s.toProcs := by
  unfold finishJoin
  simp only
  split <;> rfl

theorem sysThreadExit_toProcs {u : Nat} (hs : s.sysThreadExit u = some s') :
    s'.toProcs = s.toProcs ∨ s'.toProcs = s.toProcs.goto u .exited := by
  unfold sysThreadExit at hs
  split at hs
  · exact absurd hs (by simp)
  split at hs
  · cases hs
    exact .inl (s.exitLoop_toProcs u)
  split at hs
  · cases hs
    exact .inr rfl
  split at hs
  · cases hs
    exact .inl rfl
  · cases hs
    exact .inr (s.finishThreadExit_toProcs u)

theorem boot_eq (h : 2 ≤ maxProc) : boot maxProc =
    { toProcTable := ProcTable.booted maxProc
      owner := fun _ => 1
      pc := fun u => if u = 0 then .running else .unborn
      threads := 1
      mainTid := fun p => if p = 1 then some 0 else none
      ptcbList := fun _ => []
      waitingThreads := fun _ => 0
      detached := fun u => decide (u = 0)
      inExit := fun _ => none
      hung := false } := by
  simp only [boot, ProcTable.boot_eq h]

theorem inductive_inv (h : 2 ≤ maxProc) : (taskSys maxProc).InductiveIf (fun s a => s.Sound a)
    fun s => s.toProcs.Inv maxProc ∧ s.Lives where
  init := by
    rintro _ rfl
    refine ⟨(Procs.inductive_inv h).init _ rfl, fun u hu => ?_, fun u hu => ?_⟩ <;>
      simp only [boot_eq h] at hu ⊢
    · rfl
    · exact if_neg (by omega)
  step := by
    rintro s a s' ⟨hi, hl⟩ hc hs
    obtain ⟨-, hs⟩ := Option.ite_none_left_eq_some.mp hs
    cases a with
    | proc a =>
      obtain ⟨-, hs⟩ := Option.ite_none_right_eq_some.mp hs
      obtain ⟨t, ht, rfl⟩ := Option.map_eq_some_iff.mp hs
      rw [addPTCB_toProcs]
      exact ⟨(Procs.inductive_inv h).step _ a t hi hc.1 ht, hl.perform hi hc.1 hc.2 ht⟩
    | threadExit u =>
      obtain ⟨⟨hu, -⟩, hs⟩ := Option.ite_none_right_eq_some.mp hs
      rcases sysThreadExit_toProcs hs with he | he <;> rw [he]
      · exact ⟨hi, hl⟩
      · exact ⟨hi, hl.goto (by simp [Procs.live, hu]) _⟩
    | resumeExit u =>
      obtain ⟨hu, hs⟩ := Option.ite_none_right_eq_some.mp hs
      split at hs
      · cases hs
        rw [exitLoop_toProcs, finishJoin_toProcs]
        exact ⟨hi, hl⟩
      · cases hs
        rw [finishThreadExit_toProcs]
        exact ⟨hi, hl.goto (by simp [Procs.live, hu]) _⟩
      · exact absurd hs (by simp)

end Tasks

/-- **Threads run in processes that are alive**, in every run in which the last thread of a process
calls `Exit`, and in which `WaitChild` reaps zombies of its own process (`Proc/Reap.lean`). -/
theorem tasks_alive (maxProc : Nat) (h : 2 ≤ maxProc) (s : Tasks)
    (hr : (taskSys maxProc).ReachIf (fun s a => s.Sound a) s) : s.Safe := by
  obtain ⟨⟨free, hi⟩, hl⟩ := (Tasks.inductive_inv h).reachIf hr
  exact fun u hu => ⟨hl.alive u hu, (hi.mainThread _).mpr (hl.alive u hu)⟩

/-- The child's main thread creates a thread, joins it in `ThreadExit`, and exits. -/
theorem tasks_alive_run : 2 ≤ MAX_PROC ∧ ∃ s : Tasks, s.Safe ∧
    (s.pc 0 = .running ∧ s.pc 1 = .exited ∧ s.pc 2 = .exited ∧ (s.PT 2).pstate = .zombie) := by
  obtain ⟨s, hr, hp⟩ := Sys.reachIf_of_exec (M := taskSys MAX_PROC) (C := fun s a => s.Sound a)
    (fun s a => decide (s.Sound a)) _
    [.proc (.exec 0 true), .proc (.createThread 1), .threadExit 1, .threadExit 2, .resumeExit 1,
      .proc (.exit 1 5)]
    (fun s => decide (s.pc 0 = .running ∧ s.pc 1 = .exited ∧ s.pc 2 = .exited ∧
      (s.PT 2).pstate = .zombie))
    (fun s a h => of_decide_eq_true h) (Tasks.boot_eq (by decide)).symm (by decide)
  exact ⟨by decide, s, tasks_alive MAX_PROC (by decide) s hr, of_decide_eq_true hp⟩

/-- The child's main thread calls `Exit` while another thread of the child runs. -/
theorem not_tasks_alive : ¬ ∀ s, (taskSys MAX_PROC).Reach s → s.Safe := by
  intro hall
  obtain ⟨s, hr, hp⟩ := Sys.reachIf_of_exec (M := taskSys MAX_PROC) (C := fun _ _ => True)
    (fun _ _ => true) _
    [.proc (.exec 0 true), .proc (.createThread 1), .proc (.exit 1 5)]
    (fun s => decide (s.pc 2 = .running ∧ (s.PT (s.owner 2)).pstate = .zombie))
    (fun _ _ _ => trivial) (Tasks.boot_eq (by decide)).symm (by decide)
  obtain ⟨hrunning, hzombie⟩ := of_decide_eq_true hp
  have := (hall s hr 2 (by simp [Procs.live, hrunning])).1
  simp [hzombie] at this

end TinyOS
