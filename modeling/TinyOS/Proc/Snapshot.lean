import TinyOS.Proc.Info
import TinyOS.Proc.Tasks

/-!
# What `OpenInfo` copies (`kernel_proc.c`)

The processes of `Proc/Basic.lean`, with the PTCBs of their main threads. `Exec` makes a PTCB and
copies the arguments of the task; `Exit` frees it and sets `main_thread` to `NULL`. `sys_OpenInfo`
reads it for every PCB that it copies.

**The scan goes through if it meets no zombie and no process with more than 128 bytes of
arguments** (`snapshotted_iff`): it does not test `main_thread`, and it copies `argl` bytes into an
array of 128. `none` is a read or a write outside an object.

The history has what each process was given by its `Exec`.
-/

set_option autoImplicit false

namespace TinyOS

open Transition

/-- The PTCB of a main thread, as far as `OpenInfo` reads it. -/
structure MainPTCB where
  /-- A task, or `NULL`. -/
  mainTask : Option Nat
  argl : Int
  /-- What `args` points to. -/
  args : Option (List UInt8)
  deriving DecidableEq

/-- `procinfo`. -/
structure Procinfo where
  pid : Nat
  ppid : Nat
  alive : Bool
  threadCount : Nat
  mainTask : Option Nat
  argl : Int
  args : List UInt8
  deriving DecidableEq

structure Mains extends Procs where
  /-- `main_thread` of each PCB: the address of its PTCB. -/
  main : Nat → Option Nat
  /-- The PTCBs that were allocated and not freed. -/
  ptcb : Nat → Option MainPTCB
  /-- The next address. -/
  ptcbs : Nat
  threadCount : Nat → Nat
  /-- History. -/
  given : Nat → MainPTCB

inductive MainAction where
  | exec (u : Nat) (call : Option Nat) (argl : Int) (args : Option (List UInt8))
  /-- `CreateThread`, `WaitChild`, `Exit`, and their ends. -/
  | proc (a : ProcAction)
  /-- `ThreadExit` and `ThreadJoin`, where they free the PTCB of a thread of `p`. -/
  | threadGone (p : Nat)

namespace Mains

/-- `malloc(argl)` and `memcpy`, from the buffer of the caller. -/
def copyArgs (argl : Int) : Option (List UInt8) → Option (Option (List UInt8))
  | none => some none
  | some buf => if 0 ≤ argl ∧ argl ≤ buf.length then some (some (buf.take argl.toNat)) else none

/-- `Create_PTCB` for the process `p`, and what `sys_Exec` writes there. -/
def createPTCB (s : Mains) (p : Nat) (m : MainPTCB) : Mains :=
  { s with
    main := Function.update s.main p (some s.ptcbs)
    ptcb := Function.update s.ptcb s.ptcbs (some m)
    ptcbs := s.ptcbs + 1
    threadCount := if m.mainTask.isSome then Function.update s.threadCount p 1 else s.threadCount
    given := Function.update s.given p m }

/-- `sys_Exec`. -/
def sysExec (s : Mains) (u : Nat) (call : Option Nat) (argl : Int) (args : Option (List UInt8)) :
    Option Mains :=
  match s.pcbFreelist with
  | none => some s
  | some p => (copyArgs argl args).map fun bytes =>
    { s with toProcs := s.toProcs.sysExec u call.isSome }.createPTCB p
      { mainTask := call, argl := argl, args := bytes }

/-- `free(curproc->main_thread); curproc->main_thread = NULL;`. -/
def freeMain (s : Mains) (p : Nat) : Mains :=
  { s with
    main := Function.update s.main p none
    ptcb := match s.main p with
      | none => s.ptcb
      | some m => Function.update s.ptcb m none }

/-- What the step of the processes to `t` does to the PTCBs and the thread counts. -/
def follow (s : Mains) (a : ProcAction) (t : Procs) : Mains :=
  let u := Tasks.actor a
  let s₁ := { s with toProcs := t }
  match a with
  | .createThread _ =>
    { s₁ with threadCount := Function.update s.threadCount (s.owner u) (s.threadCount (s.owner u) + 1) }
  | _ => if t.pc u = .exited then s₁.freeMain (s.owner u) else s₁

def perform (maxProc : Nat) (s : Mains) : MainAction → Option Mains
  | .exec u call argl args => if s.pc u = .running then s.sysExec u call argl args else none
  | .proc (.exec _ _) => none
  | .proc a => (s.toProcs.perform maxProc a).map fun t => s.follow a t
  | .threadGone p =>
    some { s with threadCount := Function.update s.threadCount p (s.threadCount p - 1) }

/-- The kernel has booted: the null process, and the initial task with the arguments of `boot`. -/
def boot (maxProc : Nat) (m : MainPTCB) : Mains :=
  let idle : MainPTCB := { mainTask := none, argl := 0, args := none }
  { toProcs := .boot maxProc
    main := fun p => if p ≤ 1 then some p else none
    ptcb := fun a => if a = 0 then some idle else if a = 1 then some m else none
    ptcbs := 2
    threadCount := fun p => if p = 1 then 1 else 0
    given := fun p => if p = 1 then m else idle }

/-! ## `sys_OpenInfo` -/

/-- `memcpy` of `n` bytes from `args` into a field. A negative `n` is a huge `size_t`. -/
def memcpyArgs (field : List UInt8) (args : Option (List UInt8)) (n : Int) : Option (List UInt8) :=
  if n = 0 then some field
  else match args with
    | none => none
    | some bytes =>
      if 0 ≤ n ∧ n ≤ bytes.length ∧ n ≤ field.length then
        some (bytes.take n.toNat ++ field.drop n.toNat)
      else none

/-- A turn of the loop of `sys_OpenInfo` that copies a PCB, to a record full of zeros. -/
def copyPCB (s : Mains) (p : Nat) : Option Procinfo :=
  (s.main p).bind fun a => (s.ptcb a).bind fun m =>
    (memcpyArgs (List.replicate PROCINFO_MAX_ARGS_SIZE 0) m.args m.argl).map fun bytes =>
      { pid := p
        ppid := (s.PT p).parent.getD 0
        alive := decide ((s.PT p).pstate = .alive)
        threadCount := s.threadCount p
        mainTask := m.mainTask
        argl := m.argl
        args := bytes }

/-- `process_count`, an `unsigned int`. -/
def count (s : Mains) : Nat := (s.processCount % 2 ^ 32).toNat

/-- The loop, over the pids that are left, with the records that were filled: `index` is their
number. -/
def snapshotLoop (s : Mains) (curCount : Nat) : List Nat → List Procinfo → Option (List Procinfo)
  | [], table => some table
  | p :: ps, table =>
    if table.length = curCount ∨ s.count < table.length then some table
    else if (s.PT p).pstate ≠ .free then
      (s.copyPCB p).bind fun r => snapshotLoop s curCount ps (table ++ [r])
    else snapshotLoop s curCount ps table

/-- The records that `sys_OpenInfo` fills. -/
def snapshot (maxProc : Nat) (s : Mains) : Option (List Procinfo) :=
  s.snapshotLoop s.count (List.range maxProc) []

/-! ## What the records should say -/

end Mains

/-- The first bytes of the arguments, and zeros. -/
def MainPTCB.argsField (m : MainPTCB) : List UInt8 :=
  let bytes := (m.args.getD []).take PROCINFO_MAX_ARGS_SIZE
  bytes ++ List.replicate (PROCINFO_MAX_ARGS_SIZE - bytes.length) 0

/-- The arguments fit the field; there are none if `args` is `NULL`. -/
def MainPTCB.Fits (m : MainPTCB) : Prop :=
  m.argl = 0 ∨ m.args ≠ none ∧ m.argl ≤ PROCINFO_MAX_ARGS_SIZE

namespace Mains

/-- The record of the process `p`, and of what it was given. A process without a parent has the
parent 0, where `tinyos.h` says `NOPROC`: that is how `sys_OpenInfo` fills the field. -/
structure Describes (s : Mains) (p : Nat) (r : Procinfo) : Prop where
  pid : r.pid = p
  parent : r.ppid = (s.PT p).parent.getD 0
  state : r.alive = decide ((s.PT p).pstate = .alive)
  threads : r.threadCount = s.threadCount p
  task : r.mainTask = (s.given p).mainTask
  argl : r.argl = (s.given p).argl
  args : r.args = (s.given p).argsField

/-- The PCBs that the scan comes to: those in use, at most `process_count` of them. -/
def scanned (maxProc : Nat) (s : Mains) : List Nat := (s.pids maxProc).take s.count

/-- **The snapshot is made**, and each record describes its process. -/
def Snapshotted (maxProc : Nat) (s : Mains) : Prop :=
  ∃ table, s.snapshot maxProc = some table ∧ List.Forall₂ s.Describes (s.scanned maxProc) table

end Mains

/-- The processes and the PTCBs of their main threads. -/
def mainSys (maxProc : Nat) : Sys Mains MainAction where
  init s := ∃ task argl args bytes, Mains.copyArgs argl args = some bytes ∧
    s = .boot maxProc { mainTask := some task, argl := argl, args := bytes }
  step := Mains.perform maxProc

/-! ## Who is alive -/

namespace Procs

variable {maxProc : Nat} {s s' : Procs} {u : Nat}

/-- From `s` to `s'`, the process of `u` stops being alive if `u` has exited, and no other
changes. -/
def Outlives (s s' : Procs) (u : Nat) : Prop :=
  ∀ p, (s'.PT p).pstate = .alive ↔
    (s.PT p).pstate = .alive ∧ ¬ (s'.pc u = .exited ∧ p = s.owner u)

theorem Outlives.of_pstate (hpc : s'.pc u ≠ .exited)
    (h : ∀ p, (s'.PT p).pstate = .alive ↔ (s.PT p).pstate = .alive) : s.Outlives s' u := by
  intro p
  rw [h p]
  exact ⟨fun ha => ⟨ha, fun he => hpc he.1⟩, fun ha => ha.1⟩

/-- What is reaped was not alive. -/
theorem cleanupZombie_alive {c : Nat} (hc : (s.PT c).pstate ≠ .alive) (v : Nat) (store : Bool)
    (p : Nat) : ((s.cleanupZombie v c store).PT p).pstate = .alive ↔ (s.PT p).pstate = .alive := by
  simp only [Procs.cleanupZombie, ProcTable.cleanupZombie_PT]
  by_cases hp : p = c
  · subst hp
    simp [hc]
  · simp [hp]

theorem Outlives.reap {c : Nat} (hc : (s.PT c).pstate ≠ .alive) (store : Bool) :
    s.Outlives ((s.cleanupZombie u c store).goto u .running) u :=
  .of_pstate (by simp [Procs.goto]) (cleanupZombie_alive hc u store)

theorem Outlives.sleep (w : WaitTarget) : s.Outlives (s.goto u (.waiting w false)) u :=
  .of_pstate (by simp [Procs.goto]) fun _ => Iff.rfl

theorem Outlives.specificLoop (c : Nat) (store : Bool) : s.Outlives (s.specificLoop u c store) u := by
  unfold Procs.specificLoop
  split
  · exact .sleep _
  · rename_i hc
    exact .reap hc store

theorem Outlives.anyLoop {store : Bool} (hs : s.anyLoop u store = some s') : s.Outlives s' u := by
  unfold Procs.anyLoop at hs
  split at hs
  · cases hs
    exact .sleep _
  · split at hs
    · rename_i hz
      cases hs
      exact .reap (by simp [hz]) store
    · cases hs

theorem Outlives.finishExit {v : Int} (hs : s.finishExit u v = some s') : s.Outlives s' u := by
  unfold Procs.finishExit at hs
  simp only at hs
  split at hs
  · cases hs
  · obtain rfl := Option.some.inj hs
    intro p
    generalize ((s.toProcTable.reparent (s.owner u) (s.PT (s.owner u)).childrenList).PT
      (s.owner u)).parent = o
    have htable := s.toProcTable.sysExit_pstate (s.owner u) v p
    have hzombie : ((s.toProcTable.sysExit (s.owner u) v).PT p).pstate = .alive ↔
        (s.PT p).pstate = .alive ∧ p ≠ s.owner u := by
      rw [htable]
      by_cases hp : p = s.owner u <;> simp [hp]
    simp only [Procs.goto, Function.update_self, true_and]
    rw [← hzombie]
    cases o <;> simp only <;> split <;> exact Iff.rfl

/-- The children that the initial task reaps are zombies; the induction is on them. -/
theorem Outlives.initLoop {v : Int} {exited : List Nat} (hs : initLoop u v exited s = some s') :
    s.Outlives s' u := by
  induction exited generalizing s with
  | nil =>
    unfold Procs.initLoop at hs
    split at hs
    · exact .finishExit hs
    · cases hs
      exact .sleep _
  | cons c cs ih =>
    unfold Procs.initLoop at hs
    split at hs
    · exact .finishExit hs
    · simp only at hs
      split at hs
      · rename_i hz
        have hrest := ih hs
        intro p
        rw [hrest p, cleanupZombie_alive (by simp [hz])]
        exact Iff.rfl
      · cases hs

theorem Outlives.resumeInit {v : Int} (hs : s.resumeInit u v = some s') : s.Outlives s' u := by
  unfold Procs.resumeInit at hs
  split at hs
  · cases hs
    exact .sleep _
  · split at hs
    · rename_i hz
      intro p
      rw [Outlives.initLoop hs p, cleanupZombie_alive (by simp [hz])]
      exact Iff.rfl
    · cases hs

/-- **What a call other than `Exec` does to the living.** -/
theorem Outlives.perform {a : ProcAction} (hexec : ∀ v call, a ≠ .exec v call)
    (hs : s.perform maxProc a = some s') : s.Outlives s' (Tasks.actor a) := by
  have hrunning : ∀ {u}, s.pc u = .running → s.Outlives s u := fun hu =>
    .of_pstate (by simp [hu]) fun _ => Iff.rfl
  cases a with
  | exec v call => exact absurd rfl (hexec v call)
  | createThread v =>
    obtain ⟨hv, hs⟩ := Option.ite_none_right_eq_some.mp hs
    cases hs
    refine .of_pstate ?_ fun _ => Iff.rfl
    simp only [Tasks.actor, Procs.spawnThread, Function.update_apply]
    split <;> simp [hv]
  | waitChild v cpid store =>
    obtain ⟨hv, hs⟩ := Option.ite_none_right_eq_some.mp hs
    unfold Procs.sysWaitChild at hs
    split at hs
    · cases hs
      unfold Procs.waitForSpecificChild
      simp only
      split
      · exact hrunning hv
      · split
        · exact hrunning hv
        · exact .specificLoop _ store
    · unfold Procs.waitForAnyChild at hs
      split at hs
      · cases hs
        exact hrunning hv
      · exact .anyLoop hs
  | exit v e =>
    obtain ⟨-, hs⟩ := Option.ite_none_right_eq_some.mp hs
    unfold Procs.sysExit at hs
    split at hs
    · exact .initLoop hs
    · exact .finishExit hs
  | resume v =>
    simp only [Procs.perform] at hs
    split at hs
    · cases hs
      exact .specificLoop _ _
    · exact .anyLoop hs
    · exact .resumeInit hs
    · cases hs

end Procs

namespace Mains

variable {maxProc : Nat} {s s' : Mains}

/-- The PTCBs of the main threads: those of the living are there, with what `Exec` put in them, and
all other `main_thread`s are `NULL`. -/
structure Inv (s : Mains) : Prop where
  alive : ∀ p, (s.PT p).pstate = .alive → ∃ a, s.main p = some a ∧ s.ptcb a = some (s.given p)
  gone : ∀ p, (s.PT p).pstate ≠ .alive → s.main p = none
  fresh : ∀ p a, s.main p = some a → a < s.ptcbs
  distinct : ∀ p q a, s.main p = some a → s.main q = some a → p = q
  copied : ∀ p bytes, (s.given p).args = some bytes → (bytes.length : Int) = (s.given p).argl

theorem copyArgs_length {argl : Int} {args : Option (List UInt8)} {bytes : List UInt8}
    (h : copyArgs argl args = some (some bytes)) : (bytes.length : Int) = argl := by
  cases args with
  | none => cases h
  | some buf =>
    obtain ⟨hlen, hcopy⟩ := Option.ite_none_right_eq_some.mp h
    obtain rfl := Option.some.inj (Option.some.inj hcopy)
    rw [List.length_take]
    omega

/-- The table changes, and nobody comes or goes. -/
theorem Inv.procs (h : s.Inv) {t : Procs}
    (halive : ∀ p, (t.PT p).pstate = .alive ↔ (s.PT p).pstate = .alive) :
    ({ s with toProcs := t } : Mains).Inv where
  alive := fun p hp => h.alive p ((halive p).mp hp)
  gone := fun p hp => h.gone p fun ha => hp ((halive p).mpr ha)
  fresh := h.fresh
  distinct := h.distinct
  copied := h.copied

/-- `Exec` makes the process `p`. -/
theorem Inv.createPTCB (h : s.Inv) {t : Procs} {p : Nat} {m : MainPTCB}
    (halive : ∀ q, (t.PT q).pstate = if q = p then .alive else (s.PT q).pstate)
    (hm : ∀ bytes, m.args = some bytes → (bytes.length : Int) = m.argl) :
    (({ s with toProcs := t } : Mains).createPTCB p m).Inv := by
  have hold : ∀ q a, s.main q = some a → a ≠ s.ptcbs := fun q a ha =>
    Nat.ne_of_lt (h.fresh q a ha)
  constructor <;> simp only [Mains.createPTCB, Function.update_apply]
  case alive =>
    intro q hq
    by_cases hqp : q = p
    · exact ⟨s.ptcbs, by simp [hqp]⟩
    · rw [halive, if_neg hqp] at hq
      obtain ⟨a, ha, hptcb⟩ := h.alive q hq
      exact ⟨a, by simp [hqp, ha], by simp [hqp, hold q a ha, hptcb]⟩
  case gone =>
    intro q hq
    by_cases hqp : q = p
    · exact absurd (by rw [halive, if_pos hqp]) hq
    · rw [halive, if_neg hqp] at hq
      simp [hqp, h.gone q hq]
  case fresh =>
    intro q a ha
    split at ha
    · cases ha
      exact Nat.lt_succ_self _
    · exact Nat.lt_succ_of_lt (h.fresh q a ha)
  case distinct =>
    intro q r a hq hr
    split at hq <;> split at hr
    · rename_i hqp hrp
      rw [hqp, hrp]
    · cases hq
      exact absurd rfl (hold r _ hr)
    · cases hr
      exact absurd rfl (hold q _ hq)
    · exact h.distinct q r a hq hr
  case copied =>
    intro q bytes hq
    split at hq
    · rename_i hqp
      rw [if_pos hqp]
      exact hm bytes hq
    · rename_i hqp
      rw [if_neg hqp]
      exact h.copied q bytes hq

/-- `Exit` ends the process `p`. -/
theorem Inv.freeMain (h : s.Inv) {t : Procs} {p : Nat}
    (halive : ∀ q, (t.PT q).pstate = .alive ↔ (s.PT q).pstate = .alive ∧ q ≠ p) :
    (({ s with toProcs := t } : Mains).freeMain p).Inv := by
  constructor <;> simp only [Mains.freeMain, Function.update_apply]
  case alive =>
    intro q hq
    obtain ⟨hq, hqp⟩ := (halive q).mp hq
    obtain ⟨a, ha, hptcb⟩ := h.alive q hq
    refine ⟨a, by simp [hqp, ha], ?_⟩
    cases hp : s.main p with
    | none => exact hptcb
    | some b =>
      have hne : a ≠ b := fun hab => hqp (h.distinct q p a ha (hab ▸ hp))
      simp [hne, hptcb]
  case gone =>
    intro q hq
    by_cases hqp : q = p
    · exact if_pos hqp
    · rw [if_neg hqp]
      exact h.gone q fun ha => hq ((halive q).mpr ⟨ha, hqp⟩)
  case fresh =>
    intro q a ha
    exact h.fresh q a (Option.ite_none_left_eq_some.mp ha).2
  case distinct =>
    intro q r a hq hr
    exact h.distinct q r a (Option.ite_none_left_eq_some.mp hq).2
      (Option.ite_none_left_eq_some.mp hr).2
  case copied => exact h.copied

theorem Inv.sysExec (h : s.Inv) {u : Nat} {call : Option Nat} {argl : Int}
    {args : Option (List UInt8)} (hs : s.sysExec u call argl args = some s') : s'.Inv := by
  unfold Mains.sysExec at hs
  split at hs
  · cases hs
    exact h
  · rename_i p hfree
    obtain ⟨bytes, hcopy, rfl⟩ := Option.map_eq_some_iff.mp hs
    refine h.createPTCB (fun q => ?_) fun b hb => ?_
    case refine_2 =>
      obtain rfl : bytes = some b := hb
      exact copyArgs_length hcopy
    have hsome : (s.toProcTable.sysExec (s.owner u)).1 = some p := by
      simp [ProcTable.sysExec, ProcTable.acquirePCB, hfree]
    unfold Procs.sysExec
    cases hexec : s.toProcTable.sysExec (s.owner u) with
    | mk o t =>
      rw [hexec] at hsome
      simp only at hsome
      have hpstate := ProcTable.sysExec_pstate hexec q
      subst hsome
      simp only [Option.some.injEq, eq_comm (a := p)] at hpstate
      cases call <;> exact hpstate

theorem Inv.follow (h : s.Inv) {a : ProcAction} (hexec : ∀ u call, a ≠ .exec u call) {t : Procs}
    (ht : s.toProcs.perform maxProc a = some t) : (s.follow a t).Inv := by
  have hout := Procs.Outlives.perform hexec ht
  have hother : (if t.pc (Tasks.actor a) = .exited then
      ({ s with toProcs := t } : Mains).freeMain (s.owner (Tasks.actor a))
      else { s with toProcs := t }).Inv := by
    split
    · rename_i hexited
      refine h.freeMain fun q => ?_
      rw [hout q, hexited]
      simp
    · rename_i hstays
      refine h.procs fun q => ?_
      rw [hout q]
      simp [hstays]
  cases a with
  | createThread u =>
    obtain ⟨-, ht⟩ := Option.ite_none_right_eq_some.mp ht
    cases ht
    exact ⟨h.alive, h.gone, h.fresh, h.distinct, h.copied⟩
  | exec | waitChild | exit | resume => exact hother

theorem inductive_inv (h : 2 ≤ maxProc) : (mainSys maxProc).Inductive Inv where
  init := by
    rintro _ ⟨task, argl, args, bytes, hcopy, rfl⟩
    have hpstate : ∀ p, ((Procs.boot maxProc).PT p).pstate = .alive ↔ p ≤ 1 := by
      intro p
      rw [ProcTable.boot_eq h]
      simp only [ProcTable.booted]
      split <;> simp [*]
    constructor <;> simp only [boot, ne_eq, hpstate]
    case alive =>
      intro p hp
      refine ⟨p, if_pos hp, ?_⟩
      obtain rfl | rfl : p = 0 ∨ p = 1 := by omega
      · rfl
      · rfl
    case gone => exact fun p hp => if_neg hp
    case fresh =>
      intro p a ha
      obtain ⟨hp, ha⟩ := Option.ite_none_right_eq_some.mp ha
      cases ha
      omega
    case distinct =>
      intro p q a hp hq
      obtain ⟨-, hp⟩ := Option.ite_none_right_eq_some.mp hp
      obtain ⟨-, hq⟩ := Option.ite_none_right_eq_some.mp hq
      exact Option.some.inj (hp.trans hq.symm)
    case copied =>
      intro p b hb
      split at hb
      · rename_i hp
        obtain rfl : bytes = some b := hb
        rw [if_pos hp]
        exact copyArgs_length hcopy
      · cases hb
  step := by
    intro s a s' hi _ hs
    cases a with
    | exec u call argl args =>
      obtain ⟨-, hs⟩ := Option.ite_none_right_eq_some.mp hs
      exact hi.sysExec hs
    | threadGone p =>
      cases hs
      exact ⟨hi.alive, hi.gone, hi.fresh, hi.distinct, hi.copied⟩
    | proc a =>
      cases a with
      | exec => cases hs
      | createThread | waitChild | exit | resume =>
        obtain ⟨t, ht, rfl⟩ := Option.map_eq_some_iff.mp hs
        exact hi.follow (by simp) ht

/-! ## The scan -/

/-- The loop goes through the PCBs in use, until there are enough. -/
theorem snapshotLoop_iff (s : Mains) (ps : List Nat) (done : List Procinfo) {table : List Procinfo}
    (hdone : done.length ≤ s.count) :
    s.snapshotLoop s.count ps done = some table ↔ ∃ rs, table = done ++ rs ∧
      List.Forall₂ (fun p r => s.copyPCB p = some r)
        ((ps.filter fun p => decide ((s.PT p).pstate ≠ .free)).take (s.count - done.length)) rs := by
  induction ps generalizing done with
  | nil => simp [snapshotLoop, eq_comm]
  | cons p ps ih =>
    rw [snapshotLoop]
    by_cases hfull : done.length = s.count
    · rw [if_pos (.inl hfull), hfull, Nat.sub_self, List.take_zero]
      simp [eq_comm]
    rw [if_neg (by omega)]
    by_cases hp : (s.PT p).pstate ≠ .free
    · obtain ⟨k, hk⟩ : ∃ k, s.count - done.length = k + 1 := ⟨s.count - done.length - 1, by omega⟩
      rw [if_pos hp, List.filter_cons_of_pos (by simpa using hp), hk, List.take_succ_cons]
      cases hcopy : s.copyPCB p with
      | none =>
        refine iff_of_false (by simp) ?_
        rintro ⟨rs, -, hrs⟩
        cases hrs with
        | cons hr _ => rw [hcopy] at hr; cases hr
      | some r =>
        have hlen : s.count - (done ++ [r]).length = k := by
          rw [List.length_append, List.length_singleton]
          omega
        have hle : (done ++ [r]).length ≤ s.count := by
          rw [List.length_append, List.length_singleton]
          omega
        rw [Option.bind_some, ih _ hle, hlen]
        constructor
        · rintro ⟨rs, rfl, hrs⟩
          exact ⟨r :: rs, by simp, .cons hcopy hrs⟩
        · rintro ⟨rs, rfl, hrs⟩
          cases hrs with
          | cons hr hrs =>
            obtain rfl := Option.some.inj (hcopy.symm.trans hr)
            exact ⟨_, by simp, hrs⟩
    · rw [if_neg hp, List.filter_cons_of_neg (by simpa using hp)]
      exact ih done hdone

theorem snapshot_iff (s : Mains) {table : List Procinfo} : s.snapshot maxProc = some table ↔
    List.Forall₂ (fun p r => s.copyPCB p = some r) (s.scanned maxProc) table := by
  rw [snapshot, snapshotLoop_iff s _ [] (Nat.zero_le _)]
  simp [scanned, ProcTable.pids]

theorem forall₂_and_exists {α β : Type*} {P Q : α → β → Prop} {l : List α} :
    (∃ l', List.Forall₂ P l l' ∧ List.Forall₂ Q l l') ↔ ∀ a ∈ l, ∃ b, P a b ∧ Q a b := by
  induction l with
  | nil => simp
  | cons a l ih =>
    rw [List.forall_mem_cons, ← ih]
    constructor
    · rintro ⟨_, hP, hQ⟩
      cases hP with
      | cons hp hP =>
        cases hQ with
        | cons hq hQ => exact ⟨⟨_, hp, hq⟩, _, hP, hQ⟩
    · rintro ⟨⟨b, hp, hq⟩, l', hP, hQ⟩
      exact ⟨b :: l', .cons hp hP, .cons hq hQ⟩

/-- The copy of the arguments: none, or at most as many bytes as the field has. -/
theorem memcpyArgs_iff {m : MainPTCB}
    (hm : ∀ bytes, m.args = some bytes → (bytes.length : Int) = m.argl) :
    memcpyArgs (List.replicate PROCINFO_MAX_ARGS_SIZE 0) m.args m.argl = some m.argsField ↔
      m.Fits := by
  obtain ⟨mainTask, argl, args⟩ := m
  unfold memcpyArgs MainPTCB.argsField MainPTCB.Fits
  simp only at hm ⊢
  by_cases hzero : argl = 0
  · -- No byte is copied.
    have hnil : args.getD [] = [] := by
      cases args with
      | none => rfl
      | some bytes =>
        have hlen := hm bytes rfl
        exact List.eq_nil_of_length_eq_zero (show bytes.length = 0 by omega)
    simp [hzero, hnil]
  rw [if_neg hzero]
  cases args with
  | none => simp [hzero]
  | some bytes =>
    have hlen := hm bytes rfl
    have htake : bytes.take argl.toNat = bytes := List.take_of_length_le (by omega)
    simp only [List.length_replicate, Option.getD_some]
    by_cases hfits : argl ≤ PROCINFO_MAX_ARGS_SIZE
    · have hfield : bytes.take PROCINFO_MAX_ARGS_SIZE = bytes :=
        List.take_of_length_le (by omega)
      refine iff_of_true ?_ (.inr ⟨by simp, hfits⟩)
      rw [if_pos (by omega), htake, List.drop_replicate, hfield, ← hlen, Int.toNat_natCast]
    · refine iff_of_false ?_ (by simp [hzero, hfits])
      rw [if_neg (by omega)]
      simp

theorem Inv.copyPCB_iff (h : s.Inv) {p : Nat} :
    (∃ r, s.copyPCB p = some r ∧ s.Describes p r) ↔
      (s.PT p).pstate = .alive ∧ (s.given p).Fits := by
  unfold copyPCB
  by_cases hp : (s.PT p).pstate = .alive
  · obtain ⟨a, ha, hptcb⟩ := h.alive p hp
    rw [ha, Option.bind_some, hptcb, Option.bind_some, and_iff_right hp,
      ← memcpyArgs_iff (h.copied p)]
    constructor
    · rintro ⟨r, hr, hdesc⟩
      obtain ⟨bytes, hbytes, rfl⟩ := Option.map_eq_some_iff.mp hr
      rw [hbytes]
      exact congrArg some hdesc.args
    · intro hbytes
      rw [hbytes]
      exact ⟨_, rfl, ⟨rfl, rfl, rfl, rfl, rfl, rfl, rfl⟩⟩
  · refine iff_of_false ?_ fun ha => hp ha.1
    rintro ⟨r, hr, -⟩
    rw [h.gone p hp] at hr
    cases hr

end Mains

/-- **The snapshot of `OpenInfo` is made, and right, if and only if** every PCB that the scan comes
to is alive and has arguments that fit its record. -/
theorem snapshotted_iff (maxProc : Nat) (hmax : 2 ≤ maxProc) (s : Mains)
    (hr : (mainSys maxProc).Reach s) : s.Snapshotted maxProc ↔
      ∀ p ∈ s.scanned maxProc, (s.PT p).pstate = .alive ∧ (s.given p).Fits := by
  have hi := (Mains.inductive_inv hmax).reachIf hr
  have hboth : s.Snapshotted maxProc ↔
      ∃ table, List.Forall₂ (fun p r => s.copyPCB p = some r) (s.scanned maxProc) table ∧
        List.Forall₂ s.Describes (s.scanned maxProc) table := by
    unfold Mains.Snapshotted
    simp only [Mains.snapshot_iff]
  rw [hboth, Mains.forall₂_and_exists]
  exact forall₂_congr fun p _ => hi.copyPCB_iff

theorem Mains.boot_eq (m : MainPTCB) : Mains.boot MAX_PROC m =
    { toProcTable := ProcTable.booted MAX_PROC
      owner := fun _ => 1
      pc := fun u => if u = 0 then .running else .unborn
      threads := 1
      main := (Mains.boot MAX_PROC m).main
      ptcb := (Mains.boot MAX_PROC m).ptcb
      ptcbs := 2
      threadCount := (Mains.boot MAX_PROC m).threadCount
      given := (Mains.boot MAX_PROC m).given } := by
  simp only [Mains.boot, ProcTable.boot_eq (show 2 ≤ MAX_PROC by decide)]

/-- The initial task runs a child with five bytes of arguments. -/
theorem snapshotted_with_child : 2 ≤ MAX_PROC ∧ ∃ s : Mains, (mainSys MAX_PROC).Reach s ∧
    (s.given 2).argl = 5 ∧ (s.Snapshotted MAX_PROC ↔
      ∀ p ∈ s.scanned MAX_PROC, (s.PT p).pstate = .alive ∧ (s.given p).Fits) := by
  obtain ⟨s, hr, hp⟩ := Sys.reachIf_of_exec (M := mainSys MAX_PROC) (C := fun _ _ => True)
    (fun _ _ => true) _ [.exec 0 (some 7) 5 (some [1, 2, 3, 4, 5])]
    (fun s => decide ((s.given 2).argl = 5)) (fun _ _ _ => trivial)
    ⟨0, 0, none, none, rfl, (Mains.boot_eq _).symm⟩ (by decide)
  exact ⟨by decide, s, hr, of_decide_eq_true hp, snapshotted_iff MAX_PROC (by decide) s hr⟩

/-- The child exits. -/
theorem not_snapshotted : ¬ ∀ s : Mains, (mainSys MAX_PROC).Reach s → s.Snapshotted MAX_PROC := by
  intro hall
  obtain ⟨s, hr, hp⟩ := Sys.reachIf_of_exec (M := mainSys MAX_PROC) (C := fun _ _ => True)
    (fun _ _ => true) _ [.exec 0 (some 7) 5 (some [1, 2, 3, 4, 5]), .proc (.exit 1 0)]
    (fun s => decide ((List.range 3).filter (fun p => decide ((s.PT p).pstate ≠ .free)) =
      List.range 3 ∧ s.count = 3 ∧ s.main 2 = none))
    (fun _ _ _ => trivial) ⟨0, 0, none, none, rfl, (Mains.boot_eq _).symm⟩ (by decide)
  obtain ⟨hthree, hcount, hnull⟩ := of_decide_eq_true hp
  have hscanned : s.scanned MAX_PROC = [0, 1, 2] := by
    rw [Mains.scanned, ProcTable.pids, hcount, show MAX_PROC = 3 + 65533 from rfl, List.range_add,
      List.filter_append, hthree]
    rfl
  obtain ⟨table, htable, -⟩ := hall s hr
  have hcopied := s.snapshot_iff.mp htable
  rw [hscanned] at hcopied
  -- `main_thread` of the child is `NULL`.
  obtain ⟨r, hr⟩ : ∃ r, s.copyPCB 2 = some r := by
    cases hcopied with
    | cons _ h => cases h with
      | cons _ h => cases h with
        | cons h _ => exact ⟨_, h⟩
  rw [Mains.copyPCB, hnull] at hr
  cases hr

end TinyOS
