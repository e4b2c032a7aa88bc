import TinyOS.Proc.Basic
import Mathlib.Data.List.Range
import Mathlib.Tactic.Common

/-!
# The invariant of the process table

The two lists of a process say nothing that the PCBs of its children do not: **a PCB is on the
children list of `p` exactly if it is in use and its `parent` is `p`, and on the exited list exactly
if it is also a zombie**. With that, every operation of the table keeps the invariant
(`Inv.sysExec`, `Inv.sysExit`), the release of a child too, provided that the child is still a
zombie of the calling process (`Inv.cleanupZombie`).

Nothing is said of the parent, which may itself be gone: the threads of a process may outlive it.
-/

set_option autoImplicit false

namespace TinyOS

open Transition Chain

namespace ProcTable

/-- The invariant; `free` is what the free list chains. -/
structure Inv (maxProc : Nat) (t : ProcTable) (free : List Nat) : Prop where
  chain : IsChain (fun p => (t.PT p).parent) t.pcbFreelist free
  unused : ∀ p, p ∈ free ↔ p < maxProc ∧ (t.PT p).pstate = .free
  outside : ∀ p, maxProc ≤ p → (t.PT p).pstate = .free
  count : t.processCount + free.length = maxProc
  /-- The null process and the initial task have no parent, and are never reaped. -/
  first : ∀ p ≤ 1, (t.PT p).pstate ≠ .free ∧ (t.PT p).parent = none
  children : ∀ p c, c ∈ (t.PT p).childrenList ↔
    (t.PT c).pstate ≠ .free ∧ (t.PT c).parent = some p
  exited : ∀ p c, c ∈ (t.PT p).exitedList ↔ (t.PT c).pstate = .zombie ∧ (t.PT c).parent = some p
  nodup : ∀ p, (t.PT p).childrenList.Nodup ∧ (t.PT p).exitedList.Nodup
  mainThread : ∀ p, (t.PT p).mainThread = true ↔ (t.PT p).pstate = .alive
  /-- The PCBs in use hold the processes that were not pushed. -/
  holds : ∀ p, (t.PT p).pstate ≠ .free → t.execs[t.proc p]? = some p ∧ t.proc p ∉ t.pushes
  gone : ∀ i < t.execs.length, i ∈ t.pushes ∨ ∃ p, (t.PT p).pstate ≠ .free ∧ t.proc p = i
  pushed : t.pushes.Nodup ∧ ∀ i ∈ t.pushes, i < t.execs.length
  reaped : t.pushes = t.waits.map (·.child)
  exitOnce : (t.exits.map (·.1)).Nodup ∧ ∀ i ∈ t.exits.map (·.1), i < t.execs.length
  alive : ∀ p, (t.PT p).pstate = .alive → t.proc p ∉ t.exits.map (·.1)
  zombie : ∀ p, (t.PT p).pstate = .zombie → (t.proc p, (t.PT p).exitval) ∈ t.exits
  waits : ∀ w ∈ t.waits, w.parent = some w.caller ∧
    ∃ v, (w.child, v) ∈ t.exits ∧ (w.status = none ∨ w.status = some v)

variable {maxProc : Nat} {t : ProcTable} {free : List Nat}

/-! ## `Exec` -/

theorem acquirePCB_none (h : t.pcbFreelist = none) (cur : Nat) : t.sysExec cur = (none, t) := by
  simp [ProcTable.sysExec, acquirePCB, h]

/-- A process that has its PCB, and no other: two PCBs in use hold two processes. -/
theorem Inv.proc_inj (h : t.Inv maxProc free) {p q : Nat} (hp : (t.PT p).pstate ≠ .free)
    (hq : (t.PT q).pstate ≠ .free) (he : t.proc p = t.proc q) : p = q := by
  have h₁ := (h.holds p hp).1
  have h₂ := (h.holds q hq).1
  rw [he, h₂] at h₁
  exact (Option.some.inj h₁).symm

theorem Inv.proc_lt (h : t.Inv maxProc free) {p : Nat} (hp : (t.PT p).pstate ≠ .free) :
    t.proc p < t.execs.length :=
  (List.getElem?_eq_some_iff.mp (h.holds p hp).1).1

/-- What `Exec` does to the PCBs; the new one is none of the first two. -/
theorem sysExec_PT {p : Nat} (hf : t.pcbFreelist = some p) (hp : ¬ p ≤ 1) (cur q : Nat) :
    (t.sysExec cur).2.PT q =
      { t.PT q with
        pstate := if q = p then .alive else (t.PT q).pstate
        parent := if q = p then some cur else (t.PT q).parent
        mainThread := if q = p then true else (t.PT q).mainThread
        childrenList := if q = cur then p :: (t.PT q).childrenList
          else (t.PT q).childrenList } := by
  simp only [ProcTable.sysExec, acquirePCB, hf, if_neg hp, ProcTable.modify, Function.update_apply]
  by_cases hq : q = p
  · subst hq
    by_cases hc : q = cur <;> simp [hc]
  · by_cases hc : q = cur
    · subst hc
      simp [hq]
    · simp [hq, hc]

theorem sysExec_rest {p : Nat} (hf : t.pcbFreelist = some p) (hp : ¬ p ≤ 1) (cur : Nat) :
    (t.sysExec cur).2 = { t with
      PT := (t.sysExec cur).2.PT
      pcbFreelist := (t.PT p).parent
      processCount := t.processCount + 1
      execs := t.execs ++ [p]
      proc := Function.update t.proc p t.execs.length } := by
  simp only [ProcTable.sysExec, acquirePCB, hf, if_neg hp, ProcTable.modify]

/-- **`Exec`** by a thread of any process. -/
theorem Inv.sysExec (h : t.Inv maxProc free) (cur : Nat) :
    ∃ free', (t.sysExec cur).2.Inv maxProc free' := by
  cases hf : t.pcbFreelist with
  | none =>
    rw [acquirePCB_none hf]
    exact ⟨free, h⟩
  | some p =>
    have hchain := h.chain
    rw [hf] at hchain
    obtain ⟨rest, rfl, hrest⟩ := hchain.pop
    have hnd := h.chain.nodup
    obtain ⟨hlt, hfree⟩ := (h.unused p).mp List.mem_cons_self
    have hp1 : ¬ p ≤ 1 := fun hle => (h.first p hle).1 hfree
    have hnr : p ∉ rest := (List.nodup_cons.mp hnd).1
    have hnl : ∀ q, p ∉ (t.PT q).childrenList ∧ p ∉ (t.PT q).exitedList := fun q =>
      ⟨fun hm => ((h.children q p).mp hm).1 hfree, fun hm => by
        have := ((h.exited q p).mp hm).1
        simp [hfree] at this⟩
    refine ⟨rest, ?_⟩
    have hpt := sysExec_PT hf hp1 cur
    rw [sysExec_rest hf hp1]
    generalize (t.sysExec cur).2.PT = PT' at *
    have hlen : ∀ q, (t.PT q).pstate ≠ .free → t.proc q < t.execs.length := fun q => h.proc_lt
    constructor <;> try simp only [hpt, Function.update_apply]
    case chain =>
      refine hrest.congr fun q hq => ?_
      simp [ne_of_mem_of_not_mem hq hnr]
    case unused => have := h.unused; grind
    case outside => have := h.outside; grind
    case count => have := h.count; grind
    case first => have := h.first; grind
    case children => have := h.children; grind
    case exited => have := h.exited; grind
    case nodup => have := h.nodup; grind
    case mainThread => have := h.mainThread; grind
    case holds => have := h.holds; have := h.pushed; grind
    case gone => have := h.gone; grind
    case pushed => have := h.pushed; grind
    case reaped => exact h.reaped
    case exitOnce => have := h.exitOnce; grind
    case alive => have := h.alive; have := h.exitOnce; grind
    case zombie => have := h.zombie; grind
    case waits => exact h.waits

/-! ## `WaitChild` -/

theorem cleanupZombie_PT (t : ProcTable) (cur c : Nat) (store : Bool) (q : Nat) :
    (t.cleanupZombie cur c store).PT q =
      { t.PT q with
        pstate := if q = c then .free else (t.PT q).pstate
        parent := if q = c then t.pcbFreelist else (t.PT q).parent
        childrenList := (t.PT q).childrenList.erase c
        exitedList := (t.PT q).exitedList.erase c } := by
  simp only [ProcTable.cleanupZombie, releasePCB, ProcTable.modify, Function.update_apply]
  by_cases hq : q = c
  · subst hq
    simp
  · simp [hq]

/-- **A zombie is reaped** by a thread of its parent. -/
theorem Inv.cleanupZombie (h : t.Inv maxProc free) {cur c : Nat} (store : Bool)
    (hz : (t.PT c).pstate = .zombie) (hp : (t.PT c).parent = some cur) :
    (t.cleanupZombie cur c store).Inv maxProc (c :: free) := by
  have hnf : c ∉ free := fun hm => by
    have := ((h.unused c).mp hm).2
    simp [hz] at this
  have hlt : c < maxProc := by
    by_contra hge
    have := h.outside c (Nat.le_of_not_lt hge)
    simp [hz] at this
  have hholds := h.holds c (by simp [hz])
  have hproc := h.proc_lt (p := c) (by simp [hz])
  have hinj : ∀ q, (t.PT q).pstate ≠ .free → t.proc q = t.proc c → q = c := fun q hq he =>
    h.proc_inj hq (by simp [hz]) he
  have hw := h.zombie c hz
  have hpt := t.cleanupZombie_PT cur c store
  have hrest : t.cleanupZombie cur c store = { t with
      PT := (t.cleanupZombie cur c store).PT
      pcbFreelist := some c
      processCount := t.processCount - 1
      waits := t.waits ++ [{ caller := cur, child := t.proc c, parent := (t.PT c).parent
                             status := if store then some (t.PT c).exitval else none }]
      pushes := t.pushes ++ [t.proc c] } := by
    simp only [ProcTable.cleanupZombie, releasePCB, ProcTable.modify]
  rw [hrest]
  generalize (t.cleanupZombie cur c store).PT = PT' at *
  constructor <;> try simp only [hpt]
  case chain =>
    refine ⟨rfl, ?_⟩
    simp only [if_true]
    exact h.chain.congr fun q hq => by simp [ne_of_mem_of_not_mem hq hnf]
  case unused => have := h.unused; grind
  case outside => have := h.outside; grind
  case count => have := h.count; grind
  case first => have := h.first; grind
  case children => have := h.children; have := h.nodup; grind
  case exited => have := h.exited; have := h.nodup; grind
  case nodup => have := h.nodup; grind
  case mainThread => have := h.mainThread; grind
  case holds => have := h.holds; grind
  case gone => have := h.gone; grind
  case pushed => have := h.pushed; grind
  case reaped => have := h.reaped; grind
  case exitOnce => exact h.exitOnce
  case alive => have := h.alive; grind
  case zombie => have := h.zombie; grind
  case waits => have := h.waits; grind

/-! ## `Exit` -/

theorem reparent_eq (t : ProcTable) {cur : Nat} (cs : List Nat) (hcur : cur ≠ 1 ∨ cs = []) :
    t.reparent cur cs = { t with
      PT := fun q => { t.PT q with
        parent := if q ∈ cs then some 1 else (t.PT q).parent
        childrenList :=
          if q = 1 then cs.reverse ++ (t.PT q).childrenList
          else if q = cur then (t.PT q).childrenList.drop cs.length
          else (t.PT q).childrenList } } := by
  induction cs generalizing t with
  | nil => simp [reparent]
  | cons c cs ih =>
    have hne : cur ≠ 1 := hcur.resolve_right (by simp)
    rw [reparent, ih _ (.inl hne)]
    simp only [ProcTable.modify, Function.update_apply]
    congr 1
    funext q
    obtain rfl | hc := eq_or_ne q c
    · obtain rfl | h1 := eq_or_ne q 1
      · simp [hne.symm]
      · obtain rfl | hq := eq_or_ne q cur <;> simp [*]
    · obtain rfl | h1 := eq_or_ne q 1
      · simp [hc, hne.symm]
      · obtain rfl | hq := eq_or_ne q cur <;> simp [*]

theorem appendExited_eq (t : ProcTable) {cur : Nat} (hcur : cur ≠ 1 ∨ (t.PT cur).exitedList = []) :
    t.appendExited cur = { t with
      PT := fun q => { t.PT q with
        exitedList :=
          if q = 1 then (t.PT q).exitedList ++ (t.PT cur).exitedList
          else if q = cur then [] else (t.PT q).exitedList } } := by
  unfold appendExited
  split
  · rename_i he
    have hsame : ∀ q, (if q = 1 then (t.PT q).exitedList ++ (t.PT cur).exitedList
        else if q = cur then [] else (t.PT q).exitedList) = (t.PT q).exitedList := by
      intro q
      by_cases hq : q = cur <;> simp [hq, he]
    simp only [hsame]
  · rename_i he
    have hne : cur ≠ 1 := hcur.resolve_right he
    simp only [ProcTable.modify, Function.update_apply]
    congr 1
    funext q
    by_cases h1 : q = 1
    · subst h1
      simp [hne.symm]
    · by_cases hq : q = cur
      · subst hq
        simp [h1]
      · simp [h1, hq]

theorem pushExited_eq (t : ProcTable) (cur : Nat) :
    t.pushExited cur = { t with
      PT := fun q => { t.PT q with
        exitedList := if (t.PT cur).parent = some q then cur :: (t.PT q).exitedList
          else (t.PT q).exitedList } } := by
  unfold pushExited
  split
  · rename_i hp
    simp [hp]
  · rename_i p hp
    simp only [ProcTable.modify, hp, Option.some.injEq]
    congr 1
    funext q
    by_cases hq : q = p
    · subst hq
      simp
    · simp [hq, Ne.symm hq]

/-- A process without children has no exited ones. -/
theorem Inv.exitedList_nil (h : t.Inv maxProc free) {p : Nat} (hc : (t.PT p).childrenList = []) :
    (t.PT p).exitedList = [] := by
  refine List.eq_nil_iff_forall_not_mem.mpr fun c hm => ?_
  obtain ⟨hz, hp⟩ := (h.exited p c).mp hm
  have := (h.children p c).mpr ⟨by simp [hz], hp⟩
  simp [hc] at this

/-- **What `Exit` does**: the children and the exited children go to the initial task, and the
process to its parent, which may be the initial task since this very call. The initial task itself has
reaped its children. -/
theorem Inv.sysExit_eq (h : t.Inv maxProc free) {cur : Nat} (v : Int)
    (hcur : cur = 1 → (t.PT 1).childrenList = []) : t.sysExit cur v = { t with
      PT := fun q => { t.PT q with
        pstate := if q = cur then .zombie else (t.PT q).pstate
        parent := if q ∈ (t.PT cur).childrenList then some 1 else (t.PT q).parent
        exitval := if q = cur then v else (t.PT q).exitval
        mainThread := if q = cur then false else (t.PT q).mainThread
        childrenList :=
          if q = 1 then (t.PT cur).childrenList.reverse ++ (t.PT q).childrenList
          else if q = cur then [] else (t.PT q).childrenList
        exitedList :=
          let exited :=
            if q = 1 then (t.PT q).exitedList ++ (t.PT cur).exitedList
            else if q = cur then [] else (t.PT q).exitedList
          if (if cur ∈ (t.PT cur).childrenList then some 1 else (t.PT cur).parent) = some q
          then cur :: exited else exited }
      exits := t.exits ++ [(t.proc cur, v)] } := by
  have hchild : cur ≠ 1 ∨ (t.PT cur).childrenList = [] := by
    by_cases hc : cur = 1
    · exact .inr (by rw [hc]; exact hcur hc)
    · exact .inl hc
  have hexited : cur ≠ 1 ∨ (t.PT cur).exitedList = [] := hchild.imp_right h.exitedList_nil
  have hdrop : (t.PT cur).childrenList.drop (t.PT cur).childrenList.length = [] :=
    List.drop_length
  simp only [ProcTable.sysExit]
  rw [reparent_eq _ _ hchild, appendExited_eq _ (by simpa using hexited), pushExited_eq]
  simp only [ProcTable.modify, hdrop]
  congr 1
  funext q
  by_cases hq : q = cur
  · subst hq
    simp
  · simp [hq]

/-- **`Exit`** by a thread of a process that is alive; the initial task has reaped its children. -/
theorem Inv.sysExit (h : t.Inv maxProc free) {cur : Nat} (v : Int)
    (hm : (t.PT cur).mainThread = true) (hcur : cur = 1 → (t.PT 1).childrenList = []) :
    (t.sysExit cur v).Inv maxProc free := by
  have halive : (t.PT cur).pstate = .alive := (h.mainThread cur).mp hm
  have hexited : cur = 1 → (t.PT 1).exitedList = [] := fun he => h.exitedList_nil (hcur he)
  have hne : ∀ q, cur ∉ (t.PT q).exitedList := fun q hm => by
    have := ((h.exited q cur).mp hm).1
    simp [halive] at this
  have hholds := h.holds cur (by simp [halive])
  have hproc := h.proc_lt (p := cur) (by simp [halive])
  have hinj : ∀ q, (t.PT q).pstate ≠ .free → t.proc q = t.proc cur → q = cur := fun q hq he =>
    h.proc_inj hq (by simp [halive]) he
  have hnew := h.alive cur halive
  have hnd : ∀ p q, p ≠ q → ∀ c ∈ (t.PT p).childrenList, c ∉ (t.PT q).childrenList := by
    intro p q hpq c hp hq
    have h₁ := ((h.children p c).mp hp).2
    rw [((h.children q c).mp hq).2] at h₁
    exact hpq (Option.some.inj h₁).symm
  have hnde : ∀ p q, p ≠ q → ∀ c ∈ (t.PT p).exitedList, c ∉ (t.PT q).exitedList := by
    intro p q hpq c hp hq
    have h₁ := ((h.exited p c).mp hp).2
    rw [((h.exited q c).mp hq).2] at h₁
    exact hpq (Option.some.inj h₁).symm
  rw [h.sysExit_eq v hcur]
  constructor
  case chain =>
    have hchain := h.chain
    refine hchain.congr fun q hq => ?_
    have hf := ((h.unused q).mp hq).2
    have hn : q ∉ (t.PT cur).childrenList := fun hm => ((h.children cur q).mp hm).1 hf
    simp [hn]
  case unused => have := h.unused; grind
  case outside => have := h.outside; grind
  case count => exact h.count
  case first => have := h.first; have := h.children; grind
  case children => have := h.children; grind
  case exited => have := h.exited; have := h.children; grind
  case nodup => have := h.nodup; grind
  case mainThread => have := h.mainThread; grind
  case holds => have := h.holds; grind
  case gone => have := h.gone; grind
  case pushed => have := h.pushed; grind
  case reaped => have := h.reaped; grind
  case exitOnce => have := h.exitOnce; grind
  case alive => have := h.alive; grind
  case zombie => have := h.zombie; grind
  case waits => have := h.waits; grind

/-! ## The table after the boot -/

/-- The PCB that the loop chains behind `p`. -/
def nextPCB (maxProc p : Nat) : Option Nat := if p + 1 < maxProc then some (p + 1) else none

theorem isChain_nextPCB {n : Nat} (a : Nat) (o : Option Nat)
    (ho : o = if 0 < n then some a else none) :
    IsChain (nextPCB (a + n)) o (List.range' a n) := by
  induction n generalizing a o with
  | zero => simpa using ho
  | succ n ih =>
    refine ⟨by simpa using ho, ?_⟩
    have := ih (a + 1) (nextPCB (a + (n + 1)) a) (by unfold nextPCB; grind)
    rwa [Nat.add_right_comm, Nat.add_assoc] at this

/-- The loop chains the PCBs, and changes nothing else. -/
theorem chainPCB_foldr (t : ProcTable) (hf : t.pcbFreelist = none) (a n : Nat) :
    (List.range' a n).foldr chainPCB t = { t with
      PT := fun p => { t.PT p with
        parent := if a ≤ p ∧ p < a + n then nextPCB (a + n) p else (t.PT p).parent }
      pcbFreelist := if 0 < n then some a else none } := by
  induction n generalizing a with
  | zero =>
    have : ∀ p, ¬ (a ≤ p ∧ p < a) := fun p => by omega
    simp [this, ← hf]
  | succ n ih =>
    rw [List.range'_succ, List.foldr_cons, ih]
    simp only [chainPCB, ProcTable.modify, Nat.succ_pos, if_true]
    congr 1
    funext p
    obtain rfl | hp := eq_or_ne p a
    · simp only [Function.update_self]
      congr 1
      unfold nextPCB
      grind
    · simp only [Function.update_of_ne hp]
      congr 1
      unfold nextPCB
      grind

theorem initializeProcesses_eq (h : 0 < maxProc) : initializeProcesses maxProc =
    { PT := fun p => { initializePCB with
        parent := if p < maxProc then nextPCB maxProc p else none }
      processCount := 0
      pcbFreelist := some 0
      execs := [], proc := fun _ => 0, exits := [], waits := [], pushes := [] } := by
  unfold initializeProcesses
  rw [List.range_eq_range', chainPCB_foldr _ rfl]
  simp [h, initializePCB]

/-- `Exec` of the null process or of the initial task. -/
theorem sysExec_first (t : ProcTable) {p : Nat} (hf : t.pcbFreelist = some p) (hp : p ≤ 1)
    (cur : Nat) : (t.sysExec cur).2 = { t with
      PT := Function.update t.PT p
        { t.PT p with pstate := .alive, parent := none, mainThread := true }
      pcbFreelist := (t.PT p).parent
      processCount := t.processCount + 1
      execs := t.execs ++ [p]
      proc := Function.update t.proc p t.execs.length } := by
  simp [ProcTable.sysExec, acquirePCB, hf, hp, ProcTable.modify]

/-- The table after the boot. -/
def booted (maxProc : Nat) : ProcTable where
  PT p := { initializePCB with
    pstate := if p ≤ 1 then .alive else .free
    parent := if 2 ≤ p ∧ p < maxProc then nextPCB maxProc p else none
    mainThread := decide (p ≤ 1) }
  processCount := 2
  pcbFreelist := nextPCB maxProc 1
  execs := [0, 1]
  proc p := if p = 1 then 1 else 0
  exits := []
  waits := []
  pushes := []

theorem boot_eq (h : 2 ≤ maxProc) : Procs.boot maxProc =
    { toProcTable := booted maxProc
      owner := fun _ => 1
      pc := fun u => if u = 0 then .running else .unborn
      threads := 1 } := by
  have ht := initializeProcesses_eq (show 0 < maxProc by omega)
  unfold Procs.boot
  generalize initializeProcesses maxProc = t at *
  have hf : t.pcbFreelist = some 0 := by rw [ht]
  have hp : (t.PT 0).parent = some 1 := by
    rw [ht]
    simp [nextPCB, show 0 < maxProc by omega, show 1 < maxProc by omega]
  have hp' : ((t.sysExec 0).2).pcbFreelist = some 1 := by
    rw [sysExec_first t hf (Nat.zero_le 1), ← hp]
  simp only
  rw [sysExec_first _ hp' (Nat.le_refl 1), sysExec_first t hf (Nat.zero_le 1)]
  subst ht
  simp only [booted, Procs.mk.injEq, ProcTable.mk.injEq, and_true]
  refine ⟨?_, rfl, ?_, rfl, ?_⟩
  · funext p
    obtain rfl | hp1 := eq_or_ne p 1
    · simp
    · obtain rfl | hp0 := eq_or_ne p 0
      · simp
      · have hgt : ¬ p ≤ 1 := by omega
        have hge : 2 ≤ p := by omega
        simp [hp1, hp0, hgt, hge, initializePCB]
  · simp [show ¬ maxProc ≤ 1 by omega]
  · funext p
    obtain rfl | hp1 := eq_or_ne p 1
    · simp
    · obtain rfl | hp0 := eq_or_ne p 0 <;> simp [*]

/-- **The kernel boots** with a sound table. -/
theorem inv_booted (h : 2 ≤ maxProc) :
    (booted maxProc).Inv maxProc (List.range' 2 (maxProc - 2)) := by
  obtain ⟨n, rfl⟩ : ∃ n, maxProc = n + 2 := ⟨maxProc - 2, by omega⟩
  have hchain : IsChain (nextPCB (n + 2)) (nextPCB (n + 2) 1) (List.range' 2 n) := by
    rw [Nat.add_comm]
    exact isChain_nextPCB 2 _ (by unfold nextPCB; grind)
  constructor
  case chain =>
    refine hchain.congr fun p hp => ?_
    obtain ⟨h2, hlt⟩ := List.mem_range'_1.mp hp
    simp [booted, h2, show p < n + 2 by omega]
  all_goals simp only [booted, initializePCB]
  case gone =>
    intro i hi
    have hi : i < 2 := hi
    exact .inr ⟨i, by grind⟩
  case unused | outside | first | count | mainThread | holds | alive | zombie => grind
  case children | exited => grind
  all_goals simp

end ProcTable

end TinyOS
