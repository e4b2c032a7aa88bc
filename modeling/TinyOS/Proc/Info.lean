import TinyOS.Proc.Invariant
import TinyOS.Pipe.Basic

/-!
# `OpenInfo` (`kernel_proc.c`)

`sys_OpenInfo` copies the PCBs that are in use into an array, and each `Read` of the stream takes
one record off it, from the end of the array down. The index that `sys_OpenInfo` leaves behind is
the number of records, **one past the last**: the first `Read` copies what lies behind the array, and
the stream delivers a record too many (`not_delivers`).

A record is copied from its PCB as a whole; the fields kept here say which PCB it was. The index is
a `uint32_t`, and its -1 is `2 ^ 32 - 1`.
-/

set_option autoImplicit false

namespace TinyOS

/-- `sizeof(procinfo)`. -/
def procinfoSize : Nat := 168

/-- `PROCINFO_MAX_ARGS_SIZE`. -/
def PROCINFO_MAX_ARGS_SIZE : Nat := 128

structure ProcInfo where
  pid : Nat
  ppid : Nat
  alive : Bool
  deriving DecidableEq

structure InfoCB where
  infoTable : List ProcInfo
  index : Nat

/-- What a `Read` returns. A record is an element of the array, or `none` outside it. -/
inductive InfoRead where
  | error
  | record (element : Option ProcInfo)
  | eof
  deriving DecidableEq

namespace ProcTable

/-- The copy of a PCB. -/
def info (t : ProcTable) (p : Nat) : ProcInfo where
  pid := p
  ppid := (t.PT p).parent.getD 0
  alive := decide ((t.PT p).pstate = .alive)

/-- The loop of `sys_OpenInfo`, over the pids that are left. -/
def snapshotLoop (t : ProcTable) (curCount : Nat) :
    List Nat → Nat → List ProcInfo → Nat × List ProcInfo
  | [], index, table => (index, table)
  | p :: ps, index, table =>
    if index = curCount ∨ t.processCount < index then (index, table)
    else if (t.PT p).pstate ≠ .free then
      snapshotLoop t curCount ps (index + 1) (table.set index (t.info p))
    else snapshotLoop t curCount ps index table

/-- `sys_OpenInfo`, where `FCB_reserve` and `malloc` do not fail: the object of the stream. -/
def openInfo (maxProc : Nat) (t : ProcTable) : InfoCB :=
  let curCount := t.processCount.toNat
  let zero : ProcInfo := { pid := 0, ppid := 0, alive := false }
  let done := t.snapshotLoop curCount (List.range maxProc) 0 (List.replicate curCount zero)
  { infoTable := done.2, index := done.1 }

/-- The pids in use. -/
def pids (maxProc : Nat) (t : ProcTable) : List Nat :=
  (List.range maxProc).filter fun p => decide ((t.PT p).pstate ≠ .free)

end ProcTable

namespace InfoCB

/-- `info_read`. -/
def infoRead (info : InfoCB) (size : Nat) : InfoRead × InfoCB :=
  if size ≠ procinfoSize then (.error, info)
  else if info.index ≠ 2 ^ 32 - 1 then
    (.record info.infoTable[info.index]?, { info with index := sub32 info.index 1 })
  else (.eof, info)

/-- Successive `Read`s of `sizeof(procinfo)` bytes. -/
def reads : Nat → InfoCB → List InfoRead
  | 0, _ => []
  | n + 1, info =>
    let r := info.infoRead procinfoSize
    r.1 :: reads n r.2

/-- As long as the index has not passed 0, a `Read` returns a record. -/
theorem reads_record (info : InfoCB) {j : Nat} (hj : j ≤ info.index)
    (hindex : info.index < 2 ^ 32 - 1) :
    (info.reads (j + 1))[j]? = some (.record info.infoTable[info.index - j]?) := by
  have hread : info.infoRead procinfoSize =
      (.record info.infoTable[info.index]?, { info with index := sub32 info.index 1 }) := by
    rw [infoRead, if_neg (by simp), if_pos (by omega)]
  induction j generalizing info with
  | zero => simp [reads, hread]
  | succ j ih =>
    have hsub : sub32 info.index 1 = info.index - 1 := sub32_eq (by omega) (by omega)
    rw [reads, hread]
    simp only [List.getElem?_cons_succ, hsub]
    have hnext : ({ info with index := info.index - 1 } : InfoCB).infoRead procinfoSize =
        (.record info.infoTable[info.index - 1]?,
          { info with index := sub32 (info.index - 1) 1 }) := by
      rw [infoRead, if_neg (by simp), if_pos (by simp only; omega)]
    have := ih { info with index := info.index - 1 } (by simp only; omega) (by simp only; omega) hnext
    rw [this]
    simp only [Nat.sub_sub, Nat.add_comm]

end InfoCB

namespace ProcTable

/-- **What `OpenInfo` promises**: over successive `Read`s, one record for each pid in use, from the
array, and then the end of the stream. -/
def Delivers (maxProc : Nat) (t : ProcTable) : Prop :=
  ∃ es : List ProcInfo, (es.map (·.pid)).Perm (t.pids maxProc) ∧
    ∀ n, (t.openInfo maxProc).reads n =
      (es.map (fun e => InfoRead.record (some e)) ++ List.replicate n InfoRead.eof).take n

/-- The loop fills the array, or goes through all PCBs. -/
theorem snapshotLoop_spec (t : ProcTable) (ps : List Nat) {index : Nat} {table : List ProcInfo}
    (hindex : index ≤ t.processCount.toNat) (htable : table.length = t.processCount.toNat) :
    let used := (ps.filter fun p => decide ((t.PT p).pstate ≠ .free)).length
    let done := t.snapshotLoop t.processCount.toNat ps index table
    done.2.length = t.processCount.toNat ∧ done.1 ≤ index + used ∧
      (done.1 = t.processCount.toNat ∨ done.1 = index + used) := by
  induction ps generalizing index table with
  | nil => simp [snapshotLoop, htable]
  | cons p ps ih =>
    rw [snapshotLoop]
    split
    · -- The array is full.
      simp only
      exact ⟨htable, by omega, .inl (by omega)⟩
    · split
      · rename_i hmore hp
        have := @ih (index + 1) (table.set index (t.info p)) (by omega)
          (by simpa using htable)
        rw [List.filter_cons_of_pos (by simpa using hp), List.length_cons]
        simp only at this ⊢
        omega
      · rename_i hp
        rw [List.filter_cons_of_neg (by simpa using hp)]
        exact ih hindex htable

theorem not_delivers {maxProc : Nat} (h : maxProc < 2 ^ 32 - 1) (t : ProcTable) :
    ¬ t.Delivers maxProc := by
  rintro ⟨es, hperm, hreads⟩
  obtain ⟨hlength, hle, hend⟩ := t.snapshotLoop_spec (List.range maxProc) (Nat.zero_le _)
    (List.length_replicate (n := t.processCount.toNat) (a := ⟨0, 0, false⟩))
  have hk : es.length = (t.pids maxProc).length := by simpa using hperm.length_eq
  have hpids : (t.pids maxProc).length ≤ maxProc :=
    (List.length_filter_le ..).trans_eq List.length_range
  rw [Nat.zero_add] at hle hend
  change (t.openInfo maxProc).index ≤ (t.pids maxProc).length at hle
  change (t.openInfo maxProc).index = _ ∨
    (t.openInfo maxProc).index = (t.pids maxProc).length at hend
  change (t.openInfo maxProc).infoTable.length = _ at hlength
  generalize t.openInfo maxProc = info at *
  by_cases hfew : info.index < (t.pids maxProc).length
  · -- The first record comes from behind the array.
    have hfirst := info.reads_record (Nat.zero_le _) (by omega)
    have hout : info.infoTable[info.index]? = none := List.getElem?_eq_none (by omega)
    obtain ⟨e, es, rfl⟩ := List.exists_cons_of_length_pos (l := es) (by omega)
    simp [hreads, hout] at hfirst
  · -- One record too many.
    have hlast := info.reads_record (j := es.length) (by omega) (by omega)
    simp [hreads] at hlast

end ProcTable

/-- **No stream of `OpenInfo` is what it should be**, whatever the process table. -/
theorem openInfo_never_delivers (t : ProcTable) : ¬ t.Delivers MAX_PROC :=
  t.not_delivers (by decide)

/-- Not even in a kernel that has just booted. -/
theorem not_openInfo_delivers :
    ¬ ∀ t : ProcTable, t.processCount = (t.pids MAX_PROC).length → t.Delivers MAX_PROC := by
  intro hall
  refine (ProcTable.booted MAX_PROC).not_delivers (by decide) (hall _ ?_)
  have hused : ∀ n, (List.range (2 + n)).filter
      (fun p => decide (((ProcTable.booted MAX_PROC).PT p).pstate ≠ .free)) = [0, 1] := by
    intro n
    have hrest : ((List.range n).map (2 + ·)).filter
        (fun p => decide (((ProcTable.booted MAX_PROC).PT p).pstate ≠ .free)) = [] := by
      refine List.filter_eq_nil_iff.mpr fun p hp => ?_
      obtain ⟨q, -, rfl⟩ := List.mem_map.mp hp
      have hq : ¬ 2 + q ≤ 1 := by omega
      simp [ProcTable.booted, hq]
    rw [List.range_add, List.filter_append, hrest]
    rfl
  have hlength : ((ProcTable.booted MAX_PROC).pids MAX_PROC).length = 2 :=
    congrArg List.length (hused (MAX_PROC - 2))
  rw [hlength]
  rfl

end TinyOS
