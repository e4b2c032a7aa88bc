import TinyOS.Stream.Files
import TinyOS.Pipe.Basic
import TinyOS.Lib.Words

/-!
# `Write` on a terminal (`kernel_dev.c`, `kernel_streams.c`)

The serial port answers each call of `bios_write_serial` with yes or no, as it likes. `serial_write`
polls it: a refusal of the first byte makes it try again, but **a refusal of any later byte ends the
call**. What was handed to the port by then is always a prefix of the buffer, and its length is what
the call returns.

So the size is returned if and only if the port, once it has accepted a byte, accepts the rest without
a refusal (`Steady`), and the size is not negative as an `int`.
-/

set_option autoImplicit false

namespace TinyOS

/-- What a `Write` does that the rest of the machine can see. -/
inductive SerialEvent where
  /-- A call of `bios_write_serial`, and whether it succeeded. -/
  | writeSerial (devno : Nat) (value : Byte) (success : Bool)
  | yield
  deriving DecidableEq

/-- The bytes that the port `devno` has accepted. -/
def handed (devno : Nat) (events : List SerialEvent) : List Byte :=
  events.filterMap fun e =>
    match e with
    | .writeSerial d value true => if d = devno then some value else none
    | .writeSerial _ _ false | .yield => none

section
variable (answers : Nat → Bool) (devno : Nat) (buf : Nat → Byte) (size : Nat)

/-- The loop of `serial_write`, for at most `fuel` tests of its condition, after `n` calls of
`bios_write_serial`: the events, and the final `count`. -/
def serialLoop : Nat → Nat → Nat → Option (List SerialEvent × Nat)
  | 0, _, _ => none
  | fuel + 1, n, count =>
    if count < size then
      let success := answers n
      let rest :=
        if success then serialLoop fuel (n + 1) (count + 1)
        else if count = 0 then
          (serialLoop fuel (n + 1) count).map fun r => (.yield :: r.1, r.2)
        else some ([], count)
      rest.map fun r => (.writeSerial devno (buf count) success :: r.1, r.2)
    else some ([], count)

/-- `serial_write`. The count is returned as an `int`. -/
def serialWrite (fuel : Nat) : Option (List SerialEvent × Int) :=
  (serialLoop answers devno buf size fuel 0 0).map fun r => (r.1, Words.int32 r.2)

end

namespace FileTables

/-- `FCB_decref`, for the FCB of a terminal: `serial_close` does nothing. -/
def decrefSerial (t : FileTables) (f : Nat) : FileTables :=
  let t := t.decrementFCB f
  if (t.FT f).refcount = 0 then t.releaseFCB f else t

/-- `sys_Write`, in process `p`, for a file id that is not open or that of a terminal. `none` is the
`Write` of another stream. -/
def writeSerial (t : FileTables) (p : Nat) (fd : Int) (answers : Nat → Bool) (buf : Nat → Byte)
    (size fuel : Nat) : Option (List SerialEvent × Int × FileTables) :=
  match t.getFCB p fd with
  | none => some ([], -1, t)
  | some f =>
    match (t.FT f).stream with
    | some (.serial devno) =>
      let t := t.increfFCB f
      (serialWrite answers devno buf size fuel).map fun r => (r.1, r.2, t.decrefSerial f)
    | _ => none

end FileTables

variable {answers : Nat → Bool} {devno : Nat} {buf : Nat → Byte} {size : Nat}

/-! ## Runs -/

/-- From the `n`-th poll on, the bytes from `count` to `total` were handed over: as many as the port
accepts in a row. -/
structure Accepted (answers : Nat → Bool) (devno : Nat) (buf : Nat → Byte) (size n count : Nat)
    (events : List SerialEvent) (total : Nat) : Prop where
  ge : count ≤ total
  le : total ≤ size
  handed : handed devno events = (List.range' count (total - count)).map buf
  yes : ∀ i < total - count, answers (n + i) = true
  no : total < size → answers (n + (total - count)) = false

/-- **Once a byte is accepted**, the next refusal ends the loop. -/
theorem serialLoop_run (devno : Nat) (buf : Nat → Byte) {n count : Nat}
    (hpos : answers n = false → 0 < count) (hle : count ≤ size) :
    ∃ events total, (∀ fuel, size - count < fuel →
        serialLoop answers devno buf size fuel n count = some (events, total)) ∧
      Accepted answers devno buf size n count events total := by
  obtain ⟨d, hd⟩ : ∃ d, size = count + d := ⟨size - count, by omega⟩
  induction d generalizing n count with
  | zero =>
    refine ⟨[], count, fun fuel hfuel => ?_, le_rfl, hle, by simp [handed], fun i hi => ?_,
      fun hlt => ?_⟩
    · obtain ⟨fuel, rfl⟩ : ∃ k, fuel = k + 1 := ⟨fuel - 1, by omega⟩
      rw [serialLoop, if_neg (by omega)]
    · omega
    · omega
  | succ d ih =>
    have hlt : count < size := by omega
    cases hanswer : answers n with
    | false =>
      refine ⟨[.writeSerial devno (buf count) false], count, fun fuel hfuel => ?_, le_rfl, hle,
        by simp [handed], fun i hi => ?_, fun _ => by simpa using hanswer⟩
      · obtain ⟨fuel, rfl⟩ : ∃ k, fuel = k + 1 := ⟨fuel - 1, by omega⟩
        simp [serialLoop, hlt, hanswer, (hpos hanswer).ne']
      · omega
    | true =>
      obtain ⟨events, total, hrun, hacc⟩ :=
        ih (n := n + 1) (fun _ => Nat.succ_pos count) hlt (by omega)
      have hlen : total - count = total - (count + 1) + 1 := by
        have := hacc.ge
        omega
      refine ⟨.writeSerial devno (buf count) true :: events, total, fun fuel hfuel => ?_,
        (Nat.le_succ count).trans hacc.ge, hacc.le, ?_, fun i hi => ?_, fun hshort => ?_⟩
      · obtain ⟨fuel, rfl⟩ : ∃ k, fuel = k + 1 := ⟨fuel - 1, by omega⟩
        have hrest := hrun fuel (by omega)
        simp [serialLoop, hlt, hanswer, hrest]
      · have hhanded := hacc.handed
        rw [hlen, List.range'_succ, List.map_cons, ← hhanded]
        simp [handed]
      · cases i with
        | zero => exact hanswer
        | succ i =>
          have := hacc.yes i (by omega)
          rwa [Nat.add_right_comm] at this
      · have := hacc.no hshort
        rw [hlen]
        rwa [Nat.add_right_comm] at this

/-- **Before it**, the loop goes on polling. -/
theorem serialLoop_wait (devno : Nat) (buf : Nat → Byte) {n k : Nat} (hsize : 0 < size)
    (hno : ∀ j < k, answers (n + j) = false) (hyes : answers (n + k) = true) :
    ∃ events total, (∀ fuel, k + size < fuel →
        serialLoop answers devno buf size fuel n 0 = some (events, total)) ∧
      Accepted answers devno buf size (n + k) 0 events total := by
  induction k generalizing n with
  | zero =>
    have haccepts : answers n = false → 0 < 0 := fun hrefuses =>
      Bool.noConfusion (hrefuses.symm.trans hyes)
    obtain ⟨events, total, hrun, hacc⟩ :=
      serialLoop_run devno buf haccepts (Nat.zero_le size)
    exact ⟨events, total, fun fuel hfuel => hrun fuel (by omega), hacc⟩
  | succ k ih =>
    have hnext : ∀ j < k, answers (n + 1 + j) = false := by
      intro j hj
      rw [Nat.add_right_comm]
      exact hno (j + 1) (by omega)
    obtain ⟨events, total, hrun, hacc⟩ := ih hnext (by rwa [Nat.add_right_comm])
    have hfirst : answers n = false := hno 0 (Nat.succ_pos k)
    have hshift : n + (k + 1) = n + 1 + k := by omega
    refine ⟨.writeSerial devno (buf 0) false :: .yield :: events, total, fun fuel hfuel => ?_,
      hacc.ge, hacc.le, ?_, ?_, ?_⟩
    · obtain ⟨fuel, rfl⟩ : ∃ m, fuel = m + 1 := ⟨fuel - 1, by omega⟩
      have hrest := hrun fuel (by omega)
      simp [serialLoop, hsize, hfirst, hrest]
    · rw [← hacc.handed]
      simp [handed]
    · rw [hshift]
      exact hacc.yes
    · rw [hshift]
      exact hacc.no

/-- **Every call ends**, and hands over a prefix of the buffer. -/
theorem serialLoop_ends (hready : ∃ k, answers k = true) (devno : Nat) (buf : Nat → Byte)
    (size : Nat) :
    ∃ k events total, (∀ j < k, answers j = false) ∧
      (∀ fuel, k + size < fuel →
        serialLoop answers devno buf size fuel 0 0 = some (events, total)) ∧
      Accepted answers devno buf size k 0 events total ∧ (0 < size → 0 < total) := by
  rcases Nat.eq_zero_or_pos size with rfl | hpos
  · refine ⟨0, [], 0, fun j hj => absurd hj (Nat.not_lt_zero j), fun fuel hfuel => ?_,
      ⟨le_rfl, le_rfl, rfl, fun i hi => absurd hi (Nat.not_lt_zero i), fun hlt => ?_⟩, id⟩
    · obtain ⟨fuel, rfl⟩ : ∃ m, fuel = m + 1 := ⟨fuel - 1, by omega⟩
      rfl
    · exact absurd hlt (Nat.lt_irrefl 0)
  · -- The first poll that succeeds.
    have hno : ∀ j < Nat.find hready, answers (0 + j) = false := by
      intro j hj
      rw [Nat.zero_add]
      exact Bool.eq_false_iff.mpr (Nat.find_min hready hj)
    have hyes : answers (0 + Nat.find hready) = true := by
      rw [Nat.zero_add]
      exact Nat.find_spec hready
    obtain ⟨events, total, hrun, hacc⟩ := serialLoop_wait devno buf hpos hno hyes
    rw [Nat.zero_add] at hacc
    refine ⟨Nat.find hready, events, total, fun j hj => ?_, hrun, hacc, fun _ => ?_⟩
    · have := hno j hj
      rwa [Nat.zero_add] at this
    · by_contra hzero
      have hstop := hacc.no (by omega)
      have hnone : total - 0 = 0 := by omega
      rw [hnone, Nat.add_zero] at hstop
      exact Bool.noConfusion (hstop.symm.trans (Nat.find_spec hready))

/-! ## Transfers -/

/-- The `Write` hands over the whole buffer, and returns its size. -/
def Transfers (t : FileTables) (p : Nat) (fd : Int) (devno : Nat) (answers : Nat → Bool)
    (buf : Nat → Byte) (size : Nat) : Prop :=
  ∃ events t' m, (∀ fuel, m < fuel →
      t.writeSerial p fd answers buf size fuel = some (events, (size : Int), t')) ∧
    handed devno events = (List.range size).map buf

/-- From the first poll that succeeds on, the port accepts `size` bytes in a row. -/
def Steady (answers : Nat → Bool) (size : Nat) : Prop :=
  ∃ k, (∀ j < k, answers j = false) ∧ ∀ i < size, answers (k + i) = true

theorem writeSerial_eq {t : FileTables} {p f : Nat} {fd : Int} {fuel total : Nat}
    {events : List SerialEvent} (hf : t.getFCB p fd = some f)
    (hstream : (t.FT f).stream = some (.serial devno))
    (hrun : serialLoop answers devno buf size fuel 0 0 = some (events, total)) :
    t.writeSerial p fd answers buf size fuel =
      some (events, Words.int32 total, (t.increfFCB f).decrefSerial f) := by
  simp [FileTables.writeSerial, hf, hstream, serialWrite, hrun]

/-- **A `Write` on a terminal** does what it should if and only if the port is steady and the size is
an `int`. The sizes are those of an `unsigned int`. -/
theorem transfers_iff (t : FileTables) (p : Nat) (fd : Int) (f devno : Nat)
    (hf : t.getFCB p fd = some f) (hstream : (t.FT f).stream = some (.serial devno))
    (answers : Nat → Bool) (hready : ∀ n, ∃ m, n ≤ m ∧ answers m = true) (buf : Nat → Byte)
    (size : Nat) :
    Transfers t p fd devno answers buf size ↔ size < 2 ^ 31 ∧ Steady answers size := by
  obtain ⟨m, -, hm⟩ := hready 0
  obtain ⟨k, events, total, hno, hrun, hacc, hpos⟩ := serialLoop_ends ⟨m, hm⟩ devno buf size
  have hreturn := fun fuel hfuel => writeSerial_eq hf hstream (hrun fuel hfuel)
  have hle := hacc.le
  constructor
  · rintro ⟨events', t', n, htransfer, -⟩
    have hlong : n < n + k + size + 1 ∧ k + size < n + k + size + 1 := by omega
    have heq := (hreturn _ hlong.2).symm.trans (htransfer _ hlong.1)
    have hsize : Words.int32 total = (size : Int) := by
      simp only [Option.some.injEq, Prod.mk.injEq] at heq
      exact heq.2.1
    have hlt := Words.int32_lt total
    have htotal : Words.int32 total = (total : Int) := Words.int32_of_lt (by omega) (by omega)
    refine ⟨by omega, k, hno, fun i hi => hacc.yes i (by omega)⟩
  · rintro ⟨hlt, k', hno', hyes'⟩
    have htotal : total = size := by
      by_contra hne
      have hshort : total < size := by omega
      have hfirst : answers k = true := by
        have := hacc.yes 0 (by have := hpos (by omega); omega)
        rwa [Nat.add_zero] at this
      have hfirst' : answers k' = true := by
        have := hyes' 0 (by omega)
        rwa [Nat.add_zero] at this
      -- Both are the first poll that succeeds.
      have hk : k' = k := by
        rcases lt_trichotomy k' k with h | h | h
        · exact Bool.noConfusion ((hno k' h).symm.trans hfirst')
        · exact h
        · exact Bool.noConfusion ((hno' k h).symm.trans hfirst)
      have hstop := hacc.no hshort
      rw [Nat.sub_zero, ← hk] at hstop
      exact Bool.noConfusion (hstop.symm.trans (hyes' total hshort))
    refine ⟨events, (t.increfFCB f).decrefSerial f, k + size, fun fuel hfuel => ?_, ?_⟩
    · rw [hreturn fuel hfuel, htotal, Words.int32_of_lt (by omega) (by omega)]
    · rw [hacc.handed, htotal, Nat.sub_zero, List.range_eq_range']

/-- Process 1 has terminal 2 as its fid 0. -/
def oneTerminal : FileTables where
  FIDT p fid := if p = 1 ∧ fid = 0 then some 0 else none
  FT _ := { refcount := 1, stream := some (.serial 2) }
  freelist := []

/-- The port is busy at first. -/
theorem transfers_late : Transfers oneTerminal 1 0 2 (fun n => decide (n ≠ 0)) (fun _ => 7) 2 := by
  have hready : ∀ n, ∃ m, n ≤ m ∧ decide (m ≠ 0) = true := fun n => ⟨n + 1, by omega, by simp⟩
  have hiff := transfers_iff oneTerminal 1 0 0 2 (by decide) (by decide) _ hready (fun _ => 7) 2
  refine hiff.mpr ⟨by decide, 1, fun j hj => ?_, fun i _ => ?_⟩
  · obtain rfl : j = 0 := by omega
    rfl
  · simp

/-- The port is busy after the first byte. -/
theorem not_transfers : ¬ ∀ (t : FileTables) (p : Nat) (fd : Int) (f devno : Nat),
    t.getFCB p fd = some f → (t.FT f).stream = some (.serial devno) →
      ∀ answers : Nat → Bool, (∀ n, ∃ m, n ≤ m ∧ answers m = true) →
        ∀ (buf : Nat → Byte) (size : Nat), size < 2 ^ 32 →
          Transfers t p fd devno answers buf size := by
  intro hall
  have hready : ∀ n, ∃ m, n ≤ m ∧ decide (m ≠ 1) = true := fun n => ⟨n + 2, by omega, by simp⟩
  obtain ⟨events, t', m, hrun, -⟩ :=
    hall oneTerminal 1 0 0 2 (by decide) (by decide) _ hready (fun _ => 7) 2 (by decide)
  have hthree := hrun (m + 3) (by omega)
  simp [FileTables.writeSerial, FileTables.getFCB, MAX_FILEID, oneTerminal, FileTables.increfFCB,
    FileTables.modifyFCB, serialWrite, serialLoop, Words.int32] at hthree

end TinyOS
