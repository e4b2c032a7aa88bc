import TinyOS.Lib.Circular
import Mathlib.Logic.Function.Basic

/-!
# The pipe control block (`kernel_pipe.h`, `kernel_pipe.c`)

A `PipeCB` is a ring of `buffSize` bytes with two indices *and* a free-space counter: the indices
coincide both when the ring is empty and when it is full, and only the counter tells the two
apart. `pipe_read` and `pipe_write` are modelled one *stretch* at a time — the code between two
points where the kernel lock is given up — because that is what is atomic: a stretch either
returns or blocks in `kernel_wait`, and a call that is woken re-runs its loop test.

The condition variables `hasSpace` and `hasData` live in the systems that use a pipe, not here:
who sleeps on them is a fact about threads. The field `pipe` (the caller's `pipe_t`) is written by
`sys_Pipe` and read by nobody, and is left out.
-/

set_option autoImplicit false

namespace TinyOS

/-- A byte of a stream. The source stores `int8_t` and passes `char`; nothing reads a sign. -/
abbrev Byte := UInt8

def kilobytes (value : Nat) : Nat := value * 1024

/-- `BUFF_SIZE`. -/
def buffSize : Nat := kilobytes 16

/-- Subtraction of two `uint32_t`. -/
def sub32 (a b : Nat) : Nat := (a + 2 ^ 32 - b) % 2 ^ 32

/-- Addition of two `uint32_t`. -/
def add32 (a b : Nat) : Nat := (a + b) % 2 ^ 32

structure PipeCB where
  buffer : Nat → Byte
  writeP : Nat
  readP : Nat
  availableSpace : Nat
  readerClosed : Bool
  writerClosed : Bool

/-- `get_pipe`: a fresh control block, zeroed. -/
def getPipe : PipeCB :=
  { buffer := fun _ => 0, writeP := 0, readP := 0, availableSpace := buffSize
    readerClosed := false, writerClosed := false }

/-! ## Reading -/

/-- The copying loop of `pipe_read`. `k` iterations are left; the size is compared *after* a byte
was copied, so a call of size 0 never stops before the ring is drained. The answer is what was
stored at `buf[0]`, `buf[1]`, … and the local `read_p`. -/
def readLoop (buffer : Nat → Byte) (size : Nat) : Nat → Nat → Nat → List Byte × Nat
  | 0, _, readP => ([], readP)
  | k + 1, bytesRead, readP =>
    if bytesRead + 1 = size then ([buffer readP], (readP + 1) % buffSize)
    else
      let rest := readLoop buffer size k (bytesRead + 1) ((readP + 1) % buffSize)
      (buffer readP :: rest.1, rest.2)

/-- How a stretch of `pipe_read` ends. -/
inductive ReadStretch where
  /-- `kernel_wait(&pipe->hasData, SCHED_PIPE)`. -/
  | wait
  /-- `return code`, with `bytes` stored from `buf[0]` on. `hasSpace` was broadcast if `wake`. -/
  | ret (code : Int) (bytes : List Byte) (pipe : PipeCB) (wake : Bool)

/-- `pipe_read` from its loop test on — which is also where a woken reader resumes. -/
def pipeRead (pipe : PipeCB) (size : Nat) : ReadStretch :=
  if pipe.readP = pipe.writeP ∧ pipe.availableSpace = buffSize then
    if pipe.writerClosed then .ret 0 [] pipe false else .wait
  else
    let copied := readLoop pipe.buffer size (sub32 buffSize pipe.availableSpace) 0 pipe.readP
    if copied.1 = [] then .ret (-1) [] pipe false
    else
      .ret copied.1.length copied.1
        { pipe with
          readP := copied.2
          availableSpace := add32 pipe.availableSpace copied.1.length }
        true

/-! ## Writing -/

/-- The copying loop of `pipe_write`; `bytes_writen` and `i` advance together. The answer is the
count, the ring and the local `write_p`. -/
def writeLoop (buf : Nat → Byte) (size : Nat) :
    Nat → Nat → Nat → (Nat → Byte) → Nat × Nat × (Nat → Byte)
  | 0, i, writeP, buffer => (i, writeP, buffer)
  | k + 1, i, writeP, buffer =>
    if i + 1 = size then
      (i + 1, (writeP + 1) % buffSize, Function.update buffer writeP (buf i))
    else
      writeLoop buf size k (i + 1) ((writeP + 1) % buffSize)
        (Function.update buffer writeP (buf i))

/-- How a stretch of `pipe_write` ends. -/
inductive WriteStretch where
  /-- `kernel_wait(&pipe->hasSpace, SCHED_PIPE)`. -/
  | wait
  /-- `return code`. `hasData` was broadcast if `wake`. -/
  | ret (code : Int) (pipe : PipeCB) (wake : Bool)

/-- `pipe_write` from its loop test on, where a woken writer resumes. -/
def pipeWriteLoop (pipe : PipeCB) (buf : Nat → Byte) (size : Nat) : WriteStretch :=
  if pipe.readP = pipe.writeP ∧ pipe.availableSpace = 0 then .wait
  else
    let copied := writeLoop buf size pipe.availableSpace 0 pipe.writeP pipe.buffer
    if 0 < copied.1 then
      .ret copied.1
        { pipe with
          buffer := copied.2.2
          writeP := copied.2.1
          availableSpace := sub32 pipe.availableSpace copied.1 }
        true
    else .ret (-1) pipe false

/-- `pipe_write`. The closed flag is tested on entry only, not by a writer that is woken. -/
def pipeWrite (pipe : PipeCB) (buf : Nat → Byte) (size : Nat) : WriteStretch :=
  if pipe.readerClosed then .ret (-1) pipe false else pipeWriteLoop pipe buf size

/-! ## What the ring holds -/

/-- The number of bytes stored. -/
def PipeCB.used (pipe : PipeCB) : Nat := buffSize - pipe.availableSpace

/-- The bytes stored, oldest first: `used` bytes of the ring from `readP` on. -/
def PipeCB.stored (pipe : PipeCB) : List Byte :=
  Circular.window buffSize pipe.buffer pipe.readP pipe.used

/-- The two indices and the counter agree. -/
structure PipeCB.Ok (pipe : PipeCB) : Prop where
  readP : pipe.readP < buffSize
  writeP : pipe.writeP < buffSize
  availableSpace : pipe.availableSpace ≤ buffSize
  inStep : pipe.writeP = (pipe.readP + pipe.used) % buffSize

instance (pipe : PipeCB) : Decidable pipe.Ok :=
  decidable_of_iff (pipe.readP < buffSize ∧ pipe.writeP < buffSize ∧
      pipe.availableSpace ≤ buffSize ∧ pipe.writeP = (pipe.readP + pipe.used) % buffSize)
    ⟨fun ⟨hr, hw, ha, hs⟩ => ⟨hr, hw, ha, hs⟩, fun ⟨hr, hw, ha, hs⟩ => ⟨hr, hw, ha, hs⟩⟩

theorem buffSize_pos : 0 < buffSize := by decide

theorem buffSize_lt : buffSize < 2 ^ 32 := by decide

theorem sub32_eq {a b : Nat} (ha : a < 2 ^ 32) (h : b ≤ a) : sub32 a b = a - b := by
  unfold sub32
  rw [show a + 2 ^ 32 - b = (a - b) + 2 ^ 32 by omega, Nat.add_mod_right,
    Nat.mod_eq_of_lt (by omega)]

theorem getPipe_ok : getPipe.Ok := by
  refine ⟨buffSize_pos, buffSize_pos, Nat.le_refl _, ?_⟩
  simp [getPipe, PipeCB.used]

@[simp] theorem getPipe_stored : getPipe.stored = [] := by
  simp [PipeCB.stored, PipeCB.used, getPipe]

namespace PipeCB.Ok

variable {pipe : PipeCB} (h : pipe.Ok)

include h

theorem sub32_used : sub32 buffSize pipe.availableSpace = pipe.used :=
  sub32_eq buffSize_lt h.availableSpace

/-- The indices coincide on an empty ring, so `pipe_read` waits exactly when nothing is stored. -/
theorem empty_iff : (pipe.readP = pipe.writeP ∧ pipe.availableSpace = buffSize) ↔
    pipe.used = 0 := by
  have := h.availableSpace
  have hr := h.readP
  have hw := h.inStep
  constructor
  · rintro ⟨-, he⟩
    simp [PipeCB.used, he]
  · intro hu
    rw [hu, Nat.add_zero, Nat.mod_eq_of_lt hr] at hw
    exact ⟨hw.symm, by unfold PipeCB.used at hu; omega⟩

/-- … and on a full one, so `pipe_write` waits exactly when there is no space. -/
theorem full_iff : (pipe.readP = pipe.writeP ∧ pipe.availableSpace = 0) ↔
    pipe.availableSpace = 0 := by
  refine ⟨And.right, fun hz => ⟨?_, hz⟩⟩
  rw [h.inStep, PipeCB.used, hz, Nat.sub_zero, Nat.add_mod_right, Nat.mod_eq_of_lt h.readP]

end PipeCB.Ok

/-! ## The loops -/

/-- With a positive size the reading loop copies as many bytes as it may: the window of
`min (size - done) k` bytes at `readP`. -/
theorem readLoop_eq (buffer : Nat → Byte) {size : Nat} :
    ∀ {k bytesRead readP : Nat}, readP < buffSize → bytesRead < size →
      readLoop buffer size k bytesRead readP =
        (Circular.window buffSize buffer readP (min (size - bytesRead) k),
          (readP + min (size - bytesRead) k) % buffSize)
  | 0, _, readP, hr, _ => by simp [readLoop, Nat.mod_eq_of_lt hr]
  | k + 1, bytesRead, readP, hr, hb => by
    rw [readLoop]
    split
    · rename_i hlast
      rw [show min (size - bytesRead) (k + 1) = 0 + 1 by omega, Circular.window_succ _ _ _ hr]
      simp
    · rename_i hmore
      have hlt : bytesRead + 1 < size := by omega
      rw [readLoop_eq buffer (Nat.mod_lt _ buffSize_pos) hlt,
        show min (size - bytesRead) (k + 1) = min (size - (bytesRead + 1)) k + 1 by omega,
        Circular.window_succ _ _ _ hr]
      simp only [Prod.mk.injEq, true_and, Nat.mod_add_mod]
      congr 1
      omega

/-- What the writing loop leaves behind: `m` more bytes of `buf` appended to the window. -/
theorem writeLoop_eq (buf : Nat → Byte) (size start : Nat) :
    ∀ (k i len : Nat) (buffer : Nat → Byte), i < size → len + k ≤ buffSize →
      ∃ ring, writeLoop buf size k i ((start + len) % buffSize) buffer =
          (i + min (size - i) k, (start + (len + min (size - i) k)) % buffSize, ring) ∧
        Circular.window buffSize ring start (len + min (size - i) k) =
          Circular.window buffSize buffer start len ++
            (List.range (min (size - i) k)).map fun j => buf (i + j)
  | 0, i, len, buffer, _, _ => ⟨buffer, by simp [writeLoop], by simp⟩
  | k + 1, i, len, buffer, hi, hlen => by
    have hpush : Circular.window buffSize
        (Function.update buffer ((start + len) % buffSize) (buf i)) start (len + 1) =
          Circular.window buffSize buffer start len ++ [buf i] :=
      Circular.window_push buffSize buffer (buf i) (by omega)
    rw [writeLoop]
    split
    · rename_i hlast
      rw [show min (size - i) (k + 1) = 1 by omega]
      exact ⟨Function.update buffer ((start + len) % buffSize) (buf i), by simp [Nat.add_assoc],
        by simp [hpush]⟩
    · rename_i hmore
      obtain ⟨ring, heq, hwin⟩ := writeLoop_eq buf size start k (i + 1) (len + 1)
        (Function.update buffer ((start + len) % buffSize) (buf i)) (by omega) (by omega)
      have hmin : min (size - i) (k + 1) = 1 + min (size - (i + 1)) k := by omega
      refine ⟨ring, ?_, ?_⟩
      · rw [Nat.mod_add_mod, Nat.add_assoc, heq, hmin]
        simp only [Prod.mk.injEq, and_true]
        exact ⟨by omega, by rw [Nat.add_assoc]⟩
      · rw [hmin, ← Nat.add_assoc, hwin, hpush, List.append_assoc, List.range_add]
        simp [Function.comp_def, Nat.add_assoc]

/-! ## One stretch of each call -/

/-- **A stretch of `pipe_read` of positive size** blocks or sees end of file on an empty ring, and
otherwise takes a non-empty prefix of what is stored, at most `size` bytes. -/
theorem pipeRead_spec {pipe : PipeCB} {size : Nat} (h : pipe.Ok) (hs : 0 < size) :
    (pipe.stored = [] ∧
      pipeRead pipe size = if pipe.writerClosed then .ret 0 [] pipe false else .wait) ∨
    ∃ pipe', pipeRead pipe size =
        .ret (min size pipe.used : Nat) (pipe.stored.take size) pipe' true ∧
      0 < min size pipe.used ∧ pipe'.Ok ∧ pipe'.stored = pipe.stored.drop size ∧
      pipe'.readerClosed = pipe.readerClosed ∧ pipe'.writerClosed = pipe.writerClosed := by
  by_cases hu : pipe.used = 0
  · refine .inl ⟨by simp [PipeCB.stored, hu], ?_⟩
    rw [pipeRead, if_pos (h.empty_iff.mpr hu)]
  · right
    obtain ⟨m, hm⟩ : ∃ m, m = min size pipe.used := ⟨_, rfl⟩
    have hav := h.availableSpace
    have hmu : m ≤ pipe.used := by omega
    have hle : pipe.used ≤ buffSize := Nat.sub_le _ _
    have hsplit : pipe.stored = Circular.window buffSize pipe.buffer pipe.readP m ++
        Circular.window buffSize pipe.buffer ((pipe.readP + m) % buffSize) (pipe.used - m) := by
      rw [← Circular.window_add, PipeCB.stored, Nat.add_sub_cancel' hmu]
    have htake : pipe.stored.take size =
        Circular.window buffSize pipe.buffer pipe.readP m := by
      rcases Nat.le_total size pipe.used with hle | hle
      · rw [hsplit, show size = m by omega]
        exact List.take_left' (by simp)
      · rw [List.take_of_length_le (by simpa [PipeCB.stored] using hle), PipeCB.stored,
          show m = pipe.used by omega]
    have hadd : add32 pipe.availableSpace m = pipe.availableSpace + m := by
      have := buffSize_lt
      unfold PipeCB.used at hmu
      exact Nat.mod_eq_of_lt (by omega)
    have hused : buffSize - (pipe.availableSpace + m) = pipe.used - m := by
      unfold PipeCB.used; omega
    refine ⟨{ pipe with
        readP := (pipe.readP + m) % buffSize, availableSpace := pipe.availableSpace + m },
      ?_, by omega, ⟨Nat.mod_lt _ buffSize_pos, h.writeP, ?_, ?_⟩, ?_, rfl, rfl⟩
    · have hne : Circular.window buffSize pipe.buffer pipe.readP m ≠ [] := by
        intro hnil
        have := congrArg List.length hnil
        simp at this
        omega
      rw [pipeRead, if_neg (fun hc => hu (h.empty_iff.mp hc)), h.sub32_used,
        readLoop_eq pipe.buffer h.readP hs, Nat.sub_zero, ← hm, htake]
      simp only [hne, if_false, Circular.length_window, hadd]
    · show pipe.availableSpace + m ≤ buffSize
      unfold PipeCB.used at hmu; omega
    · show pipe.writeP = ((pipe.readP + m) % buffSize + (buffSize - (pipe.availableSpace + m))) %
        buffSize
      rw [hused, Nat.mod_add_mod, Nat.add_assoc, Nat.add_sub_cancel' hmu]
      exact h.inStep
    · have hdrop : pipe.stored.drop size =
          Circular.window buffSize pipe.buffer ((pipe.readP + m) % buffSize) (pipe.used - m) := by
        have := List.take_append_drop size pipe.stored
        rw [htake] at this
        conv at this => rhs; rw [hsplit]
        exact List.append_cancel_left this
      rw [hdrop]
      show Circular.window buffSize pipe.buffer _ (buffSize - (pipe.availableSpace + m)) = _
      rw [hused]

/-- **A stretch of `pipe_write` of positive size**, past the closed test: it blocks on a full ring,
and otherwise appends the first bytes of `buf` to what is stored, at most `size` of them. -/
theorem pipeWriteLoop_spec {pipe : PipeCB} (buf : Nat → Byte) {size : Nat} (h : pipe.Ok)
    (hs : 0 < size) :
    (pipe.availableSpace = 0 ∧ pipeWriteLoop pipe buf size = .wait) ∨
    ∃ pipe', pipeWriteLoop pipe buf size =
        .ret (min size pipe.availableSpace : Nat) pipe' true ∧
      0 < min size pipe.availableSpace ∧ pipe'.Ok ∧
      pipe'.stored = pipe.stored ++ (List.range (min size pipe.availableSpace)).map buf ∧
      pipe'.readerClosed = pipe.readerClosed ∧ pipe'.writerClosed = pipe.writerClosed := by
  by_cases hz : pipe.availableSpace = 0
  · refine .inl ⟨hz, ?_⟩
    rw [pipeWriteLoop, if_pos (h.full_iff.mpr hz)]
  · right
    have hav := h.availableSpace
    have hsum : pipe.used + pipe.availableSpace = buffSize := Nat.sub_add_cancel hav
    obtain ⟨ring, heq, hwin⟩ := writeLoop_eq buf size pipe.readP pipe.availableSpace 0 pipe.used
      pipe.buffer hs (Nat.le_of_eq hsum)
    rw [← h.inStep, Nat.sub_zero, Nat.zero_add] at heq
    rw [Nat.sub_zero] at hwin
    obtain ⟨m, hm⟩ : ∃ m, m = min size pipe.availableSpace := ⟨_, rfl⟩
    rw [← hm] at heq hwin ⊢
    have hpos : 0 < m := by omega
    have hsub : sub32 pipe.availableSpace m = pipe.availableSpace - m :=
      sub32_eq (Nat.lt_of_le_of_lt hav buffSize_lt) (by omega)
    have hused : buffSize - (pipe.availableSpace - m) = pipe.used + m := by
      unfold PipeCB.used; omega
    refine ⟨{ pipe with
        buffer := ring, writeP := (pipe.readP + (pipe.used + m)) % buffSize,
        availableSpace := pipe.availableSpace - m },
      ?_, hpos, ⟨h.readP, Nat.mod_lt _ buffSize_pos, ?_, ?_⟩, ?_, rfl, rfl⟩
    · rw [pipeWriteLoop, if_neg (fun hc => hz hc.2), heq]
      simp only [hpos, if_true, hsub]
    · exact Nat.le_trans (Nat.sub_le _ _) hav
    · show (pipe.readP + (pipe.used + m)) % buffSize =
        (pipe.readP + (buffSize - (pipe.availableSpace - m))) % buffSize
      rw [hused]
    · show Circular.window buffSize ring pipe.readP (buffSize - (pipe.availableSpace - m)) = _
      rw [hused, hwin]
      simp [PipeCB.stored]

/-! ## Calls of size 0

The loops compare a count that is positive with the size, so a size of 0 asks for all there is. -/

/-- What a call asks for: more than any ring holds, if its size is 0. -/
def asked (size : Nat) : Nat := if size = 0 then buffSize + 1 else size

theorem asked_pos (size : Nat) : 0 < asked size := by
  unfold asked
  split <;> omega

theorem readLoop_zero (buffer : Nat → Byte) :
    ∀ {k bytesRead readP : Nat}, bytesRead + k ≤ buffSize →
      readLoop buffer 0 k bytesRead readP = readLoop buffer (buffSize + 1) k bytesRead readP
  | 0, _, _, _ => rfl
  | k + 1, bytesRead, readP, hk => by
    rw [readLoop, readLoop, if_neg (by omega), if_neg (by omega), readLoop_zero buffer (by omega)]

theorem writeLoop_zero (buf : Nat → Byte) :
    ∀ {k i writeP : Nat} {buffer : Nat → Byte}, i + k ≤ buffSize →
      writeLoop buf 0 k i writeP buffer = writeLoop buf (buffSize + 1) k i writeP buffer
  | 0, _, _, _, _ => rfl
  | k + 1, i, writeP, buffer, hk => by
    rw [writeLoop, writeLoop, if_neg (by omega), if_neg (by omega), writeLoop_zero buf (by omega)]

theorem pipeRead_asked {pipe : PipeCB} (h : pipe.Ok) (size : Nat) :
    pipeRead pipe size = pipeRead pipe (asked size) := by
  unfold asked
  split
  · rename_i hz
    have hle : 0 + pipe.used ≤ buffSize := by
      unfold PipeCB.used
      omega
    rw [hz, pipeRead, pipeRead, h.sub32_used, readLoop_zero pipe.buffer hle]
  · rfl

theorem pipeWriteLoop_asked {pipe : PipeCB} (h : pipe.Ok) (buf : Nat → Byte) (size : Nat) :
    pipeWriteLoop pipe buf size = pipeWriteLoop pipe buf (asked size) := by
  unfold asked
  split
  · rename_i hz
    have hle : 0 + pipe.availableSpace ≤ buffSize := by
      have := h.availableSpace
      omega
    rw [hz, pipeWriteLoop, pipeWriteLoop, writeLoop_zero buf hle]
  · rfl

end TinyOS
