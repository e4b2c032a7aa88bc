import TinyOS.Pipe.Ends
import Mathlib.Data.List.Range
import Mathlib.Logic.Relation

/-!
# The caller's buffer

`pipe_read` stores to `buf[0]`, `buf[1]`, … and `pipe_write` loads from there. The models of the two
loops in `Pipe/Basic.lean` say what is moved; here is a list of the accesses themselves, `readStores`
and `writeLoads`, in the order of the source.

Both loops stop once the count of bytes moved *equals* the size, and the count is at least 1 by then.
**With a size of 0 they stop at the fill level of the ring instead**, and every byte they move is
beyond the caller's buffer. A call that blocks has touched nothing yet; it moves its bytes when it is
woken, from or to the ring as the others have left it by then, or whatever else the block holds if it
was freed in the meantime (`buffer_within_iff`).
-/

set_option autoImplicit false

namespace TinyOS

open Transition

/-! ## The accesses of the loops -/

/-- The stores of the loop of `pipe_read` to the caller's buffer: index and value. -/
def readStores (buffer : Nat → Byte) (size : Nat) : Nat → Nat → Nat → List (Nat × Byte)
  | 0, _, _ => []
  | k + 1, i, readP =>
    (i, buffer readP) ::
      if i + 1 = size then [] else readStores buffer size k (i + 1) ((readP + 1) % buffSize)

/-- The indices at which the loop of `pipe_write` loads from the caller's buffer. -/
def writeLoads (size : Nat) : Nat → Nat → List Nat
  | 0, _ => []
  | k + 1, i => i :: if i + 1 = size then [] else writeLoads size k (i + 1)

/-- The stores are the bytes that the call delivers. -/
theorem readStores_snd (buffer : Nat → Byte) (size : Nat) : ∀ k i readP,
    (readStores buffer size k i readP).map (·.2) = (readLoop buffer size k i readP).1
  | 0, _, _ => rfl
  | k + 1, i, readP => by
    have ih := readStores_snd buffer size k (i + 1) ((readP + 1) % buffSize)
    rw [readStores, readLoop]
    split
    · rfl
    · rw [List.map_cons, ih]

/-- Both loops go through the same indices. -/
theorem readStores_fst (buffer : Nat → Byte) (size : Nat) : ∀ k i readP,
    (readStores buffer size k i readP).map (·.1) = writeLoads size k i
  | 0, _, _ => rfl
  | k + 1, i, readP => by
    have ih := readStores_fst buffer size k (i + 1) ((readP + 1) % buffSize)
    rw [readStores, writeLoads]
    split
    · rfl
    · rw [List.map_cons, ih]

/-- The loads are all that the loop of `pipe_write` depends on. -/
theorem writeLoop_congr {buf buf' : Nat → Byte} (size : Nat) : ∀ {k i writeP buffer},
    (∀ j ∈ writeLoads size k i, buf j = buf' j) →
      writeLoop buf size k i writeP buffer = writeLoop buf' size k i writeP buffer
  | 0, _, _, _, _ => rfl
  | k + 1, i, writeP, buffer, h => by
    have hi : buf i = buf' i := h i (by simp [writeLoads])
    rw [writeLoop, writeLoop, hi]
    split
    · rfl
    · rename_i hne
      refine writeLoop_congr size fun j hj => h j ?_
      simp only [writeLoads, if_neg hne, List.mem_cons]
      exact .inr hj

theorem writeLoop_count (buf : Nat → Byte) (size : Nat) : ∀ k i writeP buffer,
    (writeLoop buf size k i writeP buffer).1 = i + (writeLoads size k i).length
  | 0, _, _, _ => rfl
  | k + 1, i, writeP, buffer => by
    rw [writeLoop, writeLoads]
    split
    · rfl
    · rw [writeLoop_count buf size k (i + 1), List.length_cons]
      omega

/-- The size stops the loop only if it is ahead of the index. -/
theorem writeLoads_eq (size : Nat) : ∀ k i,
    writeLoads size k i = List.range' i (if i < size then min (size - i) k else k)
  | 0, i => by split <;> simp [writeLoads]
  | k + 1, i => by
    rw [writeLoads, writeLoads_eq size k (i + 1)]
    by_cases hlast : i + 1 = size
    · have hone : min (size - i) (k + 1) = 1 := by omega
      rw [if_pos hlast, if_pos (by omega), hone]
      rfl
    · rw [if_neg hlast]
      by_cases hlt : i < size
      · have hmin : min (size - i) (k + 1) = min (size - (i + 1)) k + 1 := by omega
        rw [if_pos hlt, if_pos (by omega), hmin, List.range'_succ]
      · rw [if_neg hlt, if_neg (by omega), List.range'_succ]

/-! ## The accesses of a call -/

/-- What `pipe_read` stores in the stretch that starts at its loop test. -/
def pipeReadStores (pipe : PipeCB) (size : Nat) : List (Nat × Byte) :=
  if pipe.readP = pipe.writeP ∧ pipe.availableSpace = buffSize then []
  else readStores pipe.buffer size (sub32 buffSize pipe.availableSpace) 0 pipe.readP

/-- Where `pipe_write` loads, in such a stretch. -/
def pipeWriteLoopLoads (pipe : PipeCB) (size : Nat) : List Nat :=
  if pipe.readP = pipe.writeP ∧ pipe.availableSpace = 0 then []
  else writeLoads size pipe.availableSpace 0

/-- And in the one that starts with the call. -/
def pipeWriteLoads (pipe : PipeCB) (size : Nat) : List Nat :=
  if pipe.readerClosed then [] else pipeWriteLoopLoads pipe size

/-- What a stretch returns, unless it blocks. -/
def ReadStretch.code : ReadStretch → Option Int
  | .wait => none
  | .ret code _ _ _ => some code

@[inherit_doc ReadStretch.code]
def WriteStretch.code : WriteStretch → Option Int
  | .wait => none
  | .ret code _ _ => some code

/-- A stretch of a call as the caller sees it: what it returns, unless it blocks, and the indices of
the buffer that it touches. -/
abbrev Stretch := PipeCB → Option Int × List Nat

/-- Of `pipe_read`. -/
def readStretch (size : Nat) : Stretch := fun pipe =>
  ((pipeRead pipe size).code, (pipeReadStores pipe size).map (·.1))

/-- Of `pipe_write`: the first one, -/
def writeStretch (buf : Nat → Byte) (size : Nat) : Stretch := fun pipe =>
  ((pipeWrite pipe buf size).code, pipeWriteLoads pipe size)

/-- and those of a writer that was woken. -/
def writeLoopStretch (buf : Nat → Byte) (size : Nat) : Stretch := fun pipe =>
  ((pipeWriteLoop pipe buf size).code, pipeWriteLoopLoads pipe size)

/-- How many bytes a stretch moves where `k` could be moved. -/
def moved (size k : Nat) : Nat := if size = 0 then k else min size k

variable {pipe pipe' : PipeCB}

theorem writeLoads_start (size k : Nat) : writeLoads size k 0 = List.range (moved size k) := by
  rw [writeLoads_eq, List.range_eq_range', moved]
  congr 1
  split <;> split <;> omega

theorem moved_pos (size : Nat) {k : Nat} (hk : k ≠ 0) : 0 < moved size k := by
  unfold moved
  split <;> omega

/-- What a call returns that moved `n` bytes. -/
def returned (n : Nat) : Int := if n = 0 then -1 else n

theorem returned_moved (size : Nat) {k : Nat} (hk : k ≠ 0) :
    returned (moved size k) = (moved size k : Int) := if_neg (moved_pos size hk).ne'

/-- Whatever the block holds, a stretch blocks or touches as many bytes as it moves. -/
theorem readStretch_any (pipe : PipeCB) (size : Nat) : readStretch size pipe =
    if pipe.readP = pipe.writeP ∧ pipe.availableSpace = buffSize then
      (if pipe.writerClosed then some 0 else none, [])
    else
      (some (returned (moved size (sub32 buffSize pipe.availableSpace))),
        List.range (moved size (sub32 buffSize pipe.availableSpace))) := by
  unfold readStretch
  by_cases hempty : pipe.readP = pipe.writeP ∧ pipe.availableSpace = buffSize
  · -- Nothing is stored: the call blocks or sees the end of the file.
    rw [if_pos hempty, pipeRead, pipeReadStores, if_pos hempty, if_pos hempty]
    split <;> rfl
  · obtain ⟨k, hk⟩ : ∃ k, k = sub32 buffSize pipe.availableSpace := ⟨_, rfl⟩
    have hfst := readStores_fst pipe.buffer size k 0 pipe.readP
    rw [writeLoads_start] at hfst
    have hlen : (readLoop pipe.buffer size k 0 pipe.readP).1.length = moved size k := by
      rw [← readStores_snd, List.length_map, ← List.length_map (·.1), hfst, List.length_range]
    rw [if_neg hempty, pipeRead, pipeReadStores, if_neg hempty, if_neg hempty, ← hk, hfst]
    simp only [returned, ← hlen, List.length_eq_zero_iff]
    split <;> rfl

theorem writeLoopStretch_any (pipe : PipeCB) (buf : Nat → Byte) (size : Nat) :
    writeLoopStretch buf size pipe =
      if pipe.readP = pipe.writeP ∧ pipe.availableSpace = 0 then (none, [])
      else
        (some (returned (moved size pipe.availableSpace)),
          List.range (moved size pipe.availableSpace)) := by
  unfold writeLoopStretch
  by_cases hfull : pipe.readP = pipe.writeP ∧ pipe.availableSpace = 0
  · rw [if_pos hfull, pipeWriteLoop, pipeWriteLoopLoads, if_pos hfull, if_pos hfull]
    rfl
  · have hcount : (writeLoop buf size pipe.availableSpace 0 pipe.writeP pipe.buffer).1 =
        moved size pipe.availableSpace := by
      rw [writeLoop_count, writeLoads_start, List.length_range, Nat.zero_add]
    rw [if_neg hfull, pipeWriteLoop, pipeWriteLoopLoads, if_neg hfull, if_neg hfull,
      writeLoads_start]
    simp only [hcount, returned]
    rcases Nat.eq_zero_or_pos (moved size pipe.availableSpace) with hz | hpos
    · rw [if_neg (by omega), if_pos hz]
      rfl
    · rw [if_pos hpos, if_neg (by omega)]
      rfl

theorem readStretch_eq (h : pipe.Ok) (size : Nat) : readStretch size pipe =
    if pipe.used = 0 then (if pipe.writerClosed then some 0 else none, [])
    else (some (moved size pipe.used : Int), List.range (moved size pipe.used)) := by
  rw [readStretch_any, h.sub32_used]
  by_cases hu : pipe.used = 0
  · rw [if_pos (h.empty_iff.mpr hu), if_pos hu]
  · rw [if_neg fun hc => hu (h.empty_iff.mp hc), if_neg hu, returned_moved size hu]

theorem writeLoopStretch_eq (h : pipe.Ok) (buf : Nat → Byte) (size : Nat) :
    writeLoopStretch buf size pipe =
      if pipe.availableSpace = 0 then (none, [])
      else
        (some (moved size pipe.availableSpace : Int),
          List.range (moved size pipe.availableSpace)) := by
  rw [writeLoopStretch_any]
  by_cases hz : pipe.availableSpace = 0
  · rw [if_pos (h.full_iff.mpr hz), if_pos hz]
  · rw [if_neg fun hc => hz hc.2, if_neg hz, returned_moved size hz]

/-- A call on a pipe whose read end is closed touches nothing. -/
theorem writeStretch_eq (buf : Nat → Byte) (size : Nat) : writeStretch buf size pipe =
    if pipe.readerClosed then (some (-1), []) else writeLoopStretch buf size pipe := by
  unfold writeStretch pipeWrite pipeWriteLoads
  split <;> rfl

/-! ## The states of a pipe

No size takes the indices and the counter out of step, so every pipe is `Ok` whatever its users
ask for. -/

theorem pipeRead_ok (h : pipe.Ok) {size : Nat} {code : Int} {bytes : List Byte}
    {wake : Bool} (hr : pipeRead pipe size = .ret code bytes pipe' wake) : pipe'.Ok := by
  rw [pipeRead_asked h] at hr
  rcases pipeRead_spec h (asked_pos size) with ⟨-, he⟩ | ⟨pipe₁, he, -, hok, -⟩
  · rw [he] at hr
    split at hr
    · cases hr
      exact h
    · cases hr
  · rw [he] at hr
    cases hr
    exact hok

theorem pipeWriteLoop_ok (h : pipe.Ok) {buf : Nat → Byte} {size : Nat} {code : Int}
    {wake : Bool} (hw : pipeWriteLoop pipe buf size = .ret code pipe' wake) : pipe'.Ok := by
  rw [pipeWriteLoop_asked h] at hw
  rcases pipeWriteLoop_spec buf h (asked_pos size) with ⟨-, he⟩ | ⟨pipe₁, he, -, hok, -⟩
  · rw [he] at hw
    cases hw
  · rw [he] at hw
    cases hw
    exact hok

/-- What the users of a pipe do to it: a stretch that returns, or the close of an end. -/
inductive PipeChange : PipeCB → PipeCB → Prop
  | read {pipe pipe' : PipeCB} {size : Nat} {code : Int} {bytes : List Byte} {wake : Bool} :
      pipeRead pipe size = .ret code bytes pipe' wake → PipeChange pipe pipe'
  | write {pipe pipe' : PipeCB} {buf : Nat → Byte} {size : Nat} {code : Int} {wake : Bool} :
      pipeWriteLoop pipe buf size = .ret code pipe' wake → PipeChange pipe pipe'
  | closeReader (pipe : PipeCB) : PipeChange pipe { pipe with readerClosed := true }
  | closeWriter (pipe : PipeCB) : PipeChange pipe { pipe with writerClosed := true }

/-- Any number of them. -/
abbrev PipeChanges : PipeCB → PipeCB → Prop := Relation.ReflTransGen PipeChange

theorem PipeChange.ok (h : pipe.Ok) (hc : PipeChange pipe pipe') : pipe'.Ok := by
  cases hc with
  | read hr => exact pipeRead_ok h hr
  | write hw => exact pipeWriteLoop_ok h hw
  | closeReader | closeWriter => exact ⟨h.readP, h.writeP, h.availableSpace, h.inStep⟩

theorem PipeChanges.ok (h : pipe.Ok) (hc : PipeChanges pipe pipe') : pipe'.Ok := by
  induction hc with
  | refl => exact h
  | tail _ hc ih => exact hc.ok ih

section

variable {T : Type} [DecidableEq T] {s s' : PipeState T}

theorem PipeState.changes_afterRead (s : PipeState T) (t : T) (size : Nat) :
    PipeChanges s.pipe (s.afterRead t size (pipeRead s.pipe size)).pipe := by
  cases hr : pipeRead s.pipe size with
  | wait => exact .refl
  | ret code bytes pipe' wake => exact .single (.read hr)

theorem PipeState.changes_afterWrite (s : PipeState T) (t : T) (buf : Nat → Byte) (size : Nat) :
    PipeChanges s.pipe (s.afterWrite t buf size (pipeWriteLoop s.pipe buf size)).pipe := by
  cases hw : pipeWriteLoop s.pipe buf size with
  | wait => exact .refl
  | ret code pipe' wake => exact .single (.write hw)

theorem PipeState.changes_step {a : PipeAction T} (hs : s.step a = some s') :
    PipeChanges s.pipe s'.pipe := by
  cases a with
  | call t c =>
    cases hpc : s.pc t <;> cases c <;>
      simp only [PipeState.step, hpc, Option.some.injEq, reduceCtorEq] at hs
    · exact hs ▸ s.changes_afterRead t _
    · subst hs
      rw [pipeWrite]
      split
      · exact .refl
      · exact s.changes_afterWrite t _ _
  | resume t =>
    cases hpc : s.pc t with
    | out | asleep => simp [PipeState.step, hpc] at hs
    | woken c =>
      cases c <;> simp only [PipeState.step, hpc, Option.some.injEq] at hs
      · exact hs ▸ s.changes_afterRead t _
      · exact hs ▸ s.changes_afterWrite t _ _

omit [DecidableEq T] in
theorem PipeEnds.changes_writerClose (s : PipeEnds T) : PipeChanges s.pipe s.writerClose.pipe := by
  unfold PipeEnds.writerClose
  split
  · exact .refl
  · exact .single (.closeWriter _)

/-- **Every step of the threads is such a change**, or none. -/
theorem PipeEnds.changes {s s' : PipeEnds T} {a : EndsAction T} (hs : s.perform a = some s') :
    PipeChanges s.pipe s'.pipe := by
  cases a with
  | use a =>
    obtain ⟨s₁, hs₁, rfl⟩ := Option.map_eq_some_iff.mp hs
    exact s.toPipeState.changes_step hs₁
  | closeReader =>
    cases hs
    unfold PipeEnds.readerClose
    split
    · exact .refl
    · refine .trans (.single (.closeReader s.pipe)) ?_
      exact PipeEnds.changes_writerClose { s with
        pipe := { s.pipe with readerClosed := true }
        pc := fun u => (s.pc u).spaceBroadcast
        log := s.log ++ [.readerClosed] }
  | closeWriter =>
    cases hs
    exact s.changes_writerClose

/-- In every run, with calls of any size and the ends closed at any time. -/
theorem pipe_ok {s : PipeEnds T} (hr : (endsSys T).Reach s) : s.pipe.Ok := by
  refine Sys.InductiveIf.reachIf (I := fun s : PipeEnds T => s.pipe.Ok) ⟨?_, ?_⟩ hr
  · rintro s rfl
    exact getPipe_ok
  · exact fun s a s' h _ hs => (PipeEnds.changes hs).ok h

end

/-! ## A whole call -/

/-- What a call that is woken may find: what the others have made of the pipe; and since the close of
the read end also frees the block, anything at all from then on. -/
def Found (pipe pipe' : PipeCB) : Prop :=
  ∃ pipe₁, PipeChanges pipe pipe₁ ∧ (pipe' = pipe₁ ∨ pipe₁.readerClosed = true)

theorem PipeChanges.found (hc : PipeChanges pipe pipe') : Found pipe pipe' := ⟨_, hc, .inl rfl⟩

/-- A call runs to its end: it touches these indices of the caller's buffer, and returns `code`. It
starts with the stretch `first` and goes on with `loop` whenever it is woken. -/
inductive CallRuns (loop : Stretch) : Stretch → PipeCB → List Nat → Int → Prop
  | returns {first : Stretch} {pipe : PipeCB} {touched : List Nat} {code : Int} :
      first pipe = (some code, touched) → CallRuns loop first pipe touched code
  | blocks {first : Stretch} {pipe pipe' : PipeCB} {touched touched' : List Nat} {code : Int} :
      first pipe = (none, touched) → Found pipe pipe' →
      CallRuns loop loop pipe' touched' code → CallRuns loop first pipe (touched ++ touched') code

/-- A call of `pipe_read`, from its entry on. -/
abbrev ReadRuns (size : Nat) : PipeCB → List Nat → Int → Prop :=
  CallRuns (readStretch size) (readStretch size)

/-- And of `pipe_write`. -/
abbrev WriteRuns (buf : Nat → Byte) (size : Nat) : PipeCB → List Nat → Int → Prop :=
  CallRuns (writeLoopStretch buf size) (writeStretch buf size)

/-- A call of this size that returns `count` and touches the caller's buffer at these indices stays
within the first `count` bytes, and these are within the buffer. -/
structure Within (touched : List Nat) (count : Int) (size : Nat) : Prop where
  count_le : count ≤ size
  touched : ∀ i ∈ touched, (i : Int) < count ∧ i < size

/-- A call that touches the first `n` bytes and returns their number. -/
theorem within_range {n size : Nat} : Within (List.range n) n size ↔ n ≤ size := by
  refine ⟨fun h => Int.ofNat_le.mp h.count_le, fun hle => ⟨by omega, fun i hi => ?_⟩⟩
  have := List.mem_range.mp hi
  omega

/-- A call that touches nothing. -/
theorem within_nil {count : Int} {size : Nat} (hc : count ≤ 0) : Within [] count size :=
  ⟨by omega, by simp⟩

/-- A stretch that blocks has touched nothing, and one that returns has stayed within the buffer. -/
def Stretch.Fits (size : Nat) (e : Stretch) (pipe : PipeCB) : Prop :=
  (∀ touched, e pipe = (none, touched) → touched = []) ∧
  ∀ touched code, e pipe = (some code, touched) → Within touched code size

/-- **A call stays within the buffer if every stretch does.** -/
theorem CallRuns.within {loop first : Stretch} {size : Nat} {touched : List Nat} {code : Int}
    (hr : CallRuns loop first pipe touched code) (hfirst : first.Fits size pipe)
    (hloop : ∀ pipe, loop.Fits size pipe) : Within touched code size := by
  induction hr with
  | returns he => exact hfirst.2 _ _ he
  | blocks he _ _ ih =>
    rw [hfirst.1 _ he, List.nil_append]
    exact ih (hloop _)

theorem moved_le {size : Nat} (hs : size ≠ 0) (k : Nat) : moved size k ≤ size := by
  rw [moved, if_neg hs]
  exact Nat.min_le_left _ _

/-- A call that touches the bytes it moves, and has a size. -/
theorem within_moved {size : Nat} (hs : size ≠ 0) (k : Nat) :
    Within (List.range (moved size k)) (returned (moved size k)) size := by
  unfold returned
  split
  · rename_i hz
    rw [hz]
    exact within_nil (by decide)
  · exact within_range.mpr (moved_le hs k)

theorem readStretch_fits {size : Nat} (hs : size ≠ 0) (pipe : PipeCB) :
    (readStretch size).Fits size pipe := by
  unfold Stretch.Fits
  rw [readStretch_any]
  split
  · refine ⟨fun touched he => (Prod.mk.inj he).2.symm, fun touched code he => ?_⟩
    obtain ⟨hcode, rfl⟩ := Prod.mk.inj he
    obtain ⟨-, hcode⟩ := Option.ite_none_right_eq_some.mp hcode
    cases hcode
    exact within_nil le_rfl
  · refine ⟨fun touched he => absurd (Prod.mk.inj he).1 (by simp), fun touched code he => ?_⟩
    cases he
    exact within_moved hs _

theorem writeLoopStretch_fits (buf : Nat → Byte) {size : Nat} (hs : size ≠ 0) (pipe : PipeCB) :
    (writeLoopStretch buf size).Fits size pipe := by
  unfold Stretch.Fits
  rw [writeLoopStretch_any]
  split
  · refine ⟨fun touched he => (Prod.mk.inj he).2.symm, fun touched code he => ?_⟩
    exact absurd (Prod.mk.inj he).1 (by simp)
  · refine ⟨fun touched he => absurd (Prod.mk.inj he).1 (by simp), fun touched code he => ?_⟩
    cases he
    exact within_moved hs _

theorem writeStretch_closed_fits (hc : pipe.readerClosed = true) (buf : Nat → Byte) (size : Nat) :
    (writeStretch buf size).Fits size pipe := by
  unfold Stretch.Fits
  rw [writeStretch_eq, if_pos hc]
  refine ⟨fun touched he => (Prod.mk.inj he).2.symm, fun touched code he => ?_⟩
  cases he
  exact within_nil (by decide)

/-- Another thread may always write to an empty ring, -/
theorem changes_write_one (h : pipe.Ok) (hu : pipe.used = 0) :
    ∃ pipe' : PipeCB, PipeChange pipe pipe' ∧ pipe'.Ok ∧ pipe'.used = 1 := by
  rcases pipeWriteLoop_spec (fun _ => 0) h Nat.one_pos with
    ⟨hz, -⟩ | ⟨pipe', he, hpos, hok, hstored, -⟩
  · have := buffSize_pos
    unfold PipeCB.used at hu
    omega
  · refine ⟨pipe', .write he, hok, ?_⟩
    have hlen := congrArg List.length hstored
    simp only [PipeCB.stored, Circular.length_window, List.length_append, List.length_map,
      List.length_range] at hlen
    omega

/-- and read from a full one. -/
theorem changes_read_one (h : pipe.Ok) (hz : pipe.availableSpace = 0) :
    ∃ pipe' : PipeCB, PipeChange pipe pipe' ∧ pipe'.Ok ∧ pipe'.availableSpace = 1 := by
  have hpos := buffSize_pos
  have hused : pipe.used = buffSize := by
    unfold PipeCB.used
    omega
  rcases pipeRead_spec h Nat.one_pos with ⟨hempty, -⟩ | ⟨pipe', he, -, hok, hstored, -⟩
  · have hlen := congrArg List.length hempty
    simp only [PipeCB.stored, Circular.length_window, List.length_nil] at hlen
    omega
  · refine ⟨pipe', .read he, hok, ?_⟩
    have hlen := congrArg List.length hstored
    have hav := hok.availableSpace
    simp only [PipeCB.stored, Circular.length_window, List.length_drop] at hlen
    unfold PipeCB.used at hlen hused
    omega

/-- **`pipe_read` stays within the caller's buffer** unless its size is 0 and something is stored, or
still may be. -/
theorem read_within_iff (h : pipe.Ok) (size : Nat) :
    (∀ touched code, ReadRuns size pipe touched code → Within touched code size) ↔
      size ≠ 0 ∨ pipe.used = 0 ∧ pipe.writerClosed = true := by
  constructor
  · intro hall
    by_contra hno
    obtain ⟨hs, hopen⟩ := not_or.mp hno
    obtain rfl := not_not.mp hs
    -- A stretch that finds a byte takes it.
    have htakes : ∀ pipe : PipeCB, pipe.Ok → pipe.used ≠ 0 →
        ReadRuns 0 pipe (List.range pipe.used) pipe.used := by
      intro pipe h hu
      refine .returns ?_
      rw [readStretch_eq h, if_neg hu]
      rfl
    by_cases hu : pipe.used = 0
    · obtain ⟨pipe', hc, hok, hone⟩ := changes_write_one h hu
      have hblocks : readStretch 0 pipe = (none, []) := by
        rw [readStretch_eq h, if_pos hu, if_neg fun hc => hopen ⟨hu, hc⟩]
      have hrun := CallRuns.blocks hblocks (PipeChanges.found (.single hc)) (htakes pipe' hok (by omega))
      have hle := (hall _ _ hrun).count_le
      omega
    · have hle := (hall _ _ (htakes pipe h hu)).count_le
      omega
  · rintro (hs | ⟨hu, hclosed⟩) touched code hr
    · exact hr.within (readStretch_fits hs pipe) (readStretch_fits hs)
    · have heq : readStretch size pipe = (some 0, []) := by
        rw [readStretch_eq h, if_pos hu, if_pos hclosed]
      cases hr with
      | returns he =>
        cases heq.symm.trans he
        exact within_nil le_rfl
      | blocks he => cases heq.symm.trans he

/-- **`pipe_write` does**, unless its size is 0 and the read end is open. -/
theorem write_within_iff (h : pipe.Ok) (buf : Nat → Byte) (size : Nat) :
    (∀ touched code, WriteRuns buf size pipe touched code → Within touched code size) ↔
      size ≠ 0 ∨ pipe.readerClosed = true := by
  constructor
  · intro hall
    by_contra hno
    obtain ⟨hs, hopen⟩ := not_or.mp hno
    obtain rfl := not_not.mp hs
    -- A stretch that finds space fills it.
    have hfills : ∀ pipe : PipeCB, pipe.Ok → pipe.availableSpace ≠ 0 → writeLoopStretch buf 0 pipe =
        (some (pipe.availableSpace : Int), List.range pipe.availableSpace) := by
      intro pipe h hz
      rw [writeLoopStretch_eq h, if_neg hz]
      rfl
    have hfirst : writeStretch buf 0 pipe = _ := writeStretch_eq buf 0
    rw [if_neg hopen] at hfirst
    by_cases hz : pipe.availableSpace = 0
    · obtain ⟨pipe', hc, hok, hone⟩ := changes_read_one h hz
      rw [writeLoopStretch_eq h, if_pos hz] at hfirst
      have hrun : WriteRuns buf 0 pipe _ _ :=
        .blocks hfirst (PipeChanges.found (.single hc)) (.returns (hfills pipe' hok (by omega)))
      have hle := (hall _ _ hrun).count_le
      omega
    · have hle := (hall _ _ (.returns (hfirst.trans (hfills pipe h hz)))).count_le
      omega
  · rintro (hs | hclosed) touched code hr
    · refine hr.within ?_ (writeLoopStretch_fits buf hs)
      by_cases hclosed : pipe.readerClosed = true
      · exact writeStretch_closed_fits hclosed buf size
      · have hfits := writeLoopStretch_fits buf hs pipe
        unfold Stretch.Fits at hfits ⊢
        rwa [writeStretch_eq, if_neg hclosed]
    · have heq : writeStretch buf size pipe = _ := writeStretch_eq buf size
      rw [if_pos hclosed] at heq
      cases hr with
      | returns he =>
        cases heq.symm.trans he
        exact within_nil (by decide)
      | blocks he => cases heq.symm.trans he

/-- **Neither call leaves the caller's buffer**, whatever the others do while it sleeps, exactly if it
asks for at least one byte, or a read is at the end of the file, or the read end is closed at a
write. -/
theorem buffer_within_iff (pipe : PipeCB) (h : pipe.Ok) (buf : Nat → Byte) (size : Nat) :
    ((∀ touched code, ReadRuns size pipe touched code → Within touched code size) ↔
      size ≠ 0 ∨ pipe.used = 0 ∧ pipe.writerClosed = true) ∧
    ((∀ touched code, WriteRuns buf size pipe touched code → Within touched code size) ↔
      size ≠ 0 ∨ pipe.readerClosed = true) :=
  ⟨read_within_iff h size, write_within_iff h buf size⟩

/-- A read of two bytes sleeps at an empty ring until another thread has written three. -/
theorem buffer_within_two : ∃ touched code, ReadRuns 2 getPipe touched code ∧ code = 2 ∧
    Within touched code 2 := by
  have hwrite : pipeWriteLoop getPipe (fun _ => 7) 3 =
      .ret 3 { getPipe with
        buffer := (writeLoop (fun _ => 7) 3 buffSize 0 0 (fun _ => 0)).2.2
        writeP := 3, availableSpace := buffSize - 3 } true := by
    rfl
  have hblocks : readStretch 2 getPipe = (none, []) := by decide
  have hrun : ReadRuns 2 getPipe ([] ++ [0, 1]) 2 :=
    .blocks hblocks (PipeChanges.found (.single (.write hwrite))) (.returns (by rfl))
  exact ⟨_, _, hrun, rfl, (buffer_within_iff getPipe getPipe_ok (fun _ => 0) 2).1.mpr
    (.inl (by decide)) _ _ hrun⟩

/-- A read of size 0 from a ring that holds one byte stores it at `buf[0]`, and returns 1. -/
theorem not_buffer_within : ¬ ∀ pipe : PipeCB, pipe.Ok → ∀ (buf : Nat → Byte) (size : Nat),
    (∀ touched code, ReadRuns size pipe touched code → Within touched code size) ∧
      ∀ touched code, WriteRuns buf size pipe touched code → Within touched code size := by
  intro hall
  have hread := (hall { getPipe with writeP := 1, availableSpace := buffSize - 1 } (by decide)
    (fun _ => 0) 0).1 [0] 1 (.returns (by decide))
  exact absurd hread.count_le (by decide)

end TinyOS
