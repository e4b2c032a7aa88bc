import TinyOS.Pipe.Fifo
import TinyOS.Lib.Trace
import Mathlib.Data.Fintype.Basic

/-!
# The two ends of a pipe

The pipe of `Pipe/Fifo.lean`, with the closing of its ends. A log records what the calls return and
when the ends are closed. `writer_close` wakes the readers, and `pipe_read` looks at the closed flag
in its loop; `reader_close` wakes the writers, but **`pipe_write` looks at its flag on entry only**.
A writer that is in its loop when the read end is closed goes back to sleep if the ring is full
(`not_pipe_closes`), and writes into it if it is not. Without such a writer, both ends close as they
should (`pipe_closes`).

`reader_close` also frees the block. Here it keeps its contents.
-/

set_option autoImplicit false

namespace TinyOS

open Transition

inductive PipeEvent where
  /-- A call returns `code`; these bytes were delivered, or accepted. -/
  | read (code : Int) (bytes : List Byte)
  | write (code : Int) (bytes : List Byte)
  | readerClosed
  | writerClosed
  deriving DecidableEq

namespace PipeEvent

def delivered : PipeEvent → List Byte
  | .read _ bytes => bytes
  | _ => []

def accepted : PipeEvent → List Byte
  | .write _ bytes => bytes
  | _ => []

/-- End of file only on a pipe that is closed and drained; no write once nobody can read. -/
def Lawful (before : List PipeEvent) : PipeEvent → Prop
  | .read code _ => code = 0 →
    .writerClosed ∈ before ∧ before.flatMap delivered = before.flatMap accepted
  | .write code _ => .readerClosed ∈ before → code ≤ 0
  | _ => True

end PipeEvent

structure PipeEnds (T : Type) extends PipeState T where
  log : List PipeEvent

inductive EndsAction (T : Type) where
  | use (a : PipeAction T)
  | closeReader
  | closeWriter

def ReadStretch.events : ReadStretch → List PipeEvent
  | .wait => []
  | .ret code bytes _ _ => [.read code bytes]

def WriteStretch.events (buf : Nat → Byte) : WriteStretch → List PipeEvent
  | .wait => []
  | .ret code _ _ => [.write code ((List.range code.toNat).map buf)]

variable {T : Type} [DecidableEq T]

/-- What the next stretch of a call returns. -/
def PipeState.events (s : PipeState T) : PipeAction T → List PipeEvent
  | .call _ (.read size) => (pipeRead s.pipe size).events
  | .call _ (.write buf size) => (pipeWrite s.pipe buf size).events buf
  | .resume t =>
    match s.pc t with
    | .woken (.read size) => (pipeRead s.pipe size).events
    | .woken (.write buf size) => (pipeWriteLoop s.pipe buf size).events buf
    | _ => []

namespace PipeEnds

/-- `writer_close`. -/
def writerClose (s : PipeEnds T) : PipeEnds T :=
  if s.pipe.writerClosed then s
  else { s with
    pipe := { s.pipe with writerClosed := true }
    pc := fun u => (s.pc u).dataBroadcast
    log := s.log ++ [.writerClosed] }

/-- `reader_close`. -/
def readerClose (s : PipeEnds T) : PipeEnds T :=
  if s.pipe.readerClosed then s
  else writerClose { s with
    pipe := { s.pipe with readerClosed := true }
    pc := fun u => (s.pc u).spaceBroadcast
    log := s.log ++ [.readerClosed] }

def perform (s : PipeEnds T) : EndsAction T → Option (PipeEnds T)
  | .use a => (s.step a).map fun s' => { toPipeState := s', log := s.log ++ s.events a }
  | .closeReader => some s.readerClose
  | .closeWriter => some s.writerClose

end PipeEnds

variable (T) in
def endsSys : Sys (PipeEnds T) (EndsAction T) where
  init s := s = { toPipeState := .initial, log := [] }
  step := PipeEnds.perform

/-- Every call asks for at least one byte. -/
def EndsAction.SizePos : EndsAction T → Prop
  | .use a => a.SizePos
  | _ => True

/-- The thread is in the loop of `pipe_write`. -/
def PipePc.inWrite : PipePc → Bool
  | .asleep (.write _ _) | .woken (.write _ _) => true
  | _ => false

namespace PipeEnds

/-- The read end is closed while no thread is in the loop of `pipe_write`. -/
def Sound (s : PipeEnds T) : EndsAction T → Prop
  | .use a => a.SizePos
  | .closeReader => ∀ t, (s.pc t).inWrite = false
  | .closeWriter => True

instance (a : PipeAction T) : Decidable a.SizePos :=
  match a with
  | .call _ c => inferInstanceAs (Decidable (0 < c.size))
  | .resume _ => inferInstanceAs (Decidable True)

instance [Fintype T] (s : PipeEnds T) (a : EndsAction T) : Decidable (s.Sound a) :=
  match a with
  | .use a => inferInstanceAs (Decidable a.SizePos)
  | .closeReader => inferInstanceAs (Decidable (∀ t, (s.pc t).inWrite = false))
  | .closeWriter => inferInstanceAs (Decidable True)

/-- **What the closing of the ends promises.** -/
structure Prompt (s : PipeEnds T) : Prop where
  log : Each (fun before e => e.Lawful before) s.log
  /-- Nobody sleeps on an end that is closed. -/
  readers : s.pipe.writerClosed = true → ∀ t size, s.pc t ≠ .asleep (.read size)
  writers : s.pipe.readerClosed = true → ∀ t buf size, s.pc t ≠ .asleep (.write buf size)

structure Inv (s : PipeEnds T) : Prop where
  base : s.toPipeState.Inv
  delivered : s.log.flatMap PipeEvent.delivered = s.delivered
  accepted : s.log.flatMap PipeEvent.accepted = s.accepted
  readerClosed : .readerClosed ∈ s.log ↔ s.pipe.readerClosed = true
  writerClosed : .writerClosed ∈ s.log ↔ s.pipe.writerClosed = true
  log : Each (fun before e => e.Lawful before) s.log
  readers : s.pipe.writerClosed = true → ∀ t size, s.pc t ≠ .asleep (.read size)
  writers : s.pipe.readerClosed = true → ∀ t, (s.pc t).inWrite = false

variable {s s' : PipeEnds T}

omit [DecidableEq T] in
theorem Inv.initial : Inv { toPipeState := (.initial : PipeState T), log := [] } where
  base := .initial
  delivered := rfl
  accepted := rfl
  readerClosed := by simp [PipeState.initial, getPipe]
  writerClosed := by simp [PipeState.initial, getPipe]
  log := .nil
  readers := by simp [PipeState.initial]
  writers := by simp [PipeState.initial, PipePc.inWrite]

/-! ## Wake-ups -/

theorem dataBroadcast_ne (pc : PipePc) (size : Nat) : pc.dataBroadcast ≠ .asleep (.read size) := by
  unfold PipePc.dataBroadcast
  split
  · simp
  · rename_i hne
    exact fun he => hne size he

theorem spaceBroadcast_ne {pc : PipePc} {size : Nat} (h : pc ≠ .asleep (.read size)) :
    pc.spaceBroadcast ≠ .asleep (.read size) := by
  unfold PipePc.spaceBroadcast
  split
  · simp
  · exact h

@[simp] theorem inWrite_dataBroadcast (pc : PipePc) : pc.dataBroadcast.inWrite = pc.inWrite := by
  unfold PipePc.dataBroadcast
  split <;> rfl

@[simp] theorem inWrite_spaceBroadcast (pc : PipePc) : pc.spaceBroadcast.inWrite = pc.inWrite := by
  unfold PipePc.spaceBroadcast
  split <;> rfl

/-! ## Reading and writing -/

omit [DecidableEq T] in
/-- A stretch closes no end. -/
theorem Inv.stretch (h : s.Inv) {s' : PipeState T} {es : List PipeEvent} (hbase : s'.Inv)
    (hdelivered : s'.delivered = s.delivered ++ es.flatMap PipeEvent.delivered)
    (haccepted : s'.accepted = s.accepted ++ es.flatMap PipeEvent.accepted)
    (hreader : s'.pipe.readerClosed = s.pipe.readerClosed)
    (hwriter : s'.pipe.writerClosed = s.pipe.writerClosed)
    (hes : .readerClosed ∉ es ∧ .writerClosed ∉ es)
    (hlog : Each (fun before e => e.Lawful before) (s.log ++ es))
    (hreaders : s.pipe.writerClosed = true → ∀ u size, s'.pc u ≠ .asleep (.read size))
    (hwriters : s.pipe.readerClosed = true → ∀ u, (s'.pc u).inWrite = false) :
    Inv { toPipeState := s', log := s.log ++ es } where
  base := hbase
  delivered := by simp [hdelivered, h.delivered]
  accepted := by simp [haccepted, h.accepted]
  readerClosed := by simp [hes.1, hreader, h.readerClosed]
  writerClosed := by simp [hes.2, hwriter, h.writerClosed]
  log := hlog
  readers := by simpa only [hwriter] using hreaders
  writers := by simpa only [hreader] using hwriters

/-- One stretch of `pipe_read`. -/
theorem Inv.read (h : s.Inv) {t : T} {size : Nat} (hs : 0 < size) :
    Inv { toPipeState := s.afterRead t size (pipeRead s.pipe size)
          log := s.log ++ (pipeRead s.pipe size).events } := by
  have hbase := h.base.afterRead (t := t) hs
  rcases pipeRead_spec h.base.ok hs with ⟨hempty, heq⟩ |
    ⟨pipe, heq, hpos, -, -, hreader, hwriter⟩ <;> rw [heq] at hbase ⊢
  · by_cases hclosed : s.pipe.writerClosed = true
    · -- End of file.
      rw [if_pos hclosed] at hbase ⊢
      have hdrained : s.delivered = s.accepted := by simpa [hempty] using h.base.fifo
      have hlawful : PipeEvent.Lawful s.log (.read 0 []) := fun _ =>
        ⟨h.writerClosed.mpr hclosed, by rw [h.delivered, h.accepted, hdrained]⟩
      refine h.stretch hbase ?_ ?_ rfl rfl ?_ (h.log.concat hlawful) (fun hc u size' => ?_)
        fun hc u => ?_
      · simp [PipeState.afterRead, ReadStretch.events, PipeEvent.delivered]
      · simp [PipeState.afterRead, ReadStretch.events, PipeEvent.accepted]
      · simp [ReadStretch.events]
      · by_cases hu : u = t
        · simp [PipeState.afterRead, hu]
        · simpa [PipeState.afterRead, hu] using h.readers hc u size'
      · by_cases hu : u = t
        · simp [PipeState.afterRead, hu, PipePc.inWrite]
        · simpa [PipeState.afterRead, hu] using h.writers hc u
    · rw [if_neg hclosed] at hbase ⊢
      refine h.stretch hbase ?_ ?_ rfl rfl ?_ ?_ (fun hc => absurd hc hclosed) fun hc u => ?_
      · simp [PipeState.afterRead, ReadStretch.events]
      · simp [PipeState.afterRead, ReadStretch.events]
      · simp [ReadStretch.events]
      · simpa [ReadStretch.events] using h.log
      · by_cases hu : u = t
        · simp [PipeState.afterRead, hu, PipePc.inWrite]
        · simpa [PipeState.afterRead, hu] using h.writers hc u
  · have hlawful : PipeEvent.Lawful s.log
        (.read (min size s.pipe.used : Nat) (s.pipe.stored.take size)) := fun hzero => by omega
    refine h.stretch hbase ?_ ?_ hreader hwriter ?_ (h.log.concat hlawful) (fun hc u size' => ?_)
      fun hc u => ?_
    · simp [PipeState.afterRead, ReadStretch.events, PipeEvent.delivered]
    · simp [PipeState.afterRead, ReadStretch.events, PipeEvent.accepted]
    · simp [ReadStretch.events]
    · by_cases hu : u = t
      · simp [PipeState.afterRead, hu]
      · simpa [PipeState.afterRead, hu] using spaceBroadcast_ne (h.readers hc u size')
    · by_cases hu : u = t
      · simp [PipeState.afterRead, hu, PipePc.inWrite]
      · simpa [PipeState.afterRead, hu] using h.writers hc u

/-- One stretch of `pipe_write` in its loop, which nobody is in once the read end is closed. -/
theorem Inv.writeLoop (h : s.Inv) {t : T} {buf : Nat → Byte} {size : Nat} (hs : 0 < size)
    (hopen : s.pipe.readerClosed = false) :
    Inv { toPipeState := s.afterWrite t buf size (pipeWriteLoop s.pipe buf size)
          log := s.log ++ (pipeWriteLoop s.pipe buf size).events buf } := by
  have hbase : (s.afterWrite t buf size (pipeWriteLoop s.pipe buf size)).Inv :=
    h.base.afterWriteLoop hs
  have hnot : s.pipe.readerClosed = true → ∀ {p : Prop}, p := fun hc => by simp [hopen] at hc
  rcases pipeWriteLoop_spec buf h.base.ok hs with ⟨-, heq⟩ |
    ⟨pipe, heq, -, -, -, hreader, hwriter⟩ <;> rw [heq] at hbase ⊢
  · refine h.stretch hbase ?_ ?_ rfl rfl ?_ ?_ (fun hc u size' => ?_) fun hc => hnot hc
    · simp [PipeState.afterWrite, WriteStretch.events]
    · simp [PipeState.afterWrite, WriteStretch.events]
    · simp [WriteStretch.events]
    · simpa [WriteStretch.events] using h.log
    · by_cases hu : u = t
      · simp [PipeState.afterWrite, hu]
      · simpa [PipeState.afterWrite, hu] using h.readers hc u size'
  · have hlawful : PipeEvent.Lawful s.log (.write (min size s.pipe.availableSpace : Nat)
        ((List.range (min size s.pipe.availableSpace)).map buf)) := fun hc =>
      hnot (h.readerClosed.mp hc)
    refine h.stretch hbase ?_ ?_ hreader hwriter ?_ (h.log.concat ?_) (fun hc u size' => ?_)
      fun hc => hnot hc
    · simp [PipeState.afterWrite, WriteStretch.events, PipeEvent.delivered]
    · simp [PipeState.afterWrite, WriteStretch.events, PipeEvent.accepted]
    · simp [WriteStretch.events]
    · exact hlawful
    · by_cases hu : u = t
      · simp [PipeState.afterWrite, hu]
      · simpa [PipeState.afterWrite, hu] using dataBroadcast_ne (s.pc u) size'

theorem Inv.write (h : s.Inv) {t : T} {buf : Nat → Byte} {size : Nat} (hs : 0 < size) :
    Inv { toPipeState := s.afterWrite t buf size (pipeWrite s.pipe buf size)
          log := s.log ++ (pipeWrite s.pipe buf size).events buf } := by
  by_cases hclosed : s.pipe.readerClosed = true
  · have hbase : (s.afterWrite t buf size (pipeWrite s.pipe buf size)).Inv :=
      h.base.afterWrite hs
    rw [pipeWrite, if_pos hclosed] at hbase ⊢
    have hlawful : PipeEvent.Lawful s.log (.write (-1) []) := fun _ => by decide
    refine h.stretch hbase ?_ ?_ rfl rfl ?_ (h.log.concat hlawful) (fun hc u size' => ?_)
      fun hc u => ?_
    · simp [PipeState.afterWrite, WriteStretch.events, PipeEvent.delivered]
    · simp [PipeState.afterWrite, WriteStretch.events, PipeEvent.accepted]
    · simp [WriteStretch.events]
    · by_cases hu : u = t
      · simp [PipeState.afterWrite, hu]
      · simpa [PipeState.afterWrite, hu] using h.readers hc u size'
    · by_cases hu : u = t
      · simp [PipeState.afterWrite, hu, PipePc.inWrite]
      · simpa [PipeState.afterWrite, hu] using h.writers hc u
  · rw [pipeWrite, if_neg hclosed]
    exact h.writeLoop hs (by simpa using hclosed)

theorem Inv.use (h : s.Inv) {a : PipeAction T} (ha : a.SizePos) {s' : PipeState T}
    (hs : s.step a = some s') : Inv { toPipeState := s', log := s.log ++ s.events a } := by
  cases a with
  | call t c =>
    cases hpc : s.pc t <;> cases c <;>
      simp only [PipeState.step, hpc, Option.some.injEq, reduceCtorEq] at hs
    · exact hs ▸ h.read ha
    · exact hs ▸ h.write ha
  | resume t =>
    cases hpc : s.pc t with
    | out | asleep => simp [PipeState.step, hpc] at hs
    | woken c =>
      have hsize := h.base.sizes t c (.inr hpc)
      cases c with
      | read size =>
        simp only [PipeState.step, PipeState.events, hpc, Option.some.injEq] at hs ⊢
        exact hs ▸ h.read hsize
      | write buf size =>
        have hopen : s.pipe.readerClosed = false := by
          by_contra hc
          have := h.writers (by simpa using hc) t
          simp [hpc, PipePc.inWrite] at this
        simp only [PipeState.step, PipeState.events, hpc, Option.some.injEq] at hs ⊢
        exact hs ▸ h.writeLoop hsize hopen

/-! ## Closing -/

omit [DecidableEq T] in
theorem Inv.writerClose (h : s.Inv) : s.writerClose.Inv := by
  unfold PipeEnds.writerClose
  split
  · exact h
  · constructor
    case base =>
      exact ⟨⟨h.base.ok.1, h.base.ok.2, h.base.ok.3, h.base.ok.4⟩, h.base.fifo,
        fun t c hc => h.base.sizes t c (PipePc.dataBroadcast_call hc)⟩
    case delivered => simpa [PipeEvent.delivered] using h.delivered
    case accepted => simpa [PipeEvent.accepted] using h.accepted
    case readerClosed => simpa using h.readerClosed
    case writerClosed => simp
    case log => exact h.log.concat trivial
    case readers => exact fun _ u size => dataBroadcast_ne (s.pc u) size
    case writers => simpa using h.writers

omit [DecidableEq T] in
theorem Inv.readerClose (h : s.Inv) (hw : ∀ t, (s.pc t).inWrite = false) :
    s.readerClose.Inv := by
  unfold PipeEnds.readerClose
  split
  · exact h
  · refine Inv.writerClose ?_
    constructor
    case base =>
      exact ⟨⟨h.base.ok.1, h.base.ok.2, h.base.ok.3, h.base.ok.4⟩, h.base.fifo,
        fun t c hc => h.base.sizes t c (PipePc.spaceBroadcast_call hc)⟩
    case delivered => simpa [PipeEvent.delivered] using h.delivered
    case accepted => simpa [PipeEvent.accepted] using h.accepted
    case readerClosed => simp
    case writerClosed => simpa using h.writerClosed
    case log => exact h.log.concat trivial
    case readers => exact fun hc u size => spaceBroadcast_ne (h.readers hc u size)
    case writers => exact fun _ u => by simpa using hw u

variable (T) in
theorem inductive_inv :
    (endsSys T).InductiveIf (fun s a => s.Sound a) PipeEnds.Inv where
  init := by
    rintro s rfl
    exact .initial
  step := by
    intro s a s' h hc hs
    cases a with
    | use a =>
      obtain ⟨s₁, hs₁, rfl⟩ := Option.map_eq_some_iff.mp hs
      exact h.use hc hs₁
    | closeReader =>
      cases hs
      exact h.readerClose hc
    | closeWriter =>
      cases hs
      exact h.writerClose

omit [DecidableEq T] in
theorem Inv.prompt (h : s.Inv) : s.Prompt where
  log := h.log
  readers := h.readers
  writers hc t buf size he := by
    have := h.writers hc t
    simp [he, PipePc.inWrite] at this

end PipeEnds

/-- **A pipe closes as it should**, in every run in which the read end is not closed under a thread
that is in the loop of `pipe_write`. -/
theorem pipe_closes {s : PipeEnds T} (hr : (endsSys T).ReachIf (fun s a => s.Sound a) s) :
    s.Prompt :=
  ((PipeEnds.inductive_inv T).reachIf hr).prompt

/-- A reader sleeps on the empty pipe. The writer writes three bytes and closes its end, and the
reader takes two of them, then one, and then sees the end of the file. -/
theorem pipe_closes_run : ∃ s : PipeEnds Bool, s.Prompt ∧
    s.log = [.write 3 [7, 8, 9], .writerClosed, .read 2 [7, 8], .read 1 [9], .read 0 []] := by
  obtain ⟨s, hr, hp⟩ := Sys.reachIf_of_exec (M := endsSys Bool) (C := fun s a => s.Sound a)
    (fun s a => decide (s.Sound a)) { toPipeState := .initial, log := [] }
    [.use (.call false (.read 2)), .use (.call true (.write (fun i => .ofNat (7 + i)) 3)),
      .closeWriter, .use (.resume false), .use (.call false (.read 2)),
      .use (.call false (.read 2))]
    (fun s => decide (s.log =
      [.write 3 [7, 8, 9], .writerClosed, .read 2 [7, 8], .read 1 [9], .read 0 []]))
    (fun _ _ h => of_decide_eq_true h) rfl (by decide)
  exact ⟨s, pipe_closes hr, of_decide_eq_true hp⟩

/-- A ring that is filled in one go. -/
theorem pipeWrite_full (buf : Nat → Byte) : ∃ pipe,
    pipeWrite getPipe buf buffSize = .ret buffSize pipe true ∧
      (pipe.readP = pipe.writeP ∧ pipe.availableSpace = 0) ∧ pipe.readerClosed = false := by
  rw [pipeWrite, if_neg (by simp [getPipe])]
  obtain ⟨hz, -⟩ | ⟨pipe, heq, -, hok, hstored, hreader, -⟩ :=
    pipeWriteLoop_spec buf getPipe_ok buffSize_pos
  · exact absurd hz buffSize_pos.ne'
  · have hmin : min buffSize getPipe.availableSpace = buffSize := Nat.min_self _
    rw [hmin, getPipe_stored, List.nil_append] at hstored
    rw [hmin] at heq
    have hused : pipe.used = buffSize := by
      have := congrArg List.length hstored
      simpa [PipeCB.stored] using this
    have hzero : pipe.availableSpace = 0 := by
      have := hok.availableSpace
      have := buffSize_pos
      unfold PipeCB.used at hused
      omega
    exact ⟨pipe, heq, hok.full_iff.mpr hzero, hreader⟩

/-- A writer fills the ring, and then sleeps in its next write. The read end is closed, which wakes
the writer, and it goes back to sleep. -/
theorem not_pipe_closes :
    ¬ ∀ s : PipeEnds Bool, (endsSys Bool).ReachIf (fun _ a => a.SizePos) s → s.Prompt := by
  intro hall
  let buf : Nat → Byte := fun _ => 0
  obtain ⟨pipe, hwrite, hfull, hreader⟩ := pipeWrite_full buf
  have hwait : ∀ p : PipeCB, p.readP = p.writeP ∧ p.availableSpace = 0 →
      pipeWriteLoop p buf 1 = .wait := fun p hp => by rw [pipeWriteLoop, if_pos hp]
  let s₀ : PipeEnds Bool := { toPipeState := .initial, log := [] }
  let s₁ : PipeEnds Bool :=
    { toPipeState := s₀.afterWrite true buf buffSize (.ret buffSize pipe true)
      log := s₀.log ++ (WriteStretch.ret buffSize pipe true).events buf }
  let s₂ : PipeEnds Bool :=
    { s₁ with pc := Function.update s₁.pc true (.asleep (.write buf 1)), log := s₁.log ++ [] }
  have h₁ : s₀.perform (.use (.call true (.write buf buffSize))) = some s₁ := by
    simp only [PipeEnds.perform, PipeState.step, PipeState.events, s₀, PipeState.initial, hwrite,
      Option.map_some]
    rfl
  have h₂ : s₁.perform (.use (.call true (.write buf 1))) = some s₂ := by
    have hpipe : pipeWrite pipe buf 1 = .wait := by
      rw [pipeWrite, if_neg (by simp [hreader]), hwait pipe hfull]
    have hpc : s₁.pc true = .out := by simp [s₁, PipeState.afterWrite]
    have hp : s₁.pipe = pipe := rfl
    simp only [PipeEnds.perform, PipeState.step, PipeState.events, hpc, hp, hpipe, Option.map_some]
    rfl
  have hopen : ¬ s₂.pipe.readerClosed = true := by simp [s₂, s₁, PipeState.afterWrite, hreader]
  -- Woken, and the ring still full.
  have hpc : s₂.readerClose.pc true = .woken (.write buf 1) := by
    rw [PipeEnds.readerClose, if_neg hopen, PipeEnds.writerClose]
    split <;> simp [s₂, PipePc.spaceBroadcast, PipePc.dataBroadcast]
  have hpipe : (s₂.readerClose.pipe.readP = s₂.readerClose.pipe.writeP ∧
      s₂.readerClose.pipe.availableSpace = 0) ∧ s₂.readerClose.pipe.readerClosed = true := by
    rw [PipeEnds.readerClose, if_neg hopen, PipeEnds.writerClose]
    split <;> exact ⟨hfull, rfl⟩
  let s₄ : PipeEnds Bool :=
    { s₂.readerClose with
      pc := Function.update s₂.readerClose.pc true (.asleep (.write buf 1))
      log := s₂.readerClose.log ++ [] }
  have h₄ : s₂.readerClose.perform (.use (.resume true)) = some s₄ := by
    simp only [PipeEnds.perform, PipeState.step, PipeState.events, hpc, hwait _ hpipe.1,
      Option.map_some]
    rfl
  have hr₁ : (endsSys Bool).ReachIf (fun _ a => a.SizePos) s₁ :=
    .step (a := .use (.call true (.write buf buffSize))) (.init rfl) buffSize_pos h₁
  have hr₂ : (endsSys Bool).ReachIf (fun _ a => a.SizePos) s₂ :=
    .step (a := .use (.call true (.write buf 1))) hr₁ Nat.one_pos h₂
  have hr₃ : (endsSys Bool).ReachIf (fun _ a => a.SizePos) s₂.readerClose :=
    .step (a := .closeReader) hr₂ trivial rfl
  have hr₄ : (endsSys Bool).ReachIf (fun _ a => a.SizePos) s₄ :=
    .step (a := .use (.resume true)) hr₃ trivial h₄
  exact (hall s₄ hr₄).writers hpipe.2 true buf 1 (by simp [s₄])

end TinyOS
