import TinyOS.Lib.System
import TinyOS.Pipe.Basic

/-!
# One pipe, any number of readers and writers

The threads of `T` call `pipe_read` and `pipe_write` on one `PipeCB` in any order. A call runs one
stretch at a time (`Pipe/Basic.lean`): a stretch that blocks puts its thread to sleep on the
pipe's `hasData` or `hasSpace`, a stretch that moved bytes wakes *everyone* asleep on the other
condition variable, and a woken thread runs its next stretch whenever it gets the kernel lock —
after any number of other threads, woken or new, have had their turn.

`delivered` and `accepted` record the bytes that the reads returned and the writes took. What is
proved is that the pipe is a FIFO in the plainest sense: at every moment what was accepted is what
was delivered followed by what the ring holds (`pipe_fifo`).
-/

set_option autoImplicit false

namespace TinyOS

open Transition

/-- A call on the pipe. The caller's buffer is the memory from `buf` on. -/
inductive PipeCall where
  | read (size : Nat)
  | write (buf : Nat → Byte) (size : Nat)

def PipeCall.size : PipeCall → Nat
  | .read size => size
  | .write _ size => size

/-- Where a thread is with respect to the pipe. -/
inductive PipePc where
  | out
  /-- In `kernel_wait`: a reader on `hasData`, a writer on `hasSpace`. -/
  | asleep (c : PipeCall)
  /-- Woken by a broadcast, its next stretch not run yet. -/
  | woken (c : PipeCall)

structure PipeState (T : Type) where
  pipe : PipeCB
  pc : T → PipePc
  delivered : List Byte
  accepted : List Byte

inductive PipeAction (T : Type) where
  | call (t : T) (c : PipeCall)
  | resume (t : T)

/-- `Cond_Broadcast(&pipe->hasSpace)`. -/
def PipePc.spaceBroadcast : PipePc → PipePc
  | .asleep (.write buf size) => .woken (.write buf size)
  | pc => pc

/-- `Cond_Broadcast(&pipe->hasData)`. -/
def PipePc.dataBroadcast : PipePc → PipePc
  | .asleep (.read size) => .woken (.read size)
  | pc => pc

variable {T : Type} [DecidableEq T]

/-- Thread `t` runs a stretch of a read. -/
def PipeState.afterRead (s : PipeState T) (t : T) (size : Nat) : ReadStretch → PipeState T
  | .wait => { s with pc := Function.update s.pc t (.asleep (.read size)) }
  | .ret _ bytes pipe wake =>
    { s with
      pipe := pipe
      delivered := s.delivered ++ bytes
      pc := Function.update
        (if wake then fun u => (s.pc u).spaceBroadcast else s.pc) t .out }

/-- Thread `t` runs a stretch of a write. A count `code` returned says that the first `code` bytes
of the buffer were accepted. -/
def PipeState.afterWrite (s : PipeState T) (t : T) (buf : Nat → Byte) (size : Nat) :
    WriteStretch → PipeState T
  | .wait => { s with pc := Function.update s.pc t (.asleep (.write buf size)) }
  | .ret code pipe wake =>
    { s with
      pipe := pipe
      accepted := s.accepted ++ (List.range code.toNat).map buf
      pc := Function.update
        (if wake then fun u => (s.pc u).dataBroadcast else s.pc) t .out }

/-- A call starts; a call that was woken resumes. A woken writer skips the closed test. -/
def PipeState.step (s : PipeState T) : PipeAction T → Option (PipeState T)
  | .call t c =>
    match s.pc t, c with
    | .out, .read size => some (s.afterRead t size (pipeRead s.pipe size))
    | .out, .write buf size => some (s.afterWrite t buf size (pipeWrite s.pipe buf size))
    | _, _ => none
  | .resume t =>
    match s.pc t with
    | .woken (.read size) => some (s.afterRead t size (pipeRead s.pipe size))
    | .woken (.write buf size) => some (s.afterWrite t buf size (pipeWriteLoop s.pipe buf size))
    | _ => none

def PipeState.initial : PipeState T :=
  { pipe := getPipe, pc := fun _ => .out, delivered := [], accepted := [] }

variable (T) in
def pipeSys : Sys (PipeState T) (PipeAction T) where
  init s := s = .initial
  step := PipeState.step

/-- Every call asks for at least one byte. -/
def PipeAction.SizePos : PipeAction T → Prop
  | .call _ c => 0 < c.size
  | .resume _ => True

/-! ## The invariant -/

/-- The indices agree with the counter, what was accepted is what was delivered followed by what
is stored, and every call in progress asked for at least one byte. -/
structure PipeState.Inv (s : PipeState T) : Prop where
  ok : s.pipe.Ok
  fifo : s.delivered ++ s.pipe.stored = s.accepted
  sizes : ∀ t c, s.pc t = .asleep c ∨ s.pc t = .woken c → 0 < c.size

/-- A broadcast turns sleepers into woken threads with the same call, and touches nothing else. -/
theorem PipePc.spaceBroadcast_call {pc : PipePc} {c : PipeCall}
    (h : pc.spaceBroadcast = .asleep c ∨ pc.spaceBroadcast = .woken c) :
    pc = .asleep c ∨ pc = .woken c := by
  unfold spaceBroadcast at h
  split at h
  · exact .inl (by simpa using h)
  · exact h

theorem PipePc.dataBroadcast_call {pc : PipePc} {c : PipeCall}
    (h : pc.dataBroadcast = .asleep c ∨ pc.dataBroadcast = .woken c) :
    pc = .asleep c ∨ pc = .woken c := by
  unfold dataBroadcast at h
  split at h
  · exact .inl (by simpa using h)
  · exact h

namespace PipeState.Inv

variable {s : PipeState T}

omit [DecidableEq T] in
theorem initial : (PipeState.initial : PipeState T).Inv where
  ok := getPipe_ok
  fifo := by simp [PipeState.initial]
  sizes := by simp [PipeState.initial]

/-- Moving one thread, after a wake-up that keeps everyone's call, keeps the sizes positive. -/
theorem sizes_update (h : s.Inv) {t : T} {pc : PipePc} {f : T → PipePc}
    (hf : ∀ u c, f u = .asleep c ∨ f u = .woken c → s.pc u = .asleep c ∨ s.pc u = .woken c)
    (hpc : ∀ c, pc = .asleep c ∨ pc = .woken c → 0 < c.size) :
    ∀ u c, Function.update f t pc u = .asleep c ∨ Function.update f t pc u = .woken c →
      0 < c.size := by
  intro u c hu
  by_cases hut : u = t
  · subst hut
    rw [Function.update_self] at hu
    exact hpc c hu
  · rw [Function.update_of_ne hut] at hu
    exact h.sizes u c (hf u c hu)

theorem afterRead (h : s.Inv) {t : T} {size : Nat} (hs : 0 < size) :
    (s.afterRead t size (pipeRead s.pipe size)).Inv := by
  have hasleep : ∀ c, PipePc.asleep (.read size) = .asleep c ∨
      PipePc.asleep (.read size) = .woken c → 0 < c.size := by
    rintro c (hc | hc) <;> cases hc
    exact hs
  rcases pipeRead_spec h.ok hs with ⟨hempty, heq⟩ | ⟨pipe', heq, -, hok, hstored, -, -⟩
  · rw [heq]
    split
    · exact ⟨h.ok, by simpa [PipeState.afterRead] using h.fifo,
        h.sizes_update (fun _ _ hu => hu) (by simp)⟩
    · exact ⟨h.ok, h.fifo, h.sizes_update (fun _ _ hu => hu) hasleep⟩
  · rw [heq]
    refine ⟨hok, ?_, h.sizes_update (fun _ _ hu => PipePc.spaceBroadcast_call hu) (by simp)⟩
    show (s.delivered ++ s.pipe.stored.take size) ++ pipe'.stored = s.accepted
    rw [hstored, List.append_assoc, List.take_append_drop]
    exact h.fifo

theorem afterWriteLoop (h : s.Inv) {t : T} {buf : Nat → Byte} {size : Nat} (hs : 0 < size) :
    (s.afterWrite t buf size (pipeWriteLoop s.pipe buf size)).Inv := by
  have hasleep : ∀ c, PipePc.asleep (.write buf size) = .asleep c ∨
      PipePc.asleep (.write buf size) = .woken c → 0 < c.size := by
    rintro c (hc | hc) <;> cases hc
    exact hs
  rcases pipeWriteLoop_spec buf h.ok hs with ⟨-, heq⟩ | ⟨pipe', heq, -, hok, hstored, -, -⟩
  · rw [heq]
    exact ⟨h.ok, h.fifo, h.sizes_update (fun _ _ hu => hu) hasleep⟩
  · rw [heq]
    refine ⟨hok, ?_, h.sizes_update (fun _ _ hu => PipePc.dataBroadcast_call hu) (by simp)⟩
    show s.delivered ++ pipe'.stored = s.accepted ++ (List.range (Int.toNat _)).map buf
    rw [hstored, ← List.append_assoc, h.fifo, Int.toNat_natCast]

theorem afterWrite (h : s.Inv) {t : T} {buf : Nat → Byte} {size : Nat} (hs : 0 < size) :
    (s.afterWrite t buf size (pipeWrite s.pipe buf size)).Inv := by
  unfold pipeWrite
  split
  · refine ⟨h.ok, ?_, h.sizes_update (fun _ _ hu => hu) (by simp)⟩
    simpa [PipeState.afterWrite] using h.fifo
  · exact h.afterWriteLoop hs

/-- One stretch of any call by any thread. -/
theorem step (h : s.Inv) {a : PipeAction T} (ha : a.SizePos) {s' : PipeState T}
    (hs : s.step a = some s') : s'.Inv := by
  cases a with
  | call t c =>
    cases c with
    | read size =>
      cases hpc : s.pc t <;> simp only [PipeState.step, hpc, Option.some.injEq, reduceCtorEq] at hs
      exact hs ▸ h.afterRead ha
    | write buf size =>
      cases hpc : s.pc t <;> simp only [PipeState.step, hpc, Option.some.injEq, reduceCtorEq] at hs
      exact hs ▸ h.afterWrite ha
  | resume t =>
    cases hpc : s.pc t with
    | out => simp [PipeState.step, hpc] at hs
    | asleep c => simp [PipeState.step, hpc] at hs
    | woken c =>
      have hsize := h.sizes t c (.inr hpc)
      cases c with
      | read size =>
        simp only [PipeState.step, hpc, Option.some.injEq] at hs
        exact hs ▸ h.afterRead hsize
      | write buf size =>
        simp only [PipeState.step, hpc, Option.some.injEq] at hs
        exact hs ▸ h.afterWriteLoop hsize

end PipeState.Inv

theorem pipeInv_inductive :
    (pipeSys T).InductiveIf (fun _ a => a.SizePos) PipeState.Inv where
  init := fun _ hs => hs ▸ PipeState.Inv.initial
  step := fun _ _ _ hi ha hs => hi.step ha hs

/-- **A pipe is a FIFO.** In every state that calls of positive size reach, in any interleaving of
their stretches, the indices are in range and in step with the free-space counter, and the bytes
accepted so far are the bytes delivered so far followed by the bytes stored: none is lost,
duplicated or reordered. -/
theorem pipe_fifo {s : PipeState T} (h : (pipeSys T).ReachIf (fun _ a => a.SizePos) s) :
    s.pipe.readP < buffSize ∧ s.pipe.writeP < buffSize ∧ s.pipe.availableSpace ≤ buffSize ∧
      s.pipe.writeP = (s.pipe.readP + buffSize - s.pipe.availableSpace) % buffSize ∧
      s.delivered ++ Circular.window buffSize s.pipe.buffer s.pipe.readP
        (buffSize - s.pipe.availableSpace) = s.accepted := by
  have hi := pipeInv_inductive.reachIf h
  refine ⟨hi.ok.readP, hi.ok.writeP, hi.ok.availableSpace, ?_, hi.fifo⟩
  rw [Nat.add_sub_assoc hi.ok.availableSpace]
  exact hi.ok.inStep

/-- A reader blocks on the empty pipe, a writer puts three bytes in and wakes it, and the woken
reader takes two of them: `pipe_fifo` at the state this ends in. -/
theorem pipe_fifo_run : ∃ s : PipeState Bool, s.delivered = [7, 8] ∧ s.accepted = [7, 8, 9] ∧
    s.delivered ++ Circular.window buffSize s.pipe.buffer s.pipe.readP
      (buffSize - s.pipe.availableSpace) = s.accepted := by
  obtain ⟨s, hr, hp⟩ := Sys.reachIf_of_exec (M := pipeSys Bool) (C := fun _ a => a.SizePos)
    (fun _ a => match a with | .call _ c => decide (0 < c.size) | .resume _ => true) .initial
    [.call false (.read 2), .call true (.write (fun i => .ofNat (7 + i)) 3), .resume false]
    (fun s => s.delivered = [7, 8] ∧ s.accepted = [7, 8, 9])
    (by rintro _ (⟨_, c⟩ | _) h
        · simpa [PipeAction.SizePos] using h
        · trivial)
    rfl (by decide)
  simp only [decide_eq_true_eq] at hp
  exact ⟨s, hp.1, hp.2, (pipe_fifo hr).2.2.2.2⟩

end TinyOS
