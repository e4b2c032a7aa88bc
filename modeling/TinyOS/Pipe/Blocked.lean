import TinyOS.Pipe.Buffer

/-!
# Who sleeps in a pipe has a reason to

A stretch that moves bytes wakes everyone who sleeps on the other condition variable, and a stretch
falls asleep on what it finds. So **a reader sleeps only while the ring is empty and the write end
open, and a writer only while the ring is full** (`PipeEnds.blocked`): no wake-up is missed,
whatever the sizes of the calls, and whenever the ends are closed.
-/

set_option autoImplicit false

namespace TinyOS

open Transition

variable {T : Type} [DecidableEq T]

namespace PipeEnds

structure Blocked (s : PipeEnds T) : Prop where
  readers : ∀ t size, s.pc t = .asleep (.read size) →
    s.pipe.stored = [] ∧ s.pipe.writerClosed = false
  writers : ∀ t buf size, s.pc t = .asleep (.write buf size) → s.pipe.availableSpace = 0

variable {s s' : PipeEnds T}

omit [DecidableEq T] in
theorem Blocked.initial :
    Blocked { toPipeState := (.initial : PipeState T), log := [] } where
  readers := by simp [PipeState.initial]
  writers := by simp [PipeState.initial]

theorem spaceBroadcast_ne_write (pc : PipePc) (buf : Nat → Byte) (size : Nat) :
    pc.spaceBroadcast ≠ .asleep (.write buf size) := by
  unfold PipePc.spaceBroadcast
  split
  · simp
  · rename_i hne
    exact fun he => hne buf size he

theorem asleep_of_dataBroadcast {pc : PipePc} {c : PipeCall} (h : pc.dataBroadcast = .asleep c) :
    pc = .asleep c := by
  unfold PipePc.dataBroadcast at h
  split at h
  · exact absurd h (by simp)
  · exact h

theorem asleep_of_spaceBroadcast {pc : PipePc} {c : PipeCall} (h : pc.spaceBroadcast = .asleep c) :
    pc = .asleep c := by
  unfold PipePc.spaceBroadcast at h
  split at h
  · exact absurd h (by simp)
  · exact h

/-- One stretch of `pipe_read`, of any size. -/
theorem Blocked.read (h : s.Blocked) (hok : s.pipe.Ok) (t : T) (size : Nat)
    (log : List PipeEvent) :
    Blocked { toPipeState := s.afterRead t size (pipeRead s.pipe size), log := log } := by
  rw [pipeRead_asked hok size]
  rcases pipeRead_spec hok (asked_pos size) with ⟨hempty, heq⟩ | ⟨b, heq, hpos, -, -, -, -⟩ <;>
    rw [heq]
  · split
    · -- End of file.
      constructor <;> simp only [PipeState.afterRead, Bool.false_eq_true, if_false,
        Function.update_apply]
      · intro u size' hu
        split at hu
        · exact absurd hu (by simp)
        · exact h.readers u size' hu
      · intro u buf size' hu
        split at hu
        · exact absurd hu (by simp)
        · exact h.writers u buf size' hu
    · rename_i hopen
      constructor <;> simp only [PipeState.afterRead, Function.update_apply]
      · exact fun u size' _ => ⟨hempty, by simpa using hopen⟩
      · intro u buf size' hu
        split at hu
        · exact absurd hu (by simp)
        · exact h.writers u buf size' hu
  · -- Something was stored, so no reader slept, and the writers are woken.
    have hused : s.pipe.stored ≠ [] := by
      intro hnil
      have := congrArg List.length hnil
      simp only [PipeCB.stored, Circular.length_window, List.length_nil] at this
      omega
    constructor <;> simp only [PipeState.afterRead, if_true, Function.update_apply]
    · intro u size' hu
      split at hu
      · exact absurd hu (by simp)
      · exact absurd (h.readers u size' (asleep_of_spaceBroadcast hu)).1 hused
    · intro u buf size' hu
      split at hu
      · exact absurd hu (by simp)
      · exact (spaceBroadcast_ne_write _ _ _ hu).elim

/-- One stretch of `pipe_write` in its loop. -/
theorem Blocked.writeLoop (h : s.Blocked) (hok : s.pipe.Ok) (t : T) (buf : Nat → Byte) (size : Nat)
    (log : List PipeEvent) :
    Blocked { toPipeState := s.afterWrite t buf size (pipeWriteLoop s.pipe buf size)
              log := log } := by
  rw [pipeWriteLoop_asked hok buf size]
  rcases pipeWriteLoop_spec buf hok (asked_pos size) with ⟨hfull, heq⟩ |
    ⟨b, heq, hpos, -, -, -, -⟩ <;> rw [heq]
  · constructor <;> simp only [PipeState.afterWrite, Function.update_apply]
    · intro u size' hu
      split at hu
      · exact absurd hu (by simp)
      · exact h.readers u size' hu
    · exact fun u buf' size' _ => hfull
  · constructor <;> simp only [PipeState.afterWrite, if_true, Function.update_apply]
    · intro u size' hu
      split at hu
      · exact absurd hu (by simp)
      · exact (dataBroadcast_ne _ _ hu).elim
    · intro u buf' size' hu
      split at hu
      · exact absurd hu (by simp)
      · have := h.writers u buf' size' (asleep_of_dataBroadcast hu)
        omega

theorem Blocked.write (h : s.Blocked) (hok : s.pipe.Ok) (t : T) (buf : Nat → Byte) (size : Nat)
    (log : List PipeEvent) :
    Blocked { toPipeState := s.afterWrite t buf size (pipeWrite s.pipe buf size), log := log } := by
  by_cases hclosed : s.pipe.readerClosed = true
  · rw [pipeWrite, if_pos hclosed]
    constructor <;> simp only [PipeState.afterWrite, Bool.false_eq_true, if_false,
      Function.update_apply]
    · intro u size' hu
      split at hu
      · exact absurd hu (by simp)
      · exact h.readers u size' hu
    · intro u buf' size' hu
      split at hu
      · exact absurd hu (by simp)
      · exact h.writers u buf' size' hu
  · rw [pipeWrite, if_neg hclosed]
    exact h.writeLoop hok t buf size log

omit [DecidableEq T] in
theorem Blocked.writerClose (h : s.Blocked) : s.writerClose.Blocked := by
  unfold PipeEnds.writerClose
  split
  · exact h
  · constructor <;> simp only
    · exact fun u size hu => (dataBroadcast_ne _ _ hu).elim
    · exact fun u buf size hu => h.writers u buf size (asleep_of_dataBroadcast hu)

omit [DecidableEq T] in
theorem Blocked.readerClose (h : s.Blocked) : s.readerClose.Blocked := by
  unfold PipeEnds.readerClose
  split
  · exact h
  · refine Blocked.writerClose ?_
    constructor <;> simp only
    · exact fun u size hu => h.readers u size (asleep_of_spaceBroadcast hu)
    · exact fun u buf size hu => (spaceBroadcast_ne_write _ _ _ hu).elim

theorem Blocked.step (h : s.Blocked) (hok : s.pipe.Ok) {a : EndsAction T}
    (hs : s.perform a = some s') : s'.Blocked := by
  cases a with
  | use a =>
    obtain ⟨s₁, hs₁, rfl⟩ := Option.map_eq_some_iff.mp hs
    cases a with
    | call t c =>
      cases hpc : s.pc t <;> cases c <;>
        simp only [PipeState.step, hpc, Option.some.injEq, reduceCtorEq] at hs₁
      · exact hs₁ ▸ h.read hok t _ _
      · exact hs₁ ▸ h.write hok t _ _ _
    | resume t =>
      cases hpc : s.pc t with
      | out | asleep => simp [PipeState.step, hpc] at hs₁
      | woken c =>
        cases c with
        | read size =>
          simp only [PipeState.step, hpc, Option.some.injEq] at hs₁
          exact hs₁ ▸ h.read hok t size _
        | write buf size =>
          simp only [PipeState.step, hpc, Option.some.injEq] at hs₁
          exact hs₁ ▸ h.writeLoop hok t buf size _
  | closeReader =>
    cases hs
    exact h.readerClose
  | closeWriter =>
    cases hs
    exact h.writerClose

/-- **No wake-up is missed.** -/
theorem blocked (hr : (endsSys T).Reach s) : s.Blocked := by
  induction hr with
  | init hi => exact hi ▸ .initial
  | step hr _ hs ih => exact ih.step (pipe_ok hr) hs

end PipeEnds

end TinyOS
