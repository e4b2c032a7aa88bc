import Mathlib.Data.List.Induction
import Mathlib.Tactic.Common

/-!
# Exceptions (`util.c`, `util.h`)

A `TRY_WITH` block pushes a frame on the exception stack, and its `ON_ERROR` and `FINALLY` blocks
push handlers on the two lists of the frame. `raise_exception` is a `longjmp` to the frame at the
top, whose `setjmp` returns once more, with 1, and calls `exception_unwind`.

A handler that raises comes back to the same frame, **with a new `captured`**. So the frame forgets
the catchers that ran before: the exception goes on to the enclosing frame although it was caught,
if the last catcher to run raises or a finalizer does (`unwinds_as_documented_iff`).

The trace has the handlers that ran, with their codes, and the frames that were popped. Execution
goes on behind the block of the last one.
-/

set_option autoImplicit false

namespace TinyOS

namespace Exceptions

/-- A handler, and whether it raises when it is run. -/
structure Handler where
  action : Nat
  raises : Bool
  deriving DecidableEq

/-- `struct exception_stack_frame`. -/
structure Frame where
  catchers : List Handler
  finalizers : List Handler

inductive Event where
  | run (h : Handler) (errcode : Int)
  | pop
  deriving DecidableEq

/-- What has happened when execution goes on, and the stack then. -/
structure Unwound where
  trace : List Event
  stack : List Frame

def Unwound.after (es : List Event) (r : Unwound) : Unwound := { r with trace := es ++ r.trace }

@[simp] theorem Unwound.after_nil (r : Unwound) : r.after [] = r := rfl

@[simp] theorem Unwound.after_after (es es' : List Event) (r : Unwound) :
    (r.after es').after es = r.after (es ++ es') := by
  simp [Unwound.after]

/-! ## `exception_unwind` -/

/-- What is left to do on a stack. -/
def weight : List Frame → Nat
  | [] => 0
  | f :: fs => f.catchers.length + f.finalizers.length + 1 + weight fs

mutual

/-- `raise_exception`. Without a frame it returns. -/
def raiseException (stack : List Frame) : Unwound :=
  match stack with
  | [] => { trace := [], stack := [] }
  | f :: fs => excTry f fs 1
termination_by (weight stack, 4)

/-- `__exc_try`, where `setjmp` returns for the second time. -/
def excTry (f : Frame) (fs : List Frame) (errcode : Int) : Unwound := exceptionUnwind f fs errcode
termination_by (weight (f :: fs), 3)

/-- `exception_unwind`, on a stack with the frame `f` at its top. -/
def exceptionUnwind (f : Frame) (fs : List Frame) (errcode : Int) : Unwound :=
  runCatchers f fs errcode false
termination_by (weight (f :: fs), 2)

/-- The catchers, one by one. -/
def runCatchers (f : Frame) (fs : List Frame) (errcode : Int) (captured : Bool) : Unwound :=
  match f with
  | { catchers := c :: cs, finalizers := hs } =>
    -- Popped from the list before it runs.
    let f : Frame := { catchers := cs, finalizers := hs }
    let r := if c.raises then raiseException (f :: fs) else runCatchers f fs errcode true
    r.after [.run c errcode]
  | { catchers := [], finalizers := hs } =>
    runFinalizers { catchers := [], finalizers := hs } fs errcode captured
termination_by (weight (f :: fs), 1)
decreasing_by
  all_goals simp only [weight, List.length_cons]
  · exact Prod.Lex.left _ _ (by omega)
  · exact Prod.Lex.left _ _ (by omega)
  · exact Prod.Lex.right _ (by omega)

/-- The finalizers, and the rest. -/
def runFinalizers (f : Frame) (fs : List Frame) (errcode : Int) (captured : Bool) : Unwound :=
  match f with
  | { catchers := cs, finalizers := h :: hs } =>
    let f : Frame := { catchers := cs, finalizers := hs }
    let r := if h.raises then raiseException (f :: fs) else runFinalizers f fs errcode captured
    r.after [.run h errcode]
  | { catchers := _, finalizers := [] } =>
    let r := if errcode ≠ 0 ∧ captured = false then raiseException fs else { trace := [], stack := fs }
    r.after [.pop]
termination_by (weight (f :: fs), 0)
decreasing_by
  all_goals simp only [weight, List.length_cons]
  all_goals exact Prod.Lex.left _ _ (by omega)

end

/-- `__exc_exit_try`: the end of the block of `f`. -/
def excExitTry (f : Frame) (fs : List Frame) : Unwound :=
  exceptionUnwind { f with catchers := [] } fs 0

/-! ## Blocks -/

/-- What a block registers. -/
inductive Registration where
  | onError (h : Handler)
  | finally (h : Handler)

/-- `ON_ERROR` and `FINALLY`. -/
def Frame.register (f : Frame) : Registration → Frame
  | .onError h => { f with catchers := h :: f.catchers }
  | .finally h => { f with finalizers := h :: f.finalizers }

/-- The registrations of a block so far, in their order. -/
abbrev Block := List Registration

/-- `TRY_WITH`: the frame of the block. -/
def Block.frame (b : Block) : Frame := b.foldl Frame.register { catchers := [], finalizers := [] }

/-- Its catchers, newest first. -/
def Block.catchers (b : Block) : List Handler :=
  b.reverse.filterMap fun
    | .onError h => some h
    | .finally _ => none

def Block.finalizers (b : Block) : List Handler :=
  b.reverse.filterMap fun
    | .onError _ => none
    | .finally h => some h

/-- The lists of a frame have the newest handlers first. -/
theorem Block.frame_eq (b : Block) :
    b.frame = { catchers := b.catchers, finalizers := b.finalizers } := by
  unfold Block.frame Block.catchers Block.finalizers
  induction b using List.reverseRecOn with
  | nil => rfl
  | append_singleton b r ih =>
    rw [List.foldl_append, ih, List.reverse_concat]
    cases r <;> rfl

/-! ## What the documentation says -/

/-- The handlers of a list, each once, with the code 1. -/
def runAll (hs : List Handler) : List Event := hs.map fun h => .run h 1

/-- With the code `errcode` until one has raised, and with 1 after that. -/
def runUntil (errcode : Int) : List Handler → List Event
  | [] => []
  | h :: hs => .run h errcode :: runUntil (if h.raises then 1 else errcode) hs

/-- An exception is raised in the blocks `bs`, innermost first: all catchers and then all
finalizers of the block run, its frame is popped, and the exception goes on if there was no
catcher. -/
def raised : List Block → Unwound
  | [] => { trace := [], stack := [] }
  | b :: bs =>
    let r := if b.catchers = [] then raised bs else { trace := [], stack := bs.map Block.frame }
    r.after (runAll b.catchers ++ runAll b.finalizers ++ [.pop])

/-- The block `b` comes to its end: only the finalizers run. If one raises, there is no catcher for
it. -/
def completed (b : Block) (bs : List Block) : Unwound :=
  let raises := ∃ h ∈ b.finalizers, h.raises = true
  let r := if raises then raised bs else { trace := [], stack := bs.map Block.frame }
  r.after (runUntil 0 b.finalizers ++ [.pop])

/-- The catcher that runs last, the oldest one, does not raise, and no finalizer does. -/
def Block.Quiet (b : Block) : Prop :=
  (∀ c, b.catchers.getLast? = some c → c.raises = false) ∧ ∀ h ∈ b.finalizers, h.raises = false

/-- The innermost block that has catchers is quiet, or the outermost of all. -/
def CaughtQuietly : List Block → Prop
  | [] => True
  | b :: bs => if b.catchers = [] then CaughtQuietly bs else b.Quiet ∨ bs = []

/-! ## What the code does -/

variable {fs : List Frame} {cs hs : List Handler} {errcode : Int} {captured : Bool}

@[simp] theorem runUntil_one (hs : List Handler) : runUntil 1 hs = runAll hs := by
  induction hs with
  | nil => rfl
  | cons h hs ih => simp [runUntil, runAll, ih]

theorem Unwound.after_inj {es : List Event} {r r' : Unwound} : r.after es = r'.after es ↔ r = r' := by
  obtain ⟨trace, stack⟩ := r
  obtain ⟨trace', stack'⟩ := r'
  simp [Unwound.after]

/-- A raise with a frame comes to its catchers. -/
theorem raiseException_cons (f : Frame) (fs : List Frame) :
    raiseException (f :: fs) = runCatchers f fs 1 false := by
  rw [raiseException, excTry, exceptionUnwind]

/-- The finalizers that are left. One that raises comes back with the code 1, and without catchers:
the exception goes on. -/
theorem runFinalizers_eq (hs : List Handler) (errcode : Int) (captured : Bool) :
    runFinalizers { catchers := [], finalizers := hs } fs errcode captured =
      (if (errcode ≠ 0 ∧ captured = false) ∨ ∃ h ∈ hs, h.raises = true then raiseException fs
        else { trace := [], stack := fs }).after (runUntil errcode hs ++ [.pop]) := by
  induction hs generalizing errcode captured with
  | nil => simp [runFinalizers, runUntil]
  | cons h hs ih =>
    rw [runFinalizers, runUntil]
    cases hr : h.raises with
    | true =>
      have hback := ih 1 false
      rw [raiseException_cons, runCatchers]
      simp [hr, hback]
    | false =>
      have hnext := ih errcode captured
      simp [hr, hnext]

/-- `captured`, once the catchers `cs` have run: did the last one return? -/
def captures : Bool → List Handler → Bool
  | captured, [] => captured
  | _, c :: cs => captures (!c.raises) cs

/-- The catchers that are left. -/
theorem runCatchers_eq (cs : List Handler) (captured : Bool) :
    runCatchers { catchers := cs, finalizers := hs } fs 1 captured =
      (runFinalizers { catchers := [], finalizers := hs } fs 1 (captures captured cs)).after
        (runAll cs) := by
  induction cs generalizing captured with
  | nil => simp [runCatchers, captures, runAll]
  | cons c cs ih =>
    rw [runCatchers]
    cases hr : c.raises with
    | true =>
      have hback := ih false
      rw [raiseException_cons]
      simp [hr, hback, captures, runAll]
    | false =>
      have hnext := ih true
      simp [hr, hnext, captures, runAll]

theorem captures_iff {c : Handler} (h : cs.getLast? = some c) :
    captures captured cs = true ↔ c.raises = false := by
  induction cs generalizing captured with
  | nil => cases h
  | cons c' cs ih =>
    cases cs with
    | nil =>
      obtain rfl : c' = c := by simpa using h
      simp [captures]
    | cons d cs =>
      have hrest := @ih (!c'.raises)
      exact hrest (by simpa using h)

/-- What runs in the block `b` when an exception reaches it. -/
def Block.handling (b : Block) : List Event := runAll b.catchers ++ runAll b.finalizers ++ [.pop]

/-- **An exception that reaches the block `b`** goes on unless the block has catchers and is
quiet. -/
theorem raiseException_block (b : Block) (fs : List Frame) :
    ∃ r, raiseException (b.frame :: fs) = r.after b.handling ∧
      (b.catchers ≠ [] ∧ b.Quiet → r = { trace := [], stack := fs }) ∧
      (¬ (b.catchers ≠ [] ∧ b.Quiet) → r = raiseException fs) := by
  have hcatchers : runCatchers { catchers := b.catchers, finalizers := b.finalizers } fs 1 false =
    _ := runCatchers_eq b.catchers false
  rw [runFinalizers_eq, runUntil_one] at hcatchers
  have hgoes : (((1 : Int) ≠ 0 ∧ captures false b.catchers = false) ∨
      ∃ h ∈ b.finalizers, h.raises = true) ↔ ¬ (b.catchers ≠ [] ∧ b.Quiet) := by
    have hfinal : (∃ h ∈ b.finalizers, h.raises = true) ↔
        ¬ ∀ h ∈ b.finalizers, h.raises = false := by simp
    rw [hfinal, Block.Quiet, and_iff_right (show (1 : Int) ≠ 0 by decide)]
    rcases hlast : b.catchers.getLast? with _ | c
    · -- No catcher: nothing was captured.
      have hnil := List.getLast?_eq_none_iff.mp hlast
      simp [hnil, captures]
    · have hne : b.catchers ≠ [] := by
        intro hnil
        simp [hnil] at hlast
      have hcap : captures false b.catchers = true ↔ c.raises = false := captures_iff hlast
      rw [← Bool.not_eq_true, hcap]
      simp only [hne, ne_eq, not_false_eq_true, true_and, Option.some.injEq, forall_eq']
      exact not_and_or.symm
  generalize hr : (if ((1 : Int) ≠ 0 ∧ captures false b.catchers = false) ∨
    ∃ h ∈ b.finalizers, h.raises = true then raiseException fs
    else { trace := [], stack := fs }) = r at hcatchers
  refine ⟨r, ?_, fun hquiet => ?_, fun hloud => ?_⟩
  · rw [raiseException_cons, Block.frame_eq, hcatchers, Unwound.after_after, ← List.append_assoc]
    rfl
  · rw [← hr]
    exact if_neg fun h => hgoes.mp h hquiet
  · rw [← hr]
    exact if_pos (hgoes.mpr hloud)

theorem raised_cons (b : Block) (bs : List Block) : raised (b :: bs) =
    (if b.catchers = [] then raised bs else { trace := [], stack := bs.map Block.frame }).after
      b.handling := rfl

theorem raised_iff (bs : List Block) :
    raiseException (bs.map Block.frame) = raised bs ↔ CaughtQuietly bs := by
  induction bs with
  | nil => simp [raiseException, raised, CaughtQuietly]
  | cons b bs ih =>
    obtain ⟨r, hr, hstop, hgo⟩ := raiseException_block b (bs.map Block.frame)
    rw [List.map_cons, hr, raised_cons, Unwound.after_inj, CaughtQuietly]
    by_cases hnil : b.catchers = []
    · rw [if_pos hnil, if_pos hnil, hgo fun h => h.1 hnil]
      exact ih
    · rw [if_neg hnil, if_neg hnil]
      by_cases hquiet : b.Quiet
      · exact iff_of_true (hstop ⟨hnil, hquiet⟩) (.inl hquiet)
      · rw [hgo fun h => hquiet h.2, or_iff_right hquiet]
        cases bs with
        | nil => exact iff_of_true (by rw [List.map_nil, raiseException]) rfl
        | cons b' bs =>
          -- The enclosing frame is popped too.
          obtain ⟨r', hr', -⟩ := raiseException_block b' (bs.map Block.frame)
          refine iff_of_false ?_ (by simp)
          rw [List.map_cons, hr']
          simp [Unwound.after, Block.handling]

theorem completed_iff (b : Block) (bs : List Block) :
    excExitTry b.frame (bs.map Block.frame) = completed b bs ↔
      ((∃ h ∈ b.finalizers, h.raises = true) → CaughtQuietly bs) := by
  have hfinal : runFinalizers { catchers := [], finalizers := b.finalizers } (bs.map Block.frame) 0
    false = _ := runFinalizers_eq b.finalizers 0 false
  simp only [excExitTry, exceptionUnwind, runCatchers, Block.frame_eq, completed]
  rw [hfinal, Unwound.after_inj]
  by_cases hraises : ∃ h ∈ b.finalizers, h.raises = true
  · rw [if_pos (.inr hraises), if_pos hraises, raised_iff]
    exact ⟨fun h _ => h, fun h => h hraises⟩
  · rw [if_neg (by simpa using hraises), if_neg hraises]
    exact iff_of_true rfl fun h => absurd h hraises

end Exceptions

open Exceptions

/-- **Exceptions unwind as documented**, in the blocks `bs` or at the end of the block `b` in them,
if and only if the first block that has catchers for the exception is quiet, or has no other around
it. -/
theorem unwinds_as_documented_iff (b : Block) (bs : List Block) :
    (raiseException (bs.map Block.frame) = raised bs ↔ CaughtQuietly bs) ∧
    (excExitTry b.frame (bs.map Block.frame) = completed b bs ↔
      ((∃ h ∈ b.finalizers, h.raises = true) → CaughtQuietly bs)) :=
  ⟨raised_iff bs, completed_iff b bs⟩

/-- A catcher that raises, in a block with another catcher around it: both run. -/
theorem not_unwinds_as_documented :
    ¬ ∀ bs : List Block, raiseException (bs.map Block.frame) = raised bs := by
  intro hall
  have hquiet := (raised_iff [[.onError { action := 1, raises := true }],
    [.onError { action := 2, raises := false }]]).mp (hall _)
  have hinner := hquiet.resolve_right (by simp)
  exact absurd (hinner.1 _ rfl) (by decide)

end TinyOS
