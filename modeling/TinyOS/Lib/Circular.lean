import Mathlib.Logic.Function.Basic
import Mathlib.Data.List.Range
import Mathlib.Data.Nat.ModEq

/-!
# Circular buffers: the window that is stored

A circular buffer of `n` slots is a function from slot numbers to values; what is stored in it is
a *window* of `len` slots from slot `start` on, taken modulo `n`. The three moves a ring makes on
its window are proved here once: dropping values at its front (`window_add`), leaving it alone
while a slot outside is overwritten (`window_update`), and appending one value (`window_push`).
-/

set_option autoImplicit false

namespace Circular

universe u

variable {α : Type u} (n : Nat)

/-- The `len` values stored from slot `start` on. -/
def window (buf : Nat → α) (start len : Nat) : List α :=
  (List.range len).map fun i => buf ((start + i) % n)

@[simp] theorem length_window (buf : Nat → α) (start len : Nat) :
    (window n buf start len).length = len := by simp [window]

@[simp] theorem window_zero (buf : Nat → α) (start : Nat) : window n buf start 0 = [] := rfl

/-- A window starts over at the slot where its first part ends. -/
theorem window_add (buf : Nat → α) (start a b : Nat) :
    window n buf start (a + b) = window n buf start a ++ window n buf ((start + a) % n) b := by
  simp only [window, List.range_add, List.map_append, List.map_map, List.append_cancel_left_eq]
  refine List.map_congr_left fun i _ => ?_
  simp only [Function.comp, Nat.mod_add_mod, Nat.add_assoc]

theorem window_succ {start : Nat} (buf : Nat → α) (len : Nat) (h : start < n) :
    window n buf start (len + 1) = buf start :: window n buf ((start + 1) % n) len := by
  rw [Nat.add_comm, window_add]
  simp [window, List.range_succ, Nat.mod_eq_of_lt h]

/-- The slot just after a window that leaves room is none of its slots. -/
theorem slot_ne {start i len : Nat} (hi : i < len) (hlen : len < n) :
    (start + i) % n ≠ (start + len) % n :=
  fun he => (Nat.ModEq.add_left_cancel' start he).eq_of_lt_of_lt (hi.trans hlen) hlen |>.not_lt hi

theorem window_update {len : Nat} (buf : Nat → α) (start : Nat) (v : α) (h : len < n) :
    window n (Function.update buf ((start + len) % n) v) start len = window n buf start len := by
  refine List.map_congr_left fun i hi => ?_
  exact Function.update_of_ne (slot_ne n (List.mem_range.mp hi) h) _ _

theorem window_push {start len : Nat} (buf : Nat → α) (v : α) (h : len < n) :
    window n (Function.update buf ((start + len) % n) v) start (len + 1) =
      window n buf start len ++ [v] := by
  rw [window_add, window_update n buf start v h]
  simp [window, List.range_succ]

end Circular
