import Mathlib.Data.List.Basic
import Mathlib.Algebra.Order.Group.Nat

/-!
# Packed strings

A list of strings is packed into one by putting a terminator after each of them, and no string
contains the terminator. Nothing in this file says what the terminator is. The packed form can be
read back because it says where each string ends: it has one terminator a string (`count_pack`), a
reader that stops behind the first terminator has read the first string (`first_pack`), and
whatever is cut off its end takes a string with it (`count_take_lt`).
-/

set_option autoImplicit false

namespace Terminated

universe u

variable {α : Type u} (z : α)

/-- A string: the terminator is not in it. -/
abbrev Str := {s : List α // z ∉ s}

variable {z}

def pack (ss : List (Str z)) : List α := ss.flatMap fun s => s.1 ++ [z]

@[simp] theorem pack_nil : pack ([] : List (Str z)) = [] := rfl

@[simp] theorem pack_cons (s : Str z) (ss : List (Str z)) :
    pack (s :: ss) = s.1 ++ z :: pack ss := by simp [pack]

theorem pack_append (ss ss' : List (Str z)) : pack (ss ++ ss') = pack ss ++ pack ss' := by
  simp [pack]

theorem length_pack_cons (s : Str z) (ss : List (Str z)) :
    (pack (s :: ss)).length = s.1.length + 1 + (pack ss).length := by
  simp only [pack_cons, List.length_append, List.length_cons]
  omega

theorem length_le_pack (ss : List (Str z)) : ss.length ≤ (pack ss).length := by
  induction ss with
  | nil => simp
  | cons s ss ih =>
    rw [length_pack_cons, List.length_cons]
    omega

/-- The places at which the strings begin, from `a` on. -/
def starts (a : Nat) : List (Str z) → List Nat
  | [] => []
  | s :: ss => a :: starts (a + (s.1.length + 1)) ss

@[simp] theorem length_starts (a : Nat) (ss : List (Str z)) : (starts a ss).length = ss.length := by
  induction ss generalizing a with
  | nil => rfl
  | cons s ss ih => simp [starts, ih]

theorem starts_add (a b : Nat) (ss : List (Str z)) :
    starts (a + b) ss = (starts b ss).map (a + ·) := by
  induction ss generalizing b with
  | nil => rfl
  | cons s ss ih => simp [starts, ← ih, Nat.add_assoc]

variable [DecidableEq α]

/-- What comes before the first terminator, and what comes after it. -/
def first : List α → Option (Str z × List α)
  | [] => none
  | a :: l =>
    if h : a = z then some (⟨[], List.not_mem_nil⟩, l)
    else (first l).map fun x =>
      (⟨a :: x.1.1, fun hz => (List.mem_cons.mp hz).elim (fun he => h he.symm) x.1.2⟩, x.2)

/-- **A reader that stops behind the first terminator has read the first string.** -/
theorem first_pack (s : Str z) (rest : List α) : first (s.1 ++ z :: rest) = some (s, rest) := by
  obtain ⟨s, hs⟩ := s
  induction s with
  | nil => simp [first]
  | cons a s ih =>
    obtain ⟨ha, hs⟩ := not_or.mp (fun h => hs (List.mem_cons.mpr h))
    have := ih hs
    simp only at this
    simp [first, Ne.symm ha, this]

@[simp] theorem count_pack (ss : List (Str z)) : (pack ss).count z = ss.length := by
  induction ss with
  | nil => rfl
  | cons s ss ih => simp [List.count_eq_zero_of_not_mem s.2, ih]

/-- The packed form ends with a terminator: whoever does not get all of it misses one. -/
theorem count_take_lt {ss : List (Str z)} {n : Nat} (h : n < (pack ss).length) :
    ((pack ss).take n).count z < ss.length := by
  induction ss generalizing n with
  | nil => simp at h
  | cons s ss ih =>
    rw [length_pack_cons] at h
    rw [pack_cons, List.take_append, List.count_append, List.length_cons,
      List.count_eq_zero_of_not_mem fun hz => s.2 (List.mem_of_mem_take hz)]
    obtain ⟨k, hk⟩ : ∃ k, k = n - s.1.length := ⟨_, rfl⟩
    rw [← hk]
    cases k with
    | zero => simp
    | succ k =>
      have := ih (n := k) (by omega)
      simp only [List.take_succ_cons, List.count_cons_self]
      omega

/-- **What ends with a terminator is a packed list.** -/
theorem exists_pack {l : List α} (h : l = [] ∨ l.getLast? = some z) :
    ∃ ss : List (Str z), pack ss = l := by
  induction l with
  | nil => exact ⟨[], rfl⟩
  | cons a l ih =>
    by_cases hl : l = []
    · -- The last byte, which is the terminator.
      subst hl
      obtain rfl : a = z := by simpa using h
      exact ⟨[⟨[], List.not_mem_nil⟩], rfl⟩
    have hlast : l.getLast? = some z := by
      have := h.resolve_left (List.cons_ne_nil a l)
      rwa [List.getLast?_cons_of_ne_nil hl] at this
    obtain ⟨ss, rfl⟩ := ih (.inr hlast)
    by_cases ha : a = z
    · exact ⟨⟨[], List.not_mem_nil⟩ :: ss, by simp [ha]⟩
    · -- The first string gets one more byte.
      cases ss with
      | nil => exact absurd rfl hl
      | cons s ss =>
        have hs : z ∉ a :: s.1 := by
          intro hz
          rcases List.mem_cons.mp hz with rfl | hz
          · exact ha rfl
          · exact s.2 hz
        exact ⟨⟨a :: s.1, hs⟩ :: ss, by simp⟩

/-- **At each of its places a string can be read.** The strings are packed at the end of `pre`. -/
theorem map_first_starts (pre : List α) (ss : List (Str z)) (rest : List α) :
    (starts pre.length ss).map (fun i => (first ((pre ++ pack ss ++ rest).drop i)).map (·.1)) =
      ss.map (some : Str z → Option (Str z)) := by
  induction ss generalizing pre with
  | nil => rfl
  | cons s ss ih =>
    have hlen : (pre ++ (s.1 ++ [z])).length = pre.length + (s.1.length + 1) := by simp
    have := ih (pre ++ (s.1 ++ [z]))
    rw [hlen] at this
    simp only [starts, List.map_cons, List.cons.injEq]
    constructor
    · simp [first_pack]
    · rw [← this]
      simp

end Terminated
