import Mathlib.Logic.Function.Basic
import Mathlib.Data.List.Nodup

/-!
# Chains threaded through a field

A free list that needs no memory of its own: the head is a pointer, each element holds the pointer
to the one after it in a field that is otherwise unused, and the last one holds `none`.
`IsChain next o l` says that following `next` from `o` meets the elements of `l` and ends.

The one fact everything else rests on is `IsChain.eq`: the pointers determine the list. So a chain
that ends **meets no element twice** (`IsChain.nodup`), and the proof that a list stays acyclic is
that somebody can still write down its elements.
-/

set_option autoImplicit false

universe u

namespace Chain

variable {α : Type u} {next next' : α → Option α} {o : Option α} {l l' : List α} {x : α}

/-- Following `next` from `o` meets the elements of `l`, in order, and ends. -/
def IsChain (next : α → Option α) : Option α → List α → Prop
  | o, [] => o = none
  | o, x :: l => o = some x ∧ IsChain next (next x) l

@[simp] theorem isChain_nil : IsChain next o [] ↔ o = none := Iff.rfl

@[simp] theorem isChain_cons : IsChain next o (x :: l) ↔ o = some x ∧ IsChain next (next x) l :=
  Iff.rfl

/-- The pointers determine the list. -/
theorem IsChain.eq (h : IsChain next o l) (h' : IsChain next o l') : l = l' := by
  induction l generalizing o l' with
  | nil =>
    cases l' with
    | nil => rfl
    | cons y l' => exact absurd (h.symm.trans h'.1) (by simp)
  | cons x l ih =>
    cases l' with
    | nil => exact absurd (h'.symm.trans h.1) (by simp)
    | cons y l' =>
      obtain rfl : x = y := Option.some.inj (h.1.symm.trans h'.1)
      rw [ih h.2 h'.2]

theorem IsChain.suffix {a b : List α} (h : IsChain next o (a ++ x :: b)) :
    IsChain next (next x) b := by
  induction a generalizing o with
  | nil => exact h.2
  | cons y a ih => exact ih h.2

/-- **A chain that ends is acyclic.** -/
theorem IsChain.nodup (h : IsChain next o l) : l.Nodup := by
  induction l generalizing o with
  | nil => exact .nil
  | cons x l ih =>
    refine List.nodup_cons.mpr ⟨fun hx => ?_, ih h.2⟩
    -- From a second `x` on, the chain would have to be as long as it is from the first.
    obtain ⟨a, b, rfl⟩ := List.append_of_mem hx
    have hlen := congrArg List.length (h.2.eq h.2.suffix)
    simp only [List.length_append, List.length_cons] at hlen
    omega

/-- A chain depends on the fields of its own elements only. -/
theorem IsChain.congr (h : IsChain next o l) (hn : ∀ y ∈ l, next' y = next y) :
    IsChain next' o l := by
  induction l generalizing o with
  | nil => exact h
  | cons x l ih =>
    refine ⟨h.1, ?_⟩
    rw [hn x List.mem_cons_self]
    exact ih h.2 fun y hy => hn y (List.mem_cons_of_mem _ hy)

/-- What the field of an element off the chain holds does not matter. -/
theorem IsChain.update [DecidableEq α] (h : IsChain next o l) (hx : x ∉ l) (v : Option α) :
    IsChain (Function.update next x v) o l :=
  h.congr fun _ hy => Function.update_of_ne (ne_of_mem_of_not_mem hy hx) _ _

/-- An element off the chain is pushed. -/
theorem IsChain.push [DecidableEq α] (h : IsChain next o l) (hx : x ∉ l) :
    IsChain (Function.update next x o) (some x) (x :: l) :=
  ⟨rfl, by rw [Function.update_self]; exact h.update hx o⟩

/-- The head is popped. -/
theorem IsChain.pop (h : IsChain next (some x) l) : ∃ l', l = x :: l' ∧ IsChain next (next x) l' := by
  cases l with
  | nil => exact absurd h (by simp)
  | cons y l' =>
    obtain ⟨hy, hl⟩ := h
    obtain rfl := Option.some.inj hy
    exact ⟨l', rfl, hl⟩

end Chain
