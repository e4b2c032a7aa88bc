import Mathlib

/-!
# Cutting a list at a separator

`List.splitOn` cuts a list at each occurrence of an element. This file says where the pieces are in
the list (`offset`), and how the pieces change when an element is added at the end, which is how a
loop from left to right comes by them.
-/

set_option autoImplicit false

namespace Cut

variable {α : Type*} [BEq α] [LawfulBEq α] {a x : α} {l : List α} {ps : List (List α)}

/-- Where the piece `j` begins: after the pieces before it, and a separator for each. -/
def offset (ps : List (List α)) (j : ℕ) : ℕ := ((ps.take j).map fun p => p.length + 1).sum

omit [BEq α] [LawfulBEq α] in
theorem offset_append (ps qs : List (List α)) {j : ℕ} (hj : j ≤ ps.length) :
    offset (ps ++ qs) j = offset ps j := by
  rw [offset, offset, List.take_append_of_le_length hj]

theorem splitOn_cons_self : (a :: l).splitOn a = [] :: l.splitOn a := by
  rw [List.splitOn_cons_eq_if_modifyHead, if_pos (beq_self_eq_true a)]

theorem splitOn_cons_ne (h : x ≠ a) :
    (x :: l).splitOn a = (l.splitOn a).modifyHead (List.cons x) := by
  rw [List.splitOn_cons_eq_if_modifyHead, if_neg (by simpa using h)]

/-- A separator at the end begins a new piece, -/
theorem splitOn_concat_self : (l ++ [a]).splitOn a = l.splitOn a ++ [[]] := by
  rw [List.splitOn_append_cons_self, List.splitOn_nil]

/-- and any other element belongs to the last one. -/
theorem splitOn_concat_ne (h : x ≠ a) : ∃ init last,
    l.splitOn a = init ++ [last] ∧ (l ++ [x]).splitOn a = init ++ [last ++ [x]] := by
  induction l with
  | nil => exact ⟨[], [], rfl, by simp [splitOn_cons_ne h]⟩
  | cons y l ih =>
    obtain ⟨init, last, hl, hlx⟩ := ih
    by_cases hy : y = a
    · subst hy
      refine ⟨[] :: init, last, ?_, ?_⟩
      · rw [splitOn_cons_self, hl, List.cons_append]
      · rw [List.cons_append, splitOn_cons_self, hlx, List.cons_append]
    · cases init with
      | nil =>
        refine ⟨[], y :: last, ?_, ?_⟩
        · rw [splitOn_cons_ne hy, hl]
          rfl
        · rw [List.cons_append, splitOn_cons_ne hy, hlx]
          rfl
      | cons p init =>
        refine ⟨(y :: p) :: init, last, ?_, ?_⟩
        · rw [splitOn_cons_ne hy, hl]
          rfl
        · rw [List.cons_append, splitOn_cons_ne hy, hlx]
          rfl

theorem length_splitOn : (l.splitOn a).length = l.count a + 1 := by
  induction l with
  | nil => rfl
  | cons y l ih =>
    by_cases hy : y = a
    · subst hy
      rw [splitOn_cons_self, List.length_cons, ih, List.count_cons_self]
    · rw [splitOn_cons_ne hy, List.length_modifyHead, ih, List.count_cons_of_ne hy]

omit [BEq α] [LawfulBEq α] in
/-- Each piece is where its offset says. -/
theorem slice_intercalate {j : ℕ} {p : List α} (hp : ps[j]? = some p) :
    offset ps j + p.length ≤ ([a].intercalate ps).length ∧
      (([a].intercalate ps).drop (offset ps j)).take p.length = p := by
  induction ps generalizing j with
  | nil => simp at hp
  | cons q ps ih =>
    cases j with
    | zero =>
      obtain rfl : q = p := by simpa using hp
      cases ps <;> simp [offset]
    | succ j =>
      have hp : ps[j]? = some p := by simpa using hp
      obtain ⟨hle, hslice⟩ := ih hp
      have hne : ps ≠ [] := by
        rintro rfl
        simp at hp
      have hoffset : offset (q :: ps) (j + 1) = (q ++ [a]).length + offset ps j := by simp [offset]
      rw [List.intercalate_cons_of_ne_nil hne, hoffset]
      constructor
      · simp only [List.length_append] at hle ⊢
        omega
      · rw [List.drop_length_add_append, hslice]

theorem slice_splitOn {j : ℕ} {p : List α} (hp : (l.splitOn a)[j]? = some p) :
    offset (l.splitOn a) j + p.length ≤ l.length ∧
      (l.drop (offset (l.splitOn a) j)).take p.length = p := by
  have h := slice_intercalate (a := a) hp
  rwa [List.intercalate_splitOn] at h

/-- The pieces and their separators are the whole list. -/
theorem offset_length : offset (l.splitOn a) (l.splitOn a).length = l.length + 1 := by
  induction l with
  | nil => rfl
  | cons y l ih =>
    rw [offset, List.take_length] at ih ⊢
    by_cases hy : y = a
    · subst hy
      rw [splitOn_cons_self, List.map_cons, List.sum_cons, ih, List.length_cons, List.length_nil]
      omega
    · rw [splitOn_cons_ne hy]
      cases hs : l.splitOn a with
      | nil => exact absurd hs (List.splitOn_ne_nil a l)
      | cons p ps =>
        rw [hs] at ih
        simp only [List.modifyHead_cons, List.map_cons, List.sum_cons, List.length_cons] at ih ⊢
        omega

end Cut
