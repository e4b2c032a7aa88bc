import Mathlib.Data.List.Sort

/-!
# Lists ordered by a key, ties in order of arrival

An agenda is a list of entries in the order of their keys. A new entry goes before the first one
with a greater key, hence after those with the same key: the entries with one key stand in the order
in which they arrived. The entries whose key is at most a bound are a prefix.
-/

set_option autoImplicit false

namespace Agenda

variable {α : Type*} {key : α → ℕ} {since : α → ℕ} {l : List α} {a : α}

/-- In the order of the keys. -/
def Sorted (key : α → ℕ) (l : List α) : Prop := l.Pairwise fun a b => key a ≤ key b

/-- In the order of the keys, and those with one key in the order of `since`. -/
def InOrder (key since : α → ℕ) (l : List α) : Prop :=
  l.Pairwise fun a b => key a < key b ∨ key a = key b ∧ since a < since b

/-- Insert before the first entry with a greater key. -/
def insert (key : α → ℕ) (a : α) (l : List α) : List α :=
  l.orderedInsert (fun a b => key a < key b) a

theorem InOrder.congr {key' : α → ℕ} (h : InOrder key since l) (hk : ∀ a ∈ l, key' a = key a) :
    InOrder key' since l :=
  h.imp_of_mem fun ha hb hab => by
    rw [hk _ ha, hk _ hb]
    exact hab

theorem Sorted.congr {key' : α → ℕ} (h : Sorted key l) (hk : ∀ a ∈ l, key' a = key a) :
    Sorted key' l :=
  h.imp_of_mem fun ha hb hab => by
    rw [hk _ ha, hk _ hb]
    exact hab

theorem insert_cons (a b : α) (l : List α) :
    insert key a (b :: l) = if key a < key b then a :: b :: l else b :: insert key a l := by
  unfold insert
  rw [List.orderedInsert_cons]

theorem mem_insert {b : α} : b ∈ insert key a l ↔ b = a ∨ b ∈ l := by
  unfold insert
  exact List.mem_orderedInsert _

/-- **The last to arrive** goes after those with its key. -/
theorem InOrder.insert (h : InOrder key since l) (ha : ∀ b ∈ l, since b < since a) :
    InOrder key since (insert key a l) := by
  induction l with
  | nil => exact List.pairwise_singleton _ a
  | cons b l ih =>
    obtain ⟨hb, hl⟩ := List.pairwise_cons.mp h
    rw [insert_cons]
    split
    · rename_i hlt
      refine List.pairwise_cons.mpr ⟨fun c hc => ?_, h⟩
      rcases List.mem_cons.mp hc with rfl | hc
      · exact .inl hlt
      · have := hb c hc
        omega
    · rename_i hge
      refine List.pairwise_cons.mpr
        ⟨fun c hc => ?_, ih hl fun c hc => ha c (List.mem_cons_of_mem b hc)⟩
      rcases mem_insert.mp hc with rfl | hc
      · have := ha b List.mem_cons_self
        omega
      · exact hb c hc

theorem Sorted.insert (h : Sorted key l) (a : α) : Sorted key (insert key a l) := by
  induction l with
  | nil => exact List.pairwise_singleton _ a
  | cons b l ih =>
    obtain ⟨hb, hl⟩ := List.pairwise_cons.mp h
    rw [insert_cons]
    split
    · rename_i hlt
      refine List.pairwise_cons.mpr ⟨fun c hc => ?_, h⟩
      rcases List.mem_cons.mp hc with rfl | hc
      · exact hlt.le
      · exact hlt.le.trans (hb c hc)
    · rename_i hge
      refine List.pairwise_cons.mpr ⟨fun c hc => ?_, ih hl⟩
      rcases mem_insert.mp hc with rfl | hc
      · exact not_lt.mp hge
      · exact hb c hc

/-- Once an entry is beyond the bound, so are those after it. -/
theorem Sorted.filter_le_of_lt {now : ℕ} (h : Sorted key (a :: l)) (ha : now < key a) :
    (a :: l).filter (fun b => decide (key b ≤ now)) = [] := by
  obtain ⟨hb, -⟩ := List.pairwise_cons.mp h
  refine List.filter_eq_nil_iff.mpr fun b hm => ?_
  rw [decide_eq_true_eq]
  rcases List.mem_cons.mp hm with rfl | hm
  · omega
  · have := hb b hm
    omega

end Agenda
