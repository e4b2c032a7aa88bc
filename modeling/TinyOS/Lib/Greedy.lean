import Mathlib

/-!
# Greedy selections

Some elements of a list are selected one by one. `bad n a` says that `a` may not be taken when `n`
elements have been. The greedy selection takes whatever it may, and **no selection is longer**.

With more elements taken, more may be forbidden. Then an element that was passed over once is passed
over again, and the greedy selection is one of each value if and only if it meets `bad` exactly where
a value has come up before (`selects_iff`).
-/

set_option autoImplicit false

namespace Greedy

universe u

variable {α : Type u} (bad : Nat → α → Prop)

/-- The elements may be taken in this order, after `n` others. -/
def Allowed : Nat → List α → Prop
  | _, [] => True
  | n, a :: l => ¬ bad n a ∧ Allowed (n + 1) l

variable [∀ n a, Decidable (bad n a)]

/-- The greedy selection from `l`, after `kept`. -/
def select : List α → List α → List α
  | kept, [] => kept
  | kept, a :: l => if bad kept.length a then select kept l else select (kept ++ [a]) l

variable {kept l : List α}

theorem select_concat (a : α) : select bad kept (l ++ [a]) =
    if bad (select bad kept l).length a then select bad kept l else select bad kept l ++ [a] := by
  induction l generalizing kept with
  | nil => rfl
  | cons b l ih =>
    rw [List.cons_append, select, select]
    split
    · exact ih
    · exact ih

/-- What is selected comes from the list, and may be taken. -/
theorem select_eq (kept l : List α) : ∃ s, select bad kept l = kept ++ s ∧ s.Sublist l ∧
    Allowed bad kept.length s := by
  induction l generalizing kept with
  | nil => exact ⟨[], (List.append_nil kept).symm, List.Sublist.refl [], trivial⟩
  | cons a l ih =>
    rw [select]
    split
    case isTrue =>
      obtain ⟨s, hs, hsub, hallowed⟩ := ih kept
      exact ⟨s, hs, hsub.cons a, hallowed⟩
    case isFalse hgood =>
      obtain ⟨s, hs, hsub, hallowed⟩ := ih (kept ++ [a])
      rw [List.length_append, List.length_singleton] at hallowed
      refine ⟨a :: s, ?_, hsub.cons_cons a, hgood, hallowed⟩
      rw [hs, List.append_assoc, List.singleton_append]

theorem length_le_select (kept l : List α) : kept.length ≤ (select bad kept l).length := by
  obtain ⟨s, hs, -⟩ := select_eq bad kept l
  rw [hs, List.length_append]
  exact Nat.le_add_right _ _

variable {bad}

/-- **No selection is longer**, also if it begins with fewer elements. -/
theorem length_le_length_select {n : Nat} {s : List α} (hn : n ≤ kept.length) (hsub : s.Sublist l)
    (hallowed : Allowed bad n s) : n + s.length ≤ (select bad kept l).length := by
  induction l generalizing kept n s with
  | nil =>
    obtain rfl := List.sublist_nil.mp hsub
    exact hn
  | cons a l ih =>
    rw [select]
    cases hsub with
    | cons _ hsub =>
      split
      · exact ih hn hsub hallowed
      · exact ih (by rw [List.length_append]; omega) hsub hallowed
    | cons_cons _ hsub =>
      rename_i s
      obtain ⟨hgood, hallowed⟩ := hallowed
      have hlen : n + (a :: s).length = n + 1 + s.length := by
        rw [List.length_cons]
        omega
      rw [hlen]
      split
      case isTrue hbad =>
        -- The selection began with fewer elements, or it could not take this one.
        have hne : n ≠ kept.length := fun he => hgood (he ▸ hbad)
        exact ih (by omega) hsub hallowed
      case isFalse =>
        exact ih (by rw [List.length_append, List.length_singleton]; omega) hsub hallowed

/-- The greedy selection has at most `k` elements if and only if each one has. -/
theorem length_select_le_iff {k : Nat} : (select bad [] l).length ≤ k ↔
    ∀ s, s.Sublist l → Allowed bad 0 s → s.length ≤ k := by
  constructor
  · intro hle s hsub hallowed
    have hlen : 0 + s.length ≤ (select bad [] l).length :=
      length_le_length_select (Nat.zero_le _) hsub hallowed
    omega
  · intro hall
    obtain ⟨s, hs, hsub, hallowed⟩ := select_eq bad [] l
    rw [hs]
    exact hall s hsub hallowed

/-! ## One of each value -/

/-- Nothing is selected twice, and no value is left out. -/
def Selects (l s : List α) : Prop := s.Nodup ∧ ∀ a, a ∈ s ↔ a ∈ l

variable [DecidableEq α]

/-- What may not be taken is what has come up before. -/
def Marks (bad : Nat → α → Prop) (l : List α) : Prop :=
  ∀ l' a, l' ++ [a] <+: l → (bad l'.dedup.length a ↔ a ∈ l')

omit [∀ n a, Decidable (bad n a)] in
theorem marks_concat {a : α} :
    Marks bad (l ++ [a]) ↔ Marks bad l ∧ (bad l.dedup.length a ↔ a ∈ l) := by
  constructor
  · intro h
    exact ⟨fun l' b hpre => h l' b (hpre.trans (List.prefix_append l [a])),
      h l a (List.prefix_rfl)⟩
  · rintro ⟨hl, ha⟩ l' b hpre
    rcases List.prefix_concat_iff.mp hpre with heq | hpre
    · obtain ⟨rfl, hb⟩ := List.append_inj' heq rfl
      obtain rfl : b = a := by simpa using hb
      exact ha
    · exact hl l' b hpre

theorem Selects.length_eq {s : List α} (hs : Selects l s) : s.length = l.dedup.length := by
  refine List.Perm.length_eq ((List.perm_ext_iff_of_nodup hs.1 l.nodup_dedup).mpr fun a => ?_)
  rw [hs.2 a, List.mem_dedup]

omit [DecidableEq α] in
/-- An element that is passed over stays forbidden. -/
theorem bad_of_not_mem (hmono : ∀ n m a, n ≤ m → bad n a → bad m a) {a : α} (ha : a ∈ l)
    (hnot : a ∉ select bad [] l) : bad (select bad [] l).length a := by
  induction l using List.reverseRecOn with
  | nil => exact absurd ha List.not_mem_nil
  | append_singleton l b ih =>
    rw [select_concat] at hnot ⊢
    by_cases hbad : bad (select bad [] l).length b
    · rw [if_pos hbad] at hnot ⊢
      rcases List.mem_append.mp ha with ha | ha
      · exact ih ha hnot
      · rwa [List.mem_singleton.mp ha]
    · rw [if_neg hbad] at hnot ⊢
      rw [List.mem_append, not_or] at hnot
      rcases List.mem_append.mp ha with ha | ha
      · refine hmono _ _ a ?_ (ih ha hnot.1)
        rw [List.length_append]
        omega
      · exact absurd ha hnot.2

omit [DecidableEq α] in
theorem mem_of_mem_select {a : α} (ha : a ∈ select bad [] l) : a ∈ l := by
  obtain ⟨s, hs, hsub, -⟩ := select_eq bad [] l
  rw [hs] at ha
  exact hsub.subset ha

omit [DecidableEq α] in
/-- What is left out of a list is left out of a longer one. -/
theorem Selects.of_concat (hmono : ∀ n m a, n ≤ m → bad n a → bad m a) {a : α}
    (hs : Selects (l ++ [a]) (select bad [] (l ++ [a]))) : Selects l (select bad [] l) := by
  rw [select_concat] at hs
  have hall : ∀ b ∈ l, b ∈ select bad [] l := by
    intro b hb
    by_contra hnot
    have hbad := bad_of_not_mem hmono hb hnot
    have hmem := (hs.2 b).mpr (List.mem_append_left [a] hb)
    split at hmem
    case isTrue => exact hnot hmem
    case isFalse hgood =>
      rcases List.mem_append.mp hmem with hmem | hmem
      · exact hnot hmem
      · exact hgood (List.mem_singleton.mp hmem ▸ hbad)
  refine ⟨?_, fun b => ⟨mem_of_mem_select, hall b⟩⟩
  have hnd := hs.1
  split at hnd
  · exact hnd
  · exact hnd.of_append_left

/-- **The greedy selection is one of each value** if and only if the values that come up again are
the ones that may not be taken. -/
theorem selects_iff (hmono : ∀ n m a, n ≤ m → bad n a → bad m a) :
    Selects l (select bad [] l) ↔ Marks bad l := by
  induction l using List.reverseRecOn with
  | nil =>
    refine iff_of_true ⟨List.nodup_nil, fun a => Iff.rfl⟩ fun l' a hpre => ?_
    simp at hpre
  | append_singleton l a ih =>
    rw [marks_concat, ← ih, select_concat]
    -- Up to the last element, the selection is right in both cases.
    have hstep : Selects l (select bad [] l) →
        (Selects (l ++ [a]) (if bad (select bad [] l).length a then select bad [] l
          else select bad [] l ++ [a]) ↔ (bad l.dedup.length a ↔ a ∈ l)) := by
      intro hs
      rw [hs.length_eq]
      by_cases hbad : bad l.dedup.length a
      · rw [if_pos hbad]
        simp only [hbad, true_iff]
        constructor
        · intro hs'
          exact (hs.2 a).mp ((hs'.2 a).mpr (by simp))
        · intro ha
          refine ⟨hs.1, fun b => ?_⟩
          rw [hs.2 b, List.mem_append, List.mem_singleton]
          exact ⟨.inl, fun hb => hb.elim id fun he => he ▸ ha⟩
      · rw [if_neg hbad]
        simp only [hbad, false_iff]
        constructor
        · intro hs' ha
          have hnd := hs'.1
          rw [List.nodup_append] at hnd
          exact hnd.2.2 a ((hs.2 a).mpr ha) a List.mem_cons_self rfl
        · intro ha
          refine ⟨?_, fun b => by simp [hs.2 b]⟩
          exact hs.1.append (List.nodup_singleton a) (by simpa [hs.2 a] using ha)
    constructor
    · intro hs'
      rw [← select_concat] at hs'
      have hs := Selects.of_concat hmono hs'
      rw [select_concat] at hs'
      exact ⟨hs, (hstep hs).mp hs'⟩
    · rintro ⟨hs, ha⟩
      exact (hstep hs).mpr ha

end Greedy
