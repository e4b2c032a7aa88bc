import TinyOS.Lib.Ring

/-!
# Intrusive lists

Some nodes of a ring structure are list heads, the others are elements. `IsLists h head content`
says that the ring of each head is the head followed by `content`, that **no element is on two
lists**, and that an element on none is a ring of its own. Each list operation is then an update of
`content`.
-/

set_option autoImplicit false

universe u

variable {α : Type u} [DecidableEq α]

structure IsLists (h : Links α) (head : α → Prop) (content : α → List α) : Prop where
  linked : h.WellLinked
  ring : ∀ a, head a → IsRing h.next (a :: content a)
  element : ∀ a, head a → ∀ x ∈ content a, ¬ head x
  one : ∀ a b, head a → head b → ∀ x, x ∈ content a → x ∈ content b → a = b
  alone : ∀ x, ¬ head x → (∀ a, head a → x ∉ content a) → h.next x = x

namespace IsLists

variable {h : Links α} {head : α → Prop} {content : α → List α} {a b : α}

omit [DecidableEq α] in
/-- The test for the empty list. -/
theorem empty_iff (hl : IsLists h head content) (ha : head a) :
    h.next a = a ↔ content a = [] := by
  have hr := hl.ring a ha
  cases hc : content a with
  | nil =>
    rw [hc] at hr
    exact iff_of_true (IsRing.next_single.mp hr) rfl
  | cons x l =>
    rw [hc] at hr
    have hx : x ≠ a := by
      rintro rfl
      simp [IsRing] at hr
    simp [hr.next_head, hx]

omit [DecidableEq α] in
theorem head_ne (hl : IsLists h head content) (ha : head a) (hb : head b) : b ∉ content a :=
  fun hm => hl.element a ha b hm hb

omit [DecidableEq α] in
/-- The nodes of another list. -/
theorem disjoint (hl : IsLists h head content) (ha : head a) (hb : head b) (hne : a ≠ b) :
    (a :: content a).Disjoint (b :: content b) := by
  intro x hxa hxb
  rcases List.mem_cons.mp hxa with rfl | hxa <;> rcases List.mem_cons.mp hxb with rfl | hxb
  · exact hne rfl
  · exact hl.head_ne hb ha hxb
  · exact hl.head_ne ha hb hxa
  · exact hne (hl.one a b ha hb x hxa hxb)

omit [DecidableEq α] in
/-- An element that is on no list is no list head, and no element of the other lists. -/
theorem ne_of_mem (hb : ¬ head b) (hnew : ∀ c, head c → b ∉ content c) (ha : head a) {x : α}
    (hx : x ∈ a :: content a) : x ≠ b := by
  rintro rfl
  rcases List.mem_cons.mp hx with rfl | hx
  · exact hb ha
  · exact hnew a ha hx

/-- An element is put on a list. The new links have to be spelt out: any that agree with the new
list will do. -/
theorem putOn (hl : IsLists h head content) (ha : head a) (hb : ¬ head b)
    (hnew : ∀ c, head c → b ∉ content c) {h' : Links α} {l : List α}
    (hperm : l.Perm (b :: content a)) (hw : h'.WellLinked) (hring : IsRing h'.next (a :: l))
    (hframe : ∀ x, x ∉ a :: content a → x ≠ b → h'.next x = h.next x) :
    IsLists h' head (Function.update content a l) := by
  have hmem : ∀ c, head c → ∀ x, x ∈ Function.update content a l c ↔
      x = b ∧ c = a ∨ x ∈ content c := by
    intro c hc x
    by_cases hca : c = a
    · subst hca
      simp [hperm.mem_iff]
    · simp [hca]
  constructor
  case linked => exact hw
  case ring =>
    intro c hc
    by_cases hca : c = a
    · subst hca
      rwa [Function.update_self]
    · rw [Function.update_of_ne hca]
      exact (hl.ring c hc).congr fun x hx =>
        hframe x (fun hxa => hl.disjoint ha hc (Ne.symm hca) hxa hx) (ne_of_mem hb hnew hc hx)
  case element =>
    intro c hc x hx
    rcases (hmem c hc x).mp hx with ⟨rfl, -⟩ | hx
    · exact hb
    · exact hl.element c hc x hx
  case one =>
    intro c d hc hd x hxc hxd
    rcases (hmem c hc x).mp hxc with ⟨hx, hca⟩ | hc' <;>
      rcases (hmem d hd x).mp hxd with ⟨hx', hda⟩ | hd'
    · rw [hca, hda]
    · exact absurd (hx ▸ hd') (hnew d hd)
    · exact absurd (hx' ▸ hc') (hnew c hc)
    · exact hl.one c d hc hd x hc' hd'
  case alone =>
    intro x hx hout
    have hxb : x ≠ b := by
      rintro rfl
      exact hout a ha ((hmem a ha x).mpr (.inl ⟨rfl, rfl⟩))
    have hold : ∀ c, head c → x ∉ content c := fun c hc hm =>
      hout c hc ((hmem c hc x).mpr (.inr hm))
    have hxa : x ∉ a :: content a := by
      intro hm
      rcases List.mem_cons.mp hm with rfl | hm
      · exact hx ha
      · exact hold a ha hm
    rw [hframe x hxa hxb]
    exact hl.alone x hx hold

/-- An element is put at the front of a list. -/
theorem pushFront (hl : IsLists h head content) (ha : head a) (hb : ¬ head b)
    (hnew : ∀ c, head c → b ∉ content c) :
    IsLists (h.pushFront a b) head (Function.update content a (b :: content a)) := by
  have hself := IsRing.next_single.mpr (hl.alone b hb hnew)
  have hmem : b ∉ a :: content a := fun hm => ne_of_mem hb hnew ha hm rfl
  refine hl.putOn ha hb hnew (.refl _) (hl.linked.splice a b)
    (IsRing.splice_join (y := []) (hl.ring a ha) hself (List.disjoint_singleton.mpr hmem)) ?_
  intro x hx hxb
  exact IsRing.splice_of_ne (fun he => hx (he ▸ List.mem_cons_self)) hxb

/-- Or at the end. -/
theorem pushBack (hl : IsLists h head content) (ha : head a) (hb : ¬ head b)
    (hnew : ∀ c, head c → b ∉ content c) :
    IsLists (h.pushBack a b) head (Function.update content a (content a ++ [b])) := by
  have hmem : b ∉ a :: content a := fun hm => ne_of_mem hb hnew ha hm rfl
  exact hl.putOn ha hb hnew (List.perm_append_singleton b _) (hl.linked.pushBack a b)
    (IsRing.pushBack hl.linked (hl.ring a ha) (hl.alone b hb hnew) hmem)
    fun x hx hxb => IsRing.pushBack_next hl.linked (hl.ring a ha) List.mem_cons_self hx hxb

/-- An element is taken off its list, which has to be spelt out: any two links that agree with the
new lists will do. -/
theorem takeOff (hl : IsLists h head content) (ha : head a) (hb : b ∈ content a) {h' : Links α}
    (hw : h'.WellLinked) (hring : IsRing h'.next (a :: (content a).erase b))
    (hself : h'.next b = b) (hframe : ∀ x, x ∉ a :: content a → h'.next x = h.next x) :
    IsLists h' head (Function.update content a ((content a).erase b)) := by
  have hnd := (List.nodup_cons.mp (hl.ring a ha).1).2
  have hmem : ∀ c, head c → ∀ x, x ∈ Function.update content a ((content a).erase b) c ↔
      x ≠ b ∧ x ∈ content c := by
    intro c hc x
    by_cases hca : c = a
    · subst hca
      rw [Function.update_self, hnd.mem_erase_iff]
    · rw [Function.update_of_ne hca]
      refine ⟨fun hm => ⟨?_, hm⟩, And.right⟩
      rintro rfl
      exact hca (hl.one c a hc ha x hm hb)
  constructor
  case linked => exact hw
  case ring =>
    intro c hc
    by_cases hca : c = a
    · subst hca
      rwa [Function.update_self]
    · rw [Function.update_of_ne hca]
      exact (hl.ring c hc).congr fun x hx =>
        hframe x fun hxa => hl.disjoint ha hc (Ne.symm hca) hxa hx
  case element => exact fun c hc x hx => hl.element c hc x ((hmem c hc x).mp hx).2
  case one =>
    exact fun c d hc hd x hxc hxd =>
      hl.one c d hc hd x ((hmem c hc x).mp hxc).2 ((hmem d hd x).mp hxd).2
  case alone =>
    intro x hx hout
    by_cases hxb : x = b
    · rw [hxb, hself]
    · have hout' : ∀ c, head c → x ∉ content c := fun c hc hm =>
        hout c hc ((hmem c hc x).mpr ⟨hxb, hm⟩)
      rw [hframe x, hl.alone x hx hout']
      intro hm
      rcases List.mem_cons.mp hm with rfl | hm
      · exact hx ha
      · exact hout' a ha hm

theorem remove (hl : IsLists h head content) (ha : head a) (hb : b ∈ content a) :
    IsLists (h.remove b) head (Function.update content a ((content a).erase b)) := by
  obtain ⟨hring, hself, hframe⟩ := (hl.ring a ha).remove hl.linked (List.mem_cons_of_mem a hb)
  have hab : a ≠ b := by
    rintro rfl
    exact hl.head_ne ha ha hb
  rw [List.erase_cons_tail (by simpa using hab)] at hring
  exact hl.takeOff ha hb (hl.linked.remove b) hring hself hframe

/-- The first element is taken off. -/
theorem popFront (hl : IsLists h head content) (ha : head a) {l : List α}
    (hc : content a = b :: l) :
    h.next a = b ∧ IsLists (h.popFront a) head (Function.update content a l) := by
  have hr := hl.ring a ha
  rw [hc] at hr
  have hnext := hr.next_head
  obtain ⟨hring, hself⟩ := IsRing.splice_split (y := []) hr
  have htake := hl.takeOff ha (b := b) (by simp [hc]) (hl.linked.splice a b)
    (by rwa [hc, List.erase_cons_head]) (IsRing.next_single.mp hself) fun x hx => ?_
  · rw [hc, List.erase_cons_head] at htake
    exact ⟨hnext, by rwa [Links.popFront, hnext]⟩
  · rw [hc] at hx
    simp only [List.mem_cons, not_or] at hx
    exact IsRing.splice_of_ne hx.1 hx.2.1

/-- The elements of a list join another one, in some order; the new links have to be spelt out. -/
theorem merge (hl : IsLists h head content) (ha : head a) (hb : head b) (hab : a ≠ b)
    {h' : Links α} {l : List α} (hperm : l.Perm (content a ++ content b)) (hw : h'.WellLinked)
    (hring : IsRing h'.next (a :: l)) (hself : h'.next b = b)
    (hframe : ∀ x, x ∉ a :: content a → x ∉ b :: content b → h'.next x = h.next x) :
    IsLists h' head (Function.update (Function.update content a l) b []) := by
  have hcontent : ∀ c, Function.update (Function.update content a l) b [] c =
      if c = b then [] else if c = a then l else content c := fun c => by
    simp only [Function.update_apply]
  have hmem : ∀ c, head c → ∀ x,
      x ∈ Function.update (Function.update content a l) b [] c ↔
        c ≠ b ∧ (x ∈ content c ∨ c = a ∧ x ∈ content b) := by
    intro c _ x
    rw [hcontent]
    split
    · simp [*]
    · split
      · rename_i hca
        subst hca
        simp [*, hperm.mem_iff]
      · simp [*]
  constructor
  case linked => exact hw
  case ring =>
    intro c hc
    rw [hcontent]
    split
    · rename_i hcb
      rw [hcb]
      exact IsRing.next_single.mpr hself
    · rename_i hcb
      split
      · rename_i hca
        rwa [hca]
      · rename_i hca
        exact (hl.ring c hc).congr fun x hx => hframe x
          (fun hm => hl.disjoint ha hc (Ne.symm hca) hm hx)
          (fun hm => hl.disjoint hb hc (Ne.symm hcb) hm hx)
  case element =>
    intro c hc x hx
    rcases ((hmem c hc x).mp hx).2 with hx | ⟨-, hx⟩
    · exact hl.element c hc x hx
    · exact hl.element b hb x hx
  case one =>
    intro c d hc hd x hxc hxd
    obtain ⟨hcb, hc'⟩ := (hmem c hc x).mp hxc
    obtain ⟨hdb, hd'⟩ := (hmem d hd x).mp hxd
    rcases hc' with hxc' | ⟨hca, hxc'⟩ <;> rcases hd' with hxd' | ⟨hda, hxd'⟩
    · exact hl.one c d hc hd x hxc' hxd'
    · exact absurd (hl.one c b hc hb x hxc' hxd') hcb
    · exact absurd (hl.one d b hd hb x hxd' hxc') hdb
    · rw [hca, hda]
  case alone =>
    intro x hx hout
    have hout' : ∀ c, head c → x ∉ content c := by
      intro c hc hm
      by_cases hcb : c = b
      · exact hout a ha ((hmem a ha x).mpr ⟨hab, .inr ⟨rfl, hcb ▸ hm⟩⟩)
      · exact hout c hc ((hmem c hc x).mpr ⟨hcb, .inl hm⟩)
    rw [hframe x, hl.alone x hx hout']
    · simpa [hout' a ha] using fun he : x = a => hx (he ▸ ha)
    · simpa [hout' b hb] using fun he : x = b => hx (he ▸ hb)

/-- A list whose head has joined the ring of another one is emptied: its head leaves. -/
theorem merge_remove (hl : IsLists h head content) (ha : head a) (hb : head b) (hab : a ≠ b)
    {h' : Links α} {l l' : List α} (hperm : (l ++ l').Perm (content a ++ content b))
    (hw : h'.WellLinked) (hring : IsRing h'.next (a :: l ++ b :: l'))
    (hframe : ∀ x, x ∉ a :: content a → x ∉ b :: content b → h'.next x = h.next x) :
    IsLists (h'.remove b) head (Function.update (Function.update content a (l ++ l')) b []) := by
  obtain ⟨hring', hself, hframe'⟩ := hring.remove hw (a := b) (by simp)
  have hmem : ∀ x, x ∈ l ++ l' → x ∈ content a ∨ x ∈ content b := fun x hx =>
    List.mem_append.mp (hperm.mem_iff.mp hx)
  have hnot : b ∉ a :: l := by
    intro hm
    rcases List.mem_cons.mp hm with rfl | hm
    · exact hab rfl
    · rcases hmem b (List.mem_append_left l' hm) with hm | hm
      · exact hl.head_ne ha hb hm
      · exact hl.head_ne hb hb hm
  rw [List.erase_append_right _ hnot, List.erase_cons_head] at hring'
  refine hl.merge ha hb hab hperm (hw.remove b) hring' hself fun x hxa hxb => ?_
  rw [hframe' x ?_, hframe x hxa hxb]
  intro hm
  simp only [List.mem_append, List.mem_cons, not_or] at hm hxa hxb
  rcases hm with (rfl | hm) | rfl | hm
  · exact hxa.1 rfl
  · exact (hmem x (List.mem_append_left l' hm)).elim hxa.2 hxb.2
  · exact hxb.1 rfl
  · exact (hmem x (List.mem_append_right l hm)).elim hxa.2 hxb.2

/-- The elements of a list are put at the end of another one. -/
theorem append (hl : IsLists h head content) (ha : head a) (hb : head b) (hab : a ≠ b) :
    IsLists (h.append a b) head
      (Function.update (Function.update content a (content a ++ content b)) b []) := by
  have hjoin := IsRing.pushBack_ring hl.linked (hl.ring a ha) (hl.ring b hb)
    (hl.disjoint ha hb hab)
  have hperm : (content a ++ content b ++ []).Perm (content a ++ content b) := by
    rw [List.append_nil]
  have hmerge := hl.merge_remove ha hb hab hperm (hl.linked.pushBack a b) (by simpa using hjoin)
    fun x hxa hxb => IsRing.pushBack_next hl.linked (hl.ring a ha) List.mem_cons_self hxa fun he =>
        hxb (he ▸ List.mem_cons_self)
  rwa [List.append_nil] at hmerge

/-- Or at its front. -/
theorem prepend (hl : IsLists h head content) (ha : head a) (hb : head b) (hab : a ≠ b) :
    IsLists ((h.pushFront a b).remove b) head
      (Function.update (Function.update content a (content b ++ content a)) b []) := by
  have hjoin := IsRing.splice_join (hl.ring a ha) (hl.ring b hb) (hl.disjoint ha hb hab)
  exact hl.merge_remove ha hb hab List.perm_append_comm (hl.linked.splice a b) hjoin
    fun x hxa hxb => IsRing.splice_of_ne (fun he => hxa (he ▸ List.mem_cons_self))
      fun he => hxb (he ▸ List.mem_cons_self)

end IsLists
