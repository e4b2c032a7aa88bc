import Mathlib.Data.List.Rotate
import Mathlib.Logic.Equiv.Basic
import Mathlib.Tactic.Common

/-!
# Intrusive doubly linked rings

A set of nodes, each with a `next` and a `prev` pointer. The nodes a pointer chain returns through
form a *ring*; a node on no list is a ring of its own. Every list operation is one `splice`, which
exchanges the successors of two nodes: **two rings become one, or one becomes two**.

`IsRing next l` says that the nodes of `l` follow each other in this order and close. It does not
say where the ring starts, so `l` may be rotated at will; that is what makes the removal of a node
from anywhere in a ring the same as the removal of its first node.
-/

set_option autoImplicit false

universe u

variable {α : Type u}

/-- The pointers of all nodes. -/
@[ext] structure Links (α : Type u) where
  next : α → α
  prev : α → α

namespace Links

/-- Each pointer is the other's inverse. -/
structure WellLinked (h : Links α) : Prop where
  prev_next : ∀ a, h.prev (h.next a) = a
  next_prev : ∀ a, h.next (h.prev a) = a

variable [DecidableEq α]

/-- Point a node to itself. -/
def init (h : Links α) (a : α) : Links α where
  next := Function.update h.next a a
  prev := Function.update h.prev a a

/-- Exchange the successors of two nodes. -/
def splice (h : Links α) (a b : α) : Links α where
  next := Function.update (Function.update h.next a (h.next b)) b (h.next a)
  prev := Function.update (Function.update h.prev (h.next a) (h.prev (h.next b)))
    (h.next b) (h.prev (h.next a))

/-- Take a node out of its ring. -/
def remove (h : Links α) (a : α) : Links α := h.splice a (h.prev a)

/-- Put the ring of `b` before node `a`. -/
def pushBack (h : Links α) (a b : α) : Links α := h.splice (h.prev a) b

/-- And after it. -/
def pushFront (h : Links α) (a b : α) : Links α := h.splice a b

/-- Take out the node after `a`. -/
def popFront (h : Links α) (a : α) : Links α := h.splice a (h.next a)

/-- Move all nodes after `b` to the end of the ring of `a`. -/
def append (h : Links α) (a b : α) : Links α := (h.pushBack a b).remove b

variable {h : Links α}

theorem splice_next (h : Links α) (a b x : α) :
    (h.splice a b).next x = h.next (Equiv.swap a b x) := by
  rw [Equiv.swap_apply_def]
  simp only [splice, Function.update_apply]
  split <;> split <;> simp_all

theorem WellLinked.splice_prev (hw : h.WellLinked) (a b x : α) :
    (h.splice a b).prev x = Equiv.swap a b (h.prev x) := by
  have hinj : ∀ y, x = h.next y ↔ h.prev x = y := fun y =>
    ⟨fun e => by rw [e, hw.prev_next], fun e => by rw [← e, hw.next_prev]⟩
  rw [Equiv.swap_apply_def]
  simp only [splice, Function.update_apply, hinj, hw.prev_next]
  split <;> split <;> simp_all

theorem splice_self (h : Links α) (a : α) : h.splice a a = h := by
  simp [splice, Function.update_eq_self]

theorem WellLinked.splice (hw : h.WellLinked) (a b : α) : (h.splice a b).WellLinked where
  prev_next x := by
    rw [hw.splice_prev, splice_next, hw.prev_next, Equiv.swap_apply_self]
  next_prev x := by
    rw [splice_next, hw.splice_prev, Equiv.swap_apply_self, hw.next_prev]

/-- **A splice is reversed by repeating it.** -/
theorem WellLinked.splice_splice (hw : h.WellLinked) (a b : α) : (h.splice a b).splice a b = h := by
  have hnext : ((h.splice a b).splice a b).next = h.next := by
    funext x
    rw [splice_next, splice_next, Equiv.swap_apply_self]
  have hprev : ((h.splice a b).splice a b).prev = h.prev := by
    funext x
    rw [(hw.splice a b).splice_prev, hw.splice_prev, Equiv.swap_apply_self]
  exact Links.ext hnext hprev

omit [DecidableEq α] in
/-- A node keeps its predecessor if that keeps its successor. -/
theorem WellLinked.prev_eq {h' : Links α} (hw : h.WellLinked) (hw' : h'.WellLinked) {x : α}
    (hx : h'.next (h.prev x) = h.next (h.prev x)) : h'.prev x = h.prev x := by
  rw [hw.next_prev] at hx
  have := hw'.prev_next (h.prev x)
  rwa [hx] at this

theorem WellLinked.remove (hw : h.WellLinked) (a : α) : (h.remove a).WellLinked :=
  hw.splice _ _

theorem WellLinked.pushBack (hw : h.WellLinked) (a b : α) : (h.pushBack a b).WellLinked :=
  hw.splice _ _

/-- Pointing a node to itself does nothing to one that does already. -/
theorem WellLinked.init_eq (hw : h.WellLinked) {a : α} (ha : h.next a = a) : h.init a = h := by
  have hp : h.prev a = a := by
    have := hw.prev_next a
    rwa [ha] at this
  have hn : Function.update h.next a a = h.next := Function.update_eq_self_iff.mpr ha.symm
  have hq : Function.update h.prev a a = h.prev := Function.update_eq_self_iff.mpr hp.symm
  rw [init, hn, hq]

end Links

/-! ## Walks -/

/-- The pointers `f` lead from `a` through the nodes of `l`, in this order, to `b`. -/
def Walk (f : α → α) : α → List α → α → Prop
  | a, [], b => f a = b
  | a, x :: l, b => f a = x ∧ Walk f x l b

theorem walk_concat {f : α → α} {a x b : α} {l : List α} :
    Walk f a (l ++ [x]) b ↔ Walk f a l x ∧ f x = b := by
  induction l generalizing a with
  | nil => exact Iff.rfl
  | cons y l ih => rw [List.cons_append, Walk, Walk, ih, and_assoc]

/-- **A walk is retraced** along the other pointers. -/
theorem Walk.reverse {f g : α → α} {a b : α} {l : List α} (hwalk : Walk f a l b)
    (hinv : ∀ x ∈ a :: l, g (f x) = x) : Walk g b l.reverse a := by
  induction l generalizing a with
  | nil =>
    obtain rfl : f a = b := hwalk
    exact hinv a List.mem_cons_self
  | cons x l ih =>
    obtain ⟨rfl, hwalk⟩ := hwalk
    rw [List.reverse_cons]
    exact walk_concat.mpr ⟨ih hwalk fun y hy => hinv y (List.mem_cons_of_mem a hy),
      hinv a List.mem_cons_self⟩

theorem Links.WellLinked.walk_reverse {h : Links α} (hw : h.WellLinked) {a b : α} {l : List α}
    (hwalk : Walk h.next a l b) : Walk h.prev b l.reverse a :=
  hwalk.reverse fun x _ => hw.prev_next x

/-- A walk does not leave a set that the pointers do not leave. -/
theorem Walk.closed {f : α → α} {a b : α} {l : List α} (hwalk : Walk f a l b) {S : α → Prop}
    (hS : ∀ x, S x → S (f x)) (ha : S a) : ∀ x ∈ l, S x := by
  induction l generalizing a with
  | nil => exact fun x hx => absurd hx List.not_mem_nil
  | cons y l ih =>
    obtain ⟨rfl, hwalk⟩ := hwalk
    intro x hx
    rcases List.mem_cons.mp hx with rfl | hx
    · exact hS a ha
    · exact ih hwalk (hS a ha) x hx

theorem Walk.congr {f g : α → α} {a b : α} {l : List α} (hwalk : Walk f a l b)
    (h : ∀ x ∈ a :: l, g x = f x) : Walk g a l b := by
  induction l generalizing a with
  | nil => exact (h a List.mem_cons_self).trans hwalk
  | cons y l ih =>
    exact ⟨(h a List.mem_cons_self).trans hwalk.1,
      ih hwalk.2 fun x hx => h x (List.mem_cons_of_mem a hx)⟩

theorem walk_iff_map {f : α → α} {a b : α} {l : List α} :
    Walk f a l b ↔ (a :: l).map f = l ++ [b] := by
  induction l generalizing a with
  | nil => simp [Walk]
  | cons x l ih => simp [Walk, ih]

/-! ## Rings -/

/-- Each node of `l` is followed by the next one, and the last by the first. -/
def IsRing (next : α → α) (l : List α) : Prop :=
  l.Nodup ∧ l.map next = l.rotate 1

namespace IsRing

variable {next : α → α} {l : List α} {a : α}

theorem nil : IsRing next [] := ⟨List.nodup_nil, rfl⟩

theorem cons_iff : IsRing next (a :: l) ↔ (a :: l).Nodup ∧ next a :: l.map next = l ++ [a] := by
  simp [IsRing]

theorem rotate (hr : IsRing next l) (k : Nat) : IsRing next (l.rotate k) := by
  refine ⟨List.nodup_rotate.mpr hr.1, ?_⟩
  rw [List.map_rotate, hr.2, List.rotate_rotate, List.rotate_rotate, Nat.add_comm]

theorem append_comm {l' : List α} (hr : IsRing next (l ++ l')) : IsRing next (l' ++ l) := by
  have := hr.rotate l.length
  rwa [List.rotate_append_length_eq] at this

/-- The first node's successor is the second node, if there is one. -/
theorem next_head {b : α} (hr : IsRing next (a :: b :: l)) : next a = b :=
  (List.cons.inj (cons_iff.mp hr).2).1

/-- A ring is walked along. -/
theorem walk_iff : IsRing next (a :: l) ↔ (a :: l).Nodup ∧ Walk next a l a := by
  rw [cons_iff, walk_iff_map, List.map_cons]

theorem next_single : IsRing next [a] ↔ next a = a := by
  simp [cons_iff]

/-- A ring does not read the pointers of other nodes. -/
theorem congr {next' : α → α} (hr : IsRing next l) (h : ∀ x ∈ l, next' x = next x) :
    IsRing next' l :=
  ⟨hr.1, by rw [List.map_congr_left h, hr.2]⟩

/-- The successor of a node is on its ring. -/
theorem next_mem (hr : IsRing next l) (ha : a ∈ l) : next a ∈ l := by
  have hm : next a ∈ l.map next := List.mem_map_of_mem ha
  rwa [hr.2, List.mem_rotate] at hm

/-- Two rings that share a node have the same nodes. -/
theorem mem_of_mem {l' : List α} (hr : IsRing next l) (hr' : IsRing next l') {b : α} (ha : a ∈ l)
    (ha' : a ∈ l') (hb : b ∈ l') : b ∈ l := by
  obtain ⟨p, q, rfl⟩ := List.append_of_mem ha'
  have hrot : IsRing next (a :: (q ++ p)) := hr'.append_comm
  have hclosed := (walk_iff.mp hrot).2.closed (S := fun x => x ∈ l) (fun x hx => hr.next_mem hx) ha
  have hb : b = a ∨ b ∈ q ++ p := by
    simp only [List.mem_append, List.mem_cons] at hb ⊢
    tauto
  rcases hb with rfl | hb
  · exact ha
  · exact hclosed b hb

/-- Two rings are disjoint if one node is on only one of them. -/
theorem disjoint {l' : List α} (hr : IsRing next l) (hr' : IsRing next l') {b : α} (hb : b ∈ l')
    (hn : b ∉ l) : l.Disjoint l' :=
  fun _ hx hx' => hn (hr.mem_of_mem hr' hx hx' hb)

variable {h : Links α}

/-- The predecessor of a node is on its ring. -/
theorem prev_mem (hw : h.WellLinked) (hr : IsRing h.next l) (ha : a ∈ l) : h.prev a ∈ l := by
  have hm : a ∈ l.map h.next := by rwa [hr.2, List.mem_rotate]
  obtain ⟨x, hx, rfl⟩ := List.mem_map.mp hm
  rwa [hw.prev_next]

variable [DecidableEq α]

/-- Nodes outside a ring keep their pointer when two of its nodes are spliced. -/
theorem splice_of_ne {b x : α} (ha : x ≠ a) (hb : x ≠ b) :
    (h.splice a b).next x = h.next x := by
  rw [Links.splice_next, Equiv.swap_apply_of_ne_of_ne ha hb]

/-- **Two rings become one.** -/
theorem splice_join {x y : List α} {b : α} (hx : IsRing h.next (a :: x))
    (hy : IsRing h.next (b :: y)) (hd : (a :: x).Disjoint (b :: y)) :
    IsRing (h.splice a b).next (a :: y ++ b :: x) := by
  obtain ⟨hnx, hex⟩ := cons_iff.mp hx
  obtain ⟨hny, hey⟩ := cons_iff.mp hy
  obtain ⟨hax, hnx⟩ := List.nodup_cons.mp hnx
  obtain ⟨hby, hny⟩ := List.nodup_cons.mp hny
  simp only [List.disjoint_cons_left, List.disjoint_cons_right, List.mem_cons, not_or] at hd
  obtain ⟨⟨hab, hbx⟩, hay, hxy⟩ := hd
  have hmx : x.map (h.splice a b).next = x.map h.next := List.map_congr_left fun z hz =>
    splice_of_ne (by rintro rfl; exact hax hz) (by rintro rfl; exact hbx hz)
  have hmy : y.map (h.splice a b).next = y.map h.next := List.map_congr_left fun z hz =>
    splice_of_ne (by rintro rfl; exact hay hz) (by rintro rfl; exact hby hz)
  rw [List.cons_append]
  refine cons_iff.mpr ⟨?_, ?_⟩
  · have hp : (a :: (y ++ b :: x)).Perm (a :: x ++ b :: y) :=
      (List.perm_middle.trans ((List.perm_append_comm.cons b).trans List.perm_middle.symm)).cons a
    exact hp.nodup_iff.mpr (hx.1.append hy.1 (by
      simp only [List.disjoint_cons_left, List.disjoint_cons_right, List.mem_cons, not_or]
      exact ⟨⟨hab, hbx⟩, hay, hxy⟩))
  · have hna : (h.splice a b).next a = h.next b := by
      rw [Links.splice_next, Equiv.swap_apply_left]
    have hnb : (h.splice a b).next b = h.next a := by
      rw [Links.splice_next, Equiv.swap_apply_right]
    rw [List.map_append, List.map_cons, hmx, hmy, hna, hnb, hex, ← List.cons_append, hey]
    simp only [List.append_assoc, List.cons_append, List.nil_append]

/-- **One ring becomes two.** -/
theorem splice_split {x y : List α} {b : α} (hr : IsRing h.next (a :: y ++ b :: x)) :
    IsRing (h.splice a b).next (a :: x) ∧ IsRing (h.splice a b).next (b :: y) := by
  rw [List.cons_append] at hr
  obtain ⟨hnd, heq⟩ := cons_iff.mp hr
  have hsplit : (h.next a :: y.map h.next) ++ (h.next b :: x.map h.next) =
      (y ++ [b]) ++ (x ++ [a]) := by simpa using heq
  obtain ⟨hy, hx⟩ := List.append_inj hsplit (by simp)
  simp only [List.nodup_cons, List.mem_append, List.mem_cons, not_or, List.nodup_append] at hnd
  obtain ⟨⟨hay, hab, hax⟩, hny, ⟨hbx, hnx⟩, hdis⟩ := hnd
  have hby : b ∉ y := fun hm => hdis b hm b (.inl rfl) rfl
  have hmx : x.map (h.splice a b).next = x.map h.next := List.map_congr_left fun z hz =>
    splice_of_ne (by rintro rfl; exact hax hz) (by rintro rfl; exact hbx hz)
  have hmy : y.map (h.splice a b).next = y.map h.next := List.map_congr_left fun z hz =>
    splice_of_ne (by rintro rfl; exact hay hz) (by rintro rfl; exact hby hz)
  have hna : (h.splice a b).next a = h.next b := by
    rw [Links.splice_next, Equiv.swap_apply_left]
  have hnb : (h.splice a b).next b = h.next a := by
    rw [Links.splice_next, Equiv.swap_apply_right]
  exact ⟨cons_iff.mpr ⟨List.nodup_cons.mpr ⟨hax, hnx⟩, by rw [hna, hmx, hx]⟩,
    cons_iff.mpr ⟨List.nodup_cons.mpr ⟨hby, hny⟩, by rw [hnb, hmy, hy]⟩⟩

/-- A ring joins another one before its first node. -/
theorem pushBack_ring (hw : h.WellLinked) {b : α} {y : List α} (hr : IsRing h.next (a :: l))
    (hb : IsRing h.next (b :: y)) (hd : (a :: l).Disjoint (b :: y)) :
    IsRing (h.pushBack a b).next (a :: l ++ y ++ [b]) := by
  -- Start the ring at the predecessor of `a`, which is its last node.
  obtain ⟨p, x, hpx⟩ : ∃ p x, a :: l = x ++ [p] :=
    ⟨_, _, (List.dropLast_append_getLast (List.cons_ne_nil a l)).symm⟩
  rw [hpx] at hr hd ⊢
  have hrot : IsRing h.next (p :: x) := hr.append_comm
  have hp : h.prev a = p := by
    have hne : h.next p = a := by
      have := (cons_iff.mp hrot).2
      cases x with
      | nil => simp_all
      | cons c x =>
        have hc : a = c := (List.cons.inj hpx).1
        rw [hc]
        exact (List.cons.inj this).1
    rw [← hne, hw.prev_next]
  have hdis : (p :: x).Disjoint (b :: y) := fun z hz hz' => hd (by
    simp only [List.mem_append, List.mem_cons] at hz ⊢
    tauto) hz'
  have hjoin := splice_join hrot hb hdis
  rw [Links.pushBack, hp]
  rw [show p :: y ++ b :: x = (p :: y ++ [b]) ++ x by simp] at hjoin
  simpa using hjoin.append_comm

/-- A node that points to itself joins a ring before its first node. -/
theorem pushBack (hw : h.WellLinked) {b : α} (hr : IsRing h.next (a :: l)) (hb : h.next b = b)
    (hmem : b ∉ a :: l) : IsRing (h.pushBack a b).next (a :: l ++ [b]) := by
  have hdis : (a :: l).Disjoint [b] := List.disjoint_singleton.mpr hmem
  simpa using pushBack_ring hw hr (next_single.mpr hb) hdis

/-- **A node leaves its ring**, from wherever it is, and points to itself afterwards. -/
theorem remove (hw : h.WellLinked) (hr : IsRing h.next l) (ha : a ∈ l) :
    IsRing (h.remove a).next (l.erase a) ∧ (h.remove a).next a = a ∧
      ∀ x, x ∉ l → (h.remove a).next x = h.next x := by
  obtain ⟨p, q, rfl⟩ := List.append_of_mem ha
  have hap : a ∉ p := by
    have := List.nodup_append.mp hr.1
    exact fun hm => this.2.2 a hm a List.mem_cons_self rfl
  have hself : (h.remove a).next a = a := by
    rw [Links.remove, Links.splice_next, Equiv.swap_apply_left, hw.next_prev]
  rw [List.erase_append_right _ hap, List.erase_cons_head]
  -- Start the ring at `a`.
  have hrot : IsRing h.next (a :: (q ++ p)) := hr.append_comm
  obtain ⟨hnd, heq⟩ := cons_iff.mp hrot
  have hmem : ∀ x, x ∈ q ++ p → x ∈ p ++ a :: q := by
    intro x hx
    simp only [List.mem_append, List.mem_cons] at hx ⊢
    grind
  suffices hx : IsRing (h.remove a).next (q ++ p) ∧ ∀ x, x ∉ a :: (q ++ p) →
      (h.remove a).next x = h.next x from
    ⟨hx.1.append_comm, hself, fun x hn => hx.2 x fun hm => hn (by
      cases List.mem_cons.mp hm with
      | inl e => exact e ▸ ha
      | inr hm => exact hmem x hm)⟩
  clear hmem hr ha
  generalize q ++ p = x at hrot hnd heq
  obtain ⟨hax, hnx⟩ := List.nodup_cons.mp hnd
  cases List.eq_nil_or_concat x with
  | inl hnil =>
    subst hnil
    have hp : h.prev a = a := by
      have ha : h.next a = a := by simpa using heq
      have := hw.prev_next a
      rwa [ha] at this
    refine ⟨.nil, fun z hz => ?_⟩
    rw [Links.remove, hp, splice_of_ne (by simpa using hz) (by simpa using hz)]
  | inr hcon =>
    obtain ⟨y, z, rfl⟩ := hcon
    rw [List.concat_eq_append] at hrot hnd heq hax hnx ⊢
    rw [List.map_append, ← List.cons_append] at heq
    obtain ⟨hy, hz⟩ := List.append_inj heq (by simp)
    have hza : h.next z = a := by simpa using hz
    have hp : h.prev a = z := by rw [← hza, hw.prev_next]
    rw [Links.remove, hp]
    have hzy : z ∉ y := by
      have := (List.nodup_append.mp hnx).2.2
      exact fun hm => this z hm z (by simp) rfl
    have hmy : y.map (h.splice a z).next = y.map h.next := List.map_congr_left fun w hw' =>
      splice_of_ne (by rintro rfl; exact hax (by simp [hw'])) (by rintro rfl; exact hzy hw')
    have hnz : (h.splice a z).next z = h.next a := by
      rw [Links.splice_next, Equiv.swap_apply_right]
    refine ⟨⟨hnx, ?_⟩, fun w hn => splice_of_ne ?_ ?_⟩
    · rw [List.map_append, hmy, ← hy, List.rotate_cons_succ, List.rotate_zero]
      simp [hnz]
    · rintro rfl
      simp at hn
    · rintro rfl
      simp at hn

/-- The pointers outside the ring that a node joins, and its own. -/
theorem pushBack_next (hw : h.WellLinked) {b x : α} (hr : IsRing h.next l) (ha : a ∈ l)
    (hx : x ∉ l) (hb : x ≠ b) : (h.pushBack a b).next x = h.next x := by
  refine splice_of_ne ?_ hb
  rintro rfl
  exact hx (prev_mem hw hr ha)

end IsRing
