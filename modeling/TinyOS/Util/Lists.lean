import Mathlib
import TinyOS.Lib.Lists

/-!
# The list operations (`util.h`)

Every operation on intrusive lists is one or two calls of `rl_splice`, which is two swaps of
pointers. Here they act on any number of lists, in any order, and **the nodes always hold the
sequences they should, as long as `rlist_pop_back` is called on lists with at most one element**
(`lists_refine_iff`).

`rlist_pop_back` splices the list with its last node. That does not take the last node out of the
ring, but the list: it is empty then, and the node that is returned has all others on its ring. (The
last node is taken out by a splice with its predecessor.)

The list operations themselves are those of `Lib/Lists.lean`.
-/

set_option autoImplicit false

namespace TinyOS

universe u

variable {α : Type u} [DecidableEq α]

/-- Where a pointer to a node lies. -/
inductive Slot (α : Type u) where
  | next (a : α)
  | prev (a : α)

namespace Slot

omit [DecidableEq α] in
def read (h : Links α) : Slot α → α
  | .next a => h.next a
  | .prev a => h.prev a

def write (h : Links α) (v : α) : Slot α → Links α
  | .next a => { h with next := Function.update h.next a v }
  | .prev a => { h with prev := Function.update h.prev a v }

end Slot

/-- `rlnode_swap`. -/
def rlnodeSwap (h : Links α) (p q : Slot α) : Links α :=
  let temp := p.read h
  let h := p.write h (q.read h)
  q.write h temp

/-- `rl_splice`: the node that is returned, and the nodes. -/
def rlSplice (h : Links α) (a b : α) : α × Links α :=
  let h := rlnodeSwap h (.prev (h.next a)) (.prev (h.next b))
  let h := rlnodeSwap h (.next a) (.next b)
  (b, h)

/-- `rlist_remove`. -/
def rlistRemove (h : Links α) (a : α) : α × Links α := (a, (rlSplice h a (h.prev a)).2)

/-- `rlist_push_front`. -/
def rlistPushFront (h : Links α) (list node : α) : Links α := (rlSplice h list node).2

/-- `rlist_push_back`. -/
def rlistPushBack (h : Links α) (list node : α) : Links α := (rlSplice h (h.prev list) node).2

/-- `rlist_pop_front`. -/
def rlistPopFront (h : Links α) (list : α) : α × Links α := rlSplice h list (h.next list)

/-- `rlist_pop_back`. -/
def rlistPopBack (h : Links α) (list : α) : α × Links α := rlSplice h list (h.prev list)

/-- `rlist_append`. -/
def rlistAppend (h : Links α) (ldest lsrc : α) : Links α :=
  (rlistRemove (rlistPushBack h ldest lsrc) lsrc).2

/-- `rlist_prepend`. -/
def rlistPrepend (h : Links α) (ldest lsrc : α) : Links α :=
  (rlistRemove (rlistPushFront h ldest lsrc) lsrc).2

inductive ListOp (α : Type u) where
  | pushFront (list node : α)
  | pushBack (list node : α)
  | popFront (list : α)
  | popBack (list : α)
  | remove (node : α)
  | append (ldest lsrc : α)
  | prepend (ldest lsrc : α)

/-- What is returned, and the nodes. -/
def ListOp.perform (h : Links α) : ListOp α → Option α × Links α
  | .pushFront list node => (none, rlistPushFront h list node)
  | .pushBack list node => (none, rlistPushBack h list node)
  | .popFront list => ((rlistPopFront h list).1, (rlistPopFront h list).2)
  | .popBack list => ((rlistPopBack h list).1, (rlistPopBack h list).2)
  | .remove node => ((rlistRemove h node).1, (rlistRemove h node).2)
  | .append ldest lsrc => (none, rlistAppend h ldest lsrc)
  | .prepend ldest lsrc => (none, rlistPrepend h ldest lsrc)

/-! ## Sequences -/

/-- The nodes hold the sequences `content`, one for each list. -/
structure Represents (h : Links α) (isList : α → Prop) (content : α → List α) : Prop where
  linked : h.WellLinked
  forward : ∀ l, isList l → Walk h.next l (content l) l
  backward : ∀ l, isList l → Walk h.prev l (content l).reverse l
  nodup : ∀ l, isList l → (l :: content l).Nodup
  element : ∀ l, isList l → ∀ x ∈ content l, ¬ isList x
  one : ∀ l m, isList l → isList m → ∀ x, x ∈ content l → x ∈ content m → l = m
  /-- A node on no list is a singleton. -/
  loose : ∀ x, ¬ isList x → (∀ l, isList l → x ∉ content l) → h.next x = x ∧ h.prev x = x

namespace ListOp

variable (isList : α → Prop) (content : α → List α)

/-- What the operation does to the sequences. -/
def apply : ListOp α → α → List α
  | .pushFront list node => Function.update content list (node :: content list)
  | .pushBack list node => Function.update content list (content list ++ [node])
  | .popFront list => Function.update content list (content list).tail
  | .popBack list => Function.update content list (content list).dropLast
  | .remove node => fun list => (content list).erase node
  | .append ldest lsrc =>
    Function.update (Function.update content ldest (content ldest ++ content lsrc)) lsrc []
  | .prepend ldest lsrc =>
    Function.update (Function.update content ldest (content lsrc ++ content ldest)) lsrc []

/-- And what it returns. A pop of an empty list returns the list. -/
def returns : ListOp α → Option α
  | .popFront list => some ((content list).head?.getD list)
  | .popBack list => some ((content list).getLast?.getD list)
  | .remove node => some node
  | .pushFront _ _ | .pushBack _ _ | .append _ _ | .prepend _ _ => none

/-- How the operations may be called. -/
def Valid : ListOp α → Prop
  | .pushFront list node | .pushBack list node =>
    isList list ∧ ¬ isList node ∧ ∀ l, isList l → node ∉ content l
  | .popFront list | .popBack list => isList list
  | .remove node => ¬ isList node
  | .append ldest lsrc | .prepend ldest lsrc => isList ldest ∧ isList lsrc ∧ ldest ≠ lsrc

/-- There is nothing to take out. -/
def Idle : ListOp α → Prop
  | .popFront list | .popBack list => content list = []
  | .remove node => ∀ l, isList l → node ∉ content l
  | .pushFront _ _ | .pushBack _ _ | .append _ _ | .prepend _ _ => False

/-- If it is a `rlist_pop_back`, the list has at most one element. -/
def Cautious : ListOp α → Prop
  | .popBack list => (content list).length ≤ 1
  | _ => True

end ListOp

/-- `P` holds of each operation of a run, and of the sequences before it. -/
def AtEach (P : (α → List α) → ListOp α → Prop) : (α → List α) → List (ListOp α) → Prop
  | _, [] => True
  | content, op :: ops => P content op ∧ AtEach P (op.apply content) ops

/-- **The run refines the sequences**: they are represented before and after every operation, which
returns what it should, and changes no pointer if there is nothing to take out. -/
def Refining (isList : α → Prop) : Links α → (α → List α) → List (ListOp α) → Prop
  | h, content, [] => Represents h isList content
  | h, content, op :: ops =>
    Represents h isList content ∧ (op.perform h).1 = op.returns content ∧
      (op.Idle isList content → (op.perform h).2 = h) ∧
      Refining isList (op.perform h).2 (op.apply content) ops

/-! ## The operations as splices -/

theorem rlSplice_eq (h : Links α) (a b : α) : rlSplice h a b = (b, h.splice a b) := rfl

@[simp] theorem rlistRemove_eq (h : Links α) (a : α) : rlistRemove h a = (a, h.remove a) := rfl

@[simp] theorem rlistPushFront_eq (h : Links α) (a b : α) :
    rlistPushFront h a b = h.pushFront a b := rfl

@[simp] theorem rlistPushBack_eq (h : Links α) (a b : α) :
    rlistPushBack h a b = h.pushBack a b := rfl

@[simp] theorem rlistPopFront_eq (h : Links α) (a : α) :
    rlistPopFront h a = (h.next a, h.popFront a) := rfl

@[simp] theorem rlistPopBack_eq (h : Links α) (a : α) :
    rlistPopBack h a = (h.prev a, h.splice a (h.prev a)) := rfl

@[simp] theorem rlistAppend_eq (h : Links α) (a b : α) : rlistAppend h a b = h.append a b := rfl

@[simp] theorem rlistPrepend_eq (h : Links α) (a b : α) :
    rlistPrepend h a b = (h.pushFront a b).remove b := rfl

/-! ## Rings and walks -/

variable {h : Links α} {isList : α → Prop} {content content' : α → List α} {l : α}

omit [DecidableEq α] in
theorem represents_iff : Represents h isList content ↔ IsLists h isList content := by
  constructor
  · intro hr
    exact ⟨hr.linked, fun l hl => IsRing.walk_iff.mpr ⟨hr.nodup l hl, hr.forward l hl⟩, hr.element,
      hr.one, fun x hx hout => (hr.loose x hx hout).1⟩
  · intro hl
    have hwalk := fun l hlist => (IsRing.walk_iff.mp (hl.ring l hlist)).2
    refine ⟨hl.linked, hwalk, fun l hlist => hl.linked.walk_reverse (hwalk l hlist),
      fun l hlist => (hl.ring l hlist).1, hl.element, hl.one, fun x hx hout => ?_⟩
    have hnext := hl.alone x hx hout
    refine ⟨hnext, ?_⟩
    have hprev := hl.linked.prev_next x
    rwa [hnext] at hprev

omit [DecidableEq α] in
/-- Only the sequences of lists count. -/
theorem lists_congr (hl : IsLists h isList content)
    (hc : ∀ l, isList l → content' l = content l) : IsLists h isList content' where
  linked := hl.linked
  ring l hlist := by
    rw [hc l hlist]
    exact hl.ring l hlist
  element l hlist x hx := hl.element l hlist x (hc l hlist ▸ hx)
  one l m hlist hm x hx hx' := hl.one l m hlist hm x (hc l hlist ▸ hx) (hc m hm ▸ hx')
  alone x hx hout := hl.alone x hx fun l hlist hm => hout l hlist (by rwa [hc l hlist])

omit [DecidableEq α] in
/-- The two ends of a list. -/
theorem Represents.ends (hr : Represents h isList content) (hl : isList l) :
    h.next l = (content l).head?.getD l ∧ h.prev l = (content l).getLast?.getD l := by
  have hforward := hr.forward l hl
  have hbackward := hr.backward l hl
  rw [← List.head?_reverse]
  have hfirst : ∀ (f : α → α) (c : List α), Walk f l c l → f l = c.head?.getD l := by
    intro f c hw
    cases c with
    | nil => exact hw
    | cons x c => exact hw.1
  exact ⟨hfirst _ _ hforward, hfirst _ _ hbackward⟩

/-- A pop of an empty list. -/
theorem pop_empty (hl : IsLists h isList content) (hnil : content l = []) {x : α} (hx : x = l) :
    IsLists (h.splice l x) isList (Function.update content l []) := by
  rw [hx, Links.splice_self]
  refine lists_congr hl fun m _ => ?_
  by_cases hm : m = l
  · rw [hm, Function.update_self, hnil]
  · rw [Function.update_of_ne hm]

/-! ## Steps -/

/-- One operation. -/
theorem perform_refines (hl : IsLists h isList content) {op : ListOp α}
    (hv : op.Valid isList content) (hc : op.Cautious content) :
    IsLists (op.perform h).2 isList (op.apply content) ∧ (op.perform h).1 = op.returns content ∧
      (op.Idle isList content → (op.perform h).2 = h) := by
  have hr := represents_iff.mpr hl
  cases op with
  | pushFront list node =>
    obtain ⟨hlist, hnode, hnew⟩ := hv
    exact ⟨hl.pushFront hlist hnode hnew, rfl, False.elim⟩
  | pushBack list node =>
    obtain ⟨hlist, hnode, hnew⟩ := hv
    exact ⟨hl.pushBack hlist hnode hnew, rfl, False.elim⟩
  | popFront list =>
    obtain ⟨hfirst, -⟩ := hr.ends hv
    refine ⟨?_, congrArg some hfirst, fun hnil => ?_⟩
    · show IsLists (h.splice list (h.next list)) isList
        (Function.update content list (content list).tail)
      cases hcase : content list with
      | nil =>
        rw [hcase] at hfirst
        exact pop_empty hl hcase hfirst
      | cons x c => exact (hl.popFront hv hcase).2
    · have hself : h.next list = list := by
        rw [hfirst, show content list = [] from hnil]
        rfl
      exact (congrArg (h.splice list) hself).trans (h.splice_self list)
  | popBack list =>
    obtain ⟨hfirst, hlast⟩ := hr.ends hv
    refine ⟨?_, congrArg some hlast, fun hnil => ?_⟩
    · show IsLists (h.splice list (h.prev list)) isList
        (Function.update content list (content list).dropLast)
      rcases hcase : content list with _ | ⟨x, _ | ⟨y, c⟩⟩
      · rw [hcase] at hlast
        exact pop_empty hl hcase hlast
      · -- The only element is the first one and the last one.
        rw [hcase] at hfirst hlast
        have hpop := (hl.popFront hv hcase).2
        rw [hlast.trans hfirst.symm]
        exact hpop
      · have hlen : (content list).length ≤ 1 := hc
        simp [hcase] at hlen
    · have hself : h.prev list = list := by
        rw [hlast, show content list = [] from hnil]
        rfl
      exact (congrArg (h.splice list) hself).trans (h.splice_self list)
  | remove node =>
    by_cases hout : ∀ l, isList l → node ∉ content l
    · -- A singleton.
      have hself : h.remove node = h :=
        (congrArg (h.splice node) (hr.loose node hv hout).2).trans (h.splice_self node)
      refine ⟨?_, rfl, fun _ => hself⟩
      show IsLists (h.remove node) isList _
      rw [hself]
      exact lists_congr hl fun l hlist => List.erase_of_not_mem (hout l hlist)
    · obtain ⟨l, hlist, hm⟩ : ∃ l, isList l ∧ node ∈ content l := by
        simpa using hout
      refine ⟨lists_congr (hl.remove hlist hm) fun m hm' => ?_, rfl, fun hidle => ?_⟩
      · by_cases hml : m = l
        · rw [hml, Function.update_self]
          rfl
        · rw [Function.update_of_ne hml]
          exact List.erase_of_not_mem fun hn => hml (hl.one m l hm' hlist node hn hm)
      · exact absurd hm (hidle l hlist)
  | append ldest lsrc =>
    obtain ⟨hd, hs, hne⟩ := hv
    exact ⟨hl.append hd hs hne, rfl, False.elim⟩
  | prepend ldest lsrc =>
    obtain ⟨hd, hs, hne⟩ := hv
    exact ⟨hl.prepend hd hs hne, rfl, False.elim⟩

/-- **A pop from the back of a list with two elements** empties the list. -/
theorem popBack_empties (hr : Represents h isList content) (hlist : isList l)
    (hlong : ¬ (content l).length ≤ 1) :
    (rlistPopBack h l).2.next l = l := by
  obtain ⟨-, hlast⟩ := hr.ends hlist
  have hring := (represents_iff.mp hr).ring l hlist
  obtain ⟨c, x, hcx⟩ : ∃ c x, content l = c ++ [x] := by
    have hne : content l ≠ [] := by
      rintro hnil
      simp [hnil] at hlong
    exact ⟨_, _, (List.dropLast_append_getLast hne).symm⟩
  rw [hcx, ← List.cons_append] at hring
  rw [hcx, List.getLast?_concat, Option.getD_some] at hlast
  obtain ⟨halone, -⟩ := IsRing.splice_split (x := []) hring
  rw [rlistPopBack_eq, hlast]
  exact IsRing.next_single.mp halone

theorem not_represents_popBack (hr : Represents h isList content) (hlist : isList l)
    (hlong : ¬ (content l).length ≤ 1) :
    ¬ Represents (rlistPopBack h l).2 isList ((ListOp.popBack l).apply content) := by
  intro hr'
  have hempty := popBack_empties hr hlist hlong
  obtain ⟨hfirst, -⟩ := hr'.ends hlist
  rw [hempty] at hfirst
  simp only [ListOp.apply, Function.update_self] at hfirst
  -- Its first element is left, and is not the list.
  rcases hcase : content l with _ | ⟨x, _ | ⟨y, c⟩⟩
  · simp [hcase] at hlong
  · simp [hcase] at hlong
  · rw [hcase, List.dropLast_cons_cons, List.head?_cons, Option.getD_some] at hfirst
    have hnd := hr.nodup l hlist
    rw [hcase, hfirst] at hnd
    simp at hnd

omit [DecidableEq α] in
theorem Refining.represents [DecidableEq α] {ops : List (ListOp α)}
    (hr : Refining isList h content ops) : Represents h isList content := by
  cases ops with
  | nil => exact hr
  | cons op ops => exact hr.1

/-- **The list operations refine their sequences** in a run if and only if every `rlist_pop_back` in
it is on a list with at most one element. -/
theorem lists_refine_iff {ops : List (ListOp α)} (hr : Represents h isList content)
    (hv : AtEach (fun content op => op.Valid isList content) content ops) :
    Refining isList h content ops ↔ AtEach (fun content op => op.Cautious content) content ops := by
  induction ops generalizing h content with
  | nil => exact iff_of_true hr trivial
  | cons op ops ih =>
    obtain ⟨hvalid, hv⟩ := hv
    constructor
    · rintro ⟨-, -, -, hrest⟩
      have hcautious : op.Cautious content := by
        by_contra hno
        cases op with
        | popBack list => exact not_represents_popBack hr hvalid hno hrest.represents
        | pushFront | pushBack | popFront | remove | append | prepend => exact hno trivial
      obtain ⟨hl, -⟩ := perform_refines (represents_iff.mp hr) hvalid hcautious
      exact ⟨hcautious, (ih (represents_iff.mpr hl) hv).mp hrest⟩
    · rintro ⟨hcautious, hrest⟩
      obtain ⟨hl, hreturns, hidle⟩ := perform_refines (represents_iff.mp hr) hvalid hcautious
      exact ⟨hr, hreturns, hidle, (ih (represents_iff.mpr hl) hv).mpr hrest⟩

omit [DecidableEq α] in
/-- Nodes that are all singletons. -/
theorem represents_singletons (isList : α → Prop) :
    Represents { next := id, prev := id } isList fun _ => ([] : List α) where
  linked := ⟨fun _ => rfl, fun _ => rfl⟩
  forward _ _ := rfl
  backward _ _ := rfl
  nodup _ _ := List.nodup_singleton _
  element _ _ _ hx := absurd hx List.not_mem_nil
  one _ _ _ _ _ hx := absurd hx List.not_mem_nil
  loose _ _ _ := ⟨rfl, rfl⟩

/-- Two lists, 0 and 1: the elements of one are put behind those of the other, and the first of all
is taken out and removed once more. -/
theorem lists_refine_append : Refining (fun l : Nat => l < 2) { next := id, prev := id }
      (fun _ => [])
      [.pushBack 0 2, .pushFront 1 3, .append 0 1, .popBack 1, .popFront 0, .remove 2] ↔
    AtEach (fun content op => op.Cautious content) (fun _ => [])
      [.pushBack 0 2, .pushFront 1 3, .append 0 1, .popBack 1, .popFront 0, .remove 2] :=
  lists_refine_iff (represents_singletons _) (by
    simp [AtEach, ListOp.Valid, ListOp.apply, Function.update_apply])

/-- A list with two elements loses both when the last one is popped. -/
theorem not_lists_refine : ¬ ∀ ops : List (ListOp Nat),
    AtEach (fun content op => op.Valid (· = 0) content) (fun _ => []) ops →
      Refining (· = 0) { next := id, prev := id } (fun _ => []) ops := by
  intro hall
  have hrun := hall [.pushBack 0 1, .pushBack 0 2, .popBack 0] (by
    simp [AtEach, ListOp.Valid, ListOp.apply])
  obtain ⟨-, -, -, -, -, -, -, -, -, hr⟩ := hrun
  obtain ⟨hfirst, -⟩ := hr.forward 0 rfl
  exact absurd hfirst (by decide)

end TinyOS
