import TinyOS.Util.Lists

/-!
# Rings that are spliced, turned around and taken apart (`util.h`)

`rl_splice` swaps four pointers, some of which may be the same. Whatever the aliases are, **two rings
become one, or one becomes two**, and the same splice once more restores them (`rlSplice_law`).

Two loops change the links that they follow. `rlist_reverse` swaps the pointers of a node and goes
on along the one that is `next` then: where the loop has been, the ring has been turned around, and
where it has not been, it has not (`turned`). `rlist_select` moves the node behind its cursor to
another list, or goes on to it: the nodes up to the cursor stay.
-/

set_option autoImplicit false

namespace TinyOS

universe u

variable {α : Type u} [DecidableEq α] {h : Links α} {a b l : α} {x y : List α}

/-! ## `rl_splice` -/

/-- From `h` to `h'`, two nodes were spliced. -/
structure Spliced (h h' : Links α) (a b : α) : Prop where
  linked : h'.WellLinked
  join : ∀ x y, IsRing h.next (a :: x) → IsRing h.next (b :: y) → b ∉ a :: x →
    IsRing h'.next (a :: y ++ b :: x)
  split : ∀ x y, IsRing h.next (a :: x ++ b :: y) →
    IsRing h'.next (a :: y) ∧ IsRing h'.next (b :: x)
  others : ∀ l, IsRing h.next l → a ∉ l → b ∉ l →
    ∀ c ∈ l, h'.next c = h.next c ∧ h'.prev c = h.prev c

theorem rlSplice_spliced (hw : h.WellLinked) (a b : α) : Spliced h (rlSplice h a b).2 a b where
  linked := hw.splice a b
  join x y hx hy hb := hx.splice_join hy (hx.disjoint hy List.mem_cons_self hb)
  split x y hr := hr.splice_split
  others l hl ha hb c hc := by
    have hkeep : ∀ d ∈ l, (h.splice a b).next d = h.next d := fun d hd =>
      IsRing.splice_of_ne (fun he => ha (he ▸ hd)) (fun he => hb (he ▸ hd))
    exact ⟨hkeep c hc, hw.prev_eq (hw.splice a b) (hkeep _ (hl.prev_mem hw hc))⟩

/-- **The law of `rl_splice`**, for any two nodes. -/
theorem rlSplice_law (h : Links α) (hw : h.WellLinked) (a b : α) :
    (a ≠ b → Spliced h (rlSplice h a b).2 a b ∧ (rlSplice (rlSplice h a b).2 a b).2 = h) ∧
      (rlSplice h a a).2 = h := by
  have hspliced := rlSplice_spliced hw a b
  simp only [rlSplice_eq] at hspliced ⊢
  exact ⟨fun _ => ⟨hspliced, hw.splice_splice a b⟩, h.splice_self a⟩

/-- A ring of three and a ring of two are joined and split again, and a third ring is left alone. -/
theorem rlSplice_law_rings : ∃ h : Links (Fin 7),
    IsRing h.next [0, 1, 2] ∧ IsRing h.next [3, 4] ∧ IsRing h.next [5, 6] ∧
      IsRing (rlSplice h 0 3).2.next [0, 4, 3, 1, 2] ∧ IsRing (rlSplice h 0 1).2.next [0, 2] ∧
      (∀ c ∈ [5, 6], (rlSplice h 0 3).2.next c = h.next c ∧ (rlSplice h 0 3).2.prev c = h.prev c) ∧
      (rlSplice (rlSplice h 0 3).2 0 3).2 = h := by
  let h : Links (Fin 7) := { next := ![1, 2, 0, 4, 3, 6, 5], prev := ![2, 0, 1, 4, 3, 6, 5] }
  have hw : h.WellLinked := ⟨by decide, by decide⟩
  have hthree : IsRing h.next [0, 1, 2] := ⟨by decide, by decide⟩
  have htwo : IsRing h.next [3, 4] := ⟨by decide, by decide⟩
  have hother : IsRing h.next [5, 6] := ⟨by decide, by decide⟩
  obtain ⟨hjoined, htwice⟩ := (rlSplice_law h hw 0 3).1 (by decide)
  obtain ⟨hsplit, -⟩ := (rlSplice_law h hw 0 1).1 (by decide)
  exact ⟨h, hthree, htwo, hother, hjoined.join [1, 2] [4] hthree htwo (by decide),
    (hsplit.split [] [2] hthree).1, hjoined.others [5, 6] hother (by decide) (by decide), htwice⟩

/-! ## `rlist_reverse` -/

/-- The loop of `rlist_reverse(l)` from `p` on, for at most `fuel` turns: the nodes that it visits, and
what it makes of the nodes. -/
def reverseLoop (l : α) : Nat → Links α → α → Option (List α × Links α)
  | 0, _, _ => none
  | fuel + 1, h, p =>
    let h := rlnodeSwap h (.prev p) (.next p)
    let q := h.next p
    if q ≠ l then (reverseLoop l fuel h q).map fun r => (p :: r.1, r.2) else some ([p], h)

/-- `rlist_reverse`. -/
def rlistReverse (h : Links α) (l : α) (fuel : Nat) : Option (List α × Links α) :=
  reverseLoop l fuel h l

/-- The nodes of `l` form a ring in this order, whatever the pointers of other nodes are. -/
structure WellFormed (h : Links α) (l : List α) : Prop where
  ring : IsRing h.next l
  prev_next : ∀ c ∈ l, h.prev (h.next c) = c

/-- The nodes of `done` have their pointers swapped. -/
def turned (h : Links α) (done : List α) : Links α where
  next c := if c ∈ done then h.prev c else h.next c
  prev c := if c ∈ done then h.next c else h.prev c

theorem turned_nil (h : Links α) : turned h [] = h := by
  simp [turned]

theorem rlnodeSwap_turned {done : List α} {p : α} (hp : p ∉ done) :
    rlnodeSwap (turned h done) (.prev p) (.next p) = turned h (p :: done) := by
  ext c
  all_goals
    by_cases hc : c = p
    · subst hc
      simp [rlnodeSwap, Slot.read, Slot.write, turned, hp]
    · simp [rlnodeSwap, Slot.read, Slot.write, turned, hc]

/-- **The loop goes backwards**: from `p` on, it visits what the old predecessors lead to. -/
theorem reverseLoop_eq {p : α} {rest done : List α} (hwalk : Walk h.prev p rest l)
    (hnd : (p :: rest).Nodup) (hdone : (p :: rest).Disjoint done) (hl : l ∉ rest) {fuel : Nat}
    (hfuel : rest.length < fuel) : ∃ done', reverseLoop l fuel (turned h done) p =
      some (p :: rest, turned h done') ∧ ∀ c, c ∈ done' ↔ c ∈ p :: rest ∨ c ∈ done := by
  induction rest generalizing p done fuel with
  | nil =>
    obtain ⟨fuel, rfl⟩ : ∃ n, fuel = n + 1 := ⟨fuel - 1, by omega⟩
    have hp : p ∉ done := fun hm => hdone List.mem_cons_self hm
    have hnext : (turned h (p :: done)).next p = l := by
      simp only [turned, List.mem_cons_self, if_true]
      exact hwalk
    refine ⟨p :: done, ?_, fun c => by simp⟩
    rw [reverseLoop]
    simp only [rlnodeSwap_turned hp, hnext, ne_eq, not_true, if_false]
  | cons q rest ih =>
    obtain ⟨fuel, rfl⟩ : ∃ n, fuel = n + 1 := ⟨fuel - 1, by omega⟩
    obtain ⟨hpq, hwalk⟩ := hwalk
    obtain ⟨hpnot, hnd⟩ := List.nodup_cons.mp hnd
    have hp : p ∉ done := fun hm => hdone List.mem_cons_self hm
    have hnext : (turned h (p :: done)).next p = q := by
      simp only [turned, List.mem_cons_self, if_true]
      exact hpq
    have hql : q ≠ l := fun he => hl (he ▸ List.mem_cons_self)
    have hdone' : (q :: rest).Disjoint (p :: done) := by
      intro c hc hc'
      rcases List.mem_cons.mp hc' with rfl | hc'
      · exact hpnot hc
      · exact hdone (List.mem_cons_of_mem p hc) hc'
    obtain ⟨done', hrun, hmem⟩ := ih hwalk hnd hdone' (fun hm => hl (List.mem_cons_of_mem q hm))
      (by simpa using hfuel)
    refine ⟨done', ?_, fun c => ?_⟩
    · rw [reverseLoop]
      simp only [rlnodeSwap_turned hp, hnext, ne_eq, hql, not_false_eq_true, if_true, hrun,
        Option.map_some]
    · rw [hmem]
      simp only [List.mem_cons]
      tauto

/-- From `h` to `h'`, the ring `l` was turned around. -/
structure Reversed (h h' : Links α) (l : List α) : Prop where
  ring : ∀ c ∈ l, h'.next c = h.prev c ∧ h'.prev c = h.next c
  others : ∀ c, c ∉ l → h'.next c = h.next c ∧ h'.prev c = h.prev c

theorem turned_reversed (h : Links α) (r : List α) : Reversed h (turned h r) r where
  ring c hc := by simp [turned, hc]
  others c hc := by simp [turned, hc]

theorem turned_congr {done done' : List α} (hmem : ∀ c, c ∈ done ↔ c ∈ done') :
    turned h done = turned h done' := by
  simp [turned, hmem]

/-- The whole loop. -/
theorem rlistReverse_eq (hwf : WellFormed h (l :: x)) {fuel : Nat} (hfuel : x.length < fuel) :
    rlistReverse h l fuel = some (l :: x.reverse, turned h (l :: x)) := by
  obtain ⟨hnd, hwalk⟩ := IsRing.walk_iff.mp hwf.ring
  have hback : Walk h.prev l x.reverse l := hwalk.reverse hwf.prev_next
  obtain ⟨hl, -⟩ := List.nodup_cons.mp hnd
  have hnd' : (l :: x.reverse).Nodup := by
    rw [List.nodup_cons, List.mem_reverse, List.nodup_reverse]
    exact List.nodup_cons.mp hnd
  obtain ⟨done, hrun, hmem⟩ := reverseLoop_eq hback hnd' (List.disjoint_nil_right _)
    (fun hm => hl (List.mem_reverse.mp hm)) (by rwa [List.length_reverse])
  have hsame : turned h done = turned h (l :: x) := turned_congr fun c => by simp [hmem]
  rw [turned_nil, hsame] at hrun
  exact hrun

section
omit [DecidableEq α]

variable {h' : Links α} {r : List α}

/-- A node is the successor of its predecessor. -/
theorem WellFormed.prev_spec (hwf : WellFormed h r) {c : α} (hc : c ∈ r) :
    h.prev c ∈ r ∧ h.next (h.prev c) = c := by
  have hm : c ∈ r.map h.next := by rwa [hwf.ring.2, List.mem_rotate]
  obtain ⟨d, hd, rfl⟩ := List.mem_map.mp hm
  rw [hwf.prev_next d hd]
  exact ⟨hd, rfl⟩

/-- A ring may be written from any of its nodes on. -/
theorem WellFormed.of_ring {r' : List α} (hwf : WellFormed h r) (hr' : IsRing h.next r')
    (hmem : ∀ c, c ∈ r' ↔ c ∈ r) : WellFormed h r' :=
  ⟨hr', fun c hc => hwf.prev_next c ((hmem c).mp hc)⟩

theorem WellFormed.from (hwf : WellFormed h r) (hl : l ∈ r) :
    ∃ x, WellFormed h (l :: x) ∧ (l :: x).Perm r := by
  obtain ⟨p, q, rfl⟩ := List.append_of_mem hl
  have hperm : ((l :: q) ++ p).Perm (p ++ l :: q) := List.perm_append_comm
  exact ⟨q ++ p, hwf.of_ring hwf.ring.append_comm fun c => hperm.mem_iff, hperm⟩

theorem Reversed.congr {r' : List α} (hr : Reversed h h' r) (hmem : ∀ c, c ∈ r' ↔ c ∈ r) :
    Reversed h h' r' :=
  ⟨fun c hc => hr.ring c ((hmem c).mp hc), fun c hc => hr.others c fun hm => hc ((hmem c).mpr hm)⟩

/-- **The ring that was turned around** is read backwards. -/
theorem Reversed.wellFormed (hr : Reversed h h' (l :: x)) (hwf : WellFormed h (l :: x)) :
    WellFormed h' (l :: x.reverse) := by
  obtain ⟨hnd, hwalk⟩ := IsRing.walk_iff.mp hwf.ring
  have hmem : ∀ c, c ∈ l :: x.reverse ↔ c ∈ l :: x := fun c => by simp
  constructor
  case ring =>
    refine IsRing.walk_iff.mpr ⟨?_, ?_⟩
    · rw [List.nodup_cons, List.mem_reverse, List.nodup_reverse]
      exact List.nodup_cons.mp hnd
    · exact (hwalk.reverse hwf.prev_next).congr fun c hc => (hr.ring c ((hmem c).mp hc)).1
  case prev_next =>
    intro c hc
    have hc := (hmem c).mp hc
    obtain ⟨hprev, hnext⟩ := hwf.prev_spec hc
    rw [(hr.ring c hc).1, (hr.ring _ hprev).2, hnext]

/-- Turning it around once more restores it. -/
theorem Reversed.twice {h'' : Links α} (hr : Reversed h h' r) (hr' : Reversed h' h'' r) :
    h'' = h := by
  ext c
  all_goals
    by_cases hc : c ∈ r
    · simp [hr'.ring c hc, hr.ring c hc]
    · simp [hr'.others c hc, hr.others c hc]

end

/-- **The law of `rlist_reverse`**, for any node of the ring. -/
theorem rlistReverse_law (h : Links α) (r : List α) (hwf : WellFormed h r) (l : α) (hl : l ∈ r) :
    ∃ x h', IsRing h.next (l :: x) ∧ (l :: x).Perm r ∧
      (∀ fuel, r.length ≤ fuel → rlistReverse h l fuel = some (l :: x.reverse, h')) ∧
      WellFormed h' (l :: x.reverse) ∧ Reversed h h' r ∧
      ∀ fuel, r.length ≤ fuel → rlistReverse h' l fuel = some (l :: x, h) := by
  obtain ⟨x, hx, hperm⟩ := hwf.from hl
  have hlen : x.length + 1 = r.length := hperm.length_eq
  have hreversed := turned_reversed h (l :: x)
  have hback := hreversed.wellFormed hx
  refine ⟨x, turned h (l :: x), hx.ring, hperm, fun fuel hfuel => ?_, hback,
    hreversed.congr fun c => hperm.mem_iff.symm, fun fuel hfuel => ?_⟩
  · exact rlistReverse_eq hx (by omega)
  · rw [rlistReverse_eq hback (by rw [List.length_reverse]; omega), List.reverse_reverse]
    have htwice : Reversed (turned h (l :: x)) (turned (turned h (l :: x)) (l :: x.reverse))
        (l :: x) := (turned_reversed _ _).congr fun c => by simp
    rw [hreversed.twice htwice]

/-- A list of two nodes, beside a singleton. -/
theorem rlistReverse_law_three : ∃ x h', IsRing (fun c : Fin 4 => ![1, 2, 0, 3] c) (0 :: x) ∧
      (0 :: x).Perm [0, 1, 2] ∧
      (∀ fuel, 3 ≤ fuel → rlistReverse { next := ![1, 2, 0, 3], prev := ![2, 0, 1, 3] } 0 fuel =
        some (0 :: x.reverse, h')) ∧
      WellFormed h' (0 :: x.reverse) ∧
      Reversed { next := ![1, 2, 0, 3], prev := ![2, 0, 1, 3] } h' [0, 1, 2] ∧
      ∀ fuel, 3 ≤ fuel → rlistReverse h' 0 fuel =
        some (0 :: x, { next := ![1, 2, 0, 3], prev := ![2, 0, 1, 3] }) :=
  rlistReverse_law (α := Fin 4) { next := ![1, 2, 0, 3], prev := ![2, 0, 1, 3] } [0, 1, 2]
    ⟨⟨by decide, by decide⟩, by decide⟩ 0 (by decide)

/-! ## `rlist_select` -/

variable {Lsrc Ldest I : α} {pred : α → Bool}

/-- The loop of `rlist_select(Lsrc, Ldest, pred)` with its cursor at `I`, for at most `fuel` tests of
its condition: the nodes that `pred` is called on, and what it makes of the nodes. -/
def selectLoop (Lsrc Ldest : α) (pred : α → Bool) :
    Nat → Links α → α → Option (List α × Links α)
  | 0, _, _ => none
  | fuel + 1, h, I =>
    if h.next I ≠ Lsrc then
      let rest :=
        if pred (h.next I) then
          let (p, h) := rlistRemove h (h.next I)
          selectLoop Lsrc Ldest pred fuel (rlistPushBack h Ldest p) I
        else
          selectLoop Lsrc Ldest pred fuel h (h.next I)
      rest.map fun r => (h.next I :: r.1, r.2)
    else some ([], h)

/-- `rlist_select`. -/
def rlistSelect (h : Links α) (Lsrc Ldest : α) (pred : α → Bool) (fuel : Nat) :
    Option (List α × Links α) :=
  selectLoop Lsrc Ldest pred fuel h Lsrc

/-- From `h` to `h'`, the lists became `src` and `dst`, and other nodes were not touched. -/
structure Selected (h h' : Links α) (Lsrc Ldest : α) (src src' dst dst' : List α) : Prop where
  linked : h'.WellLinked
  source : IsRing h'.next (Lsrc :: src')
  destination : IsRing h'.next (Ldest :: dst')
  others : ∀ c, c ∉ Lsrc :: src → c ∉ Ldest :: dst → h'.next c = h.next c

omit [DecidableEq α] in
/-- What is behind the cursor has not been examined. -/
theorem next_cursor {p kept rest : List α} (hring : IsRing h.next (Lsrc :: (kept ++ rest)))
    (hI : p ++ [I] = Lsrc :: kept) : h.next I = rest.headD Lsrc := by
  rw [← List.cons_append, ← hI, List.append_assoc] at hring
  have hfrom := hring.append_comm
  cases rest with
  | cons c rest => exact hfrom.next_head
  | nil =>
    cases p with
    | nil =>
      obtain rfl : I = Lsrc := (List.cons.inj hI).1
      exact IsRing.next_single.mp hfrom
    | cons b p =>
      obtain rfl : b = Lsrc := (List.cons.inj hI).1
      exact hfrom.next_head

/-- **The node behind the cursor is moved.** -/
theorem Selected.move {kept rest dst : List α} {c : α} (hw : h.WellLinked)
    (hsrc : IsRing h.next (Lsrc :: (kept ++ c :: rest))) (hdst : IsRing h.next (Ldest :: dst))
    (hne : Ldest ∉ Lsrc :: (kept ++ c :: rest)) :
    Selected h ((h.remove c).pushBack Ldest c) Lsrc Ldest (kept ++ c :: rest) (kept ++ rest) dst
      (dst ++ [c]) := by
  have hdis := hsrc.disjoint hdst List.mem_cons_self hne
  obtain ⟨hleft, hself, hout⟩ := hsrc.remove hw (a := c) (by simp)
  have herase : (Lsrc :: (kept ++ c :: rest)).erase c = Lsrc :: (kept ++ rest) := by
    have hnd := hsrc.1
    simp only [List.nodup_cons, List.mem_append, List.mem_cons, List.nodup_append, not_or] at hnd
    have hkept : c ∉ kept := fun hm => hnd.2.2.2 c hm c (.inl rfl) rfl
    rw [List.erase_cons_tail (by simpa using hnd.1.2.1), List.erase_append_right _ hkept,
      List.erase_cons_head]
  rw [herase] at hleft
  have hdst' : IsRing (h.remove c).next (Ldest :: dst) :=
    hdst.congr fun x hx => hout x fun hm => hdis hm hx
  have hc : c ∉ Ldest :: dst := fun hm => hdis (by simp) hm
  have hkeep : ∀ x, x ∉ Ldest :: dst → x ≠ c →
      ((h.remove c).pushBack Ldest c).next x = (h.remove c).next x := fun x hx hxc =>
    IsRing.pushBack_next (hw.remove c) hdst' List.mem_cons_self hx hxc
  constructor
  case linked => exact (hw.remove c).pushBack Ldest c
  case source =>
    refine hleft.congr fun x hx => hkeep x (fun hm => hdis ?_ hm) ?_
    · simp only [List.mem_cons, List.mem_append] at hx ⊢
      tauto
    · rintro rfl
      rw [← herase] at hx
      exact hsrc.1.not_mem_erase hx
  case destination => exact hdst'.pushBack (hw.remove c) hself hc
  case others =>
    intro x hx hx'
    rw [hkeep x hx' (by rintro rfl; exact hx (by simp)), hout x hx]

/-- The loop, when it has kept the nodes of `kept`. -/
theorem selectLoop_eq (pred : α → Bool) {p kept rest dst : List α} (hw : h.WellLinked)
    (hsrc : IsRing h.next (Lsrc :: (kept ++ rest))) (hI : p ++ [I] = Lsrc :: kept)
    (hdst : IsRing h.next (Ldest :: dst)) (hne : Ldest ∉ Lsrc :: (kept ++ rest)) :
    ∃ h', (∀ fuel, rest.length < fuel → selectLoop Lsrc Ldest pred fuel h I = some (rest, h')) ∧
      Selected h h' Lsrc Ldest (kept ++ rest) (kept ++ rest.filter fun c => !pred c) dst
        (dst ++ rest.filter pred) := by
  induction rest generalizing h I p kept dst with
  | nil =>
    have hnext : h.next I = Lsrc := next_cursor hsrc hI
    refine ⟨h, fun fuel hfuel => ?_, hw, hsrc, by simpa using hdst, fun _ _ _ => rfl⟩
    obtain ⟨fuel, rfl⟩ : ∃ n, fuel = n + 1 := ⟨fuel - 1, by omega⟩
    rw [selectLoop, hnext]
    simp
  | cons c rest ih =>
    have hnext : h.next I = c := next_cursor hsrc hI
    have hc : c ≠ Lsrc := by
      rintro rfl
      have := hsrc.1
      simp at this
    by_cases hpred : pred c = true
    · have hmove := Selected.move hw hsrc hdst hne
      have hne' : Ldest ∉ Lsrc :: (kept ++ rest) := fun hm => hne (by
        simp only [List.mem_cons, List.mem_append] at hm ⊢
        tauto)
      obtain ⟨h', hrun, hsel⟩ := ih hmove.linked hmove.source hI hmove.destination hne'
      refine ⟨h', fun fuel hfuel => ?_, hsel.linked, ?_, ?_, fun x hx hx' => ?_⟩
      · obtain ⟨fuel, rfl⟩ : ∃ n, fuel = n + 1 := ⟨fuel - 1, by omega⟩
        rw [selectLoop, hnext]
        simp [hc, hpred, hrun fuel (by simpa using hfuel)]
      · simpa [hpred] using hsel.source
      · simpa [hpred] using hsel.destination
      · rw [← hmove.others x hx hx']
        refine hsel.others x (fun hm => hx ?_) (fun hm => ?_)
        · simp only [List.mem_cons, List.mem_append] at hm ⊢
          tauto
        · simp only [List.mem_cons, List.mem_append, not_or] at hm hx hx'
          tauto
    · have hkept : (p ++ [I]) ++ [c] = Lsrc :: (kept ++ [c]) := by rw [hI, List.cons_append]
      obtain ⟨h', hrun, hsel⟩ := ih hw (by simpa using hsrc) hkept hdst (by simpa using hne)
      refine ⟨h', fun fuel hfuel => ?_, hsel.linked, ?_, ?_, fun x hx hx' => ?_⟩
      · obtain ⟨fuel, rfl⟩ : ∃ n, fuel = n + 1 := ⟨fuel - 1, by omega⟩
        rw [selectLoop, hnext]
        simp [hc, hpred, hrun fuel (by simpa using hfuel)]
      · simpa [hpred] using hsel.source
      · simpa [hpred] using hsel.destination
      · exact hsel.others x (by simpa using hx) hx'

/-- **The law of `rlist_select`.** -/
theorem rlistSelect_law (h : Links α) (hw : h.WellLinked) (Lsrc Ldest : α) (src dst : List α)
    (hsrc : IsRing h.next (Lsrc :: src)) (hdst : IsRing h.next (Ldest :: dst))
    (hne : Ldest ∉ Lsrc :: src) (pred : α → Bool) :
    ∃ h', (∀ fuel, src.length < fuel → rlistSelect h Lsrc Ldest pred fuel = some (src, h')) ∧
      Selected h h' Lsrc Ldest src (src.filter fun c => !pred c) dst (dst ++ src.filter pred) ∧
      ((src.filter fun c => !pred c) ++ (dst ++ src.filter pred)).Perm (src ++ dst) ∧
      (Lsrc :: src.filter fun c => !pred c).Disjoint (Ldest :: (dst ++ src.filter pred)) := by
  have hI : [] ++ [Lsrc] = Lsrc :: [] := rfl
  obtain ⟨h', hrun, hsel⟩ := selectLoop_eq pred hw hsrc hI hdst hne
  refine ⟨h', hrun, hsel, ?_, ?_⟩
  · calc
      List.Perm _ ((dst ++ src.filter pred) ++ src.filter fun c => !pred c) :=
        List.perm_append_comm
      _ = dst ++ (src.filter pred ++ src.filter fun c => !pred c) := List.append_assoc _ _ _
      List.Perm _ (dst ++ src) := (List.filter_append_perm pred src).append_left dst
      List.Perm _ (src ++ dst) := List.perm_append_comm
  · refine hsel.source.disjoint hsel.destination List.mem_cons_self fun hm => hne ?_
    rcases List.mem_cons.mp hm with rfl | hm
    · exact List.mem_cons_self
    · exact List.mem_cons_of_mem Lsrc (List.mem_of_mem_filter hm)

/-- The second and the third node of a list are moved behind the only one of another list. -/
theorem rlistSelect_law_three : ∃ h', (∀ fuel, 3 < fuel →
        rlistSelect (α := Fin 6) { next := ![2, 5, 3, 4, 0, 1], prev := ![4, 5, 0, 2, 3, 1] } 0 1
          (fun c => decide (2 < c)) fuel = some ([2, 3, 4], h')) ∧
      Selected { next := ![2, 5, 3, 4, 0, 1], prev := ![4, 5, 0, 2, 3, 1] } h' 0 1 [2, 3, 4] [2] [5]
        [5, 3, 4] := by
  obtain ⟨h', hrun, hsel, -, -⟩ := rlistSelect_law (α := Fin 6)
    { next := ![2, 5, 3, 4, 0, 1], prev := ![4, 5, 0, 2, 3, 1] } ⟨by decide, by decide⟩ 0 1
    [2, 3, 4] [5] ⟨by decide, by decide⟩ ⟨by decide, by decide⟩ (by decide)
    (fun c => decide (2 < c))
  exact ⟨h', hrun, hsel⟩

end TinyOS
