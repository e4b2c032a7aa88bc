import TinyOS.Stream.Files

/-!
# `FCB_reserve` is all or nothing (`kernel_streams.c`)

`FCB_reserve` takes two resources, one after the other, and each may run out half-way: the fids of
the process, then the FCBs of the kernel. Its loops are put in closed form first: the fids found are
the first ones of the free ones, the FCBs acquired are a prefix of the free list. What the roll-back
gives back is then the whole list again, **in another order**, since the FCBs join its end.

`FCB_unreserve` asserts that each entry is still what `FCB_reserve` made it; `unreserveAsserted`
keeps the assertion.
-/

set_option autoImplicit false

namespace TinyOS

namespace FileTables

/-- `i` is a fid, and process `p` has nothing open there. -/
def FreeFid (t : FileTables) (p : Nat) (i : Int) : Prop :=
  0 ≤ i ∧ i < MAX_FILEID ∧ t.FIDT p i = none

/-- The free fids, in order. -/
def freeFids (t : FileTables) (p : Nat) : List Int :=
  fids.filter fun i => decide (t.FIDT p i = none)

/-- `FCB_unreserve`; `none` is an assertion that fails. -/
def unreserveAsserted (t : FileTables) (p : Nat) : List (Int × Nat) → Option FileTables
  | [] => some t
  | e :: es =>
    if t.FIDT p e.1 = some e.2 then
      unreserveAsserted ((t.setEntry p e.1 none).releaseFCB e.2) p es
    else none

/-- What `FCB_reserve` has done when it succeeds: it answered `es`, and `t'` is what it left. -/
structure Reserved (t : FileTables) (num p : Nat) (es : List (Int × Nat)) (t' : FileTables) :
    Prop where
  length : es.length = num
  increasing : (es.map (·.1)).Pairwise (· < ·)
  smallest : ∀ i ∈ es.map (·.1), t.FreeFid p i ∧ ∀ j, t.FreeFid p j → j < i → j ∈ es.map (·.1)
  distinct : (es.map (·.2)).Nodup
  acquired : ∀ f ∈ es.map (·.2), f ∈ t.freelist ∧ f ∉ t'.freelist ∧ (t'.FT f).refcount = 1
  remaining : t.freelist = es.map (·.2) ++ t'.freelist
  entered : ∀ e ∈ es, t'.FIDT p e.1 = some e.2
  others : ∀ q i, (q = p → i ∉ es.map (·.1)) → t'.FIDT q i = t.FIDT q i
  /-- It can be taken back. -/
  undone : ∃ u, t'.unreserveAsserted p es = some u ∧ u.FIDT = t.FIDT ∧
    u.freelist.Perm t.freelist

variable {t t' : FileTables} {p num : Nat}

/-! ## The fids -/

theorem mem_fids {i : Int} : i ∈ fids ↔ 0 ≤ i ∧ i < MAX_FILEID := by
  refine ⟨fids_range, fun hi => List.mem_map.mpr ⟨i.toNat, List.mem_range.mpr ?_, ?_⟩⟩
  · omega
  · exact Int.toNat_of_nonneg hi.1

theorem fids_increasing : fids.Pairwise (· < ·) :=
  List.Pairwise.map _ (fun _ _ h => Int.ofNat_lt.mpr h) List.pairwise_lt_range

theorem mem_freeFids {i : Int} : i ∈ t.freeFids p ↔ t.FreeFid p i := by
  rw [freeFids, List.mem_filter, mem_fids, decide_eq_true_eq, and_assoc, FreeFid]

theorem findFids_eq (t : FileTables) (p num : Nat) (is : List Int) :
    t.findFids p num is = (is.filter fun i => decide (t.FIDT p i = none)).take num := by
  induction is generalizing num with
  | nil => cases num <;> rfl
  | cons i is ih =>
    cases num with
    | zero => rfl
    | succ num =>
      rw [findFids]
      by_cases hi : t.FIDT p i = none
      · rw [if_pos hi, List.filter_cons_of_pos (by simpa using hi), List.take_succ_cons, ih]
      · rw [if_neg hi, List.filter_cons_of_neg (by simpa using hi), ih]

/-- A prefix of an increasing list holds everything below any of its elements. -/
theorem take_closed {is : List Int} (hinc : is.Pairwise (· < ·)) {i j : Int}
    (hi : i ∈ is.take num) (hj : j ∈ is) (hlt : j < i) : j ∈ is.take num := by
  rw [← List.take_append_drop num is, List.pairwise_append] at hinc
  rw [← List.take_append_drop num is, List.mem_append] at hj
  rcases hj with hj | hj
  · exact hj
  · exact absurd (hinc.2.2 i hi j hj) (Int.not_lt.mpr (Int.le_of_lt hlt))

/-! ## The FCBs -/

/-- The FCBs acquired are a prefix of the free list, and their count is 0. -/
theorem acquireFCBs_eq (num : Nat) (t : FileTables) (hnd : t.freelist.Nodup) :
    (acquireFCBs num t).1 = t.freelist.take num ∧
      (acquireFCBs num t).2.freelist = t.freelist.drop num ∧
      ∀ f, ((acquireFCBs num t).2.FT f).refcount =
        if f ∈ t.freelist.take num then 0 else (t.FT f).refcount := by
  induction num generalizing t with
  | zero => simp [acquireFCBs]
  | succ num ih =>
    obtain ⟨hFIDT, hFT, l⟩ := t
    cases l with
    | nil => simp [acquireFCBs, acquireFCB]
    | cons g l =>
      obtain ⟨hg, hnd⟩ := List.nodup_cons.mp hnd
      obtain ⟨hfst, hlist, hcount⟩ := ih { modifyFCB ⟨hFIDT, hFT, g :: l⟩ g
        fun b => { b with refcount := 0 } with freelist := l } hnd
      rw [acquireFCBs]
      simp only [acquireFCB, hfst, hlist, hcount, List.take_succ_cons, List.drop_succ_cons,
        List.mem_cons, true_and]
      intro f
      by_cases hf : f = g
      · subst hf
        simp [modifyFCB]
      · simp [modifyFCB, hf]

theorem releaseFCBs_freelist (fs : List Nat) (t : FileTables) :
    (fs.foldl releaseFCB t).freelist = t.freelist ++ fs := by
  induction fs generalizing t with
  | nil => exact (List.append_nil _).symm
  | cons f fs ih =>
    rw [List.foldl_cons, ih, releaseFCB]
    simp

/-! ## Entering them in the table -/

theorem install_foldl_freelist (p : Nat) (es : List (Int × Nat)) (t : FileTables) :
    (es.foldl (install p) t).freelist = t.freelist := by
  induction es generalizing t with
  | nil => rfl
  | cons e es ih => exact ih (install p t e)

theorem install_FIDT (t : FileTables) (p q : Nat) (e : Int × Nat) (i : Int) :
    (install p t e).FIDT q i = if q = p ∧ i = e.1 then some e.2 else t.FIDT q i :=
  setEntry_FIDT ..

/-- Entries that are not among the reserved ones stay. -/
theorem install_foldl_FIDT_of_notMem (p : Nat) (es : List (Int × Nat)) (t : FileTables) {q : Nat}
    {i : Int} (hi : q = p → i ∉ es.map (·.1)) : (es.foldl (install p) t).FIDT q i = t.FIDT q i := by
  induction es generalizing t with
  | nil => rfl
  | cons e es ih =>
    have hne : ¬ (q = p ∧ i = e.1) := fun h => hi h.1 (by simp [h.2])
    rw [List.foldl_cons, ih _ fun h hm => hi h (List.mem_cons_of_mem _ hm), install_FIDT, if_neg hne]

theorem install_foldl_entered (p : Nat) (es : List (Int × Nat)) (t : FileTables)
    (hnd : (es.map (·.1)).Nodup) : ∀ e ∈ es, (es.foldl (install p) t).FIDT p e.1 = some e.2 := by
  induction es generalizing t with
  | nil => simp
  | cons e es ih =>
    obtain ⟨he, hnd⟩ := List.nodup_cons.mp hnd
    intro e' he'
    rcases List.mem_cons.mp he' with rfl | hm
    · rw [List.foldl_cons, install_foldl_FIDT_of_notMem _ _ _ fun _ => he, install_FIDT]
      simp
    · exact ih _ hnd e' hm

theorem install_foldl_refcount (p : Nat) (es : List (Int × Nat)) (t : FileTables) (f : Nat)
    (hnd : (es.map (·.2)).Nodup) : ((es.foldl (install p) t).FT f).refcount =
      if f ∈ es.map (·.2) then (t.FT f).refcount + 1 else (t.FT f).refcount := by
  induction es generalizing t with
  | nil => simp
  | cons e es ih =>
    rw [List.map_cons, List.nodup_cons] at hnd
    rw [List.foldl_cons, ih _ hnd.2, install, increfFCB_refcount, setEntry_FT, List.map_cons]
    by_cases hf : f = e.2
    · subst hf
      simp [hnd.1]
    · simp only [List.mem_cons, hf, false_or, if_false]

/-! ## Taking them back -/

theorem unreserveAsserted_eq (p : Nat) (es : List (Int × Nat)) (t : FileTables)
    (hnd : (es.map (·.1)).Nodup) (hes : ∀ e ∈ es, t.FIDT p e.1 = some e.2) :
    t.unreserveAsserted p es = some (t.unreserveFCB p es) := by
  induction es generalizing t with
  | nil => rfl
  | cons e es ih =>
    rw [List.map_cons, List.nodup_cons] at hnd
    rw [unreserveAsserted, if_pos (hes e List.mem_cons_self)]
    refine ih _ hnd.2 fun e' he' => ?_
    -- The entry of another fid is not cleared.
    have hne : e'.1 ≠ e.1 := fun heq => hnd.1 (List.mem_map.mpr ⟨e', he', heq⟩)
    rw [releaseFCB]
    simp only [setEntry_FIDT, hne, and_false, if_false]
    exact hes e' (List.mem_cons_of_mem _ he')

theorem unreserveFCB_freelist (p : Nat) (es : List (Int × Nat)) (t : FileTables) :
    (t.unreserveFCB p es).freelist = t.freelist ++ es.map (·.2) := by
  induction es generalizing t with
  | nil => exact (List.append_nil _).symm
  | cons e es ih =>
    rw [unreserveFCB, List.foldl_cons]
    refine (ih _).trans ?_
    simp [releaseFCB, setEntry]

theorem unreserveFCB_FIDT (p : Nat) (es : List (Int × Nat)) (t : FileTables) (q : Nat) (i : Int) :
    (t.unreserveFCB p es).FIDT q i = if q = p ∧ i ∈ es.map (·.1) then none else t.FIDT q i := by
  induction es generalizing t with
  | nil => simp [unreserveFCB]
  | cons e es ih =>
    rw [unreserveFCB, List.foldl_cons]
    refine (ih _).trans ?_
    rw [releaseFCB]
    simp only [setEntry_FIDT, List.map_cons, List.mem_cons]
    by_cases hq : q = p
    · subst hq
      by_cases hi : i = e.1
      · simp [hi]
      · simp only [hi, true_and, false_or, and_false, if_false]
    · simp [hq]

/-! ## Both outcomes -/

/-- `FCB_reserve` in closed form. -/
theorem reserveFCB_eq (hnd : t.freelist.Nodup) :
    t.reserveFCB num p =
      if num ≤ (t.freeFids p).length ∧ num ≤ t.freelist.length then
        (some (((t.freeFids p).take num).zip (t.freelist.take num)),
          (((t.freeFids p).take num).zip (t.freelist.take num)).foldl (install p)
            (acquireFCBs num t).2)
      else if num ≤ (t.freeFids p).length then
        (none, t.freelist.reverse.foldl releaseFCB (acquireFCBs num t).2)
      else (none, t) := by
  obtain ⟨hfst, -, -⟩ := acquireFCBs_eq num t hnd
  rw [reserveFCB, findFids_eq, hfst, ← freeFids]
  simp only [List.length_take]
  by_cases hfids : num ≤ (t.freeFids p).length
  · rw [if_neg (by omega)]
    by_cases hfcbs : num ≤ t.freelist.length
    · rw [if_neg (by omega), if_pos ⟨hfids, hfcbs⟩]
    · rw [if_pos (by omega), if_neg (by tauto), if_pos hfids, List.take_of_length_le (by omega)]
  · rw [if_pos (by omega), if_neg (by tauto), if_neg hfids]

theorem reserved (hnd : t.freelist.Nodup) {es : List (Int × Nat)}
    (hr : t.reserveFCB num p = (some es, t')) : t.Reserved num p es t' := by
  obtain ⟨-, hlist, hcount⟩ := acquireFCBs_eq num t hnd
  obtain ⟨hFIDT, -, -⟩ := acquireFCBs_frame num t
  have hinc : (t.freeFids p).Pairwise (· < ·) := fids_increasing.filter _
  rw [reserveFCB_eq hnd] at hr
  split at hr
  case isFalse => split at hr <;> cases hr
  rename_i henough
  obtain ⟨hes, rfl⟩ := Prod.mk.inj hr
  have hes := Option.some.inj hes
  have hlen : ((t.freeFids p).take num).length = (t.freelist.take num).length := by
    rw [List.length_take, List.length_take]
    omega
  have hfst : es.map (·.1) = (t.freeFids p).take num := by
    rw [← hes]
    exact List.map_fst_zip (Nat.le_of_eq hlen)
  have hsnd : es.map (·.2) = t.freelist.take num := by
    rw [← hes]
    exact List.map_snd_zip (Nat.le_of_eq hlen.symm)
  have hincreasing : (es.map (·.1)).Pairwise (· < ·) := by
    rw [hfst]
    exact hinc.sublist (List.take_sublist num _)
  have hdistinct : (es.map (·.2)).Nodup := by
    rw [hsnd]
    exact hnd.sublist (List.take_sublist num _)
  have hfidsnd : (es.map (·.1)).Nodup := hincreasing.imp fun h => Int.ne_of_lt h
  have hfree : ∀ i ∈ es.map (·.1), t.FreeFid p i := fun i hi => by
    rw [hfst] at hi
    exact mem_freeFids.mp (List.mem_of_mem_take hi)
  rw [hes]
  have hentered := install_foldl_entered p es (acquireFCBs num t).2 hfidsnd
  have hothers : ∀ q i, (q = p → i ∉ es.map (·.1)) →
      (es.foldl (install p) (acquireFCBs num t).2).FIDT q i = t.FIDT q i := fun q i hi => by
    rw [install_foldl_FIDT_of_notMem p es _ hi, hFIDT]
  have hfreelist : (es.foldl (install p) (acquireFCBs num t).2).freelist = t.freelist.drop num := by
    rw [install_foldl_freelist, hlist]
  refine ⟨?_, hincreasing, fun i hi => ⟨hfree i hi, fun j hj hlt => ?_⟩, hdistinct,
    fun f hf => ⟨?_, ?_, ?_⟩, ?_, hentered, hothers, _, unreserveAsserted_eq p es _ hfidsnd hentered,
    ?_, ?_⟩
  · rw [← hes, List.length_zip, List.length_take, List.length_take]
    omega
  · rw [hfst] at hi ⊢
    exact take_closed hinc hi (mem_freeFids.mpr hj) hlt
  · rw [hsnd] at hf
    exact List.mem_of_mem_take hf
  · rw [hsnd] at hf
    rw [hfreelist]
    exact List.disjoint_take_drop hnd le_rfl hf
  · rw [install_foldl_refcount _ _ _ _ hdistinct, if_pos hf, hcount, if_pos (hsnd ▸ hf), zero_add]
  · rw [hsnd, hfreelist, List.take_append_drop]
  · -- An entry that is cleared was free before.
    funext q i
    rw [unreserveFCB_FIDT]
    split
    · rename_i hi
      obtain ⟨rfl, hi⟩ := hi
      exact (hfree i hi).2.2.symm
    · rename_i hi
      exact hothers q i fun hq hm => hi ⟨hq, hm⟩
  · rw [unreserveFCB_freelist, hfreelist, hsnd]
    have hall := List.take_append_drop num t.freelist
    exact List.perm_append_comm.trans (.of_eq hall)

theorem reserveFCB_none (hnd : t.freelist.Nodup) (hr : t.reserveFCB num p = (none, t')) :
    t'.FIDT = t.FIDT ∧ t'.freelist.Perm t.freelist := by
  obtain ⟨-, hlist, -⟩ := acquireFCBs_eq num t hnd
  rw [reserveFCB_eq hnd] at hr
  split at hr
  · cases hr
  rename_i hshort
  split at hr
  · -- The FCBs ran out: the whole list was acquired, and is given back in reverse.
    rename_i hfids
    have hdrop : t.freelist.drop num = [] := List.drop_eq_nil_of_le (by omega)
    obtain ⟨-, rfl⟩ := Prod.mk.inj hr
    rw [(releaseFCBs_frame _ _).1, (acquireFCBs_frame num t).1, releaseFCBs_freelist, hlist, hdrop]
    exact ⟨rfl, t.freelist.reverse_perm⟩
  · obtain ⟨-, rfl⟩ := Prod.mk.inj hr
    exact ⟨rfl, .refl _⟩

theorem reserveFCB_isSome_iff (hnd : t.freelist.Nodup) :
    (t.reserveFCB num p).1.isSome ↔
      num ≤ (t.freeFids p).length ∧ num ≤ t.freelist.length := by
  rw [reserveFCB_eq hnd]
  split
  · rename_i h
    exact iff_of_true rfl h
  · rename_i h
    refine iff_of_false ?_ h
    split <;> simp

end FileTables

/-- **`FCB_reserve` is all or nothing**, for every file table, every free list and every number. -/
theorem reserve_all_or_nothing (t : FileTables) (num p : Nat) (hnd : t.freelist.Nodup) :
    ((t.reserveFCB num p).1.isSome ↔
      num ≤ (t.freeFids p).length ∧ num ≤ t.freelist.length) ∧
    (∀ es t', t.reserveFCB num p = (some es, t') → t.Reserved num p es t') ∧
    ∀ t', t.reserveFCB num p = (none, t') → t'.FIDT = t.FIDT ∧ t'.freelist.Perm t.freelist :=
  ⟨FileTables.reserveFCB_isSome_iff hnd, fun _ _ hr => FileTables.reserved hnd hr,
    fun _ hr => FileTables.reserveFCB_none hnd hr⟩

/-- Two fids, at boot. -/
theorem reserve_two_at_boot : ∃ es t', FileTables.initializeFiles.reserveFCB 2 1 = (some es, t') ∧
    FileTables.initializeFiles.Reserved 2 1 es t' := by
  obtain ⟨hiff, hsuccess, -⟩ := reserve_all_or_nothing .initializeFiles 2 1
    FileTables.inv_initializeFiles.nodup
  have hfids : 2 ≤ (FileTables.initializeFiles.freeFids 1).length := by decide
  have hlist : FileTables.initializeFiles.freelist.length = MAX_FILES := List.length_range'
  have henough : (FileTables.initializeFiles.reserveFCB 2 1).1.isSome :=
    hiff.mpr ⟨hfids, by rw [hlist]; decide⟩
  obtain ⟨es, hes⟩ := Option.isSome_iff_exists.mp henough
  exact ⟨es, _, Prod.ext hes rfl, hsuccess es _ (Prod.ext hes rfl)⟩

end TinyOS
