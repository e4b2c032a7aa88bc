import TinyOS.Args.Pack
import TinyOS.Lib.Greedy
import TinyOS.Lib.Standard
import TinyOS.Lib.Words

/-!
# Lists of integers on the command line (`unit_testing.c`)

`parse_int_list` reads a list such as `1,2,4`. The numbers are collected in `args`, sorted, and copied
to `nlist` at the end. But whether a number has come up before is looked up **in `nlist`**, whose old
contents are still there. So a number is passed over if it is one of the first old values, and is
stored again if it is not: what is collected is a greedy selection (`Greedy.select`), and not one of
each value. If too much of it is stored, it does not fit into `args`.

What a token is worth is decided after the `long` of `strtol` has been made an `int`.

The comparison that is passed to `qsort` answers 1 or 0, and never a negative number. It tells `qsort`
that 1 is equal to 2, but 2 greater than 1. **That is no order**, and `qsort` need not sort by it; so
all that can be relied on is a list of one value.
-/

set_option autoImplicit false

namespace TinyOS

open Standard

/-! ## The code -/

/-- `cmpint`. -/
def cmpint (a b : Int) : Int := if b < a then 1 else 0

/-- The first two tests of the loop: the number that a token is, or `none` if it is rejected. The
range goes from `lo` to `hi`. -/
def readNumber (lo hi : Int) (token : List UInt8) : Option Int :=
  let (value, endptr) := strtol token
  let num := Words.int32 value
  if endptr = token ∨ endptr ≠ [] then none
  else if num < lo ∨ hi < num then none
  else some num

/-- How the loop ends. -/
inductive TokenLoop where
  /-- A number is stored behind the end of `args`. -/
  | overrun
  /-- `return 0`. -/
  | failed
  | done (args : List Int)
  deriving DecidableEq

/-- The number is one of the first `n` in `nlist`. -/
def Held (nlist : Nat → Int) (n : Nat) (num : Int) : Prop := ∃ j < n, num = nlist j

instance (nlist : Nat → Int) (n : Nat) (num : Int) : Decidable (Held nlist n num) :=
  inferInstanceAs (Decidable (∃ j < n, num = nlist j))

/-- The loop over the tokens. There are `args.length` numbers in the array so far. -/
def tokenLoop (nlist : Nat → Int) (lo hi : Int) : List (List UInt8) → List Int → TokenLoop
  | [], args => .done args
  | token :: rest, args =>
    match readNumber lo hi token with
    | none => .failed
    | some num =>
      if Held nlist args.length num then tokenLoop nlist lo hi rest args
      else if (args.length : Int) < hi - lo + 1 then tokenLoop nlist lo hi rest (args ++ [num])
      else .overrun

/-- `memcpy` of whole numbers. -/
def copyInts (nlist : Nat → Int) (args : List Int) : Nat → Int :=
  fun j => args[j]?.getD (nlist j)

/-- `parse_int_list`: what is returned, and the new `*nlen` and `nlist`. `none` is what C leaves
undefined: an array `args` without a positive length or of a length that is no `int`, and a number
that is stored behind its end. -/
def parseIntList (qsort : Qsort Int) (arg : CString) (nlen : Int) (nlist : Nat → Int) (lo hi : Int) :
    Option (Int × Int × (Nat → Int)) :=
  if 0 < hi - lo + 1 ∧ hi - lo + 1 < 2 ^ 31 then
    match tokenLoop nlist lo hi (tokens 44 arg.1) [] with
    | .overrun => none
    | .failed => some (0, nlen, nlist)
    | .done args =>
      let args := qsort.sort cmpint args
      some (if 0 < args.length then 1 else 0, args.length, copyInts nlist args)
  else none

/-! ## What it is for -/

/-- The pieces between the commas. -/
def listPieces (arg : CString) : List (List UInt8) := (arg.1.splitOn 44).filter (· ≠ [])

/-- What `parse_int_list` should return and store. -/
structure Parses (arg : CString) (nlist : Nat → Int) (lo hi : Int) (ret nlen' : Int)
    (nlist' : Nat → Int) : Prop where
  success : ret = 1 ↔
    listPieces arg ≠ [] ∧ ∀ t ∈ listPieces arg, ∃ n, Decimal t n ∧ lo ≤ n ∧ n ≤ hi
  stored : ret = 1 → ∃ len : Nat, nlen' = len ∧ ((List.range len).map nlist').Pairwise (· < ·) ∧
    ∀ n, n ∈ (List.range len).map nlist' ↔ ∃ t ∈ listPieces arg, Decimal t n
  failure : ret ≠ 1 → nlist' = nlist

/-- It does so, and stays inside of its array. -/
def ParsesList (qsort : Qsort Int) (arg : CString) (nlen : Int) (nlist : Nat → Int) (lo hi : Int) :
    Prop :=
  ∃ ret nlen' nlist', parseIntList qsort arg nlen nlist lo hi = some (ret, nlen', nlist') ∧
    Parses arg nlist lo hi ret nlen' nlist'

/-- The numbers that are read before a token is rejected. -/
def acceptedNumbers (lo hi : Int) : List (List UInt8) → List Int
  | [] => []
  | t :: ts =>
    match readNumber lo hi t with
    | none => []
    | some num => num :: acceptedNumbers lo hi ts

/-- The list can be read in spite of what `nlist` holds. -/
structure Readable (arg : CString) (nlist : Nat → Int) (lo hi : Int) : Prop where
  /-- The length of `args` is an `int`, and positive. -/
  size : 0 < hi - lo + 1 ∧ hi - lo + 1 < 2 ^ 31
  /-- A token is rejected, and too few numbers come before it to fill the array; or none is rejected,
  all are the same `int`, and if it comes up again, it is the one that `nlist` begins with. -/
  numbers :
    ((∃ t ∈ listPieces arg, readNumber lo hi t = none) ∧
      ∀ s, s.Sublist (acceptedNumbers lo hi (listPieces arg)) → Greedy.Allowed (Held nlist) 0 s →
        (s.length : Int) ≤ hi - lo + 1) ∨
    ((∀ t ∈ listPieces arg, readNumber lo hi t ≠ none) ∧
      (∀ t ∈ listPieces arg, ∀ n, Decimal t n → -2 ^ 31 ≤ n ∧ n < 2 ^ 31) ∧
      (∀ a ∈ acceptedNumbers lo hi (listPieces arg),
        ∀ b ∈ acceptedNumbers lo hi (listPieces arg), a = b) ∧
      Greedy.Marks (Held nlist) (acceptedNumbers lo hi (listPieces arg)))

/-! ## The numbers -/

variable {qsort : Qsort Int} {arg : CString} {nlen : Int} {nlist : Nat → Int}
  {lo hi num n : Int} {t : List UInt8} {ts : List (List UInt8)} {args : List Int}

/-- **`cmpint` orders nothing but equal numbers.** -/
theorem consistent_cmpint_iff {l : List Int} :
    Consistent cmpint l ↔ ∀ a ∈ l, ∀ b ∈ l, a = b := by
  have hnot : ∀ a b, ¬ cmpint a b < 0 := by
    intro a b
    unfold cmpint
    split <;> omega
  have hle : ∀ a ∈ l, ∀ b ∈ l, Consistent cmpint l → a ≤ b := by
    intro a ha b hb h
    by_contra hlt
    refine hnot b a ((h.swap b hb a ha).mpr ?_)
    rw [cmpint, if_pos (by omega)]
    decide
  constructor
  · exact fun h a ha b hb => le_antisymm (hle a ha b hb h) (hle b hb a ha h)
  · intro hsame
    have hzero : ∀ a ∈ l, ∀ b ∈ l, cmpint a b = 0 := by
      intro a ha b hb
      rw [hsame a ha b hb, cmpint, if_neg (lt_irrefl b)]
    constructor
    case swap =>
      intro a ha b hb
      rw [hzero a ha b hb, hzero b hb a ha]
    case trans => exact fun a ha b _ c hc _ _ => (hzero a ha c hc).le

/-- A decimal integer in the range is read as it is. -/
theorem readNumber_of_decimal (h : Decimal t n) (hlo : -2 ^ 31 ≤ lo) (hhi : hi < 2 ^ 31)
    (hge : lo ≤ n) (hle : n ≤ hi) : readNumber lo hi t = some n := by
  have hvalue : strtol t = (n, []) := by
    rw [strtol_of_decimal h, toLong_of_le (by omega) (by omega)]
  have hnum : Words.int32 n = n := Words.int32_of_lt (by omega) (by omega)
  have hcomplete : ¬ ([] = t ∨ ([] : List UInt8) ≠ []) := by simp [h.ne_nil.symm]
  have hrange : ¬ (n < lo ∨ hi < n) := by omega
  simp only [readNumber, hvalue, hnum, if_neg hcomplete, if_neg hrange]

/-- And what is read is a decimal integer, which is the number if it is an `int`. -/
theorem decimal_of_readNumber (h : readNumber lo hi t = some num) :
    lo ≤ num ∧ num ≤ hi ∧ ∃ n, Decimal t n ∧ (-2 ^ 31 ≤ n → n < 2 ^ 31 → num = n) := by
  rcases hvalue : strtol t with ⟨value, endptr⟩
  simp only [readNumber, hvalue] at h
  split at h
  case isTrue => cases h
  case isFalse hcomplete =>
    obtain ⟨hmoved, rfl⟩ : ¬ endptr = t ∧ endptr = [] := by simpa using hcomplete
    obtain ⟨n, hn, rfl⟩ := decimal_of_strtol hvalue (Ne.symm hmoved)
    split at h
    case isTrue => cases h
    case isFalse hrange =>
      obtain rfl := Option.some.inj h
      refine ⟨by omega, by omega, n, hn, fun hge hlt => ?_⟩
      rw [toLong_of_le (by omega) (by omega), Words.int32_of_lt hge hlt]

theorem mem_acceptedNumbers (hall : ∀ t ∈ ts, readNumber lo hi t ≠ none) :
    num ∈ acceptedNumbers lo hi ts ↔ ∃ t ∈ ts, readNumber lo hi t = some num := by
  induction ts with
  | nil => simp [acceptedNumbers]
  | cons t ts ih =>
    obtain ⟨m, hm⟩ := Option.ne_none_iff_exists'.mp (hall t List.mem_cons_self)
    have hrest := ih fun u hu => hall u (List.mem_cons_of_mem t hu)
    simp only [acceptedNumbers, hm, List.mem_cons, hrest, exists_eq_or_imp, Option.some.injEq]
    rw [eq_comm]

/-! ## The loop -/

/-- **The loop selects greedily**, until it is full or a token is rejected. -/
theorem tokenLoop_eq (hfits : (args.length : Int) ≤ hi - lo + 1) :
    tokenLoop nlist lo hi ts args =
      let kept := Greedy.select (Held nlist) args (acceptedNumbers lo hi ts)
      if (kept.length : Int) ≤ hi - lo + 1 then
        if ∀ t ∈ ts, readNumber lo hi t ≠ none then .done kept else .failed
      else .overrun := by
  induction ts generalizing args with
  | nil => simp [tokenLoop, acceptedNumbers, Greedy.select, hfits]
  | cons t ts ih =>
    cases hread : readNumber lo hi t with
    | none => simp [tokenLoop, acceptedNumbers, Greedy.select, hread, hfits]
    | some num =>
      have hall : (∀ u ∈ t :: ts, readNumber lo hi u ≠ none) ↔
          ∀ u ∈ ts, readNumber lo hi u ≠ none := by
        simp [hread]
      simp only [tokenLoop, acceptedNumbers, Greedy.select, hread, hall]
      by_cases hheld : Held nlist args.length num
      · simp only [if_pos hheld]
        exact ih hfits
      · simp only [if_neg hheld]
        by_cases hroom : (args.length : Int) < hi - lo + 1
        · rw [if_pos hroom]
          exact ih (by rw [List.length_append, List.length_singleton]; omega)
        · -- The selection that follows is no shorter than what does not fit.
          have hlong := Greedy.length_le_select (Held nlist) (args ++ [num]) (acceptedNumbers lo hi ts)
          rw [List.length_append, List.length_singleton] at hlong
          rw [if_neg hroom, if_neg (by omega)]

/-! ## What is stored -/

theorem map_copyInts (nlist : Nat → Int) (args : List Int) :
    (List.range args.length).map (copyInts nlist args) = args := by
  refine List.ext_getElem (by simp) fun j hj hj' => ?_
  simp [copyInts, hj']

theorem copyInts_nil (nlist : Nat → Int) : copyInts nlist [] = nlist := by
  funext j
  simp [copyInts]

/-- Numbers that increase strictly are different. -/
theorem nodup_of_increasing {l l' : List Int} (hperm : l'.Perm l) (h : l'.Pairwise (· < ·)) :
    l.Nodup := by
  rw [← hperm.nodup_iff]
  exact h.imp fun hlt => hlt.ne

/-- And numbers that are all the same increase strictly if none comes twice. -/
theorem increasing_of_nodup {l l' : List Int} (hperm : l'.Perm l) (hsame : ∀ a ∈ l, ∀ b ∈ l, a = b)
    (hnd : l.Nodup) : l'.Pairwise (· < ·) := by
  have hnd' : l'.Nodup := hperm.nodup_iff.mpr hnd
  have hsame' : ∀ a ∈ l', ∀ b ∈ l', a = b := fun a ha b hb =>
    hsame a (hperm.mem_iff.mp ha) b (hperm.mem_iff.mp hb)
  refine hnd'.pairwise_of_forall_ne fun a ha b hb hne => ?_
  exact absurd (hsame' a ha b hb) hne

/-- As many numbers as there are in the range, at most. -/
theorem length_le_of_nodup {l : List Int} (hnd : l.Nodup) (hrange : ∀ n ∈ l, lo ≤ n ∧ n ≤ hi)
    (hsize : 0 < hi - lo + 1) : (l.length : Int) ≤ hi - lo + 1 := by
  have hsub : l.toFinset ⊆ Finset.Icc lo hi := fun n hn =>
    Finset.mem_Icc.mpr (hrange n (List.mem_toFinset.mp hn))
  have hcard := Finset.card_le_card hsub
  rw [List.toFinset_card_of_nodup hnd, Int.card_Icc] at hcard
  omega

/-- The numbers that the code collects. -/
def collected (arg : CString) (nlist : Nat → Int) (lo hi : Int) : List Int :=
  Greedy.select (Held nlist) [] (acceptedNumbers lo hi (listPieces arg))

theorem held_mono (m k : Nat) (num : Int) (hle : m ≤ k) (h : Held nlist m num) :
    Held nlist k num := by
  obtain ⟨j, hj, heq⟩ := h
  exact ⟨j, hj.trans_le hle, heq⟩

/-- **The whole function.** -/
theorem parseIntList_eq (hsize : 0 < hi - lo + 1 ∧ hi - lo + 1 < 2 ^ 31) :
    parseIntList qsort arg nlen nlist lo hi =
      if ((collected arg nlist lo hi).length : Int) ≤ hi - lo + 1 then
        if ∀ t ∈ listPieces arg, readNumber lo hi t ≠ none then
          some (if 0 < (collected arg nlist lo hi).length then 1 else 0,
            ((collected arg nlist lo hi).length : Int),
            copyInts nlist (qsort.sort cmpint (collected arg nlist lo hi)))
        else some (0, nlen, nlist)
      else none := by
  have hnil : (([] : List Int).length : Int) ≤ hi - lo + 1 := by
    rw [List.length_nil]
    omega
  have htokens : tokens 44 arg.1 = listPieces arg := tokens_eq 44 arg.1
  have hloop : tokenLoop nlist lo hi (listPieces arg) [] =
      if ((collected arg nlist lo hi).length : Int) ≤ hi - lo + 1 then
        if ∀ t ∈ listPieces arg, readNumber lo hi t ≠ none then
          .done (collected arg nlist lo hi)
        else .failed
      else .overrun := tokenLoop_eq hnil
  rw [parseIntList, if_pos hsize, htokens, hloop]
  by_cases hfits : ((collected arg nlist lo hi).length : Int) ≤ hi - lo + 1
  · simp only [if_pos hfits]
    by_cases hall : ∀ t ∈ listPieces arg, readNumber lo hi t ≠ none
    · simp only [if_pos hall, qsort.length_sort]
    · simp only [if_neg hall]
  · simp only [if_neg hfits]

/-- If no token is rejected, something is collected from the first one on. -/
theorem collected_ne_nil (hne : listPieces arg ≠ [])
    (hall : ∀ t ∈ listPieces arg, readNumber lo hi t ≠ none) : collected arg nlist lo hi ≠ [] := by
  obtain ⟨t, ts, hts⟩ := List.exists_cons_of_ne_nil hne
  obtain ⟨num, hnum⟩ := Option.ne_none_iff_exists'.mp (hall t (hts ▸ List.mem_cons_self))
  have hfresh : ¬ Held nlist 0 num := by
    rintro ⟨j, hj, -⟩
    exact Nat.not_lt_zero j hj
  have hlen := Greedy.length_le_select (Held nlist) [num] (acceptedNumbers lo hi ts)
  intro hnil
  simp only [collected, hts, acceptedNumbers, hnum, Greedy.select, List.length_nil, if_neg hfresh,
    List.nil_append] at hnil
  rw [hnil] at hlen
  exact absurd hlen (by simp)

/-- If all tokens are right, the numbers are the decimal integers. -/
theorem mem_acceptedNumbers_iff (hall : ∀ t ∈ ts, ∃ n, Decimal t n ∧ readNumber lo hi t = some n) :
    n ∈ acceptedNumbers lo hi ts ↔ ∃ t ∈ ts, Decimal t n := by
  have hread : ∀ t ∈ ts, readNumber lo hi t ≠ none := by
    intro t ht
    obtain ⟨m, -, hm⟩ := hall t ht
    simp [hm]
  rw [mem_acceptedNumbers hread]
  refine exists_congr fun t => and_congr_right fun ht => ?_
  obtain ⟨m, hdec, hm⟩ := hall t ht
  rw [hm, Option.some.injEq]
  exact ⟨fun he => he ▸ hdec, fun hn => hdec.unique hn⟩

/-- Every token is a decimal integer, and is read as it is. -/
def ReadsAll (arg : CString) (lo hi : Int) : Prop :=
  ∀ t ∈ listPieces arg, ∃ n, Decimal t n ∧ readNumber lo hi t = some n

theorem readsAll_of_range (hlo : -2 ^ 31 ≤ lo) (hhi : hi < 2 ^ 31)
    (h : ∀ t ∈ listPieces arg, ∃ n, Decimal t n ∧ lo ≤ n ∧ n ≤ hi) : ReadsAll arg lo hi := by
  intro t ht
  obtain ⟨n, hn, hge, hle⟩ := h t ht
  exact ⟨n, hn, readNumber_of_decimal hn hlo hhi hge hle⟩

theorem readsAll_of_ints (hall : ∀ t ∈ listPieces arg, readNumber lo hi t ≠ none)
    (hints : ∀ t ∈ listPieces arg, ∀ n, Decimal t n → -2 ^ 31 ≤ n ∧ n < 2 ^ 31) :
    ReadsAll arg lo hi := by
  intro t ht
  obtain ⟨num, hnum⟩ := Option.ne_none_iff_exists'.mp (hall t ht)
  obtain ⟨-, -, n, hn, hint⟩ := decimal_of_readNumber hnum
  obtain rfl := hint (hints t ht n hn).1 (hints t ht n hn).2
  exact ⟨num, hn, hnum⟩

/-- One of each value is collected if what is stored is right, -/
theorem ReadsAll.selects (h : ReadsAll arg lo hi) {l : List Int}
    (hperm : l.Perm (collected arg nlist lo hi)) (hlt : l.Pairwise (· < ·))
    (hmem : ∀ n, n ∈ l ↔ ∃ t ∈ listPieces arg, Decimal t n) :
    Greedy.Selects (acceptedNumbers lo hi (listPieces arg)) (collected arg nlist lo hi) := by
  refine ⟨nodup_of_increasing hperm hlt, fun n => ?_⟩
  rw [← hperm.mem_iff, hmem, mem_acceptedNumbers_iff h]

/-- and only if, where all are the same. -/
theorem ReadsAll.stored (h : ReadsAll arg lo hi) {l : List Int}
    (hperm : l.Perm (collected arg nlist lo hi))
    (hsame : ∀ a ∈ collected arg nlist lo hi, ∀ b ∈ collected arg nlist lo hi, a = b)
    (hs : Greedy.Selects (acceptedNumbers lo hi (listPieces arg)) (collected arg nlist lo hi)) :
    l.Pairwise (· < ·) ∧ ∀ n, n ∈ l ↔ ∃ t ∈ listPieces arg, Decimal t n := by
  refine ⟨increasing_of_nodup hperm hsame hs.1, fun n => ?_⟩
  rw [hperm.mem_iff, hs.2, mem_acceptedNumbers_iff h]

/-- They fit into the array then. -/
theorem ReadsAll.length_le (h : ReadsAll arg lo hi) (hsize : 0 < hi - lo + 1)
    (hs : Greedy.Selects (acceptedNumbers lo hi (listPieces arg)) (collected arg nlist lo hi)) :
    ((collected arg nlist lo hi).length : Int) ≤ hi - lo + 1 := by
  refine length_le_of_nodup hs.1 (fun n hn => ?_) hsize
  obtain ⟨t, ht, hdec⟩ := (mem_acceptedNumbers_iff h).mp ((hs.2 n).mp hn)
  obtain ⟨m, hm, hread⟩ := h t ht
  obtain rfl := hdec.unique hm
  obtain ⟨hge, hle, -⟩ := decimal_of_readNumber hread
  exact ⟨hge, hle⟩

/-! ## When it parses a list -/

theorem collected_length_le_iff (hsize : 0 < hi - lo + 1) :
    ((collected arg nlist lo hi).length : Int) ≤ hi - lo + 1 ↔
      ∀ s, s.Sublist (acceptedNumbers lo hi (listPieces arg)) → Greedy.Allowed (Held nlist) 0 s →
        (s.length : Int) ≤ hi - lo + 1 := by
  obtain ⟨k, hk⟩ := Int.eq_ofNat_of_zero_le hsize.le
  rw [hk]
  simp only [collected, Nat.cast_le]
  exact Greedy.length_select_le_iff

/-- A list with a token that is rejected. -/
theorem parsesList_of_rejected (hlo : -2 ^ 31 ≤ lo) (hhi : hi < 2 ^ 31)
    (hsize : 0 < hi - lo + 1 ∧ hi - lo + 1 < 2 ^ 31) (ht : t ∈ listPieces arg)
    (hrejected : readNumber lo hi t = none)
    (hfits : ((collected arg nlist lo hi).length : Int) ≤ hi - lo + 1) :
    ParsesList qsort arg nlen nlist lo hi := by
  have hall : ¬ ∀ t ∈ listPieces arg, readNumber lo hi t ≠ none := fun hall => hall t ht hrejected
  refine ⟨0, nlen, nlist, ?_, ?_, fun h => absurd h (by decide), fun _ => rfl⟩
  · rw [parseIntList_eq hsize, if_pos hfits, if_neg hall]
  · refine iff_of_false (by decide) ?_
    rintro ⟨-, hright⟩
    obtain ⟨n, hn, hge, hle⟩ := hright t ht
    rw [readNumber_of_decimal hn hlo hhi hge hle] at hrejected
    cases hrejected

/-- A list without. -/
theorem parsesList_of_selects (hsize : 0 < hi - lo + 1 ∧ hi - lo + 1 < 2 ^ 31)
    (hreads : ReadsAll arg lo hi)
    (hsame : ∀ a ∈ collected arg nlist lo hi, ∀ b ∈ collected arg nlist lo hi, a = b)
    (hs : Greedy.Selects (acceptedNumbers lo hi (listPieces arg)) (collected arg nlist lo hi)) :
    ParsesList qsort arg nlen nlist lo hi := by
  have hall : ∀ t ∈ listPieces arg, readNumber lo hi t ≠ none := by
    intro t ht
    obtain ⟨n, -, hn⟩ := hreads t ht
    simp [hn]
  have hperm := qsort.perm (consistent_cmpint_iff.mpr hsame)
  have hstored := map_copyInts nlist (qsort.sort cmpint (collected arg nlist lo hi))
  rw [qsort.length_sort] at hstored
  have hrun : parseIntList qsort arg nlen nlist lo hi = _ := parseIntList_eq hsize
  rw [if_pos (hreads.length_le hsize.1 hs), if_pos hall] at hrun
  refine ⟨_, _, _, hrun, ?_⟩
  by_cases hnone : listPieces arg = []
  · have hempty : collected arg nlist lo hi = [] := by
      simp [collected, hnone, acceptedNumbers, Greedy.select]
    have hsorted : qsort.sort cmpint (collected arg nlist lo hi) = [] := by
      rw [← List.length_eq_zero_iff, qsort.length_sort, hempty, List.length_nil]
    rw [hsorted, copyInts_nil, hempty]
    exact ⟨by simp [hnone], fun h => absurd h (by simp), fun _ => rfl⟩
  · have hpos : 0 < (collected arg nlist lo hi).length :=
      List.length_pos_of_ne_nil (collected_ne_nil hnone hall)
    rw [if_pos hpos]
    refine ⟨iff_of_true rfl ⟨hnone, fun t ht => ?_⟩, fun _ => ⟨_, rfl, ?_⟩, fun h => absurd rfl h⟩
    · obtain ⟨n, hn, hread⟩ := hreads t ht
      obtain ⟨hge, hle, -⟩ := decimal_of_readNumber hread
      exact ⟨n, hn, hge, hle⟩
    · rw [hstored]
      exact hreads.stored hperm hsame hs

/-- And what follows if a list without one is parsed. -/
theorem ParsesList.increasing (h : ParsesList qsort arg nlen nlist lo hi)
    (hsize : 0 < hi - lo + 1 ∧ hi - lo + 1 < 2 ^ 31)
    (hall : ∀ t ∈ listPieces arg, readNumber lo hi t ≠ none)
    (hfits : ((collected arg nlist lo hi).length : Int) ≤ hi - lo + 1) :
    (∀ t ∈ listPieces arg, ∃ n, Decimal t n ∧ lo ≤ n ∧ n ≤ hi) ∧
      (qsort.sort cmpint (collected arg nlist lo hi)).Pairwise (· < ·) ∧
      ∀ n, n ∈ qsort.sort cmpint (collected arg nlist lo hi) ↔
        ∃ t ∈ listPieces arg, Decimal t n := by
  obtain ⟨ret, nlen', nlist', hrun, hparses⟩ := h
  rw [parseIntList_eq hsize, if_pos hfits, if_pos hall] at hrun
  simp only [Option.some.injEq, Prod.mk.injEq] at hrun
  obtain ⟨hret, rfl, rfl⟩ := hrun
  by_cases hnone : listPieces arg = []
  · have hempty : collected arg nlist lo hi = [] := by
      simp [collected, hnone, acceptedNumbers, Greedy.select]
    have hsorted : qsort.sort cmpint (collected arg nlist lo hi) = [] := by
      rw [← List.length_eq_zero_iff, qsort.length_sort, hempty, List.length_nil]
    simp [hnone, hsorted]
  · have hpos : 0 < (collected arg nlist lo hi).length :=
      List.length_pos_of_ne_nil (collected_ne_nil hnone hall)
    rw [if_pos hpos] at hret
    obtain ⟨-, hrange⟩ := hparses.success.mp hret.symm
    obtain ⟨len, hlen, hstored⟩ := hparses.stored hret.symm
    obtain rfl : (collected arg nlist lo hi).length = len := by exact_mod_cast hlen
    have hmap := map_copyInts nlist (qsort.sort cmpint (collected arg nlist lo hi))
    rw [qsort.length_sort] at hmap
    rw [hmap] at hstored
    exact ⟨hrange, hstored⟩

/-! ### A `qsort` that does no more than it has to -/

/-- It sorts the other way round where the comparison is not consistent. -/
def descendingSort : Qsort Int where
  sort compar l :=
    if Consistent compar l then sortElements compar l
    else l.mergeSort fun a b => b ≤ a
  length_sort compar l := by
    split
    · exact (sortElements_perm compar l).length_eq
    · exact (List.mergeSort_perm l _).length_eq
  perm h := by
    rw [if_pos h]
    exact sortElements_perm _ _
  sorted h := by
    rw [if_pos h]
    exact sortElements_sorted h

theorem descendingSort_perm (l : List Int) : (descendingSort.sort cmpint l).Perm l := by
  simp only [descendingSort]
  split
  · exact sortElements_perm cmpint l
  · exact List.mergeSort_perm l _

/-- It leaves no two numbers in order. -/
theorem same_of_descendingSort {l : List Int}
    (h : (descendingSort.sort cmpint l).Pairwise (· < ·)) : ∀ a ∈ l, ∀ b ∈ l, a = b := by
  rw [← consistent_cmpint_iff]
  by_contra hno
  have hdown : (descendingSort.sort cmpint l).Pairwise fun a b => b ≤ a := by
    simp only [descendingSort, if_neg hno]
    have hsorted : (l.mergeSort fun a b => b ≤ a).Pairwise fun a b => decide (b ≤ a) = true := by
      refine List.pairwise_mergeSort (fun a b c hab hbc => ?_) (fun a b => ?_) l
      · exact decide_eq_true ((of_decide_eq_true hbc).trans (of_decide_eq_true hab))
      · simpa using le_total b a
    exact hsorted.imp of_decide_eq_true
  refine hno (consistent_cmpint_iff.mpr fun a ha b hb => ?_)
  have hmem := fun c => (descendingSort_perm l).mem_iff (a := c)
  have hsame : (descendingSort.sort cmpint l).Pairwise fun a b => a = b :=
    (h.and hdown).imp fun hab => absurd hab.1 (not_lt.mpr hab.2)
  exact hsame.forall_of_forall (fun _ _ => rfl) ((hmem a).mpr ha) ((hmem b).mpr hb)

/-- **The code reads a list of integers** as it should, whatever the `qsort`, if and only if the list
is readable in spite of what `nlist` holds. -/
theorem parsesList_iff (arg : CString) (nlen : Int) (nlist : Nat → Int) (lo hi : Int)
    (hlo : -2 ^ 31 ≤ lo) (hhi : hi < 2 ^ 31) :
    (∀ qsort : Qsort Int, ParsesList qsort arg nlen nlist lo hi) ↔ Readable arg nlist lo hi := by
  have hmarks : Greedy.Selects (acceptedNumbers lo hi (listPieces arg)) (collected arg nlist lo hi) ↔
      Greedy.Marks (Held nlist) (acceptedNumbers lo hi (listPieces arg)) :=
    Greedy.selects_iff held_mono
  constructor
  · intro h
    have h := h descendingSort
    have ⟨_, _, _, hrun, _⟩ := h
    have hsize : 0 < hi - lo + 1 ∧ hi - lo + 1 < 2 ^ 31 := by
      by_contra hno
      rw [parseIntList, if_neg hno] at hrun
      cases hrun
    have hfits : ((collected arg nlist lo hi).length : Int) ≤ hi - lo + 1 := by
      by_contra hno
      rw [parseIntList_eq hsize, if_neg hno] at hrun
      cases hrun
    refine ⟨hsize, ?_⟩
    by_cases hall : ∀ t ∈ listPieces arg, readNumber lo hi t ≠ none
    · obtain ⟨hrange, hlt, hmem⟩ := h.increasing hsize hall hfits
      have hreads := readsAll_of_range hlo hhi hrange
      have hs := hreads.selects (descendingSort_perm _) hlt hmem
      refine .inr ⟨hall, fun t ht n hn => ?_, fun a ha b hb => ?_, hmarks.mp hs⟩
      · obtain ⟨m, hm, hge, hle⟩ := hrange t ht
        obtain rfl := hn.unique hm
        omega
      · exact same_of_descendingSort hlt a ((hs.2 a).mpr ha) b ((hs.2 b).mpr hb)
    · exact .inl ⟨by simpa using hall, (collected_length_le_iff hsize.1).mp hfits⟩
  · rintro ⟨hsize, ⟨⟨t, ht, hrejected⟩, hfew⟩ | ⟨hall, hints, hsame, hmarked⟩⟩ qsort
    · have hfits := (collected_length_le_iff hsize.1).mpr hfew
      exact parsesList_of_rejected hlo hhi hsize ht hrejected hfits
    · have hs := hmarks.mpr hmarked
      refine parsesList_of_selects hsize (readsAll_of_ints hall hints) (fun a ha b hb => ?_) hs
      exact hsame a ((hs.2 a).mp ha) b ((hs.2 b).mp hb)

/-- The old contents of `nlist` begin with the number that comes up again. -/
theorem parsesList_two_two : ParsesList descendingSort (cstring "2,2" (by decide)) 0
    (fun j => if j = 0 then 2 else 9) 1 32 := by
  refine (parsesList_iff _ _ _ 1 32 (by decide) (by decide)).mpr
    ⟨by decide, .inr ⟨by decide, fun t ht n hn => ?_, by decide, ?_⟩⟩ descendingSort
  · have hpiece : ∀ t ∈ listPieces (cstring "2,2" (by decide)), readInteger t = some (2, []) := by
      decide
    obtain rfl := hn.unique (decimal_iff.mpr (hpiece t ht))
    decide
  · have hnumbers : acceptedNumbers 1 32 (listPieces (cstring "2,2" (by decide))) = [2, 2] := by
      decide
    have hselect : Greedy.select (Held fun j => if j = 0 then 2 else 9) [] [2, 2] = [2] := by
      decide
    rw [hnumbers, ← Greedy.selects_iff held_mono, hselect]
    exact ⟨by decide, fun a => by simp⟩

/-- The number comes up again, and `nlist` holds zeros. -/
theorem not_parsesList : ¬ ∃ qsort : Qsort Int, ∀ (arg : CString) (nlen : Int) (nlist : Nat → Int)
    (lo hi : Int), -2 ^ 31 ≤ lo → hi < 2 ^ 31 → lo ≤ hi → hi - lo + 1 < 2 ^ 31 →
      ParsesList qsort arg nlen nlist lo hi := by
  rintro ⟨qsort, hparses⟩
  have h := hparses (cstring "1,1" (by decide)) 0 (fun _ => 0) 1 32 (by decide) (by decide) (by decide)
    (by decide)
  have hcollected : collected (cstring "1,1" (by decide)) (fun _ => 0) 1 32 = [1, 1] := by decide
  obtain ⟨-, hlt, -⟩ := h.increasing (by decide) (by decide) (by decide)
  rw [hcollected] at hlt
  have hconsistent : Consistent cmpint [1, 1] := by decide
  exact absurd (nodup_of_increasing (qsort.perm hconsistent) hlt) (by decide)

end TinyOS
