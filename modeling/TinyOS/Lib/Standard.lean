import Mathlib
import TinyOS.Lib.Cut

/-!
# From the C standard library

`strtok` with one delimiter, called on a string until there is no token left, finds the pieces
between the delimiters that are not empty (`tokens_eq`). `strtol` in base 10 reads an integer at the
beginning of a string; if it is out of range for a `long`, the nearest `long` is what it returns.
`qsort` brings the elements of an array into an order in which none compares greater than a later
one, **provided that the comparison orders them at all**; so what a caller may rely on is what every
such function does (`Qsort`).

A string is a list of its bytes, and a pointer into it is what follows there.
-/

set_option autoImplicit false

namespace Standard

universe u

/-! ## `strtok` -/

section
variable {α : Type u} [DecidableEq α]

/-- `strtok`: the first token, and the string that the next call goes on with. -/
def strtok (delim : α) (s : List α) : Option (List α × List α) :=
  match s.dropWhile (· = delim) with
  | [] => none
  | c :: t => some ((c :: t).takeWhile (· ≠ delim), ((c :: t).dropWhile (· ≠ delim)).tail)

theorem strtok_length {delim : α} {s token rest : List α}
    (h : strtok delim s = some (token, rest)) : rest.length < s.length := by
  unfold strtok at h
  split at h
  case h_1 => cases h
  case h_2 c t heq =>
    obtain ⟨-, rfl⟩ := Prod.mk.inj (Option.some.inj h)
    have hdrop : (s.dropWhile (· = delim)).length ≤ s.length := (List.dropWhile_suffix _).length_le
    have hrest : ((c :: t).dropWhile (· ≠ delim)).length ≤ (c :: t).length :=
      (List.dropWhile_suffix _).length_le
    rw [heq] at hdrop
    rw [List.length_tail]
    rw [List.length_cons] at hdrop hrest
    omega

/-- The tokens of a string. -/
def tokens (delim : α) (s : List α) : List (List α) :=
  match _h : strtok delim s with
  | none => []
  | some (token, rest) => token :: tokens delim rest
termination_by s.length
decreasing_by exact strtok_length _h

theorem tokens_of_none {delim : α} {s : List α} (h : strtok delim s = none) :
    tokens delim s = [] := by
  rw [tokens]
  split
  · rfl
  · rename_i hsome
    rw [h] at hsome
    cases hsome

theorem tokens_of_some {delim : α} {s token rest : List α}
    (h : strtok delim s = some (token, rest)) : tokens delim s = token :: tokens delim rest := by
  rw [tokens]
  split
  · rename_i hnone
    rw [h] at hnone
    cases hnone
  · rename_i hsome
    rw [h] at hsome
    cases hsome
    rfl

theorem tokens_cons_self (delim : α) (s : List α) : tokens delim (delim :: s) = tokens delim s := by
  have hsame : strtok delim (delim :: s) = strtok delim s := by simp [strtok]
  cases h : strtok delim s with
  | none => rw [tokens_of_none h, tokens_of_none (hsame.trans h)]
  | some r =>
    obtain ⟨token, rest⟩ := r
    rw [tokens_of_some h, tokens_of_some (hsame.trans h)]

/-- **The tokens are the pieces** that are not empty. -/
theorem tokens_eq (delim : α) (s : List α) :
    tokens delim s = (s.splitOn delim).filter (· ≠ []) := by
  induction hn : s.length using Nat.strong_induction_on generalizing s with
  | _ n ih =>
    subst hn
    cases s with
    | nil =>
      rw [tokens_of_none rfl, List.splitOn_nil]
      simp
    | cons c s =>
      by_cases hc : c = delim
      · rw [hc, tokens_cons_self, Cut.splitOn_cons_self, List.filter_cons_of_neg (by simp)]
        exact ih s.length (Nat.lt_succ_self _) s rfl
      · have hfirst : strtok delim (c :: s) = some ((c :: s).takeWhile (· ≠ delim),
            ((c :: s).dropWhile (· ≠ delim)).tail) := by
          unfold strtok
          rw [List.dropWhile_cons_of_neg (by simpa using hc)]
        have hcut := List.takeWhile_append_dropWhile (p := (· ≠ delim)) (l := c :: s)
        have hnot : delim ∉ (c :: s).takeWhile (· ≠ delim) := fun hm => by
          simpa using List.mem_takeWhile_imp hm
        have hne : (c :: s).takeWhile (· ≠ delim) ≠ [] := by simp [hc]
        have hlen := strtok_length hfirst
        rw [tokens_of_some hfirst]
        generalize (c :: s).takeWhile (· ≠ delim) = token at hcut hnot hne
        cases hrest : (c :: s).dropWhile (· ≠ delim) with
        | nil =>
          rw [hrest, List.append_nil] at hcut
          rw [← hcut, List.splitOn_eq_singleton hnot, List.tail_nil, tokens_of_none rfl]
          simp [hne]
        | cons d rest =>
          have hd : d = delim := by
            have := List.head?_dropWhile_not (· ≠ delim) (c :: s)
            rw [hrest] at this
            simpa using this
          rw [hrest, hd] at hcut
          rw [hrest, List.tail_cons] at hlen
          rw [← hcut, List.splitOn_append_cons_self_of_not_mem hnot, List.tail_cons,
            List.filter_cons_of_pos (by simpa using hne), ih rest.length hlen rest rfl]

end

/-! ## `strtol` -/

/-- `isspace`, in the C locale. -/
def isspace (c : UInt8) : Bool := c = 32 ∨ 9 ≤ c ∧ c ≤ 13

/-- `isdigit`. -/
def isdigit (c : UInt8) : Bool := 48 ≤ c ∧ c ≤ 57

/-- The value of a sequence of digits. -/
def digitsValue (digits : List UInt8) : Nat :=
  digits.foldl (fun n c => 10 * n + (c.toNat - 48)) 0

/-- Whether there is a minus sign, and what follows the sign. -/
def readSign : List UInt8 → Bool × List UInt8
  | [] => (false, [])
  | c :: s => if c = 45 then (true, s) else if c = 43 then (false, s) else (false, c :: s)

/-- The integer at the beginning of a string, and what follows it. -/
def readInteger (s : List UInt8) : Option (Int × List UInt8) :=
  let (minus, t) := readSign (s.dropWhile isspace)
  let digits := t.takeWhile isdigit
  if digits = [] then none
  else some (if minus then -digitsValue digits else digitsValue digits, t.dropWhile isdigit)

/-- The nearest `long`. -/
def toLong (n : Int) : Int := max (-2 ^ 63) (min (2 ^ 63 - 1) n)

/-- `strtol` in base 10: the number, and what is stored at `endptr`. -/
def strtol (s : List UInt8) : Int × List UInt8 :=
  match readInteger s with
  | none => (0, s)
  | some (n, rest) => (toLong n, rest)

/-- The whole string is a decimal integer: white space, perhaps a sign, and digits. -/
inductive Decimal : List UInt8 → Int → Prop where
  | plain (spaces digits : List UInt8) : (∀ c ∈ spaces, isspace c) → (∀ c ∈ digits, isdigit c) →
      digits ≠ [] → Decimal (spaces ++ digits) (digitsValue digits)
  | plus (spaces digits : List UInt8) : (∀ c ∈ spaces, isspace c) → (∀ c ∈ digits, isdigit c) →
      digits ≠ [] → Decimal (spaces ++ 43 :: digits) (digitsValue digits)
  | minus (spaces digits : List UInt8) : (∀ c ∈ spaces, isspace c) → (∀ c ∈ digits, isdigit c) →
      digits ≠ [] → Decimal (spaces ++ 45 :: digits) (-digitsValue digits)

theorem toLong_of_le {n : Int} (h₀ : -2 ^ 63 ≤ n) (h : n < 2 ^ 63) : toLong n = n := by
  unfold toLong
  omega

/-- Neither a sign nor a digit is a space. -/
theorem dropWhile_isspace {spaces s : List UInt8} (hspaces : ∀ c ∈ spaces, isspace c) {c : UInt8}
    (hc : isspace c = false) : (spaces ++ c :: s).dropWhile isspace = c :: s := by
  rw [List.dropWhile_append_of_pos hspaces, List.dropWhile_cons_of_neg (by simp [hc])]

theorem isspace_of_isdigit {c : UInt8} (hc : isdigit c) : isspace c = false := by
  simp only [isdigit, isspace, decide_eq_true_eq, decide_eq_false_iff_not,
    UInt8.le_iff_toNat_le] at hc ⊢
  rintro (rfl | ⟨-, hle⟩)
  · exact absurd hc.1 (by decide)
  · exact absurd (hc.1.trans hle) (by decide)

theorem readSign_of_isdigit {c : UInt8} (s : List UInt8) (hc : isdigit c) :
    readSign (c :: s) = (false, c :: s) := by
  have hminus : c ≠ 45 := by
    rintro rfl
    exact absurd hc (by decide)
  have hplus : c ≠ 43 := by
    rintro rfl
    exact absurd hc (by decide)
  rw [readSign, if_neg hminus, if_neg hplus]

/-- What `readInteger` does after the sign. -/
theorem readInteger_of_sign {s t : List UInt8} {b : Bool}
    (hsign : readSign (s.dropWhile isspace) = (b, t)) (ht : ∀ c ∈ t, isdigit c) (hne : t ≠ []) :
    readInteger s = some (if b then -(digitsValue t : Int) else digitsValue t, []) := by
  have htake : t.takeWhile isdigit = t := List.takeWhile_eq_self_iff.mpr ht
  have hdrop : t.dropWhile isdigit = [] := List.dropWhile_eq_nil_iff.mpr ht
  simp only [readInteger, hsign, htake, hdrop, hne, if_false]

theorem readInteger_of_decimal {s : List UInt8} {n : Int} (h : Decimal s n) :
    readInteger s = some (n, []) := by
  cases h with
  | plain spaces digits hspaces hdigits hne =>
    obtain ⟨c, ds, rfl⟩ := List.exists_cons_of_ne_nil hne
    have hc : isdigit c := hdigits c List.mem_cons_self
    have hsign : readSign ((spaces ++ c :: ds).dropWhile isspace) = (false, c :: ds) := by
      rw [dropWhile_isspace hspaces (isspace_of_isdigit hc), readSign_of_isdigit ds hc]
    exact readInteger_of_sign hsign hdigits hne
  | plus spaces digits hspaces hdigits hne =>
    have hsign : readSign ((spaces ++ 43 :: digits).dropWhile isspace) = (false, digits) := by
      rw [dropWhile_isspace hspaces (by decide)]
      rfl
    exact readInteger_of_sign hsign hdigits hne
  | minus spaces digits hspaces hdigits hne =>
    have hsign : readSign ((spaces ++ 45 :: digits).dropWhile isspace) = (true, digits) := by
      rw [dropWhile_isspace hspaces (by decide)]
      rfl
    exact readInteger_of_sign hsign hdigits hne

theorem decimal_of_readInteger {s : List UInt8} {n : Int} (h : readInteger s = some (n, [])) :
    Decimal s n := by
  have hs : s.takeWhile isspace ++ s.dropWhile isspace = s := List.takeWhile_append_dropWhile
  have hspaces : ∀ c ∈ s.takeWhile isspace, isspace c := fun c hc => List.mem_takeWhile_imp hc
  unfold readInteger at h
  generalize s.takeWhile isspace = spaces at hs hspaces
  generalize s.dropWhile isspace = t at hs h
  subst hs
  have hread : ∀ b u, readSign t = (b, u) → (∀ c ∈ u, isdigit c) ∧ u ≠ [] ∧
      n = if b then -(digitsValue u : Int) else digitsValue u := by
    intro b u hsign
    simp only [hsign] at h
    split at h
    case isTrue => cases h
    case isFalse hne =>
      obtain ⟨hn, hdrop⟩ := Prod.mk.inj (Option.some.inj h)
      have hu : ∀ c ∈ u, isdigit c := List.dropWhile_eq_nil_iff.mp hdrop
      rw [List.takeWhile_eq_self_iff.mpr hu] at hne hn
      exact ⟨hu, hne, hn.symm⟩
  cases t with
  | nil => exact absurd rfl (hread false [] rfl).2.1
  | cons c r =>
    by_cases hminus : c = 45
    · obtain ⟨hdigits, hne, rfl⟩ := hread true r (by rw [readSign, if_pos hminus])
      rw [hminus]
      exact .minus spaces r hspaces hdigits hne
    · by_cases hplus : c = 43
      · obtain ⟨hdigits, hne, rfl⟩ := hread false r (by rw [readSign, if_neg hminus, if_pos hplus])
        rw [hplus]
        exact .plus spaces r hspaces hdigits hne
      · obtain ⟨hdigits, hne, rfl⟩ :=
          hread false (c :: r) (by rw [readSign, if_neg hminus, if_neg hplus])
        exact .plain spaces (c :: r) hspaces hdigits hne

/-- **A string is read completely** if and only if it is a decimal integer. -/
theorem decimal_iff {s : List UInt8} {n : Int} : Decimal s n ↔ readInteger s = some (n, []) :=
  ⟨readInteger_of_decimal, decimal_of_readInteger⟩

theorem strtol_of_decimal {s : List UInt8} {n : Int} (h : Decimal s n) :
    strtol s = (toLong n, []) := by
  simp [strtol, decimal_iff.mp h]

/-- If `endptr` is at the end, and not where it was. -/
theorem decimal_of_strtol {s : List UInt8} {value : Int} (h : strtol s = (value, []))
    (hs : s ≠ []) : ∃ n, Decimal s n ∧ value = toLong n := by
  unfold strtol at h
  cases hread : readInteger s with
  | none =>
    rw [hread] at h
    exact absurd (Prod.mk.inj h).2 hs
  | some r =>
    obtain ⟨n, rest⟩ := r
    rw [hread] at h
    obtain ⟨hvalue, rfl⟩ := Prod.mk.inj h
    exact ⟨n, decimal_iff.mpr hread, hvalue.symm⟩

theorem Decimal.unique {s : List UInt8} {m n : Int} (hm : Decimal s m) (hn : Decimal s n) :
    m = n := by
  have := (readInteger_of_decimal hm).symm.trans (readInteger_of_decimal hn)
  simpa using this

theorem Decimal.ne_nil {s : List UInt8} {n : Int} (h : Decimal s n) : s ≠ [] := by
  cases h <;> simp [*]

/-! ## `qsort` -/

section
variable {α : Type u}

/-- The comparison orders the elements of the array: its answers are consistent with one another. -/
structure Consistent (compar : α → α → Int) (l : List α) : Prop where
  swap : ∀ a ∈ l, ∀ b ∈ l, compar a b < 0 ↔ 0 < compar b a
  trans : ∀ a ∈ l, ∀ b ∈ l, ∀ c ∈ l, compar a b ≤ 0 → compar b c ≤ 0 → compar a c ≤ 0

instance (compar : α → α → Int) (l : List α) : Decidable (Consistent compar l) :=
  decidable_of_iff ((∀ a ∈ l, ∀ b ∈ l, compar a b < 0 ↔ 0 < compar b a) ∧
      ∀ a ∈ l, ∀ b ∈ l, ∀ c ∈ l, compar a b ≤ 0 → compar b c ≤ 0 → compar a c ≤ 0)
    ⟨fun h => ⟨h.1, h.2⟩, fun h => ⟨h.1, h.2⟩⟩

variable (α) in
/-- An implementation of `qsort`. **Where the comparison does not order the elements, nothing is known
of what it leaves in the array.** -/
structure Qsort where
  sort : (α → α → Int) → List α → List α
  length_sort : ∀ compar l, (sort compar l).length = l.length
  perm : ∀ {compar l}, Consistent compar l → (sort compar l).Perm l
  sorted : ∀ {compar l}, Consistent compar l → (sort compar l).Pairwise fun a b => compar a b ≤ 0

variable {compar : α → α → Int} {l : List α}

/-- Merge sort, comparing none but the elements of the list. -/
def sortElements (compar : α → α → Int) (l : List α) : List α :=
  (l.attach.mergeSort fun a b => compar a b ≤ 0).map Subtype.val

theorem sortElements_perm (compar : α → α → Int) (l : List α) : (sortElements compar l).Perm l := by
  have hperm := (List.mergeSort_perm l.attach fun a b => decide (compar a b ≤ 0)).map Subtype.val
  rwa [List.attach_map_subtype_val] at hperm

theorem sortElements_sorted (h : Consistent compar l) :
    (sortElements compar l).Pairwise fun a b => compar a b ≤ 0 := by
  have hsorted : (l.attach.mergeSort fun a b => compar a b ≤ 0).Pairwise
      fun (a b : { x // x ∈ l }) => decide (compar a b ≤ 0) = true := by
    refine List.pairwise_mergeSort (fun a b c hab hbc => ?_) (fun a b => ?_) l.attach
    · have hle := h.trans a a.2 b b.2 c c.2 (of_decide_eq_true hab) (of_decide_eq_true hbc)
      exact decide_eq_true hle
    · have := h.swap b b.2 a a.2
      simp only [Bool.or_eq_true, decide_eq_true_eq]
      omega
  exact List.pairwise_map.mpr (hsorted.imp of_decide_eq_true)

end

end Standard
