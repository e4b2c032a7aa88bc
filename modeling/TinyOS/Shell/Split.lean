import TinyOS.Lib.Cut
import TinyOS.Shell.Line

/-!
# Fragments of a command line

The loop of `process_line` counts in `frag` the separators that it has seen, and `Vargc` and `Vargv`
have one element for each token. There is one fragment more than there are separators. So the arrays
are large enough **unless every token is a separator**: for the line `|`, and for a `time` without
arguments, the loop writes behind the end of `Vargc` (`line_split_iff`).

On any other line, what it has done after each token is to cut the tokens so far (`Split.Cuts`). What
follows the loop then depends on the pieces only (`processLine_eq`).
-/

set_option autoImplicit false

namespace TinyOS

open Transition Cut

/-- The pieces of `tokens` between the separators. -/
def pieces (tokens : List CString) : List (List CString) := tokens.splitOn bar

/-- `Vargc` and `Vargv` say what the pieces of `tokens` are. -/
structure Split.Cuts (st : Split) (tokens : List CString) : Prop where
  length : ∀ (j : Nat) (p : List CString), (pieces tokens)[j]? = some p →
    st.Vargc[j]? = some (p.length : Int)
  start : ∀ (j : Nat) (p : List CString), (pieces tokens)[j]? = some p → p ≠ [] →
    st.Vargv[j]? = some (offset (pieces tokens) j)

/-- The program does nothing but print, and returns 0: it starts no process, and changes no fid. -/
def Rejects (prog : ShellProg Int) : Prop :=
  prog.Every (fun c => ∃ text, c = .printf text) fun ret => ret = 0

/-- The fragment is empty, or names no command. -/
def Unknown (p : List CString) : Prop := ∀ name args, p = name :: args → name ∉ COMMANDS

/-- Whatever the variables of `process_line` hold at first, it stays inside of its arrays, finds the
pieces, and rejects the line if one of them is no command. -/
def WellSplit (argv : List CString) : Prop :=
  ∀ Vargc Vargv pipe, Vargc.length = argv.length → Vargv.length = argv.length →
    (∃ st, splitLine argv Vargc Vargv = some st ∧ st.frag = (pieces argv).length ∧
      st.Cuts argv) ∧
    ∃ prog, processLine argv Vargc Vargv pipe = some prog ∧
      (Rejects prog ↔ ∃ p ∈ pieces argv, Unknown p)

/-! ## The loop -/

theorem store_of_lt {α : Type} {xs : List α} {i : Nat} (h : i < xs.length) (x : α) :
    store xs i x = some (xs.set i x) := if_pos h

/-- The loop has cut `tokens`, and the arrays have `argc` elements. -/
structure Split.Inside (st : Split) (argc : Nat) (tokens : List CString) : Prop where
  cuts : st.Cuts tokens
  frag : st.frag + 1 = (pieces tokens).length
  Vargc : st.Vargc.length = argc
  Vargv : st.Vargv.length = argc

variable {argc : Nat} {tokens rest : List CString} {token : CString} {st : Split}

/-- A separator begins a fragment, whose `Vargc` is set to 0. -/
theorem splitToken_bar (h : st.Inside argc tokens) (hroom : st.frag + 1 < argc) :
    ∃ st', splitToken tokens.length bar st = some st' ∧ st'.Inside argc (tokens ++ [bar]) := by
  have hpieces : pieces (tokens ++ [bar]) = pieces tokens ++ [[]] := splitOn_concat_self
  have hstep : splitToken tokens.length bar st =
      some { st with Vargc := st.Vargc.set (st.frag + 1) 0, frag := st.frag + 1 } := by
    simp [splitToken, store_of_lt (h.Vargc ▸ hroom)]
  -- A piece of the longer list is an old one, or the new one.
  have hcases : ∀ {j : Nat} {p : List CString}, (pieces (tokens ++ [bar]))[j]? = some p →
      (pieces tokens)[j]? = some p ∧ j < st.frag + 1 ∨ j = st.frag + 1 ∧ p = [] := by
    intro j p hp
    rw [hpieces, List.getElem?_append] at hp
    split at hp
    · rename_i hj
      exact .inl ⟨hp, h.frag ▸ hj⟩
    · have := List.getElem?_eq_some_iff.mp hp
      obtain ⟨hj, hp⟩ := this
      have hj : j = st.frag + 1 := by
        simp only [List.length_singleton] at hj
        have := h.frag
        omega
      exact .inr ⟨hj, by simpa using hp.symm⟩
  refine ⟨_, hstep, ⟨⟨fun j p hp => ?_, fun j p hp hne => ?_⟩, ?_, ?_, h.Vargv⟩⟩
  · obtain ⟨hold, hj⟩ | ⟨rfl, rfl⟩ := hcases hp
    · show (st.Vargc.set (st.frag + 1) 0)[j]? = _
      rw [List.getElem?_set_ne (by omega)]
      exact h.cuts.length j p hold
    · exact List.getElem?_set_self (h.Vargc ▸ hroom)
  · obtain ⟨hold, hj⟩ | ⟨-, rfl⟩ := hcases hp
    · rw [hpieces, offset_append _ _ (by have := h.frag; omega)]
      exact h.cuts.start j p hold hne
    · exact absurd rfl hne
  · rw [hpieces, List.length_append, ← h.frag, List.length_singleton]
  · rw [← h.Vargc]
    exact List.length_set

/-- Any other token belongs to the last fragment, and is the first one there if it was empty. -/
theorem splitToken_word (h : st.Inside argc tokens) (hroom : st.frag < argc) (hword : token ≠ bar) :
    ∃ st', splitToken tokens.length token st = some st' ∧ st'.frag = st.frag ∧
      st'.Inside argc (tokens ++ [token]) := by
  obtain ⟨init, last, hold, hnew⟩ := splitOn_concat_ne (l := tokens) hword
  have hold : pieces tokens = init ++ [last] := hold
  have hnew : pieces (tokens ++ [token]) = init ++ [last ++ [token]] := hnew
  have hfrag : st.frag = init.length := by
    have := h.frag
    rw [hold, List.length_append, List.length_singleton] at this
    omega
  have hcount : st.Vargc[st.frag]? = some (last.length : Int) :=
    h.cuts.length st.frag last (by simp [hold, hfrag])
  -- The pieces before the last one, and where they begin, are the same.
  have hoffset : ∀ j ≤ init.length,
      offset (pieces (tokens ++ [token])) j = offset (pieces tokens) j := fun j hj => by
    rw [hold, hnew, offset_append _ _ hj, offset_append _ _ hj]
  have hcases : ∀ {j : Nat} {p : List CString}, (pieces (tokens ++ [token]))[j]? = some p →
      (pieces tokens)[j]? = some p ∧ j < st.frag ∨ j = st.frag ∧ p = last ++ [token] := by
    intro j p hp
    rw [hnew, List.getElem?_append] at hp
    rw [hold, hfrag, List.getElem?_append]
    split at hp
    · rename_i hj
      exact .inl ⟨by rw [if_pos hj]; exact hp, hj⟩
    · obtain ⟨hj, hp⟩ := List.getElem?_eq_some_iff.mp hp
      simp only [List.length_singleton] at hj
      exact .inr ⟨by omega, by simpa using hp.symm⟩
  have hlength : ∀ (j : Nat) (p : List CString), (pieces (tokens ++ [token]))[j]? = some p →
      (st.Vargc.set st.frag (last.length + 1))[j]? = some (p.length : Int) := by
    intro j p hp
    obtain ⟨hp, hj⟩ | ⟨rfl, rfl⟩ := hcases hp
    · rw [List.getElem?_set_ne (by omega)]
      exact h.cuts.length j p hp
    · rw [List.getElem?_set_self (h.Vargc ▸ hroom)]
      simp
  have hsize : (st.Vargc.set st.frag ((last.length : Int) + 1)).length = argc := by
    rw [List.length_set, h.Vargc]
  have hpieces : st.frag + 1 = (pieces (tokens ++ [token])).length := by
    rw [hnew, hfrag, List.length_append, List.length_singleton]
  unfold splitToken
  rw [if_pos hword, hcount, Option.bind_eq_bind, Option.bind_some,
    store_of_lt (h.Vargc ▸ hroom), Option.bind_eq_bind, Option.bind_some]
  cases last with
  | nil =>
    rw [if_pos (by simp), store_of_lt (h.Vargv ▸ hroom), Option.bind_eq_bind, Option.bind_some]
    refine ⟨_, rfl, rfl, ⟨⟨hlength, fun j p hp hne => ?_⟩, hpieces, hsize, ?_⟩⟩
    · show (st.Vargv.set st.frag tokens.length)[j]? = _
      obtain ⟨hp, hj⟩ | ⟨rfl, rfl⟩ := hcases hp
      · rw [List.getElem?_set_ne (by omega), hoffset j (by omega)]
        exact h.cuts.start j p hp hne
      · -- The tokens so far, and a separator for each fragment but the last one.
        have htotal : offset (pieces tokens) (pieces tokens).length = tokens.length + 1 :=
          offset_length
        rw [List.getElem?_set_self (h.Vargv ▸ hroom), hoffset _ (by omega), hfrag]
        rw [hold] at htotal ⊢
        rw [offset_append _ _ le_rfl]
        simp only [offset, List.take_length, List.map_append, List.sum_append, List.map_cons,
          List.map_nil, List.length_nil, List.sum_cons, List.sum_nil] at htotal ⊢
        exact congrArg some (by omega)
    · rw [← h.Vargv]
      exact List.length_set
  | cons first last =>
    have hmore : ¬ (((first :: last).length : Int) + 1 = 1) := by
      rw [List.length_cons]
      omega
    rw [if_neg hmore]
    refine ⟨_, rfl, rfl, ⟨⟨hlength, fun j p hp hne => ?_⟩, hpieces, hsize, h.Vargv⟩⟩
    show st.Vargv[j]? = _
    obtain ⟨hp, hj⟩ | ⟨rfl, rfl⟩ := hcases hp
    · rw [hoffset j (by omega)]
      exact h.cuts.start j p hp hne
    · rw [hoffset st.frag (by omega)]
      exact h.cuts.start st.frag (first :: last) (by simp [hold, hfrag]) (by simp)

/-- **The loop cuts the line**, if there are fewer separators than elements. -/
theorem splitLoop_inside (h : st.Inside argc tokens)
    (hroom : (tokens ++ rest).count bar < argc) :
    ∃ st', splitLoop tokens.length rest st = some st' ∧ st'.Inside argc (tokens ++ rest) := by
  induction rest generalizing tokens st with
  | nil => exact ⟨st, rfl, by rwa [List.append_nil]⟩
  | cons token rest ih =>
    have hfrag : st.frag = tokens.count bar := by
      have := h.frag.trans length_splitOn
      omega
    have happend : tokens ++ token :: rest = (tokens ++ [token]) ++ rest := by simp
    rw [happend] at hroom ⊢
    have hstep : ∃ st', splitToken tokens.length token st = some st' ∧
        st'.Inside argc (tokens ++ [token]) := by
      rw [List.count_append, List.count_append] at hroom
      by_cases hbar : token = bar
      · subst hbar
        rw [List.count_singleton_self] at hroom
        exact splitToken_bar h (by omega)
      · obtain ⟨st', hst', -, hinside⟩ := splitToken_word h (by omega) hbar
        exact ⟨st', hst', hinside⟩
    obtain ⟨st₁, hst₁, h₁⟩ := hstep
    obtain ⟨st', hst', hinside⟩ := ih h₁ hroom
    rw [List.length_append, List.length_singleton] at hst'
    exact ⟨st', by rw [splitLoop, hst₁, Option.bind_some, hst'], hinside⟩

/-- There is a token that is no separator, so there are fewer separators than tokens. -/
theorem count_bar_lt {argv : List CString} (h : ∃ token ∈ argv, token ≠ bar) :
    argv.count bar < argv.length := by
  obtain ⟨token, hmem, hne⟩ := h
  refine lt_of_le_of_ne List.count_le_length fun heq => ?_
  exact hne (List.count_eq_length.mp heq token hmem).symm

theorem splitLine_cuts {argv : List CString} (h : ∃ token ∈ argv, token ≠ bar) {Vargc : List Int}
    {Vargv : List Nat} (hc : Vargc.length = argv.length) (hv : Vargv.length = argv.length) :
    ∃ st, splitLine argv Vargc Vargv = some st ∧ st.frag = (pieces argv).length ∧
      st.Cuts argv := by
  have hroom : ([] ++ argv).count bar < argv.length := count_bar_lt h
  have hstart : Split.Inside { Vargc := Vargc.set 0 0, Vargv := Vargv, frag := 0 } argv.length
      [] := by
    refine ⟨⟨fun j p hp => ?_, fun j p hp hne => ?_⟩, rfl, by rw [List.length_set, hc], hv⟩
    · obtain ⟨hj, rfl⟩ := List.getElem?_eq_some_iff.mp hp
      obtain rfl : j = 0 := by simpa [pieces] using hj
      exact List.getElem?_set_self (by omega)
    · obtain ⟨hj, rfl⟩ := List.getElem?_eq_some_iff.mp hp
      obtain rfl : j = 0 := by simpa [pieces] using hj
      exact absurd rfl hne
  obtain ⟨st, hst, hinside⟩ := splitLoop_inside hstart hroom
  refine ⟨{ st with frag := st.frag + 1 }, ?_, hinside.frag, ⟨hinside.cuts.length,
    hinside.cuts.start⟩⟩
  rw [List.length_nil] at hst
  rw [splitLine, store_of_lt (by omega), Option.bind_eq_bind, Option.bind_some, hst,
    Option.bind_eq_bind, Option.bind_some]

/-- Where every token is a separator, the last one has no room for the fragment behind it. -/
theorem splitLoop_bars (n i : Nat) (hn : 0 < n) (st : Split) (hst : st.Vargc.length = st.frag + n) :
    splitLoop i (List.replicate n bar) st = none := by
  induction n generalizing i st with
  | zero => exact absurd hn (lt_irrefl 0)
  | succ n ih =>
    rw [List.replicate_succ, splitLoop, splitToken, if_neg (not_not.mpr rfl)]
    by_cases hlast : n = 0
    · have hfull : ¬ st.frag + 1 < st.Vargc.length := by omega
      rw [store, if_neg hfull]
      rfl
    · rw [store_of_lt (by omega)]
      exact ih (i + 1) (by omega) _ (by simp only [List.length_set]; omega)

theorem splitLine_none {argv : List CString} (h : ∀ token ∈ argv, token = bar) {Vargc : List Int}
    (hc : Vargc.length = argv.length) (Vargv : List Nat) : splitLine argv Vargc Vargv = none := by
  have hbars : argv = List.replicate argv.length bar := List.eq_replicate_of_mem h
  cases hlen : argv.length with
  | zero =>
    -- Without tokens there is not even a first element.
    have hempty : ¬ 0 < Vargc.length := by omega
    rw [splitLine, store, if_neg hempty]
    rfl
  | succ n =>
    rw [hlen] at hbars
    rw [splitLine, store_of_lt (by omega), hbars, Option.bind_eq_bind, Option.bind_some,
      splitLoop_bars (n + 1) 0 (by omega) _ (by simp only [List.length_set]; omega)]
    rfl

/-! ## The checks -/

/-- What the checks make of the pieces. -/
def checkPieces : List (List CString) → Except (List UInt8) (List Fragment)
  | [] => .ok []
  | [] :: _ => .error emptyFragment
  | (name :: args) :: ps =>
    match COMMANDS.findIdx? (fun cmdname => cmdname = name) with
    | none => .error (notFound name)
    | some comd => (checkPieces ps).map fun fs => ⟨comd, name :: args⟩ :: fs

theorem checkLoop_eq {argv : List CString} (h : st.Cuts argv) (n i : Nat)
    (hn : i + n = (pieces argv).length) :
    checkLoop argv st n i = some (checkPieces ((pieces argv).drop i)) := by
  induction n generalizing i with
  | zero =>
    rw [List.drop_eq_nil_of_le (by omega)]
    rfl
  | succ n ih =>
    have hi : i < (pieces argv).length := by omega
    obtain ⟨p, hp⟩ : ∃ p, (pieces argv)[i]? = some p := ⟨_, List.getElem?_eq_getElem hi⟩
    have hdrop : (pieces argv).drop i = p :: (pieces argv).drop (i + 1) := by
      rw [List.drop_eq_getElem_cons hi, (List.getElem?_eq_some_iff.mp hp).2]
    rw [checkLoop, h.length i p hp, hdrop, Option.bind_eq_bind, Option.bind_some]
    cases p with
    | nil => rfl
    | cons name args =>
      have hcount : ¬ (((name :: args).length : Int) = 0) := by
        rw [List.length_cons]
        omega
      obtain ⟨-, hslice⟩ := slice_splitOn hp
      have hname : argv[offset (pieces argv) i]? = some name := by
        have := congrArg List.head? hslice
        rwa [List.head?_take, if_neg (by simp), List.head?_drop] at this
      rw [if_neg hcount, h.start i _ hp (by simp), Option.bind_eq_bind, Option.bind_some, hname,
        Option.bind_eq_bind, Option.bind_some, checkPieces, Int.toNat_natCast]
      cases COMMANDS.findIdx? (fun cmdname => cmdname = name) with
      | none => rfl
      | some comd =>
        show (checkLoop argv st n (i + 1)).bind _ = _
        rw [ih (i + 1) (by omega), Option.bind_some]
        exact congrArg (fun args => some ((checkPieces _).map fun fs => ⟨comd, args⟩ :: fs)) hslice

/-- **What the line does depends on its pieces only.** -/
theorem processLine_eq {argv : List CString} (h : ∃ token ∈ argv, token ≠ bar) {Vargc : List Int}
    {Vargv : List Nat} (hc : Vargc.length = argv.length) (hv : Vargv.length = argv.length)
    (pipe : PipeT) :
    processLine argv Vargc Vargv pipe = some (respond pipe (checkPieces (pieces argv))) := by
  obtain ⟨st, hst, hfrag, hcuts⟩ := splitLine_cuts h hc hv
  rw [processLine, hst, Option.bind_eq_bind, Option.bind_some, hfrag,
    checkLoop_eq hcuts _ 0 (by omega)]
  rfl

theorem findIdx_eq_none {name : CString} :
    COMMANDS.findIdx? (fun cmdname => cmdname = name) = none ↔ name ∉ COMMANDS := by
  rw [List.findIdx?_eq_none_iff]
  simp only [decide_eq_false_iff_not]
  exact ⟨fun h hm => h name hm rfl, fun h x hx he => h (he ▸ hx)⟩

/-- The checks fail at a piece that is no command. -/
theorem checkPieces_error_iff (ps : List (List CString)) :
    (∃ text, checkPieces ps = .error text) ↔ ∃ p ∈ ps, Unknown p := by
  induction ps with
  | nil => simp [checkPieces]
  | cons p ps ih =>
    simp only [List.exists_mem_cons_iff]
    cases p with
    | nil =>
      have hunknown : Unknown [] := fun name args h => absurd h (by simp)
      exact iff_of_true ⟨_, rfl⟩ (.inl hunknown)
    | cons name args =>
      have hname : Unknown (name :: args) ↔ name ∉ COMMANDS := by
        constructor
        · intro h
          exact h name args rfl
        · rintro h name' args' he
          obtain ⟨rfl, rfl⟩ := List.cons.inj he
          exact h
      rw [checkPieces, hname, ← findIdx_eq_none]
      cases COMMANDS.findIdx? (fun cmdname => cmdname = name) with
      | none => exact iff_of_true ⟨_, rfl⟩ (.inl rfl)
      | some comd =>
        simp only [reduceCtorEq, false_or]
        rw [← ih]
        cases checkPieces ps with
        | error text => exact iff_of_true ⟨_, rfl⟩ ⟨_, rfl⟩
        | ok fs => simp [Except.map]

/-- A line that passes the checks makes a system call at once. -/
theorem rejects_respond_iff (pipe : PipeT) (r : Except (List UInt8) (List Fragment)) :
    Rejects (respond pipe r) ↔ ∃ text, r = .error text := by
  cases r with
  | error text => exact iff_of_true ⟨⟨text, rfl⟩, fun _ => rfl⟩ ⟨text, rfl⟩
  | ok fs =>
    refine iff_of_false ?_ (by simp)
    rintro ⟨⟨text, h⟩, -⟩
    cases h

/-- **The arrays are large enough, and the rest is right, unless every token is a separator.** -/
theorem line_split_iff (argv : List CString) : WellSplit argv ↔ ∃ token ∈ argv, token ≠ bar := by
  constructor
  · intro h
    by_contra hbars
    have hbars : ∀ token ∈ argv, token = bar := by
      intro token hm
      by_contra hne
      exact hbars ⟨token, hm, hne⟩
    obtain ⟨⟨st, hst, -⟩, -⟩ := h (List.replicate argv.length 0) (List.replicate argv.length 0)
      ⟨0, 0⟩ List.length_replicate List.length_replicate
    rw [splitLine_none hbars List.length_replicate] at hst
    cases hst
  · intro h Vargc Vargv pipe hc hv
    refine ⟨splitLine_cuts h hc hv, _, processLine_eq h hc hv pipe, ?_⟩
    rw [rejects_respond_iff, checkPieces_error_iff]

/-- The line `|`. -/
theorem not_line_split : ¬ WellSplit [bar] := by
  intro h
  obtain ⟨⟨st, hst, -⟩, -⟩ := h [0] [0] ⟨0, 0⟩ rfl rfl
  have hnone : splitLine [bar] [0] [0] = none := by decide
  rw [hnone] at hst
  cases hst

end TinyOS
