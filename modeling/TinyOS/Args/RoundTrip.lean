import TinyOS.Args.Pack

/-!
# Packing and unpacking are inverse

A buffer and a vector of strings belong together (`Packed`) when each of the four functions of
`util.h` computes the one from the other. Every vector whose packed form an `int` can measure has
such a buffer, and **every buffer that is empty or ends with a zero has such a vector**.

`argvunpack` is not told where the buffer ends. It stays inside as long as it is asked for no more
strings than the buffer has zeros.
-/

set_option autoImplicit false

namespace TinyOS

open Words Terminated

/-- `packed` is the vector `argv`, packed. -/
structure Packed (argv : List CString) (packed : List UInt8) : Prop where
  length : packed.length = argvlen argv
  /-- Exactly that many bytes are written. -/
  pack : ∀ room : List UInt8, argvlen argv ≤ room.length →
    argvpack room argv = some (argvlen argv, packed ++ room.drop (argvlen argv))
  short : ∀ room : List UInt8, room.length < argvlen argv → argvpack room argv = none
  count : ∀ rest : List UInt8, argscount packed.length (packed ++ rest) = some argv.length
  unpack : ∀ (rest : List UInt8) (out : List Nat) (args : Nat), out.length = argv.length →
    ∃ ptrs, argvunpack argv.length out args (packed ++ rest) = some (ptrs, args + packed.length) ∧
      ptrs.mapM (stringAt args (packed ++ rest)) = some argv

theorem argvlen_of_lt {argv : List CString} (h : (pack argv).length < 2 ^ 31) :
    argvlen argv = (pack argv).length := by
  rw [argvlen_eq]
  exact Nat.mod_eq_of_lt (by omega)

theorem packed_pack {argv : List CString} (h : (pack argv).length < 2 ^ 31) :
    Packed argv (pack argv) where
  length := (argvlen_of_lt h).symm
  pack := by
    intro room hroom
    have hle := length_le_pack argv
    rw [argvlen_of_lt h] at hroom ⊢
    rw [argvpack_eq hroom, int32_of_lt (by omega) (by omega), Int.sub_add_cancel,
      size64_of_lt (by omega)]
  short := by
    intro room hroom
    rw [argvlen_of_lt h] at hroom
    exact argvpack_none hroom
  count := argscount_pack argv
  unpack := by
    intro rest out args hout
    have hdrop : out.drop argv.length = [] := List.drop_of_length_le (Nat.le_of_eq hout)
    refine ⟨starts args argv, ?_, ?_⟩
    · rw [argvunpack_eq argv rest args (Nat.le_of_eq hout.symm), hdrop, List.append_nil]
    · have hread := stringAt_starts args [] argv rest
      exact mapM_of_map hread

/-- No byte behind the buffer is read. -/
theorem argvunpack_pack_isSome (argv : List CString) {m : Nat} (hm : m ≤ argv.length)
    {out : List Nat} (hout : m ≤ out.length) (args : Nat) :
    (argvunpack m out args (pack argv)).isSome := by
  have hlen : (argv.take m).length = m := List.length_take_of_le hm
  have hunpack := argvunpack_eq (argv.take m) (pack (argv.drop m)) args
    (Nat.le_trans (Nat.le_of_eq hlen) hout)
  rw [hlen, ← pack_append, List.take_append_drop] at hunpack
  rw [hunpack]
  rfl

/-- **The four functions agree**, in both directions. -/
theorem argv_round_trip :
    (∀ argv : List CString, (pack argv).length < 2 ^ 31 → ∃ packed, Packed argv packed) ∧
    ∀ bytes : List UInt8, bytes.length < 2 ^ 31 → bytes = [] ∨ bytes.getLast? = some 0 →
      ∃ argv, Packed argv bytes ∧ ∀ (m : Nat) (out : List Nat) (args : Nat), m ≤ argv.length →
        m ≤ out.length → (argvunpack m out args bytes).isSome := by
  constructor
  · intro argv hlen
    exact ⟨pack argv, packed_pack hlen⟩
  · intro bytes hlen hend
    obtain ⟨argv, rfl⟩ := exists_pack hend
    exact ⟨argv, packed_pack hlen,
      fun m out args hm hout => argvunpack_pack_isSome argv hm hout args⟩

/-- An empty string and a long one, and the two zeros of a buffer that holds two empty strings. -/
theorem argv_round_trip_two :
    (∃ packed, Packed [⟨[], by decide⟩, ⟨[97, 98], by decide⟩] packed) ∧
    ∃ argv, Packed argv [0, 0] ∧ ∀ (m : Nat) (out : List Nat) (args : Nat), m ≤ argv.length →
      m ≤ out.length → (argvunpack m out args [0, 0]).isSome :=
  ⟨argv_round_trip.1 _ (by decide), argv_round_trip.2 [0, 0] (by decide) (.inr rfl)⟩

end TinyOS
