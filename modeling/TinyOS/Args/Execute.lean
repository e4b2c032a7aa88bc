import TinyOS.Args.Pack
import TinyOS.Proc.Info

/-!
# `Execute` (`tinyoslib.c`)

`Execute` packs a pointer to the program and the strings of its argument vector into one buffer.
Two decoders read it: `exec_wrapper`, in the new process, on the copy that `Exec` made, and
`ParseProcInfo`, on the copy in a `procinfo`.

The first one agrees with the encoder on every vector whose packed length fits an `int`. The second
one does not store the program: `memcpy(&prog, args, sizeof(prog))` sets the parameter itself and
not what it points to (`decoders_agree_iff`). The strings and their number agree there too.

A function is its address. `none` is undefined behaviour: an access behind the end of a buffer. The
arrays `args` of `Execute` and `argv` of `exec_wrapper` have variable length and lie on the stack of
the thread, which is taken to hold them (it has 128 KiB).
-/

set_option autoImplicit false

namespace TinyOS

open Words Terminated

/-- A pointer to a program. -/
abbrev Program := UInt64

inductive Task where
  | execWrapper
  | other (address : Nat)
  deriving DecidableEq

/-- `memcpy(dst, src, n)` of all the bytes of `src`. -/
def memcpy (dst src : List UInt8) : Option (List UInt8) :=
  if src.length ≤ dst.length then some (src ++ dst.drop src.length) else none

def programBytes (prog : Program) : List UInt8 := toBytes 8 prog.toNat

/-- `memcpy(&prog, args, sizeof(prog))`. -/
def programOf (args : List UInt8) : Program := UInt64.ofNat (ofBytes (args.take 8))

@[simp] theorem length_programBytes (prog : Program) : (programBytes prog).length = 8 := by
  simp [programBytes]

theorem drop_programBytes (prog : Program) (l : List UInt8) :
    (programBytes prog ++ l).drop 8 = l := by
  rw [List.drop_append_of_le_length (by simp), List.drop_of_length_le (by simp), List.nil_append]

theorem programOf_append (prog : Program) (rest : List UInt8) :
    programOf (programBytes prog ++ rest) = prog := by
  have hlen : (programBytes prog).length = 8 := length_programBytes prog
  have hlt : prog.toNat % 256 ^ 8 = prog.toNat := Nat.mod_eq_of_lt prog.toNat_lt
  rw [programOf, List.take_append_of_le_length hlen.ge, List.take_of_length_le hlen.le,
    programBytes, ofBytes_toBytes, hlt, UInt64.ofNat_toNat]

/-! ## The encoder -/

/-- The arguments of `Exec`. -/
structure ExecArgs where
  call : Task
  argl : Int
  args : List UInt8

/-- `Execute`, up to its call of `Exec`. -/
def execute (prog : Program) (argv : List CString) : Option ExecArgs :=
  let argl := (argvlen argv + 8) % 2 ^ 64
  -- `char args[argl]`. Nothing is read before it is written.
  (memcpy (List.replicate argl 0) (programBytes prog)).bind fun args =>
    (argvpack (args.drop 8) argv).map fun x =>
      { call := .execWrapper, argl := int32 argl, args := args.take 8 ++ x.2 }

/-- The copy that `sys_Exec` makes for the new process. A negative length is too much for
`malloc`. -/
def execCopy (argl : Int) (args : List UInt8) : Option (List UInt8) :=
  if argl < 0 ∨ args.length < argl.toNat then none else some (args.take argl.toNat)

/-- The number of bytes that `Execute` packs. -/
def packedLength (argv : List CString) : Nat := 8 + (pack argv).length

theorem length_packed (prog : Program) (argv : List CString) :
    (programBytes prog ++ pack argv).length = packedLength argv := by
  rw [List.length_append, length_programBytes, packedLength]

/-- What `Exec` is called with. -/
def packedArgs (prog : Program) (argv : List CString) : ExecArgs where
  call := .execWrapper
  argl := int32 (packedLength argv)
  args := programBytes prog ++ pack argv

@[simp] theorem packedArgs_argl (prog : Program) (argv : List CString) :
    (packedArgs prog argv).argl = int32 (packedLength argv) := by simp only [packedArgs]

@[simp] theorem packedArgs_args (prog : Program) (argv : List CString) :
    (packedArgs prog argv).args = programBytes prog ++ pack argv := by simp only [packedArgs]

/-- **`Execute`** packs the program and the strings. -/
theorem execute_eq (prog : Program) {argv : List CString} (h : packedLength argv < 2 ^ 64) :
    execute prog argv = some (packedArgs prog argv) := by
  have hlen : (argvlen argv + 8) % 2 ^ 64 = packedLength argv := by
    unfold packedLength at h ⊢
    rw [argvlen_eq, Nat.mod_add_mod, Nat.add_comm]
    exact Nat.mod_eq_of_lt h
  have hfit : (pack argv).length ≤ (List.replicate (pack argv).length (0 : UInt8)).length := by simp
  have hroom : (List.replicate (packedLength argv) (0 : UInt8)).drop 8 =
      List.replicate (pack argv).length 0 := by simp [packedLength]
  have hcopy : memcpy (List.replicate (packedLength argv) 0) (programBytes prog) =
      some (programBytes prog ++ List.replicate (pack argv).length 0) := by
    rw [memcpy, if_pos (by simp [packedLength]), length_programBytes, hroom]
  have hdrop := drop_programBytes prog (List.replicate (pack argv).length 0)
  have htake : (programBytes prog ++ List.replicate (pack argv).length (0 : UInt8)).take 8 =
      programBytes prog := by
    rw [List.take_append_of_le_length (by simp), List.take_of_length_le (by simp)]
  simp only [execute, packedArgs, hlen, hcopy, Option.bind_some, hdrop, htake, argvpack_eq hfit,
    Option.map_some, List.drop_replicate, Nat.sub_self, List.replicate_zero, List.append_nil]

/-- A length that does not fit a `size_t` leaves too small a buffer. -/
theorem execute_none (prog : Program) {argv : List CString} (h : 2 ^ 64 ≤ packedLength argv) :
    execute prog argv = none := by
  obtain ⟨argl, hargl⟩ : ∃ argl, argl = (argvlen argv + 8) % 2 ^ 64 := ⟨_, rfl⟩
  have hlt : argl < 2 ^ 64 := hargl ▸ Nat.mod_lt _ (by decide)
  simp only [execute, ← hargl]
  by_cases h8 : 8 ≤ argl
  · rw [memcpy, if_pos (by simpa using h8), Option.bind_some, argvpack_none, Option.map_none]
    simp only [packedLength] at h
    simp only [length_programBytes, List.drop_replicate, List.length_drop, List.length_append,
      List.length_replicate]
    omega
  · rw [memcpy, if_neg (by simpa using h8), Option.bind_none]

/-! ## The decoders -/

/-- The call of a program: the pointers of `argv` are addresses. -/
structure Call where
  prog : Program
  argc : Nat
  argv : List Nat

/-- `exec_wrapper`, on `bytes` at the address `args`. -/
def execWrapper (argl : Int) (args : Nat) (bytes : List UInt8) : Option Call :=
  if bytes.length < 8 then none
  else
    let argl := int32 (argl - 8)
    (argscount argl (bytes.drop 8)).bind fun argc =>
      (argvunpack argc (List.replicate argc 0) (args + 8) (bytes.drop 8)).map fun x =>
        { prog := programOf bytes, argc := argc, argv := x.1 }

/-- What `ParseProcInfo` reads of a `procinfo`. -/
structure InfoArgs where
  mainTask : Task
  argl : Int
  args : List UInt8

/-- What `ParseProcInfo` returns, and what its pointer parameters point to then; `none` is
`NULL`. -/
structure Parsed where
  ret : Int
  prog : Option Program
  argv : Option (List Nat)

/-- `ParseProcInfo`; `pinfo->args` is at the address `args`. -/
def parseProcInfo (pinfo : InfoArgs) (prog : Option Program) (argc : Int) (args : Nat)
    (argv : Option (List Nat)) : Option Parsed :=
  if pinfo.mainTask ≠ .execWrapper then some { ret := -1, prog := prog, argv := argv }
  else if (PROCINFO_MAX_ARGS_SIZE : Int) < pinfo.argl then
    some { ret := -1, prog := prog, argv := argv }
  else
    -- `if(prog) memcpy(&prog, args, sizeof(prog))`: the parameter changes, `*prog` does not.
    let argl := int32 (pinfo.argl - 8)
    (argscount argl (pinfo.args.drop 8)).bind fun n =>
      match argv with
      | none => some { ret := int32 n, prog := prog, argv := none }
      | some argv =>
        -- `argc>N` compares them as `size_t`.
        let argc := if n < size64 argc then n else size64 argc
        (argvunpack argc argv (args + 8) (pinfo.args.drop 8)).map fun x =>
          { ret := int32 n, prog := prog, argv := some x.1 }

/-! ## What is asked of the decoders -/

/-- The new process calls the program, with equal strings. -/
def ExecAgrees (prog : Program) (argv : List CString) : Prop :=
  ∃ e copy, execute prog argv = some e ∧ e.call = .execWrapper ∧
    execCopy e.argl e.args = some copy ∧
    ∀ args, ∃ c, execWrapper e.argl args copy = some c ∧ c.prog = prog ∧
      c.argc = argv.length ∧ c.argv.map (stringAt args copy) = argv.map some

/-- The `procinfo` of a process with these arguments. -/
structure InfoArgs.Holds (pinfo : InfoArgs) (e : ExecArgs) : Prop where
  mainTask : pinfo.mainTask = e.call
  argl : pinfo.argl = e.argl
  size : pinfo.args.length = PROCINFO_MAX_ARGS_SIZE
  args : pinfo.args.take e.args.length = e.args

/-- `ParseProcInfo` reads the program and the strings. -/
structure ParseAgrees (prog : Program) (argv : List CString) (pinfo : InfoArgs)
    (ptr : Option Program) (args : Nat) (out : Option (List Nat)) (r : Parsed) : Prop where
  ret : r.ret = argv.length
  prog : r.prog = ptr.map fun _ => prog
  null : out = none → r.argv = none
  filled : ∀ a, out = some a → ∃ a', r.argv = some a' ∧ a'.length = a.length ∧
    (a'.take (min a.length argv.length)).map (stringAt args pinfo.args) =
      (argv.take a.length).map some ∧
    a'.drop (min a.length argv.length) = a.drop (min a.length argv.length)

/-- Both decoders agree with `Execute`; `ptr` is what the parameter `prog` of `ParseProcInfo` points
to before. -/
structure DecodersAgree (prog : Program) (argv : List CString) (ptr : Option Program) : Prop where
  exec : ExecAgrees prog argv
  parse : packedLength argv ≤ PROCINFO_MAX_ARGS_SIZE → ∀ e pinfo, execute prog argv = some e →
    pinfo.Holds e → ∀ (argc : Int) args (out : Option (List Nat)), argc < 2 ^ 31 →
    (∀ a ∈ out, argc = a.length) → ∃ r, parseProcInfo pinfo ptr argc args out = some r ∧
      ParseAgrees prog argv pinfo ptr args out r

/-! ## `exec_wrapper` -/

theorem int32_sub_eight {argv : List CString} (h : packedLength argv < 2 ^ 31) :
    int32 (int32 (packedLength argv) - 8) = (pack argv).length := by
  simp only [packedLength] at h ⊢
  rw [int32_of_lt (n := ((8 + (pack argv).length : Nat) : Int)) (by omega) (by omega),
    int32_of_lt (by omega) (by omega)]
  omega

theorem execWrapper_eq (prog : Program) {argv : List CString} (args : Nat)
    (h : packedLength argv < 2 ^ 31) :
    execWrapper (packedArgs prog argv).argl args (packedArgs prog argv).args =
      some { prog := prog, argc := argv.length, argv := starts (args + 8) argv } := by
  have hdrop := drop_programBytes prog (pack argv)
  have hcount := argscount_pack argv []
  have hunpack := argvunpack_eq argv [] (args + 8)
    (List.length_replicate (n := argv.length) (a := 0)).ge
  rw [List.append_nil] at hcount hunpack
  rw [packedArgs_argl, packedArgs_args, execWrapper, if_neg (by simp)]
  simp only [int32_sub_eight h, hdrop, hcount, Option.bind_some, hunpack, Option.map_some,
    programOf_append]
  simp

theorem execCopy_eq (prog : Program) {argv : List CString} (h : packedLength argv < 2 ^ 31) :
    execCopy (packedArgs prog argv).argl (packedArgs prog argv).args =
      some (packedArgs prog argv).args := by
  rw [packedArgs_argl, packedArgs_args, int32_of_lt (by omega) (by omega), execCopy,
    Int.toNat_natCast]
  have hlen := length_packed prog argv
  rw [if_neg (by omega), List.take_of_length_le hlen.le]

theorem execAgrees_of_lt (prog : Program) {argv : List CString} (h : packedLength argv < 2 ^ 31) :
    ExecAgrees prog argv := by
  have he := execute_eq prog (h.trans (by decide))
  refine ⟨packedArgs prog argv, _, he, rfl, execCopy_eq prog h, fun args => ?_⟩
  refine ⟨_, execWrapper_eq prog args h, rfl, rfl, ?_⟩
  have := stringAt_starts args (programBytes prog) argv []
  rwa [length_programBytes, List.append_nil, ← packedArgs_args] at this

/-- A length that does not fit an `int` loses strings, or the whole copy. -/
theorem not_execAgrees_of_le (prog : Program) {argv : List CString}
    (h : 2 ^ 31 ≤ packedLength argv) : ¬ ExecAgrees prog argv := by
  rintro ⟨e, copy, he, -, hcopy, hall⟩
  by_cases h64 : packedLength argv < 2 ^ 64
  · -- The buffer is whole, but its length is cut to an `int` on the way to `Exec`.
    rw [execute_eq prog h64] at he
    cases he
    obtain ⟨argl, hargl⟩ : ∃ argl, argl = int32 (packedLength argv) := ⟨_, rfl⟩
    have hlt : argl < 2 ^ 31 := hargl ▸ int32_lt _
    simp only [packedArgs_argl, packedArgs_args, ← hargl] at hcopy hall
    obtain ⟨c, hc, -, hargc, -⟩ := hall 0
    have hlen := length_packed prog argv
    unfold execCopy at hcopy
    split at hcopy
    · cases hcopy
    · rename_i hpos
      obtain ⟨h₀, -⟩ := not_or.mp hpos
      cases hcopy
      unfold execWrapper at hc
      split at hc
      · cases hc
      · rename_i h8
        rw [List.length_take, hlen] at h8
        obtain ⟨n, hn⟩ : ∃ n : Nat, argl = (8 + n : Nat) := ⟨(argl - 8).toNat, by omega⟩
        subst hn
        have hn : n < (pack argv).length := by
          simp only [packedLength] at h
          omega
        have hargl' : int32 (((8 + n : Nat) : Int) - 8) = n := by
          rw [int32_of_lt (by omega) (by omega)]
          omega
        have hdrop : ((programBytes prog ++ pack argv).take (8 + n)).drop 8 =
            (pack argv).take n := by
          rw [List.drop_take, drop_programBytes, Nat.add_sub_cancel_left]
        have hcount : argscount n ((pack argv).take n) = some (((pack argv).take n).count 0) := by
          rw [argscount, Int.toNat_natCast, countZeros_eq (by simp; omega), List.take_take,
            Nat.min_self]
        simp only [hargl', Int.toNat_natCast, hdrop, hcount, Option.bind_some,
          Option.map_eq_some_iff] at hc
        obtain ⟨_, -, rfl⟩ := hc
        -- The zeros of a prefix are fewer than the strings.
        exact absurd hargc (count_take_lt hn).ne
  · rw [execute_none prog (Nat.le_of_not_lt h64)] at he
    cases he

/-! ## `ParseProcInfo` -/

/-- **`ParseProcInfo`** returns the number of the strings and fills in where they begin. What `prog`
points to stays. -/
theorem parseProcInfo_eq (prog : Program) {argv : List CString} {pinfo : InfoArgs} {argc : Int}
    {out : Option (List Nat)} (ptr : Option Program) (args : Nat)
    (h : packedLength argv ≤ PROCINFO_MAX_ARGS_SIZE) (htask : pinfo.mainTask = .execWrapper)
    (hargl : pinfo.argl = int32 (packedLength argv)) {rest : List UInt8}
    (hargs : pinfo.args = programBytes prog ++ pack argv ++ rest) (hlt : argc < 2 ^ 31)
    (hout : ∀ a ∈ out, argc = a.length) :
    parseProcInfo pinfo ptr argc args out = some
      { ret := argv.length
        prog := ptr
        argv := out.map fun a =>
          starts (args + 8) (argv.take a.length) ++ a.drop (min a.length argv.length) } := by
  have hsmall : packedLength argv < 2 ^ 31 := h.trans_lt (by decide)
  have hle : argv.length ≤ packedLength argv := by
    have := length_le_pack argv
    unfold packedLength
    omega
  have hdrop : pinfo.args.drop 8 = pack argv ++ rest := by
    rw [hargs, List.append_assoc, drop_programBytes]
  have hret : int32 argv.length = argv.length := int32_of_lt (by omega) (by omega)
  have hfits : ¬ (PROCINFO_MAX_ARGS_SIZE : Int) < pinfo.argl := by
    rw [hargl, int32_of_lt (by omega) (by omega)]
    omega
  rw [parseProcInfo, if_neg (by simp [htask]), if_neg hfits]
  simp only [hargl, int32_sub_eight hsmall, hdrop, argscount_pack, Option.bind_some, hret]
  cases out with
  | none => rfl
  | some a =>
    -- No more strings are unpacked than the array has room for.
    obtain rfl := hout a rfl
    have hargc : (if argv.length < size64 (a.length : Int) then argv.length
        else size64 (a.length : Int)) = (argv.take a.length).length := by
      rw [size64_of_lt (by omega), List.length_take]
      split <;> omega
    have hpack : pack argv ++ rest =
        pack (argv.take a.length) ++ (pack (argv.drop a.length) ++ rest) := by
      rw [← List.append_assoc, ← pack_append, List.take_append_drop]
    have hmin : (argv.take a.length).length = min a.length argv.length := List.length_take
    simp only [hargc]
    rw [hpack, argvunpack_eq _ _ _ (by simp), Option.map_some, hmin]
    rfl

/-- The strings that were filled in are the strings of the vector. -/
theorem filled_starts (prog : Program) {argv : List CString} (args : Nat) (rest : List UInt8)
    (a : List Nat) :
    ((starts (args + 8) (argv.take a.length) ++ a.drop (min a.length argv.length)).take
      (min a.length argv.length)).map (stringAt args (programBytes prog ++ pack argv ++ rest)) =
      (argv.take a.length).map some := by
  have hlen : (starts (args + 8) (argv.take a.length)).length = min a.length argv.length := by
    simp
  have hpack : pack argv ++ rest =
      pack (argv.take a.length) ++ (pack (argv.drop a.length) ++ rest) := by
    rw [← List.append_assoc, ← pack_append, List.take_append_drop]
  have := stringAt_starts args (programBytes prog) (argv.take a.length)
    (pack (argv.drop a.length) ++ rest)
  rw [length_programBytes] at this
  rw [List.append_assoc, hpack, ← List.append_assoc, ← hlen, List.take_left, this]

/-- What is stored through `prog` is what was there. -/
theorem DecodersAgree.stored {prog : Program} {argv : List CString} {ptr : Option Program}
    (h : DecodersAgree prog argv ptr) (hle : packedLength argv ≤ PROCINFO_MAX_ARGS_SIZE) :
    ∀ q ∈ ptr, q = prog := by
  intro q hq
  obtain ⟨rest, hrest⟩ : ∃ rest : List UInt8, rest =
    List.replicate (PROCINFO_MAX_ARGS_SIZE - packedLength argv) 0 := ⟨_, rfl⟩
  have hsize : (programBytes prog ++ pack argv ++ rest).length = PROCINFO_MAX_ARGS_SIZE := by
    simp only [List.length_append, length_programBytes, hrest, List.length_replicate]
    unfold packedLength at hle ⊢
    omega
  have hlt : packedLength argv < 2 ^ 64 := Nat.lt_of_le_of_lt hle (by decide)
  have he := execute_eq prog hlt
  obtain ⟨pinfo, hpinfo⟩ : ∃ pinfo : InfoArgs, pinfo =
    { mainTask := .execWrapper
      argl := int32 (packedLength argv)
      args := programBytes prog ++ pack argv ++ rest } := ⟨_, rfl⟩
  have htask : pinfo.mainTask = .execWrapper := by rw [hpinfo]
  have hargl : pinfo.argl = int32 (packedLength argv) := by rw [hpinfo]
  have hargs : pinfo.args = programBytes prog ++ pack argv ++ rest := by rw [hpinfo]
  have hi : pinfo.Holds (packedArgs prog argv) :=
    ⟨htask, by rw [packedArgs_argl, hargl], hargs ▸ hsize, by
      rw [packedArgs_args, hargs, List.take_left]⟩
  obtain ⟨r, hr, hagree⟩ := h.parse hle _ pinfo he hi 0 0 none (by decide) (by simp)
  have h0 : (0 : Int) < 2 ^ 31 := by decide
  have hnone : ∀ a ∈ (none : Option (List Nat)), (0 : Int) = a.length := by simp
  have heq := parseProcInfo_eq prog ptr 0 hle htask hargl hargs h0 hnone
  obtain rfl := Option.some.inj (heq.symm.trans hr)
  have := hagree.prog
  rw [Option.mem_def.mp hq] at this
  simpa using this

/-- The bytes of the buffer, and what lies behind them in the `procinfo`. -/
theorem InfoArgs.Holds.args_eq {prog : Program} {argv : List CString} {pinfo : InfoArgs}
    (h : pinfo.Holds (packedArgs prog argv)) :
    ∃ rest, pinfo.args = programBytes prog ++ pack argv ++ rest := by
  have hstored := h.args
  rw [packedArgs_args] at hstored
  refine ⟨pinfo.args.drop (programBytes prog ++ pack argv).length, ?_⟩
  conv_lhs => rw [← List.take_append_drop (programBytes prog ++ pack argv).length pinfo.args]
  rw [hstored]

/-- Where the pointer is `NULL`, or the program was stored already, `ParseProcInfo` agrees. -/
theorem parseAgrees_of_stored {prog : Program} {argv : List CString} {pinfo : InfoArgs}
    {ptr : Option Program} {argc : Int} {out : Option (List Nat)} (args : Nat)
    (h : packedLength argv ≤ PROCINFO_MAX_ARGS_SIZE) (hptr : ∀ q ∈ ptr, q = prog)
    (hi : pinfo.Holds (packedArgs prog argv)) (hlt : argc < 2 ^ 31)
    (hout : ∀ a ∈ out, argc = a.length) :
    ∃ r, parseProcInfo pinfo ptr argc args out = some r ∧
      ParseAgrees prog argv pinfo ptr args out r := by
  obtain ⟨rest, hargs⟩ := hi.args_eq
  have hargl : pinfo.argl = int32 (packedLength argv) := by rw [hi.argl, packedArgs_argl]
  refine ⟨_, parseProcInfo_eq prog ptr args h hi.mainTask hargl hargs hlt hout, rfl, ?_, ?_, ?_⟩
  · cases ptr with
    | none => rfl
    | some q => simpa using hptr q rfl
  · rintro rfl
    rfl
  · rintro a rfl
    refine ⟨_, rfl, by simp, ?_, ?_⟩
    · rw [hargs]
      exact filled_starts prog args rest a
    · have hlen : (starts (args + 8) (argv.take a.length)).length = min a.length argv.length := by
        simp
      conv_lhs => rw [← hlen]
      rw [List.drop_left]

/-- **The decoders agree with `Execute`** on the vectors whose packed length fits an `int`, except
that `ParseProcInfo` leaves what its parameter `prog` points to as it was. The stack is taken to hold
the vector. -/
theorem decoders_agree_iff (prog : Program) (argv : List CString) (ptr : Option Program) :
    DecodersAgree prog argv ptr ↔ packedLength argv < 2 ^ 31 ∧
      (packedLength argv ≤ PROCINFO_MAX_ARGS_SIZE → ∀ q ∈ ptr, q = prog) := by
  constructor
  · intro h
    have hlt : packedLength argv < 2 ^ 31 := by
      by_contra hle
      exact not_execAgrees_of_le prog (Nat.le_of_not_lt hle) h.exec
    exact ⟨hlt, h.stored⟩
  · rintro ⟨hlt, hptr⟩
    refine ⟨execAgrees_of_lt prog hlt, fun hle e pinfo he hi argc args out hargc hout => ?_⟩
    rw [execute_eq prog (hlt.trans (by decide))] at he
    obtain rfl := Option.some.inj he
    exact parseAgrees_of_stored args hle (hptr hle) hi hargc hout

/-- `ParseProcInfo` is asked for a program that takes no arguments, and the pointer to it stays
`NULL`. -/
theorem not_decoders_agree : ¬ ∀ prog argv ptr, DecodersAgree prog argv ptr := by
  intro hall
  have := (hall 1 [] (some 0)).stored (by decide) 0 rfl
  exact absurd this (by decide)

end TinyOS
