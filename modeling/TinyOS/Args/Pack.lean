import TinyOS.Lib.Terminated
import TinyOS.Lib.Words

/-!
# Packed arguments (`util.h`)

A vector of strings travels as its strings, each with its zero, one behind the other. The loops
that pack and unpack it are written here as loops over what is left of a buffer: `none` is an access
behind the end of the buffer. Pointers are addresses.

What the loops compute is said in terms of `Terminated.pack`; the rest of the development uses these
equations and not the loops.
-/

set_option autoImplicit false

namespace TinyOS

open Words Terminated

/-- A C string, without its zero. -/
abbrev CString := Str (0 : UInt8)

/-- A text without zeros, as a C string. -/
def cstring (s : String) (h : 0 ∉ s.toList.map fun c => UInt8.ofNat c.toNat) : CString :=
  ⟨s.toList.map fun c => UInt8.ofNat c.toNat, h⟩

/-- A buffer that is filled from its start on. -/
structure Dest where
  written : List UInt8
  /-- What the rest of the buffer holds. -/
  room : List UInt8

namespace Dest

def bytes (d : Dest) : List UInt8 := d.written ++ d.room

/-- `*pos++ = b`. -/
def put (d : Dest) (b : UInt8) : Option Dest :=
  match d.room with
  | [] => none
  | _ :: room => some { written := d.written ++ [b], room := room }

/-- The bytes of `bs` were put one by one. -/
def fill (d : Dest) (bs : List UInt8) : Option Dest :=
  if bs.length ≤ d.room.length then
    some { written := d.written ++ bs, room := d.room.drop bs.length }
  else none

theorem fill_nil (d : Dest) : d.fill [] = some d := by simp [fill]

theorem put_eq (d : Dest) (b : UInt8) : d.put b = d.fill [b] := by
  unfold put fill
  cases d.room <;> simp

theorem fill_append (d : Dest) (bs bs' : List UInt8) :
    d.fill (bs ++ bs') = (d.fill bs).bind fun d => d.fill bs' := by
  unfold fill
  by_cases h : bs.length ≤ d.room.length
  · by_cases h' : bs'.length ≤ d.room.length - bs.length
    · have : bs.length + bs'.length ≤ d.room.length := by omega
      simp [h, h', this, List.drop_drop]
    · have : ¬ bs.length + bs'.length ≤ d.room.length := by omega
      simp [h, h', this]
  · have : ¬ bs.length + bs'.length ≤ d.room.length := by omega
    simp [h, this]

end Dest

/-! ## `argvlen` and `argvpack` -/

def argvlenLoop : Nat → List CString → Nat
  | l, [] => l
  | l, s :: argv => argvlenLoop ((l + (s.1.length + 1)) % 2 ^ 64) argv

/-- `argvlen`. -/
def argvlen (argv : List CString) : Nat := argvlenLoop 0 argv

theorem argvlenLoop_eq (l : Nat) (argv : List CString) (hl : l < 2 ^ 64) :
    argvlenLoop l argv = (l + (pack argv).length) % 2 ^ 64 := by
  induction argv generalizing l with
  | nil => exact (Nat.mod_eq_of_lt hl).symm
  | cons s argv ih =>
    rw [argvlenLoop, ih _ (Nat.mod_lt _ (by decide)), length_pack_cons, Nat.mod_add_mod,
      Nat.add_assoc]

theorem argvlen_eq (argv : List CString) : argvlen argv = (pack argv).length % 2 ^ 64 := by
  rw [argvlen, argvlenLoop_eq 0 argv (by decide), Nat.zero_add]

/-- `while(( *pos++ = *s++ )) argl++;`. -/
def packString : List UInt8 → Int → Dest → Option (Int × Dest)
  | [], argl, d => (d.put 0).map fun d => (argl, d)
  | b :: s, argl, d => (d.put b).bind fun d => packString s (int32 (argl + 1)) d

def packStrings : List CString → Int → Dest → Option (Int × Dest)
  | [], argl, d => some (argl, d)
  | s :: argv, argl, d => (packString s.1 argl d).bind fun x => packStrings argv x.1 x.2

/-- `argvpack`, into a buffer that holds `room`: what it returns, and what the buffer holds then. -/
def argvpack (room : List UInt8) (argv : List CString) : Option (Nat × List UInt8) :=
  (packStrings argv 0 { written := [], room := room }).map fun x =>
    (size64 (x.1 + argv.length), x.2.bytes)

theorem packString_eq (s : List UInt8) (k : Int) (d : Dest) :
    packString s (int32 k) d = (d.fill (s ++ [0])).map fun d => (int32 (k + s.length), d) := by
  induction s generalizing k d with
  | nil => simp [packString, Dest.put_eq]
  | cons b s ih =>
    have hk : int32 (int32 k + 1) = int32 (k + 1) := by simp [int32]
    have hs : (k + 1 + s.length : Int) = k + (b :: s).length := by
      simp only [List.length_cons]
      omega
    have hf : d.fill ((b :: s) ++ [0]) = (d.put b).bind fun d => d.fill (s ++ [0]) := by
      rw [Dest.put_eq, ← Dest.fill_append]
      rfl
    rw [packString, hf, hk]
    cases d.put b with
    | none => rfl
    | some d =>
      simp only [Option.bind_some]
      rw [ih, hs]

theorem packStrings_eq (argv : List CString) (k : Int) (d : Dest) :
    packStrings argv (int32 k) d = (d.fill (pack argv)).map fun d =>
      (int32 (k + ((pack argv).length - argv.length)), d) := by
  induction argv generalizing k d with
  | nil => simp [packStrings, Dest.fill_nil]
  | cons s argv ih =>
    have hk : (k + s.1.length + ((pack argv).length - argv.length) : Int) =
        k + ((pack (s :: argv)).length - (s :: argv).length) := by
      simp only [length_pack_cons, List.length_cons]
      omega
    have hf : d.fill (pack (s :: argv)) =
        (d.fill (s.1 ++ [0])).bind fun d => d.fill (pack argv) := by
      rw [← Dest.fill_append]
      simp
    rw [packStrings, packString_eq, hf]
    cases d.fill (s.1 ++ [0]) with
    | none => rfl
    | some d =>
      simp only [Option.map_some, Option.bind_some]
      rw [ih, hk]

/-- **`argvpack`** packs the strings at the start of the buffer. -/
theorem argvpack_eq {room : List UInt8} {argv : List CString}
    (h : (pack argv).length ≤ room.length) :
    argvpack room argv =
      some (size64 (int32 ((pack argv).length - argv.length) + argv.length),
        pack argv ++ room.drop (pack argv).length) := by
  have := packStrings_eq argv 0 { written := [], room := room }
  rw [int32_of_lt (by decide) (by decide)] at this
  simp [argvpack, this, Dest.fill, h, Dest.bytes]

theorem argvpack_none {room : List UInt8} {argv : List CString}
    (h : room.length < (pack argv).length) : argvpack room argv = none := by
  have := packStrings_eq argv 0 { written := [], room := room }
  rw [int32_of_lt (by decide) (by decide)] at this
  simp [argvpack, this, Dest.fill, Nat.not_le.mpr h]

/-- It returns the length that `argvlen` announced, as long as that fits an `int`. -/
theorem argvpack_length {room : List UInt8} {argv : List CString}
    (h : (pack argv).length ≤ room.length) (hlen : (pack argv).length < 2 ^ 31) :
    (argvpack room argv).map (·.1) = some (argvlen argv) := by
  have hle := length_le_pack argv
  rw [argvpack_eq h, argvlen_eq, int32_of_lt (by omega) (by omega), Int.sub_add_cancel,
    Option.map_some, size64_of_lt (by omega), Nat.mod_eq_of_lt (by omega)]

/-! ## `argscount` and `argvunpack` -/

/-- The loop of `argscount`, with what is left of the length and of the buffer. -/
def countZeros : Nat → List UInt8 → Option Nat
  | 0, _ => some 0
  | _ + 1, [] => none
  | argl + 1, b :: a => (countZeros argl a).map fun n => if b = 0 then n + 1 else n

/-- `argscount`. -/
def argscount (argl : Int) (args : List UInt8) : Option Nat := countZeros argl.toNat args

theorem countZeros_eq {argl : Nat} {args : List UInt8} (h : argl ≤ args.length) :
    countZeros argl args = some ((args.take argl).count 0) := by
  induction argl generalizing args with
  | zero => simp [countZeros]
  | succ argl ih =>
    cases args with
    | nil => simp at h
    | cons b a =>
      have h' : argl ≤ a.length := by simpa using h
      rw [countZeros, ih h', List.take_succ_cons, List.count_cons]
      by_cases hb : b = 0 <;> simp [hb]

/-- The zeros are counted in the bytes of the strings only, whatever lies behind them. -/
theorem argscount_pack (argv : List CString) (rest : List UInt8) :
    argscount (pack argv).length (pack argv ++ rest) = some argv.length := by
  rw [argscount, Int.toNat_natCast, countZeros_eq (by simp), List.take_left, count_pack]

/-- `while(*a++);`: the pointer behind the zero, and the bytes from there on. -/
def skipString : Nat → List UInt8 → Option (Nat × List UInt8)
  | _, [] => none
  | a, b :: bytes => if b = 0 then some (a + 1, bytes) else skipString (a + 1) bytes

/-- `argvunpack`, into the array `argv` of pointers, from the address `a`, where `bytes` lie: the
array, and what is returned. -/
def argvunpack : Nat → List Nat → Nat → List UInt8 → Option (List Nat × Nat)
  | 0, argv, a, _ => some (argv, a)
  | _ + 1, [], _, _ => none
  | argc + 1, _ :: argv, a, bytes =>
    (skipString a bytes).bind fun x => (argvunpack argc argv x.1 x.2).map fun y => (a :: y.1, y.2)

theorem skipString_eq (a : Nat) (s : List UInt8) (hs : 0 ∉ s) (rest : List UInt8) :
    skipString a (s ++ 0 :: rest) = some (a + (s.length + 1), rest) := by
  induction s generalizing a with
  | nil => simp [skipString]
  | cons b s ih =>
    obtain ⟨hb, hs⟩ := not_or.mp fun h => hs (List.mem_cons.mpr h)
    rw [List.cons_append, skipString, if_neg (Ne.symm hb), ih (a + 1) hs, List.length_cons]
    congr 2
    omega

/-- **`argvunpack`** sets the pointers to where the strings begin. -/
theorem argvunpack_eq (ss : List CString) (rest : List UInt8) {argv : List Nat} (a : Nat)
    (h : ss.length ≤ argv.length) :
    argvunpack ss.length argv a (pack ss ++ rest) =
      some (starts a ss ++ argv.drop ss.length, a + (pack ss).length) := by
  induction ss generalizing argv a with
  | nil => simp [argvunpack, starts]
  | cons s ss ih =>
    cases argv with
    | nil => simp at h
    | cons p argv =>
      have h' : ss.length ≤ argv.length := by simpa using h
      rw [List.length_cons, pack_cons, List.append_assoc, List.cons_append, argvunpack,
        skipString_eq a s.1 s.2, Option.bind_some, ih _ h']
      simp [starts, Nat.add_assoc, Nat.add_comm 1]

/-- The string at the address `p`, in a buffer at the address `args`. -/
def stringAt (args : Nat) (bytes : List UInt8) (p : Nat) : Option CString :=
  if p < args then none else (first (bytes.drop (p - args))).map (·.1)

/-- Where the strings begin, they can be read. -/
theorem stringAt_starts (args : Nat) (pre : List UInt8) (ss : List CString) (rest : List UInt8) :
    (starts (args + pre.length) ss).map (stringAt args (pre ++ pack ss ++ rest)) =
      ss.map some := by
  have hat : stringAt args (pre ++ pack ss ++ rest) ∘ (args + ·) =
      fun i => (first ((pre ++ pack ss ++ rest).drop i)).map (·.1) := by
    funext i
    have : ¬ args + i < args := by omega
    simp [stringAt, this]
  rw [starts_add, List.map_map, hat, map_first_starts]

/-- All the strings can be read. -/
theorem mapM_of_map {α β : Type*} {f : α → Option β} {l : List α} {l' : List β}
    (h : l.map f = l'.map some) : l.mapM f = some l' := by
  induction l generalizing l' with
  | nil =>
    obtain rfl : l' = [] := by simpa using h.symm
    rfl
  | cons a l ih =>
    cases l' with
    | nil => simp at h
    | cons b l' =>
      obtain ⟨ha, h⟩ := List.cons.inj h
      rw [List.mapM_cons, ha, ih h]
      rfl

end TinyOS
