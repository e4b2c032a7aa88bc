import Mathlib.Tactic.Ring

/-!
# Machine words

A word lies in memory as its bytes, the lowest first. A signed word is an integer; what does not
fit is taken modulo the number of words.
-/

set_option autoImplicit false

namespace Words

/-- The lowest `k` bytes of `n`, in order. -/
def toBytes : Nat → Nat → List UInt8
  | 0, _ => []
  | k + 1, n => UInt8.ofNat n :: toBytes k (n / 256)

def ofBytes : List UInt8 → Nat
  | [] => 0
  | b :: bs => b.toNat + 256 * ofBytes bs

@[simp] theorem length_toBytes (k n : Nat) : (toBytes k n).length = k := by
  induction k generalizing n with
  | zero => rfl
  | succ k ih => simp [toBytes, ih]

/-- **A word is read back as it was written**, as far as it fits. -/
theorem ofBytes_toBytes (k n : Nat) : ofBytes (toBytes k n) = n % 256 ^ k := by
  induction k generalizing n with
  | zero => simp [toBytes, ofBytes, Nat.mod_one]
  | succ k ih =>
    have hb : (UInt8.ofNat n).toNat = n % 256 := UInt8.toNat_ofNat
    rw [toBytes, ofBytes, ih, hb, Nat.pow_succ, Nat.mul_comm (256 ^ k), Nat.mod_mul]

/-- The conversion to a signed word of 32 bits. -/
def int32 (n : Int) : Int := n.bmod (2 ^ 32)

theorem int32_of_lt {n : Int} (h₀ : -2 ^ 31 ≤ n) (h : n < 2 ^ 31) : int32 n = n :=
  Int.bmod_eq_of_le (by omega) (by omega)

theorem int32_lt (n : Int) : int32 n < 2 ^ 31 := by
  have := Int.bmod_lt (x := n) (m := 2 ^ 32) (by decide)
  simpa [int32] using this

/-- The conversion of a signed word to an unsigned one of 64 bits. -/
def size64 (n : Int) : Nat := (n % 2 ^ 64).toNat

theorem size64_of_lt {n : Nat} (h : n < 2 ^ 64) : size64 n = n := by
  unfold size64
  omega

end Words
