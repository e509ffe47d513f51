import Mathlib.Tactic

/-!
# Little-endian words

A machine word of `k` bytes is stored low byte first.  `leBytes k` writes the low `k` bytes of a
natural number and `leValue` reads a byte list back; they are inverse to each other on numbers
below `256 ^ k` and on lists of length `k`.

* `leValue_leBytes`: writing and reading keeps the number modulo `256 ^ k`.
* `leBytes_leValue`: reading and writing keeps the bytes.
* `le64`, `le64Value`: the same for the eight bytes of a `UInt64`, with `le64Value_le64`.
* `toInt_toInt32`, `toInt_toUInt64`: the number that a word denotes with and without a sign.
-/

namespace LsmFork
namespace LittleEndian

/-- The low `k` bytes of `n`, low byte first. -/
def leBytes : ℕ → ℕ → List UInt8
  | 0, _ => []
  | k + 1, n => UInt8.ofNat n :: leBytes k (n / 256)

/-- The number that a list of bytes denotes, low byte first. -/
def leValue : List UInt8 → ℕ
  | [] => 0
  | b :: bs => b.toNat + 256 * leValue bs

@[simp] theorem leBytes_length (k n : ℕ) : (leBytes k n).length = k := by
  induction k generalizing n with
  | zero => rfl
  | succ k ih => rw [leBytes, List.length_cons, ih]

theorem leValue_lt (bs : List UInt8) : leValue bs < 256 ^ bs.length := by
  induction bs with
  | nil => simp [leValue]
  | cons b bs ih =>
    have hb : b.toNat < 256 := b.toNat_lt
    rw [leValue, List.length_cons, pow_succ]
    omega

/-- **Writing and reading** keeps the part of the number that fits. -/
theorem leValue_leBytes (k n : ℕ) : leValue (leBytes k n) = n % 256 ^ k := by
  induction k generalizing n with
  | zero => simp [leBytes, leValue, Nat.mod_one]
  | succ k ih =>
    have hlow : (UInt8.ofNat n).toNat = n % 256 := UInt8.toNat_ofNat'
    rw [leBytes, leValue, ih, hlow, pow_succ', Nat.mod_mul]

/-- **Reading and writing** keeps every byte. -/
theorem leBytes_leValue (bs : List UInt8) : leBytes bs.length (leValue bs) = bs := by
  induction bs with
  | nil => rfl
  | cons b bs ih =>
    have hb : b.toNat < 256 := b.toNat_lt
    have hlow : UInt8.ofNat (b.toNat + 256 * leValue bs) = b := by
      apply UInt8.toNat_inj.mp
      rw [UInt8.toNat_ofNat']
      omega
    have hhigh : (b.toNat + 256 * leValue bs) / 256 = leValue bs := by omega
    rw [leValue, List.length_cons, leBytes, hlow, hhigh, ih]

/-! ## Words of eight bytes -/

/-- The eight bytes of a 64-bit word. -/
def le64 (w : UInt64) : List UInt8 := leBytes 8 w.toNat

/-- The 64-bit word that a byte list denotes. -/
def le64Value (bs : List UInt8) : UInt64 := UInt64.ofNat (leValue bs)

@[simp] theorem le64_length (w : UInt64) : (le64 w).length = 8 := leBytes_length 8 _

@[simp] theorem le64Value_le64 (w : UInt64) : le64Value (le64 w) = w := by
  have hw : w.toNat < 256 ^ 8 := by simpa using w.toNat_lt
  rw [le64Value, le64, leValue_leBytes, Nat.mod_eq_of_lt hw, UInt64.ofNat_toNat]

theorem le64_le64Value {bs : List UInt8} (h : bs.length = 8) : le64 (le64Value bs) = bs := by
  have hlt : leValue bs < 2 ^ 64 := by
    have := leValue_lt bs
    rw [h] at this
    simpa using this
  have hword : (UInt64.ofNat (leValue bs)).toNat = leValue bs :=
    UInt64.toNat_ofNat_of_lt' (by simpa using hlt)
  rw [le64Value, le64, hword, ← h, leBytes_leValue]

/-! ## Signs -/

theorem toInt_toInt32 (x : UInt32) :
    x.toInt32.toInt = if 2 * x.toNat < 2 ^ 32 then (x.toNat : ℤ) else (x.toNat : ℤ) - 2 ^ 32 :=
  BitVec.toInt_eq_toNat_cond x.toBitVec

theorem toInt_toUInt64 (x : Int64) :
    x.toInt = if 2 * x.toUInt64.toNat < 2 ^ 64 then (x.toUInt64.toNat : ℤ)
      else (x.toUInt64.toNat : ℤ) - 2 ^ 64 :=
  BitVec.toInt_eq_toNat_cond x.toBitVec

end LittleEndian
end LsmFork
