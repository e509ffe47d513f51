import Mathlib.Data.List.TakeWhile
import Mathlib.Tactic

/-!
# NUL-terminated strings in byte buffers

A buffer is the list of its bytes, and the string in it is what stands before its first `0` byte.
`strncpy` is the library function: it copies at most `n` bytes of the source string and fills the
rest of the first `n` bytes of the destination with zeros.

* `cstr`: the string a buffer holds.
* `strncpy`, `strncpy_length`: the copy and the length of its result.
* `cstr_terminated`: after a terminator is written at `m`, the string is the source cut to `m`.
* `ascii`: the bytes of a string literal.
* `strncmpEq`: the test `strncmp(a, b, n) == 0`.
-/

namespace LsmFork
namespace CString

/-- The bytes of a literal. -/
def ascii (s : String) : List UInt8 := s.toList.map fun c => UInt8.ofNat c.toNat

/-- The string in a buffer: the bytes before the first NUL. -/
def cstr (buf : List UInt8) : List UInt8 := buf.takeWhile (· ≠ 0)

theorem zero_notMem_cstr (buf : List UInt8) : (0 : UInt8) ∉ cstr buf := by
  intro h
  have := List.mem_takeWhile_imp h
  simp at this

/-- A string without NUL, followed by one, is the string of the buffer. -/
theorem cstr_append_zero {s : List UInt8} (hs : (0 : UInt8) ∉ s) (rest : List UInt8) :
    cstr (s ++ 0 :: rest) = s := by
  rw [cstr, List.takeWhile_append_of_pos, List.takeWhile_cons_of_neg (by simp), List.append_nil]
  intro b hb
  simpa using fun h : b = 0 => hs (h ▸ hb)

/-- A string that is shorter than its buffer ends in a NUL. -/
theorem exists_eq_cstr_append {buf : List UInt8} (h : (cstr buf).length < buf.length) :
    ∃ rest, buf = cstr buf ++ 0 :: rest := by
  have hsplit : cstr buf ++ buf.dropWhile (· ≠ 0) = buf := List.takeWhile_append_dropWhile
  cases hcase : buf.dropWhile (· ≠ 0) with
  | nil =>
    rw [hcase, List.append_nil] at hsplit
    rw [hsplit] at h
    exact absurd h (Nat.lt_irrefl _)
  | cons b rest =>
    have hb : b = 0 := by
      have hhead := List.head?_dropWhile_not (fun c : UInt8 => decide (c ≠ 0)) buf
      rw [hcase] at hhead
      simpa using hhead
    rw [hcase, hb] at hsplit
    exact ⟨rest, hsplit.symm⟩

/-- The terminator is where the string ends. -/
theorem drop_length_cstr {buf rest : List UInt8} (h : buf = cstr buf ++ 0 :: rest) :
    buf.drop (cstr buf).length = 0 :: rest := by
  calc buf.drop (cstr buf).length
      = (cstr buf ++ 0 :: rest).drop (cstr buf).length := by rw [← h]
    _ = 0 :: rest := List.drop_left

/-- `strncpy(dst, src, n)`: at most `n` bytes of the string at `src`, zeros up to `n`, and the old
bytes of the destination after that. -/
def strncpy (dst src : List UInt8) (n : ℕ) : List UInt8 :=
  (cstr src).take n ++ List.replicate (n - (cstr src).length) 0 ++ dst.drop n

theorem strncpy_length {dst : List UInt8} (src : List UInt8) {n : ℕ} (h : n ≤ dst.length) :
    (strncpy dst src n).length = dst.length := by
  rw [strncpy, List.length_append, List.length_append, List.length_take, List.length_replicate,
    List.length_drop]
  omega

theorem take_strncpy (dst src : List UInt8) (n : ℕ) :
    (strncpy dst src n).take n =
      (cstr src).take n ++ List.replicate (n - (cstr src).length) 0 := by
  rw [strncpy, List.take_append_of_le_length, List.take_of_length_le]
  · rw [List.length_append, List.length_take, List.length_replicate]
    omega
  · rw [List.length_append, List.length_take, List.length_replicate]
    omega

theorem cstr_set_zero {buf s : List UInt8} {n : ℕ} (hn : n < buf.length) (hs : buf.take n = s)
    (hzero : (0 : UInt8) ∉ s) : cstr (buf.set n 0) = s := by
  have hset : buf.set n 0 = buf.take n ++ 0 :: buf.drop (n + 1) :=
    List.set_eq_take_append_cons_drop.trans (if_pos hn)
  rw [hset, hs]
  exact cstr_append_zero hzero _

/-- A terminator written at index `m` after copying `n` bytes cuts the string to `m` bytes. -/
theorem cstr_terminated (dst src : List UInt8) {m n : ℕ} (hm : m ≤ n) (hn : n ≤ dst.length)
    (hlt : m < dst.length) : cstr ((strncpy dst src n).set m 0) = (cstr src).take m := by
  have hlen : (strncpy dst src n).length = dst.length := strncpy_length src hn
  have htake : (strncpy dst src n).take m =
      ((cstr src).take n ++ List.replicate (n - (cstr src).length) 0).take m := by
    rw [← take_strncpy dst src n, List.take_take, Nat.min_eq_left hm]
  rcases Nat.lt_or_ge (cstr src).length m with hshort | hlong
  · -- the string ends in the copied part, and its padding with it
    have hs : (strncpy dst src n).set m 0 = cstr src ++ 0 ::
        (((strncpy dst src n).set m 0).drop ((cstr src).length + 1)) := by
      have hprefix : ((strncpy dst src n).set m 0).take ((cstr src).length + 1) =
          cstr src ++ [0] := by
        rw [List.take_set_of_le (by omega)]
        have hcut := congrArg (List.take ((cstr src).length + 1)) htake
        rw [List.take_take, Nat.min_eq_left (by omega), List.take_take,
          Nat.min_eq_left (by omega), List.take_of_length_le (show (cstr src).length ≤ n by omega),
          List.take_append, List.take_of_length_le (Nat.le_succ _)] at hcut
        rw [hcut]
        congr 1
        rw [Nat.add_sub_cancel_left, List.take_replicate, Nat.min_eq_left (by omega)]
        rfl
      rw [List.append_cons, ← hprefix, List.take_append_drop]
    rw [hs, List.take_of_length_le hshort.le]
    exact cstr_append_zero (zero_notMem_cstr src) _
  · apply cstr_set_zero (by rw [hlen]; exact hlt)
    · rw [htake, List.take_append_of_le_length (by rw [List.length_take]; omega), List.take_take,
        Nat.min_eq_left hm]
    · exact fun h => zero_notMem_cstr src (List.mem_of_mem_take h)

/-- `strcpy(dst, src)`, for a source string without its terminator. -/
def strcpy (dst src : List UInt8) : List UInt8 := src ++ 0 :: dst.drop (src.length + 1)

/-- `strncmp(a, b, n) == 0`. -/
def strncmpEq (a b : List UInt8) (n : ℕ) : Bool := (cstr a).take n == (cstr b).take n

end CString
end LsmFork
