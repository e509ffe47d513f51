import LsmFork.Lib.CString

/-!
# Numbers and formats of `printf`

The bytes that `%llu` and `%lx` write for a 64-bit number, and what `snprintf` leaves of a formatted
text in a buffer of a given size.

* `digits`, `numeral`: the digits of a number in a base.
* `mem_numeral`, `numeral_length_le`: which characters, and how many.
* `toDigits_injective`, `numeral_injective`: digits name one number.
* `snprintf`: the text, cut to leave room for the terminator.
-/

namespace LsmFork

/-- The digits of a number as ASCII characters. -/
def digits (base n : ℕ) : List UInt8 := (Nat.toDigits base n).map fun c => UInt8.ofNat c.toNat

/-- A number as `printf` writes it in the given base, with lower-case letters. -/
def numeral (base : ℕ) (n : UInt64) : List UInt8 :=
  (Nat.toDigits base n.toNat).map fun c => UInt8.ofNat c.toNat

/-- `snprintf` into a buffer of `size` characters. -/
def snprintf (size : ℕ) (s : List UInt8) : List UInt8 := s.take (size - 1)

theorem mem_toDigits {base : ℕ} (hbase : 1 < base) (hle : base ≤ 16) {m : ℕ} {ch : Char}
    (h : ch ∈ Nat.toDigits base m) : ∃ d < 16, ch = Nat.digitChar d := by
  induction m using Nat.strong_induction_on with
  | _ m ih =>
    rw [Nat.toDigits_eq_if hbase] at h
    split at h
    · exact ⟨m, by omega, List.mem_singleton.mp h⟩
    · rename_i hbig
      rcases List.mem_append.mp h with h | h
      · exact ih (m / base) (Nat.div_lt_self (by omega) hbase) h
      · have hlt : m % base < base := Nat.mod_lt m (by omega)
        exact ⟨m % base, by omega, List.mem_singleton.mp h⟩

theorem mem_numeral {base : ℕ} (hbase : 1 < base) (hle : base ≤ 16) {n : UInt64} {c : UInt8}
    (h : c ∈ numeral base n) : ∃ d < 16, c = UInt8.ofNat (Nat.digitChar d).toNat := by
  obtain ⟨ch, hch, rfl⟩ := List.mem_map.mp h
  obtain ⟨d, hd, rfl⟩ := mem_toDigits hbase hle hch
  exact ⟨d, hd, rfl⟩

/-- No digit is one of the characters that matter to a path or to the shell. -/
theorem notMem_numeral {base : ℕ} (hbase : 1 < base) (hle : base ≤ 16) {c : UInt8}
    (hc : ∀ d < 16, c ≠ UInt8.ofNat (Nat.digitChar d).toNat) (n : UInt64) :
    c ∉ numeral base n := by
  intro h
  obtain ⟨d, hd, heq⟩ := mem_numeral hbase hle h
  exact hc d hd heq

theorem numeral_length_le {b k : ℕ} (hk : 0 < k) (hlt : 2 ^ 64 ≤ b ^ k) (n : UInt64) :
    (numeral b n).length ≤ k := by
  rw [numeral, List.length_map]
  exact Nat.toDigits_length b n.toNat k hk (lt_of_lt_of_le n.toNat_lt hlt)

theorem digits_chars {base : ℕ} (hbase : 1 < base) (hle : base ≤ 16) (n : ℕ) :
    (digits base n).map (fun b => Char.ofNat b.toNat) = Nat.toDigits base n := by
  have hback : ∀ d < 16, Char.ofNat (UInt8.ofNat (Nat.digitChar d).toNat).toNat =
      Nat.digitChar d := by decide +kernel
  rw [digits, List.map_map]
  refine (List.map_congr_left fun ch hch => ?_).trans (List.map_id _)
  obtain ⟨d, hd, rfl⟩ := mem_toDigits hbase hle hch
  exact hback d hd

theorem toDigits_injective {base : ℕ} (hbase : 1 < base) (hle : base ≤ 16) :
    Function.Injective (Nat.toDigits base) := by
  have hdigit : ∀ d < 16, ∀ e < 16, Nat.digitChar d = Nat.digitChar e → d = e := by decide +kernel
  intro m
  induction m using Nat.strong_induction_on with
  | _ m ih =>
    intro n h
    rw [Nat.toDigits_eq_if hbase, Nat.toDigits_eq_if (n := n) hbase] at h
    -- a number below the base has one digit, and any other at least two
    split at h <;> split at h
    · rename_i hm hn
      exact hdigit m (by omega) n (by omega) (List.singleton_inj.mp h)
    · exact absurd (List.append_eq_singleton_iff.mp h.symm) (by simp [Nat.toDigits_ne_nil])
    · exact absurd (List.append_eq_singleton_iff.mp h) (by simp [Nat.toDigits_ne_nil])
    · rename_i hm hn
      obtain ⟨hquot, hrem⟩ := List.append_inj' h rfl
      have hdiv := ih (m / base) (Nat.div_lt_self (by omega) hbase) hquot
      have hmodlt : ∀ k, k % base < 16 := fun k => (Nat.mod_lt k (by omega)).trans_le hle
      have hmod := hdigit _ (hmodlt m) _ (hmodlt n) (List.singleton_inj.mp hrem)
      rw [← Nat.div_add_mod m base, hdiv, hmod, Nat.div_add_mod]

/-- **The digits of a number name it**, as bytes too. -/
theorem digits_injective {base : ℕ} (hbase : 1 < base) (hle : base ≤ 16) :
    Function.Injective (digits base) := by
  intro m n h
  refine toDigits_injective hbase hle ?_
  rw [← digits_chars hbase hle m, h, digits_chars hbase hle n]

theorem digits_ten_injective : Function.Injective (digits 10) :=
  digits_injective (by decide) (by decide)

theorem numeral_injective {base : ℕ} (hbase : 1 < base) (hle : base ≤ 16) :
    Function.Injective (numeral base) := fun _ _ h =>
  UInt64.toNat_inj.mp (digits_injective hbase hle h)

theorem numeral_ten_injective : Function.Injective (numeral 10) :=
  numeral_injective (by decide) (by decide)

end LsmFork
