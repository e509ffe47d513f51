import LsmFork.Server.ReceiveLoop

/-!
# Sending the reply

The server's `send_tcp` calls `send` until the bytes sent add up to the size of its buffer.  The sum
is the only thing that a call depends on: each one is given the whole buffer from its start.  So
what goes on the stream is a beginning of the buffer for each call, one after another.

* `sendTcp`: what the calls put on the stream, and the return value.
* `Accepting`: results of calls that each accept at least one byte.
* `RepeatsStart`, `putsOnce_iff`: when the pieces make up the buffer.
* `analyzeNop_putsOnce_iff`: the same for the reply of `analyze_nop`, whose bytes are all equal.
-/

namespace LsmFork

open LittleEndian

/-- A buffer in the memory of the server.  No object is longer than `PTRDIFF_MAX` bytes. -/
structure UserBuf where
  bytes : List UInt8
  length_lt : bytes.length < 2 ^ 63

/-- `send_tcp` from a value of `total_sent` on, with the results of `send`: the bytes that each call
puts on the stream, and the return value once it returns.  Every call is given all of the buffer. -/
def sendTcp (buf : List UInt8) (totalSent : Int64) : List Int64 → List (List UInt8) × Option Int32
  | [] => if totalSent.toUInt64 < UInt64.ofNat buf.length then ([], none) else ([], some 0)
  | sb :: results =>
    if totalSent.toUInt64 < UInt64.ofNat buf.length then
      if sb ≤ 0 then ([], some sb.toInt32)
      else
        let rest := sendTcp buf (totalSent + sb) results
        (buf.take sb.toInt.toNat :: rest.1, rest.2)
    else ([], some 0)

/-- Each call accepts at least one byte and at most the `size` bytes it is given. -/
def Accepting (size : ℕ) (results : List Int64) : Prop :=
  ∀ sb ∈ results, 1 ≤ sb.toInt ∧ sb.toInt ≤ size

instance (size : ℕ) (results : List Int64) : Decidable (Accepting size results) :=
  List.decidableBAll _ _

/-- The bytes that so many calls accept. -/
def sentBytes (results : List Int64) : ℕ := (results.map fun sb => sb.toInt.toNat).sum

/-- The stream gets the bytes of the buffer, each once and in order, and the call returns 0. -/
def PutsOnce (buf : List UInt8) (results : List Int64) : Prop :=
  (sendTcp buf 0 results).1.flatten = buf ∧ (sendTcp buf 0 results).2 = some 0

/-- As long as less than the buffer has been sent, the beginning of the buffer that a call accepts
is what comes next in it. -/
def RepeatsStart (buf : List UInt8) : ℕ → List Int64 → Prop
  | _, [] => True
  | sent, sb :: results =>
    sent < buf.length →
      buf.take sb.toInt.toNat = (buf.drop sent).take sb.toInt.toNat ∧
        RepeatsStart buf (sent + sb.toInt.toNat) results

/-! ## One call -/

theorem sendTcp_of_le {buf : List UInt8} {totalSent : Int64}
    (hlen : buf.length < 2 ^ 63) (h : buf.length ≤ totalSent.toUInt64.toNat)
    (results : List Int64) : sendTcp buf totalSent results = ([], some 0) := by
  have hover : ¬ totalSent.toUInt64 < UInt64.ofNat buf.length := by
    rw [UInt64.lt_iff_toNat_lt, UInt64.toNat_ofNat_of_lt' (by simp only [UInt64.size]; omega)]
    omega
  cases results with
  | nil => exact if_neg hover
  | cons sb results => exact if_neg hover

theorem sendTcp_cons {buf : List UInt8} {totalSent sb : Int64} (hlen : buf.length < 2 ^ 63)
    (h : totalSent.toUInt64.toNat < buf.length) (hsb : 1 ≤ sb.toInt) (results : List Int64) :
    sendTcp buf totalSent (sb :: results) =
      (buf.take sb.toInt.toNat :: (sendTcp buf (totalSent + sb) results).1,
        (sendTcp buf (totalSent + sb) results).2) := by
  have hmore : totalSent.toUInt64 < UInt64.ofNat buf.length := by
    rw [UInt64.lt_iff_toNat_lt, UInt64.toNat_ofNat_of_lt' (by simp only [UInt64.size]; omega)]
    exact h
  have hpos : ¬ sb ≤ 0 := by
    rw [Int64.le_iff_toInt_le]
    have hzero : (0 : Int64).toInt = 0 := rfl
    omega
  rw [sendTcp, if_pos hmore, if_neg hpos]

theorem totalSent_add {totalSent sb : Int64} {n : ℕ} (hlen : n < 2 ^ 63)
    (h : totalSent.toUInt64.toNat < n) (hsb : 1 ≤ sb.toInt) :
    (totalSent + sb).toUInt64.toNat = totalSent.toUInt64.toNat + sb.toInt.toNat := by
  have hword := toInt_toUInt64 sb
  have hlt := sb.toUInt64.toNat_lt
  rw [Int64.toUInt64_add, UInt64.toNat_add, Nat.mod_eq_of_lt]
  · split at hword <;> omega
  · split at hword <;> omega

/-! ## The pieces -/

/-- A piece of the beginning is what comes next in a buffer exactly if it fits there and the rest is
the rest. -/
theorem take_append_eq_drop_iff {buf rest : List UInt8} {sent n : ℕ} (hn : n ≤ buf.length)
    (hsent : sent ≤ buf.length) :
    buf.take n ++ rest = buf.drop sent ↔
      (sent + n ≤ buf.length ∧ buf.take n = (buf.drop sent).take n) ∧
        rest = buf.drop (sent + n) := by
  have hpiece : (buf.take n).length = n := List.length_take_of_le hn
  constructor
  · intro h
    have hlen := congrArg List.length h
    rw [List.length_append, hpiece, List.length_drop] at hlen
    have htake := congrArg (List.take n) h
    have hdrop := congrArg (List.drop n) h
    rw [List.take_left' hpiece] at htake
    rw [List.drop_left' hpiece, List.drop_drop] at hdrop
    exact ⟨⟨by omega, htake⟩, hdrop⟩
  · rintro ⟨⟨-, htake⟩, rfl⟩
    rw [htake, ← List.drop_drop, List.take_append_drop]

theorem add_le_of_take_eq {buf : List UInt8} {sent n : ℕ} (hn : n ≤ buf.length)
    (hsent : sent ≤ buf.length) (h : buf.take n = (buf.drop sent).take n) :
    sent + n ≤ buf.length := by
  have hlen := congrArg List.length h
  rw [List.length_take_of_le hn, List.length_take, List.length_drop] at hlen
  omega

/-- **The loop from any point on**: the stream gets the rest of the buffer exactly when each piece
is what comes next. -/
theorem sendTcp_iff {buf : List UInt8} (totalSent : Int64) {results : List Int64}
    (hlen : buf.length < 2 ^ 63) (hsent : totalSent.toUInt64.toNat ≤ buf.length)
    (h : Accepting buf.length results)
    (henough : buf.length ≤ totalSent.toUInt64.toNat + sentBytes results) :
    (sendTcp buf totalSent results).1.flatten = buf.drop totalSent.toUInt64.toNat ∧
        (sendTcp buf totalSent results).2 = some 0 ↔
      RepeatsStart buf totalSent.toUInt64.toNat results := by
  induction results generalizing totalSent with
  | nil =>
    have hdone : buf.length ≤ totalSent.toUInt64.toNat := henough
    rw [sendTcp_of_le hlen hdone, List.drop_of_length_le hdone]
    exact iff_of_true ⟨rfl, rfl⟩ trivial
  | cons sb results ih =>
    rcases Nat.lt_or_ge totalSent.toUInt64.toNat buf.length with hmore | hdone
    · obtain ⟨⟨hmin, hmax⟩, hrest⟩ := List.forall_mem_cons.mp h
      have hadd := totalSent_add hlen hmore hmin
      have hn : sb.toInt.toNat ≤ buf.length := by omega
      have hsum : sentBytes (sb :: results) = sb.toInt.toNat + sentBytes results := List.sum_cons
      rw [sendTcp_cons hlen hmore hmin, List.flatten_cons, take_append_eq_drop_iff hn hsent,
        RepeatsStart, forall_prop_of_true hmore, and_assoc, and_assoc]
      constructor
      · rintro ⟨hfits, htake, hstream, hret⟩
        refine ⟨htake, ?_⟩
        rw [← hadd] at hstream ⊢
        exact (ih (totalSent + sb) (by omega) hrest (by omega)).mp ⟨hstream, hret⟩
      · rintro ⟨htake, hstarts⟩
        have hfits := add_le_of_take_eq hn hsent htake
        rw [← hadd] at hstarts ⊢
        exact ⟨by omega, htake, (ih (totalSent + sb) (by omega) hrest (by omega)).mpr hstarts⟩
    · rw [sendTcp_of_le hlen hdone, List.drop_of_length_le hdone]
      exact iff_of_true ⟨rfl, rfl⟩ fun hmore => absurd hmore (not_lt.mpr hdone)

/-- **When the bytes of a buffer go out once**: each call accepts a piece of the beginning of the
buffer that is what comes next in it. -/
theorem putsOnce_iff (buf : UserBuf) (results : List Int64)
    (h : Accepting buf.bytes.length results) (henough : buf.bytes.length ≤ sentBytes results) :
    PutsOnce buf.bytes results ↔ RepeatsStart buf.bytes 0 results := by
  have hzero : (0 : Int64).toUInt64.toNat = 0 := rfl
  have hiff := sendTcp_iff 0 buf.length_lt (Nat.zero_le _) h (by
    rw [hzero, Nat.zero_add]
    exact henough)
  rwa [hzero, List.drop_zero] at hiff

/-- The buffer of `analyze_nop`. -/
def nopBuf : UserBuf := ⟨analyzeNop, by decide⟩

/-- Three bytes and one. -/
theorem putsOnce_nopBuf_iff : PutsOnce nopBuf.bytes [3, 1] ↔ RepeatsStart nopBuf.bytes 0 [3, 1] :=
  putsOnce_iff nopBuf [3, 1] (by decide) (by decide)

/-- **A reply of seven bytes.**  The second call is given all four bytes again, and accepts them. -/
theorem nopBuf_not_once : ¬ ∀ (buf : UserBuf) (results : List Int64),
    0 < buf.bytes.length → Accepting buf.bytes.length results →
      buf.bytes.length ≤ sentBytes results → PutsOnce buf.bytes results := by
  intro hall
  have honce := hall nopBuf [3, 4] (by decide) (by decide) (by decide)
  have hstream : (sendTcp nopBuf.bytes 0 [3, 4]).1.flatten.length = 7 := by decide
  rw [honce.1] at hstream
  exact absurd hstream (by decide)

/-! ## The reply of analyze_nop -/

/-- The bytes sent come to the size exactly. -/
def HitsSize (size : ℕ) : ℕ → List Int64 → Prop
  | _, [] => True
  | sent, sb :: results =>
    sent < size →
      sent + sb.toInt.toNat ≤ size ∧ HitsSize size (sent + sb.toInt.toNat) results

/-- In a buffer of equal bytes every piece that fits is what comes next. -/
theorem repeatsStart_replicate_iff {size : ℕ} {x : UInt8} {results : List Int64}
    (h : Accepting size results) {sent : ℕ} (hsent : sent ≤ size) :
    RepeatsStart (List.replicate size x) sent results ↔ HitsSize size sent results := by
  induction results generalizing sent with
  | nil => exact Iff.rfl
  | cons sb results ih =>
    obtain ⟨⟨-, hmax⟩, hrest⟩ := List.forall_mem_cons.mp h
    have hn : sb.toInt.toNat ≤ size := by omega
    have hpiece : (List.replicate size x).take sb.toInt.toNat =
        ((List.replicate size x).drop sent).take sb.toInt.toNat ↔
          sent + sb.toInt.toNat ≤ size := by
      rw [List.drop_replicate, List.take_replicate, List.take_replicate, List.replicate_inj,
        and_iff_left (Or.inr rfl)]
      omega
    rw [RepeatsStart, HitsSize, List.length_replicate, hpiece]
    refine imp_congr_right fun _ => and_congr_right fun hfits => ih hrest hfits

/-- **The stream gets one reply of four bytes** exactly when the bytes sent come to four. -/
theorem analyzeNop_putsOnce_iff {results : List Int64} (h : Accepting 4 results)
    (henough : 4 ≤ sentBytes results) : PutsOnce analyzeNop results ↔ HitsSize 4 0 results := by
  have hiff := sendTcp_iff 0 nopBuf.length_lt (Nat.zero_le _) h (by
    show 4 ≤ 0 + sentBytes results
    omega)
  exact hiff.trans (repeatsStart_replicate_iff h (Nat.zero_le _))

end LsmFork
