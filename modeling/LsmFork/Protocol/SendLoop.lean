import LsmFork.Lib.CStruct
import LsmFork.Protocol.Connection

/-!
# Sending a buffer

`_tcp_send` hands a buffer to the socket call by call.  What a call accepts moves the base of the
vector and takes from its length, an interrupted call is tried again, and the loop ends when no byte
is left.  This file follows the vector through the loop, which the events of the connection leave
out, and so sees which bytes of memory go to the socket.

The result of a call is an `int` that is kept in a `size_t`.  A count stays what it is, and an error
becomes a number just below 2^64: the test for it is never true, and the loop goes on with a vector
that has moved back and grown.

* `KernelBuf`, `Kvec`, `SocketCall`: a buffer, a vector in it, and a call that is given the vector.
* `tcpSendCalls`: `_tcp_send` with its vector; `tcpSend_eq`: the same events.
* `Accepts`: the results of calls that get on with the transfer or are tried again.
* `tcpSend_delivers`: what such results come to.
* `not_reportsError`, `next_call_after_error`: what any other error comes to.
-/

namespace LsmFork

open CStruct

/-- A buffer of the kernel, in the upper half of the address space up to its last byte. -/
structure KernelBuf where
  base : UInt64
  len : UInt64
  kernel : 2 ^ 63 ≤ base.toNat
  fits : base.toNat + len.toNat ≤ 2 ^ 64

/-- `struct kvec`. -/
structure Kvec where
  iovBase : UInt64
  iovLen : UInt64
  deriving DecidableEq

/-- The vector that a transfer starts with. -/
def KernelBuf.vec (b : KernelBuf) : Kvec := ⟨b.base, b.len⟩

/-- The vector lies in the buffer. -/
def Kvec.Inside (vec : Kvec) (b : KernelBuf) : Prop :=
  b.base.toNat ≤ vec.iovBase.toNat ∧
    vec.iovBase.toNat + vec.iovLen.toNat ≤ b.base.toNat + b.len.toNat

/-- A call on the socket, with the vector it is given.  A call that has not returned has no result
yet. -/
structure SocketCall where
  vec : Kvec
  result : Option Int32
  deriving DecidableEq

/-- An `int` that is kept in a `size_t`. -/
def asSize (result : Int32) : UInt64 := result.toInt64.toUInt64

/-- `_tcp_send`, with `vec` and the results of `kernel_sendmsg`: its calls, and its return value
once it returns. -/
def tcpSendCalls (len : UInt64) (vec : Kvec) : List Int32 → List SocketCall × Option Int64
  | [] => ([⟨vec, none⟩], none)
  | result :: results =>
    let wb := asSize result
    let again := wb = asSize eRestartSys ∨ wb = asSize eAgain
    -- the test of an unsigned number for being negative, as the source has it
    if ¬ again ∧ wb < 0 then ([⟨vec, some result⟩], some (-1))
    else
      let next := if again then vec else ⟨vec.iovBase + wb, vec.iovLen - wb⟩
      if next.iovLen = 0 then ([⟨vec, some result⟩], some len.toInt64)
      else
        let rest := tcpSendCalls len next results
        (⟨vec, some result⟩ :: rest.1, rest.2)

/-! ## One call -/

/-- The call is interrupted and is to be tried again. -/
def IsRetry (result : Int32) : Prop := result = eRestartSys ∨ result = eAgain

instance (result : Int32) : Decidable (IsRetry result) := inferInstanceAs (Decidable (_ ∨ _))

theorem asSize_toNat (result : Int32) :
    ((asSize result).toNat : ℤ) =
      if 0 ≤ result.toInt then result.toInt else result.toInt + 2 ^ 64 :=
  toNat_errorWord result

theorem asSize_inj {r r' : Int32} : asSize r = asSize r' ↔ r = r' := by
  refine ⟨fun h => Int32.toInt_inj.mp ?_, congrArg asSize⟩
  have hword := asSize_toNat r
  rw [h, asSize_toNat r'] at hword
  have hmin := r.le_toInt
  have hmax := r.toInt_lt
  have hmin' := r'.le_toInt
  have hmax' := r'.toInt_lt
  split at hword <;> split at hword <;> omega

theorem asSize_again {result : Int32} :
    asSize result = asSize eRestartSys ∨ asSize result = asSize eAgain ↔ IsRetry result := by
  rw [asSize_inj, asSize_inj]
  exact Iff.rfl

/-- The test of the loops for an error is never true. -/
theorem not_asSize_neg (result : Int32) : ¬ asSize result < 0 := by
  rw [UInt64.lt_iff_toNat_lt]
  exact Nat.not_lt_zero _

/-- The vector after a call. -/
def Kvec.after (vec : Kvec) (result : Int32) : Kvec :=
  if IsRetry result then vec else ⟨vec.iovBase + asSize result, vec.iovLen - asSize result⟩

/-- **One call of the loop.**  No result makes it return an error. -/
theorem tcpSendCalls_cons (len : UInt64) (vec : Kvec) (result : Int32) (results : List Int32) :
    tcpSendCalls len vec (result :: results) =
      if (vec.after result).iovLen = 0 then ([⟨vec, some result⟩], some len.toInt64)
      else
        (⟨vec, some result⟩ :: (tcpSendCalls len (vec.after result) results).1,
          (tcpSendCalls len (vec.after result) results).2) := by
  have hnext : (if asSize result = asSize eRestartSys ∨ asSize result = asSize eAgain then vec
      else ⟨vec.iovBase + asSize result, vec.iovLen - asSize result⟩) = vec.after result :=
    if_congr asSize_again rfl rfl
  rw [tcpSendCalls]
  dsimp only
  rw [if_neg fun h => not_asSize_neg result h.2, hnext]

theorem tcpSend_eq (len : UInt64) (vec : Kvec) (results : List Int32) :
    (tcpSendCalls len vec results).1.map (fun c => SocketEvent.sendmsg c.result) =
        (tcpSend vec.iovLen results).1 ∧
      (tcpSendCalls len vec results).2.isSome = (tcpSend vec.iovLen results).2.isSome := by
  induction results generalizing vec with
  | nil => exact ⟨rfl, rfl⟩
  | cons result results ih =>
    have hlen : (vec.after result).iovLen =
        if result = eRestartSys ∨ result = eAgain then vec.iovLen
        else vec.iovLen - result.toInt64.toUInt64 := by
      rw [Kvec.after, apply_ite Kvec.iovLen]
      exact if_congr Iff.rfl rfl rfl
    obtain ⟨hevents, hreturned⟩ := ih (vec.after result)
    rw [tcpSendCalls_cons, tcpSend]
    dsimp only
    rw [← hlen]
    split
    · exact ⟨rfl, rfl⟩
    · exact ⟨by rw [List.map_cons, hevents], hreturned⟩

/-- **The loop returns the length or nothing.** -/
theorem tcpSendCalls_ret (len : UInt64) (vec : Kvec) (results : List Int32) :
    (tcpSendCalls len vec results).2 = some len.toInt64 ∨
      (tcpSendCalls len vec results).2 = none := by
  induction results generalizing vec with
  | nil => exact Or.inr rfl
  | cons result results ih =>
    rw [tcpSendCalls_cons]
    split
    · exact Or.inl rfl
    · exact ih _

/-! ## Partial writes -/

/-- The bytes that a call accepts. -/
def acceptedCount (result : Int32) : ℕ := result.toInt.toNat

/-- The bytes that the calls accept together. -/
def totalAccepted (results : List Int32) : ℕ := (results.map acceptedCount).sum

/-- As long as some of `left` bytes are to go, a call is interrupted or accepts at least one of
them. -/
def Accepts : ℕ → List Int32 → Prop
  | _, [] => True
  | left, result :: results =>
    0 < left ∧ (IsRetry result ∨ 1 ≤ result.toInt ∧ result.toInt ≤ left) ∧
      Accepts (left - acceptedCount result) results

/-- The bytes of memory that go to the socket in a call. -/
def SocketCall.bytes (mem : Mem) (c : SocketCall) : List UInt8 :=
  match c.result with
  | some result => read mem c.vec.iovBase.toNat (acceptedCount result)
  | none => []

theorem acceptedCount_of_retry {result : Int32} (h : IsRetry result) :
    acceptedCount result = 0 := by
  rcases h with rfl | rfl <;> rfl

theorem acceptedCount_le {left : ℕ} {result : Int32}
    (h : IsRetry result ∨ 1 ≤ result.toInt ∧ result.toInt ≤ left) :
    acceptedCount result ≤ left := by
  rcases h with hretry | ⟨-, hmax⟩
  · rw [acceptedCount_of_retry hretry]
    exact Nat.zero_le _
  · rw [acceptedCount]
    omega

theorem totalAccepted_le {left : ℕ} {results : List Int32} (h : Accepts left results) :
    totalAccepted results ≤ left := by
  induction results generalizing left with
  | nil => exact Nat.zero_le _
  | cons result results ih =>
    obtain ⟨-, hresult, hrest⟩ := h
    have hle := ih hrest
    have hcount := acceptedCount_le hresult
    rw [totalAccepted, List.map_cons, List.sum_cons, ← totalAccepted]
    omega

/-- **A call that gets on** moves the vector over the bytes it accepts. -/
theorem Kvec.after_of_accepts {vec : Kvec} {result : Int32}
    (hfits : vec.iovBase.toNat + vec.iovLen.toNat ≤ 2 ^ 64)
    (h : IsRetry result ∨ 1 ≤ result.toInt ∧ result.toInt ≤ vec.iovLen.toNat) :
    (vec.after result).iovLen.toNat = vec.iovLen.toNat - acceptedCount result ∧
      (0 < (vec.after result).iovLen.toNat →
        (vec.after result).iovBase.toNat = vec.iovBase.toNat + acceptedCount result) := by
  by_cases hretry : IsRetry result
  · rw [after, if_pos hretry, acceptedCount_of_retry hretry]
    exact ⟨rfl, fun _ => rfl⟩
  · obtain ⟨hmin, hmax⟩ := h.resolve_left hretry
    have hsize := asSize_toNat result
    rw [if_pos (by omega)] at hsize
    have hcount : (asSize result).toNat = acceptedCount result := by
      rw [acceptedCount]
      omega
    rw [after, if_neg hretry]
    have hle : asSize result ≤ vec.iovLen := by
      rw [UInt64.le_iff_toNat_le]
      omega
    have hlen : (vec.iovLen - asSize result).toNat = vec.iovLen.toNat - acceptedCount result := by
      rw [UInt64.toNat_sub_of_le _ _ hle, hcount]
    refine ⟨hlen, fun hpos => ?_⟩
    show (vec.iovBase + asSize result).toNat = _
    rw [UInt64.toNat_add, hcount, Nat.mod_eq_of_lt]
    change 0 < (vec.iovLen - asSize result).toNat at hpos
    omega

/-- **The loop with results that get on.**  The bytes that have gone are the first ones, and the
loop returns with the last. -/
theorem tcpSendCalls_of_accepts (mem : Mem) (len : UInt64) (vec : Kvec) {results : List Int32}
    (hfits : vec.iovBase.toNat + vec.iovLen.toNat ≤ 2 ^ 64) (hpos : 0 < vec.iovLen.toNat)
    (h : Accepts vec.iovLen.toNat results) :
    (tcpSendCalls len vec results).2 =
        (if totalAccepted results = vec.iovLen.toNat then some len.toInt64 else none) ∧
      (tcpSendCalls len vec results).1.flatMap (SocketCall.bytes mem) =
        read mem vec.iovBase.toNat (totalAccepted results) := by
  induction results generalizing vec with
  | nil =>
    have hne : totalAccepted [] ≠ vec.iovLen.toNat := fun h => by
      have hzero : totalAccepted [] = 0 := rfl
      omega
    exact ⟨(if_neg hne).symm, rfl⟩
  | cons result results ih =>
    obtain ⟨-, hresult, hrest⟩ := h
    obtain ⟨hlen, hbase⟩ := Kvec.after_of_accepts hfits hresult
    have htotal : totalAccepted (result :: results) =
        acceptedCount result + totalAccepted results := List.sum_cons
    have hle := acceptedCount_le hresult
    have hbytes : SocketCall.bytes mem ⟨vec, some result⟩ =
        read mem vec.iovBase.toNat (acceptedCount result) := rfl
    rw [tcpSendCalls_cons]
    by_cases hdone : (vec.after result).iovLen = 0
    · -- all bytes have gone, so there is no further result
      have hzero : vec.iovLen.toNat - acceptedCount result = 0 := by
        rw [← hlen, hdone]
        rfl
      have hnil : results = [] := by
        cases results with
        | nil => rfl
        | cons r rs => exact absurd hrest.1 (by omega)
      have hsum : totalAccepted (result :: results) = vec.iovLen.toNat := by
        rw [htotal, hnil]
        show acceptedCount result + 0 = _
        omega
      rw [if_pos hdone, if_pos hsum, List.flatMap_singleton, hbytes, htotal, hnil]
      exact ⟨rfl, rfl⟩
    · have hleft : 0 < (vec.after result).iovLen.toNat := by
        refine Nat.pos_of_ne_zero fun hzero => hdone ?_
        exact UInt64.toNat_inj.mp hzero
      have hbase := hbase hleft
      obtain ⟨hret, hsent⟩ := ih (vec.after result) (by omega) hleft (by rw [hlen]; exact hrest)
      rw [if_neg hdone]
      refine ⟨?_, ?_⟩
      · show (tcpSendCalls len (vec.after result) results).2 = _
        rw [hret, htotal, hlen]
        refine if_congr ?_ rfl rfl
        omega
      · show SocketCall.bytes mem ⟨vec, some result⟩ ++
          (tcpSendCalls len (vec.after result) results).1.flatMap (SocketCall.bytes mem) = _
        rw [hsent, hbytes, hbase, htotal, read_add]

/-- **`_tcp_send` delivers each byte once.**  With results that each accept some of the bytes that
are left, or interrupt the call, it returns exactly when all bytes are accepted, and it returns the
length; the bytes that have gone to the socket are the first ones of the buffer, in order. -/
theorem tcpSend_delivers (mem : Mem) (b : KernelBuf) (results : List Int32)
    (hpos : 0 < b.len.toNat) (h : Accepts b.len.toNat results) :
    (tcpSendCalls b.len b.vec results).2 =
        (if totalAccepted results = b.len.toNat then some b.len.toInt64 else none) ∧
      (tcpSendCalls b.len b.vec results).1.flatMap (SocketCall.bytes mem) =
        (read mem b.base.toNat b.len.toNat).take (totalAccepted results) := by
  obtain ⟨hret, hbytes⟩ := tcpSendCalls_of_accepts mem b.len b.vec b.fits hpos h
  refine ⟨hret, hbytes.trans ?_⟩
  obtain ⟨k, hk⟩ := Nat.exists_eq_add_of_le (totalAccepted_le h)
  rw [hk, read_add, List.take_left' (read_length _ _ _)]
  rfl

/-- A buffer of four bytes. -/
def sampleBuf : KernelBuf := ⟨0x8000000000000000, 4, by decide +kernel, by decide +kernel⟩

/-- Three bytes, an interruption, and the last byte. -/
theorem tcpSend_delivers_sample :
    (tcpSendCalls sampleBuf.len sampleBuf.vec [3, -11, 1]).2 =
        (if totalAccepted [3, -11, 1] = sampleBuf.len.toNat then some sampleBuf.len.toInt64
          else none) ∧
      (tcpSendCalls sampleBuf.len sampleBuf.vec [3, -11, 1]).1.flatMap
          (SocketCall.bytes fun a => UInt8.ofNat a) =
        (read (fun a => UInt8.ofNat a) sampleBuf.base.toNat sampleBuf.len.toNat).take
          (totalAccepted [3, -11, 1]) :=
  tcpSend_delivers (fun a => UInt8.ofNat a) sampleBuf [3, -11, 1] (by decide)
    ⟨by decide, by decide, by decide, by decide, by decide, by decide, trivial⟩

/-! ## Errors -/

open SocketEvent in
/-- What a caller expects of a transfer in which a call gives an error: the loop returns -1 at the
first one, it makes no further call, and all its calls are given a vector in the buffer. -/
def ReportsError (b : KernelBuf) (results : List Int32) : Prop :=
  (tcpSendCalls b.len b.vec results).2 = some (-1) ∧
    (∃ before e after, results = before ++ e :: after ∧
      (∀ r ∈ before, isHardError r = false) ∧ isHardError e = true ∧
      (tcpSendCalls b.len b.vec results).1.map SocketCall.result = (before ++ [e]).map some) ∧
    ∀ c ∈ (tcpSendCalls b.len b.vec results).1, c.vec.Inside b

theorem KernelBuf.len_ne (b : KernelBuf) : b.len.toInt64 ≠ -1 := by
  intro h
  have hlen : b.len.toNat = 2 ^ 64 - 1 := by
    rw [← UInt64.toUInt64_toInt64 b.len, h]
    rfl
  have hkernel := b.kernel
  have hfits := b.fits
  omega

/-- **An error is never reported**: the loop returns the length or nothing. -/
theorem not_reportsError (b : KernelBuf) (results : List Int32) : ¬ ReportsError b results := by
  rintro ⟨hret, -, -⟩
  rcases tcpSendCalls_ret b.len b.vec results with hlen | hnone
  · rw [hlen] at hret
    exact b.len_ne (Option.some.inj hret)
  · rw [hnone] at hret
    cases hret

/-- The server has closed the connection after three of four bytes. -/
theorem brokenPipe_not_reported : ¬ ∀ (b : KernelBuf) (results : List Int32),
    (∃ r ∈ results, SocketEvent.isHardError r = true) → ReportsError b results := by
  intro hall
  obtain ⟨hret, -⟩ := hall sampleBuf [3, -32] ⟨-32, by decide, by decide⟩
  exact absurd hret (by decide +kernel)

theorem exists_tcpSendCalls_eq_cons (len : UInt64) (vec : Kvec) (results : List Int32) :
    ∃ result cs, (tcpSendCalls len vec results).1 = ⟨vec, result⟩ :: cs := by
  cases results with
  | nil => exact ⟨none, [], rfl⟩
  | cons result results =>
    rw [tcpSendCalls_cons]
    split
    · exact ⟨some result, [], rfl⟩
    · exact ⟨some result, _, rfl⟩

/-- Results that get on and leave some bytes to go bring the loop to the vector of those. -/
theorem tcpSendCalls_append (len : UInt64) (vec : Kvec) {before : List Int32}
    (hfits : vec.iovBase.toNat + vec.iovLen.toNat ≤ 2 ^ 64)
    (h : Accepts vec.iovLen.toNat before) (hleft : totalAccepted before < vec.iovLen.toNat) :
    ∃ next : Kvec, next.iovBase.toNat = vec.iovBase.toNat + totalAccepted before ∧
      next.iovLen.toNat = vec.iovLen.toNat - totalAccepted before ∧
      ∀ results, ∃ cs, (tcpSendCalls len vec (before ++ results)).1 =
        cs ++ (tcpSendCalls len next results).1 := by
  induction before generalizing vec with
  | nil => exact ⟨vec, rfl, rfl, fun results => ⟨[], rfl⟩⟩
  | cons result before ih =>
    obtain ⟨-, hresult, hrest⟩ := h
    obtain ⟨hlen, hbase⟩ := Kvec.after_of_accepts hfits hresult
    have htotal : totalAccepted (result :: before) =
        acceptedCount result + totalAccepted before := List.sum_cons
    have hpos : 0 < (vec.after result).iovLen.toNat := by omega
    have hbase := hbase hpos
    have hne : (vec.after result).iovLen ≠ 0 := fun hzero => by
      rw [hzero] at hpos
      exact absurd hpos (by decide)
    obtain ⟨next, hnextBase, hnextLen, hcalls⟩ :=
      ih (vec.after result) (by omega) (by rw [hlen]; exact hrest) (by omega)
    refine ⟨next, by omega, by omega, fun results => ?_⟩
    obtain ⟨cs, hcs⟩ := hcalls results
    refine ⟨⟨vec, some result⟩ :: cs, ?_⟩
    rw [List.cons_append, tcpSendCalls_cons, if_neg hne]
    show _ :: (tcpSendCalls len (vec.after result) (before ++ results)).1 = _
    rw [hcs]
    rfl

/-- **The call after an error** is given a vector that has moved back, and grown, by the number of
the error. -/
theorem next_call_after_error (b : KernelBuf) {before : List Int32} {e : Int32}
    (h : Accepts b.len.toNat before) (hleft : totalAccepted before < b.len.toNat)
    (he : SocketEvent.isHardError e = true) (after : List Int32) :
    ∃ cs vec next result cs', (tcpSendCalls b.len b.vec (before ++ e :: after)).1 =
        cs ++ ⟨vec, some e⟩ :: ⟨next, result⟩ :: cs' ∧
      (next.iovBase.toNat : ℤ) = b.base.toNat + totalAccepted before + e.toInt ∧
      (next.iovLen.toNat : ℤ) = b.len.toNat - totalAccepted before - e.toInt := by
  have hkernel := b.kernel
  have hfits := b.fits
  have hmin := e.le_toInt
  obtain ⟨vec, hbase, hlen, hcalls⟩ := tcpSendCalls_append b.len b.vec b.fits h hleft
  change vec.iovBase.toNat = b.base.toNat + totalAccepted before at hbase
  change vec.iovLen.toNat = b.len.toNat - totalAccepted before at hlen
  simp only [SocketEvent.isHardError, Bool.and_eq_true, decide_eq_true_eq, ne_eq] at he
  obtain ⟨⟨hneg, hrestart⟩, hagain⟩ := he
  have hneg : e.toInt < 0 := Int32.lt_iff_toInt_lt.mp hneg
  have hsize := asSize_toNat e
  rw [if_neg (by omega)] at hsize
  have hafter : vec.after e = ⟨vec.iovBase + asSize e, vec.iovLen - asSize e⟩ :=
    if_neg (not_or.mpr ⟨hrestart, hagain⟩)
  have hnextBase : (vec.iovBase + asSize e).toNat =
      vec.iovBase.toNat + (asSize e).toNat - 2 ^ 64 := by
    rw [UInt64.toNat_add, Nat.mod_eq_sub_mod (by omega), Nat.mod_eq_of_lt (by omega)]
  have hnextLen : (vec.iovLen - asSize e).toNat =
      2 ^ 64 - (asSize e).toNat + vec.iovLen.toNat := by
    rw [UInt64.toNat_sub, Nat.mod_eq_of_lt (by omega)]
  have hne : (vec.after e).iovLen ≠ 0 := by
    intro hzero
    rw [hafter] at hzero
    rw [show vec.iovLen - asSize e = 0 from hzero] at hnextLen
    have h0 : (0 : UInt64).toNat = 0 := rfl
    omega
  obtain ⟨cs, hcs⟩ := hcalls (e :: after)
  obtain ⟨result, cs', hnext⟩ := exists_tcpSendCalls_eq_cons b.len (vec.after e) after
  refine ⟨cs, vec, vec.after e, result, cs', ?_, ?_, ?_⟩
  · rw [hcs, tcpSendCalls_cons, if_neg hne, ← hnext]
  · rw [hafter]
    show ((vec.iovBase + asSize e).toNat : ℤ) = _
    omega
  · rw [hafter]
    show ((vec.iovLen - asSize e).toNat : ℤ) = _
    omega

/-- It lies in the buffer only if at least as many bytes have gone. -/
theorem next_inside_iff (b : KernelBuf) {next : Kvec} {sent : ℕ} {e : Int32}
    (hbase : (next.iovBase.toNat : ℤ) = b.base.toNat + sent + e.toInt)
    (hlen : (next.iovLen.toNat : ℤ) = b.len.toNat - sent - e.toInt) :
    next.Inside b ↔ -e.toInt ≤ sent := by
  unfold Kvec.Inside
  omega

end LsmFork
