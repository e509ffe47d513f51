import LsmFork.Kernel.Hook

/-!
# From the analyzer's reply to the result of the system call

A reply is 32 bits.  Over TCP it arrives as four bytes that are read as an `int`, over netlink as an
s32, and either way it is stored in `analyzer_response`, an unsigned int.  A hook returns the
negation of that as an `int`, and `do_mmap` takes the `int` into an unsigned long, where zero means
that the address is returned and the top 4095 values are errors.  No step checks the range.

* `receiveReply`, `hookReturn`: the reply as the hook sees it, and what it returns.
* `mmapReturn`, `isErrValue`: the end of `do_mmap`, and the kernel's test for an error.
* `verdictDecides_iff`: the reply decides the system call exactly when it is at most 4095.
-/

namespace LsmFork

open LittleEndian

/-- `lsm_receive_reply_tcp`, for the four bytes in its buffer: `analyzer_response = *(int *)buf`. -/
def lsmReceiveReplyTcp (buf : List UInt8) : UInt32 :=
  (UInt32.ofNat (leValue buf)).toInt32.toUInt32

/-- `lsm_receive_reply`, once an analyzer is registered: `analyzer_response = user_response`. -/
def lsmReceiveReply (userResponse : Int32) : UInt32 := userResponse.toUInt32

/-- The two ways in which a reply reaches the kernel. -/
inductive Transport where
  | tcp
  | netlink
  deriving DecidableEq

/-- What a 32-bit reply leaves in `analyzer_response`. -/
def receiveReply : Transport → UInt32 → UInt32
  | .tcp, r => lsmReceiveReplyTcp (leBytes 4 r.toNat)
  | .netlink, r => lsmReceiveReply r.toInt32

/-- What the mmap, mprotect and BPF hooks return after a reply: `-analyzer_response`. -/
def hookReturn : Transport → UInt32 → Int32
  | .tcp, r => hookVerdict 4 (receiveReply .tcp r)
  | .netlink, r => (-(receiveReply .netlink r)).toInt32

/-- The end of `do_mmap`: an int taken into an unsigned long, and returned unless it is zero. -/
def mmapReturn (hook : Int32) (addr : UInt64) : UInt64 :=
  let error : UInt64 := hook.toInt64.toUInt64
  if error ≠ 0 then error else addr

/-- `MAX_ERRNO`. -/
def maxErrno : ℕ := 4095

/-- `IS_ERR_VALUE`. -/
def isErrValue (x : UInt64) : Bool := -UInt64.ofNat maxErrno ≤ x

/-- The reply decides the system call: a zero lets it pass, and any other value is an error, for the
hook and for the caller of mmap. -/
def VerdictDecides (t : Transport) (r : UInt32) : Prop :=
  (r = 0 → hookReturn t r = 0 ∧ ∀ addr, mmapReturn (hookReturn t r) addr = addr) ∧
    (r ≠ 0 → -(maxErrno : ℤ) ≤ (hookReturn t r).toInt ∧ (hookReturn t r).toInt ≤ -1 ∧
      ∀ addr, isErrValue (mmapReturn (hookReturn t r) addr) = true)

/-! ## The conversions -/

/-- Either way, the reply is in `analyzer_response` bit for bit. -/
theorem receiveReply_eq (t : Transport) (r : UInt32) : receiveReply t r = r := by
  cases t with
  | tcp =>
    have hvalue : leValue (leBytes 4 r.toNat) = r.toNat := by
      rw [leValue_leBytes]
      exact Nat.mod_eq_of_lt r.toNat_lt
    rw [receiveReply, lsmReceiveReplyTcp, hvalue, UInt32.ofNat_toNat, UInt32.toUInt32_toInt32]
  | netlink => exact UInt32.toUInt32_toInt32 r

theorem hookReturn_eq (t : Transport) (r : UInt32) : hookReturn t r = (-r).toInt32 := by
  cases t <;> simp [hookReturn, hookVerdict, receiveReply_eq]

/-- What a hook returns, as a number: the negated reply, wrapped into an int. -/
theorem hookReturn_toInt (t : Transport) (r : UInt32) :
    (hookReturn t r).toInt =
      if r.toNat ≤ 2 ^ 31 then -(r.toNat : ℤ) else 2 ^ 32 - (r.toNat : ℤ) := by
  have hr : r.toNat < 2 ^ 32 := r.toNat_lt
  have hneg : (-r).toNat = (2 ^ 32 - r.toNat) % 2 ^ 32 := UInt32.toNat_neg r
  rw [hookReturn_eq, toInt_toInt32, hneg]
  split <;> split <;> omega

/-- The unsigned long that an int becomes. -/
theorem toNat_errorWord (hook : Int32) :
    (hook.toInt64.toUInt64.toNat : ℤ) =
      if 0 ≤ hook.toInt then hook.toInt else hook.toInt + 2 ^ 64 := by
  have hword := toInt_toUInt64 hook.toInt64
  have hlt : hook.toInt64.toUInt64.toNat < 2 ^ 64 := hook.toInt64.toUInt64.toNat_lt
  rw [Int32.toInt_toInt64] at hword
  have hmin := hook.le_toInt
  have hmax := hook.toInt_lt
  split at hword <;> split <;> omega

theorem isErrValue_iff (x : UInt64) : isErrValue x = true ↔ 2 ^ 64 - maxErrno ≤ x.toNat := by
  rw [isErrValue, decide_eq_true_iff, UInt64.le_iff_toNat_le]
  exact Iff.rfl

/-! ## When the reply decides -/

theorem mmapReturn_zero (addr : UInt64) : mmapReturn 0 addr = addr := rfl

/-- A return value from -4095 to -1 makes mmap return an error. -/
theorem isErrValue_mmapReturn {hook : Int32} (hmin : -(maxErrno : ℤ) ≤ hook.toInt)
    (hmax : hook.toInt ≤ -1) (addr : UInt64) : isErrValue (mmapReturn hook addr) = true := by
  have hword := toNat_errorWord hook
  rw [if_neg (by omega)] at hword
  have hne : hook.toInt64.toUInt64 ≠ 0 := by
    intro h0
    rw [h0] at hword
    have hzero : ((0 : UInt64).toNat : ℤ) = 0 := rfl
    simp only [maxErrno] at hmin
    omega
  rw [mmapReturn]
  simp only [ne_eq, hne, not_false_eq_true, if_true]
  rw [isErrValue_iff]
  simp only [maxErrno] at hmin ⊢
  omega

/-- **The reply decides the system call** exactly when it is at most 4095. -/
theorem verdictDecides_iff (t : Transport) (r : UInt32) :
    VerdictDecides t r ↔ r.toNat ≤ maxErrno := by
  have hr : r.toNat < 2 ^ 32 := r.toNat_lt
  have hreturn := hookReturn_toInt t r
  constructor
  · rintro ⟨-, hdeny⟩
    by_contra hlarge
    have hne : r ≠ 0 := by
      rintro rfl
      exact hlarge (Nat.zero_le _)
    obtain ⟨hmin, hmax, -⟩ := hdeny hne
    simp only [maxErrno] at hlarge hmin
    split at hreturn <;> omega
  · intro hsmall
    simp only [maxErrno] at hsmall
    rw [if_pos (by omega)] at hreturn
    refine ⟨?_, fun hne => ?_⟩
    · rintro rfl
      have hzero : hookReturn t 0 = 0 := by rw [hookReturn_eq]; rfl
      exact ⟨hzero, fun addr => by rw [hzero, mmapReturn_zero]⟩
    · have hpos : r.toNat ≠ 0 := fun h0 => hne (UInt32.toNat_inj.mp h0)
      have hmin : -(maxErrno : ℤ) ≤ (hookReturn t r).toInt := by
        simp only [maxErrno]
        omega
      have hmax : (hookReturn t r).toInt ≤ -1 := by omega
      exact ⟨hmin, hmax, isErrValue_mmapReturn hmin hmax⟩

/-- A reply of -1 makes the hook return 1, and mmap return the address 1. -/
theorem negative_reply_reads_as_success :
    ¬ (∀ t r, VerdictDecides t r) ∧ hookReturn .netlink 0xFFFFFFFF = 1 ∧
      mmapReturn (hookReturn .netlink 0xFFFFFFFF) 0x7F0000000000 = 1 ∧ isErrValue 1 = false := by
  refine ⟨fun h => ?_, by decide, by decide, by decide⟩
  have hdeny := (h .netlink 0xFFFFFFFF).2 (by decide)
  exact absurd hdeny.2.1 (by decide)

end LsmFork
