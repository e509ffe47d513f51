import LsmFork.Kernel.Instrument

/-!
# The counter of the hooks in progress

The instrumentation keeps a `char` that counts the mmap hooks in progress, and a `char` that is 1
while an mprotect hook is.  A hook that is entered before the analyzer registers is not counted, and
is taken off the counter when it leaves after that; the flag of the mprotect hook is cleared by the
first of them that leaves.

* `charValue`, `charMax`: a `char`, signed or not.
* `Balanced`: the counter and the flag say which hooks are in progress.
* `KeepsBalance`: the acts that keep it so.
* `balanced_iff`: the acts decide it, in every run.
-/

namespace LsmFork

/-! ## A `char` as a number -/

/-- The value of a `char`, which is signed or not. -/
def charValue (signed : Bool) (c : UInt8) : ℤ := if signed then c.toInt8.toInt else c.toNat

/-- `CHAR_MAX`. -/
def charMax (signed : Bool) : ℕ := if signed then 127 else 255

/-- The values that are not negative. -/
theorem charValue_eq_iff {signed : Bool} {c : UInt8} {n : ℕ} :
    charValue signed c = n ↔ c = UInt8.ofNat n ∧ n ≤ charMax signed := by
  have hlt : c.toNat < 256 := c.toNat_lt
  have hofNat : n < 256 → (c = UInt8.ofNat n ↔ c.toNat = n) := by
    intro hn
    rw [← UInt8.toNat_inj, UInt8.toNat_ofNat_of_lt' hn]
  unfold charValue charMax
  cases signed with
  | false =>
    simp only [Bool.false_eq_true, if_false]
    constructor
    · intro h
      exact ⟨(hofNat (by omega)).mpr (by omega), by omega⟩
    · rintro ⟨h, hn⟩
      rw [(hofNat (by omega)).mp h]
  | true =>
    have hint : c.toInt8.toInt = if 2 * c.toNat < 256 then (c.toNat : ℤ) else c.toNat - 256 := by
      show c.toBitVec.toInt = _
      rw [BitVec.toInt]
      rfl
    simp only [if_true, hint]
    constructor
    · intro h
      split at h
      · exact ⟨(hofNat (by omega)).mpr (by omega), by omega⟩
      · omega
    · rintro ⟨h, hn⟩
      have := (hofNat (by omega)).mp h
      rw [if_pos (by omega), this]

section Count

variable {signed : Bool} {c : UInt8} {n : ℕ}

theorem charValue_add_one_iff (h : charValue signed c = n) :
    charValue signed (c + 1) = (n + 1 : ℕ) ↔ n < charMax signed := by
  rw [charValue_eq_iff] at h ⊢
  obtain ⟨rfl, -⟩ := h
  rw [UInt8.ofNat_add]
  exact ⟨fun h => h.2, fun h => ⟨rfl, h⟩⟩

theorem charValue_sub_one (h : charValue signed c = (n + 1 : ℕ)) :
    charValue signed (c - 1) = n := by
  rw [charValue_eq_iff] at h ⊢
  obtain ⟨rfl, hn⟩ := h
  refine ⟨?_, by omega⟩
  rw [UInt8.ofNat_add]
  exact UInt8.add_sub_cancel _ _

theorem charValue_sub_one_ne (h : charValue signed c = n) : charValue signed (c - 1) ≠ n := by
  intro h'
  rw [charValue_eq_iff] at h h'
  have heq : c - 1 = c := h'.1.trans h.1.symm
  have hnat := congrArg UInt8.toNat heq
  have hlt : c.toNat < 256 := c.toNat_lt
  rw [UInt8.toNat_sub, UInt8.toNat_one] at hnat
  omega

end Count

namespace Instrument

open Runs

/-! ## The hooks in progress -/

namespace World

variable (s : World) (fn fn' : Fn) (r registered : Bool) (now : UInt64)

theorem enter_inProgress : (s.enter fn now).inProgress fn' r =
    s.inProgress fn' r + if fn' = fn ∧ r = s.registered then 1 else 0 := by
  dsimp only [enter]
  rw [Function.update_apply]
  by_cases hfn : fn' = fn
  · rw [if_pos hfn, Function.update_apply, hfn]
    by_cases hr : r = s.registered
    · rw [if_pos hr, if_pos ⟨rfl, hr⟩, hr]
    · rw [if_neg hr, if_neg (fun h => hr h.2), Nat.add_zero]
  · rw [if_neg hfn, if_neg (fun h => hfn h.1), Nat.add_zero]

theorem exit_inProgress : (s.exit fn registered now).1.inProgress fn' r =
    s.inProgress fn' r - if fn' = fn ∧ r = registered then 1 else 0 := by
  dsimp only [exit]
  rw [Function.update_apply]
  by_cases hfn : fn' = fn
  · rw [if_pos hfn, Function.update_apply, hfn]
    by_cases hr : r = registered
    · rw [if_pos hr, if_pos ⟨rfl, hr⟩, hr]
    · rw [if_neg hr, if_neg (fun h => hr h.2), Nat.sub_zero]
  · rw [if_neg hfn, if_neg (fun h => hfn h.1), Nat.sub_zero]

theorem enter_profile_inMmapHook : (s.enter fn now).profile.inMmapHook =
    if s.registered = true ∧ fn = .mcheckCustomMmapHook then s.profile.inMmapHook + 1
    else s.profile.inMmapHook :=
  enter_inMmapHook s.net.analyzerTask fn now s.profile

theorem enter_profile_inMprotectHook : (s.enter fn now).profile.inMprotectHook =
    if s.registered = true ∧ fn = .mcheckCustomMprotectHook then 1
    else s.profile.inMprotectHook :=
  enter_inMprotectHook s.net.analyzerTask fn now s.profile

theorem exit_profile_inMmapHook : (s.exit fn registered now).1.profile.inMmapHook =
    if s.registered = true ∧ fn = .mcheckCustomMmapHook then s.profile.inMmapHook - 1
    else s.profile.inMmapHook :=
  exit_inMmapHook s.net.analyzerTask fn now s.profile

theorem exit_profile_inMprotectHook : (s.exit fn registered now).1.profile.inMprotectHook =
    if s.registered = true ∧ fn = .mcheckCustomMprotectHook then 0
    else s.profile.inMprotectHook :=
  exit_inMprotectHook s.net.analyzerTask fn now s.profile

end World

/-- **The counter is balanced**: it is the number of mmap hooks in progress that were entered with
an analyzer registered, and the flag is set while such an mprotect hook is in progress. -/
structure Balanced (signed : Bool) (s : World) : Prop where
  mmap : charValue signed s.profile.inMmapHook = s.inProgress .mcheckCustomMmapHook true
  mprotect : s.profile.inMprotectHook ≠ 0 ↔ 0 < s.inProgress .mcheckCustomMprotectHook true

/-- The act leaves the counter balanced: no more mmap hooks are entered than a `char` can count, no
mmap hook that was entered before the registration leaves after it, and an mprotect hook leaves only
when no other one is in progress that was entered after the registration. -/
def KeepsBalance (signed : Bool) (s : World) : Act → Prop
  | .enter fn _ =>
    fn = .mcheckCustomMmapHook → s.registered = true →
      s.inProgress .mcheckCustomMmapHook true < charMax signed
  | .exit fn registered _ =>
    s.inProgress fn registered ≠ 0 → s.registered = true →
      (fn = .mcheckCustomMmapHook → registered = true) ∧
        (fn = .mcheckCustomMprotectHook →
          s.inProgress .mcheckCustomMprotectHook true = if registered then 1 else 0)
  | _ => True

/-- What holds as long as the counter is balanced. -/
structure BalanceInv (signed : Bool) (s : World) : Prop where
  balanced : Balanced signed s
  late : ∀ fn, s.inProgress fn true ≠ 0 → s.registered = true

namespace BalanceInv

variable {signed : Bool} {s : World}

theorem start : BalanceInv signed .start where
  balanced := ⟨charValue_eq_iff.mpr ⟨rfl, Nat.zero_le _⟩, by decide⟩
  late fn h := absurd rfl h

theorem congr {t : World} (h : BalanceInv signed s)
    (hmmap : t.profile.inMmapHook = s.profile.inMmapHook)
    (hmprotect : t.profile.inMprotectHook = s.profile.inMprotectHook)
    (hin : t.inProgress = s.inProgress) (hreg : s.registered = true → t.registered = true) :
    BalanceInv signed t where
  balanced := ⟨by rw [hmmap, hin, h.balanced.mmap], by rw [hmprotect, hin, h.balanced.mprotect]⟩
  late fn hlate := hreg (h.late fn (hin ▸ hlate))

theorem enter_mmap_iff (h : BalanceInv signed s) (fn : Fn) (now : UInt64) :
    charValue signed (s.enter fn now).profile.inMmapHook =
        (s.enter fn now).inProgress .mcheckCustomMmapHook true ↔
      (fn = .mcheckCustomMmapHook → s.registered = true →
        s.inProgress .mcheckCustomMmapHook true < charMax signed) := by
  rw [World.enter_inProgress, World.enter_profile_inMmapHook]
  by_cases hcounts : s.registered = true ∧ fn = .mcheckCustomMmapHook
  · obtain ⟨hreg, rfl⟩ := hcounts
    rw [if_pos ⟨hreg, rfl⟩, if_pos ⟨rfl, hreg.symm⟩, charValue_add_one_iff h.balanced.mmap]
    exact ⟨fun hlt _ _ => hlt, fun hlt => hlt rfl hreg⟩
  · rw [if_neg hcounts, if_neg fun hfn => hcounts ⟨hfn.2.symm, hfn.1.symm⟩, Nat.add_zero]
    exact iff_of_true h.balanced.mmap fun hfn hreg => absurd ⟨hreg, hfn⟩ hcounts

theorem enter_mprotect (h : BalanceInv signed s) (fn : Fn) (now : UInt64) :
    (s.enter fn now).profile.inMprotectHook ≠ 0 ↔
      0 < (s.enter fn now).inProgress .mcheckCustomMprotectHook true := by
  rw [World.enter_inProgress, World.enter_profile_inMprotectHook]
  by_cases hcounts : s.registered = true ∧ fn = .mcheckCustomMprotectHook
  · obtain ⟨hreg, rfl⟩ := hcounts
    rw [if_pos ⟨hreg, rfl⟩, if_pos ⟨rfl, hreg.symm⟩]
    exact iff_of_true (by decide) (Nat.succ_pos _)
  · rw [if_neg hcounts, if_neg fun hfn => hcounts ⟨hfn.2.symm, hfn.1.symm⟩, Nat.add_zero]
    exact h.balanced.mprotect

theorem exit_mmap_iff (h : BalanceInv signed s) {fn : Fn} {registered : Bool} (now : UInt64)
    (hin : s.inProgress fn registered ≠ 0) :
    charValue signed (s.exit fn registered now).1.profile.inMmapHook =
        (s.exit fn registered now).1.inProgress .mcheckCustomMmapHook true ↔
      (s.registered = true → fn = .mcheckCustomMmapHook → registered = true) := by
  have hmmap := h.balanced.mmap
  rw [World.exit_inProgress, World.exit_profile_inMmapHook]
  by_cases hfn : fn = .mcheckCustomMmapHook
  · obtain rfl := hfn
    cases registered with
    | true =>
      -- a hook that has been counted
      have hreg : s.registered = true := h.late _ hin
      obtain ⟨n, hn⟩ := Nat.exists_eq_succ_of_ne_zero hin
      rw [hn] at hmmap
      rw [if_pos ⟨hreg, rfl⟩, if_pos ⟨rfl, rfl⟩, hn]
      exact iff_of_true (charValue_sub_one hmmap) fun _ _ => rfl
    | false =>
      rw [if_neg (show ¬ (_ ∧ true = false) by simp), Nat.sub_zero]
      cases hreg : s.registered with
      | true =>
        rw [if_pos ⟨rfl, rfl⟩]
        exact iff_of_false (charValue_sub_one_ne hmmap) fun hkeep => by cases hkeep rfl rfl
      | false =>
        rw [if_neg (by simp)]
        exact iff_of_true hmmap fun hfalse => by cases hfalse
  · rw [if_neg (fun hcounts => hfn hcounts.2), if_neg (fun hcounts => hfn hcounts.1.symm),
      Nat.sub_zero]
    exact iff_of_true hmmap fun _ heq => absurd heq hfn

theorem exit_mprotect_iff (h : BalanceInv signed s) {fn : Fn} {registered : Bool} (now : UInt64)
    (hin : s.inProgress fn registered ≠ 0) :
    ((s.exit fn registered now).1.profile.inMprotectHook ≠ 0 ↔
        0 < (s.exit fn registered now).1.inProgress .mcheckCustomMprotectHook true) ↔
      (s.registered = true → fn = .mcheckCustomMprotectHook →
        s.inProgress .mcheckCustomMprotectHook true = if registered then 1 else 0) := by
  have hmprotect := h.balanced.mprotect
  rw [World.exit_inProgress, World.exit_profile_inMprotectHook]
  by_cases hfn : fn = .mcheckCustomMprotectHook
  · obtain rfl := hfn
    cases hreg : s.registered with
    | true =>
      -- the flag is cleared, so no counted hook may be left
      rw [if_pos ⟨rfl, rfl⟩]
      cases registered with
      | true =>
        rw [if_pos ⟨rfl, rfl⟩]
        simp only [ne_eq, not_true_eq_false, false_iff, if_true, forall_const]
        omega
      | false =>
        simp
    | false =>
      have hnone : s.inProgress .mcheckCustomMprotectHook true = 0 := by
        by_contra hlate
        rw [h.late _ hlate] at hreg
        cases hreg
      rw [if_neg (by simp)]
      refine iff_of_true ?_ fun hfalse => by cases hfalse
      rw [hmprotect, hnone]
      omega
  · rw [if_neg (fun hcounts => hfn hcounts.2), if_neg (fun hcounts => hfn hcounts.1.symm),
      Nat.sub_zero]
    exact iff_of_true hmprotect fun _ heq => absurd heq hfn

theorem deliver (h : BalanceInv signed s) (response : Option Int32) (now : UInt64) :
    BalanceInv signed (s.deliver response now) :=
  h.congr ((enter_inMmapHook s.net.analyzerTask .lsmReceiveReply now s.profile).trans
      (if_neg nofun))
    ((enter_inMprotectHook s.net.analyzerTask .lsmReceiveReply now s.profile).trans (if_neg nofun))
    rfl id

theorem leave (h : BalanceInv signed s) (now : UInt64) : BalanceInv signed (s.leave now).1 :=
  h.congr ((exit_inMmapHook s.net.analyzerTask .lsmReceiveReply now s.profile).trans
      (if_neg nofun))
    ((exit_inMprotectHook s.net.analyzerTask .lsmReceiveReply now s.profile).trans (if_neg nofun))
    rfl id

theorem registered_receive {findTaskByVpid : Int32 → Option Task} {response : Option Int32}
    (hreg : s.registered = true) : (s.receive findTaskByVpid response).registered = true := by
  obtain ⟨task, htask⟩ := Option.isSome_iff_exists.mp hreg
  show (s.net.receiveReply findTaskByVpid response).2.analyzerTask.isSome = true
  unfold Netlink.receiveReply
  split
  · exact hreg
  · rw [htask]
    rfl

/-- Hooks that were entered after the registration are in progress only after it. -/
theorem late_enter (h : BalanceInv signed s) (fn : Fn) (now : UInt64) (fn' : Fn)
    (hlate : (s.enter fn now).inProgress fn' true ≠ 0) : (s.enter fn now).registered = true := by
  rw [World.enter_inProgress] at hlate
  by_cases hnew : fn' = fn ∧ true = s.registered
  · exact hnew.2.symm
  · rw [if_neg hnew] at hlate
    exact h.late fn' hlate

theorem late_exit (h : BalanceInv signed s) (fn : Fn) (registered : Bool) (now : UInt64) (fn' : Fn)
    (hlate : (s.exit fn registered now).1.inProgress fn' true ≠ 0) :
    (s.exit fn registered now).1.registered = true := by
  rw [World.exit_inProgress] at hlate
  exact h.late fn' fun hzero => hlate (by rw [hzero, Nat.zero_sub])

end BalanceInv

/-- **One act** keeps the counter balanced exactly when it meets the condition. -/
theorem balance_decides (signed : Bool) :
    Decides next (fun _ => True) (BalanceInv signed) (Balanced signed) (KeepsBalance signed) where
  safe h := h.balanced
  keeps {s a} h _ hC := by
    cases a with
    | enter fn now =>
      unfold next step
      dsimp only
      split
      · exact h
      · exact ⟨⟨(h.enter_mmap_iff fn now).mpr hC, h.enter_mprotect fn now⟩, h.late_enter fn now⟩
    | exit fn registered now =>
      unfold next step
      dsimp only
      split
      · exact h
      · rename_i hin
        exact ⟨⟨(h.exit_mmap_iff now hin).mpr fun hreg => (hC hin hreg).1,
          (h.exit_mprotect_iff now hin).mpr fun hreg => (hC hin hreg).2⟩,
          h.late_exit fn registered now⟩
    | deliver response now =>
      unfold next step
      dsimp only
      split
      · exact h.deliver response now
      · exact h
    | receive findTaskByVpid =>
      unfold next step
      dsimp only
      split
      · exact h.congr rfl rfl rfl BalanceInv.registered_receive
      · exact h
    | init outcome =>
      unfold next step
      dsimp only
      split
      · exact h.congr rfl rfl rfl id
      · exact h
    | leave now =>
      unfold next step
      dsimp only
      split
      · exact h.leave now
      · exact h
  breaks {s a} h _ hC hP := by
    cases a with
    | enter fn now =>
      unfold next step at hP
      dsimp only at hP
      split at hP
      · rename_i hfn
        refine hC fun hmmap => ?_
        rw [hfn] at hmmap
        cases hmmap
      · exact hC ((h.enter_mmap_iff fn now).mp hP.mmap)
    | exit fn registered now =>
      unfold next step at hP
      dsimp only at hP
      split at hP
      · exact hC fun hin => absurd ‹_› hin
      · rename_i hin
        exact hC fun _ hreg => ⟨(h.exit_mmap_iff now hin).mp hP.mmap hreg,
          (h.exit_mprotect_iff now hin).mp hP.mprotect hreg⟩
    | _ => exact hC trivial

/-- **The counter of the hooks in progress** is balanced in every state of a run exactly when every
act of the run keeps it so. -/
theorem balanced_iff (signed : Bool) (acts : List Act) :
    (∀ s ∈ states next .start acts, Balanced signed s) ↔
      ∀ x ∈ trace next .start acts, KeepsBalance signed x.1 x.2 :=
  (balance_decides signed).states_iff .start fun _ _ => trivial

/-- An mmap hook is entered, an analyzer registers, and the hook leaves. -/
def hookAcrossRegistration : List Act :=
  [.enter .mcheckCustomMmapHook 1, .deliver (some 100) 2, .receive fun _ => some 1, .init 0,
    .init 0, .init 0, .init 0, .init 0, .leave 3, .exit .mcheckCustomMmapHook false 4]

/-- **The counter loses a hook**, and stays behind for the rest of the run. -/
theorem hookAcrossRegistration_unbalanced : ¬ ∃ signed : Bool, ∀ acts : List Act,
    ∀ s ∈ states next .start acts, Balanced signed s := by
  rintro ⟨signed, hall⟩
  have hlast := (hall hookAcrossRegistration _ (foldl_mem_states _ _)).mmap
  cases signed <;> exact absurd hlast (by decide +kernel)

end Instrument
end LsmFork
