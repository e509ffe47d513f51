import LsmFork.Server.ReceiveLoop

/-!
# Where the server writes

The check `info.mapped_addr + info.len <= current_mapping_size` is one addition of two numbers that
the client chose, and it is done modulo `2 ^ 64`.  A sum that wraps can pass the check, and then the
payload is stored from an offset near `2 ^ 64` on.  This file says exactly when that happens: a
round stores inside its region unless the sum wraps to a value that passes, and then it stays inside
only if the stream ends before the payload has run out of the region.

* `offsets_inBounds_iff`: consecutive offsets, modulo `2 ^ 64`, inside a region.
* `WrapSafe`: the condition on a loop head; `iteration_inBounds_iff`: it decides one round.
* `stores_inBounds_iff`: the whole run of the loop.
-/

namespace LsmFork

open Segments

/-- The payload announced by a header stays inside a region of `mapping_len` bytes: the end of its
range does not wrap, or wraps to a value that the check rejects, or the `available` bytes do not
reach the end of the region. -/
def WrapSafeInfo (info : MappingInfo) (available : ℕ) : Prop :=
  info.mappedAddr.toNat + info.len.toNat < 2 ^ 64 ∨
    info.mappingLen < info.mappedAddr + info.len ∨
      available ≤ info.mappingLen.toNat - info.mappedAddr.toNat

instance (info : MappingInfo) (available : ℕ) : Decidable (WrapSafeInfo info available) :=
  inferInstanceAs (Decidable (_ ∨ _ ∨ _))

/-- The next header, if the server gets a region for it, is safe in this sense. -/
def WrapSafe (env : ServerEnv) (s : LoopHead) : Prop :=
  ∀ info input, receiveInfo s.input = some (info, input) → info.mappingLen ≠ 0 →
    env.mmap s.round info.mappingLen = true → WrapSafeInfo info input.flatten.length

/-- `n` consecutive offsets, modulo `2 ^ 64`, all lie below `size` exactly when the last one does
and there is no wrap on the way. -/
theorem offsets_inBounds_iff (off size : UInt64) (n : ℕ) :
    (∀ k < n, off + UInt64.ofNat k < size) ↔ n ≤ size.toNat - off.toNat := by
  have hsize : size.toNat < 2 ^ 64 := size.toNat_lt
  constructor
  · intro h
    by_contra hgt
    -- the offset that leaves the region: its end, or the start when that lies beyond
    have hk := h (size.toNat - off.toNat) (by omega)
    rw [UInt64.lt_iff_toNat_lt, UInt64.toNat_add,
      UInt64.toNat_ofNat_of_lt' (show size.toNat - off.toNat < 2 ^ 64 by omega)] at hk
    have hoff : off.toNat < 2 ^ 64 := off.toNat_lt
    omega
  · intro h k hk
    rw [UInt64.lt_iff_toNat_lt, UInt64.toNat_add,
      UInt64.toNat_ofNat_of_lt' (show k < 2 ^ 64 by omega)]
    omega

theorem mem_storeBytes_iff {region : Region} {off : UInt64} {bs : List UInt8} {ev : ServerEvent} :
    ev ∈ (storeBytes region off bs).2 ↔
      ∃ k < bs.length, ev = .store (off + UInt64.ofNat k) region.size := by
  induction bs generalizing region off with
  | nil => simp [storeBytes]
  | cons b bs ih =>
    have hnext : ∀ k, off + 1 + UInt64.ofNat k = off + UInt64.ofNat (k + 1) := by
      intro k
      rw [UInt64.ofNat_add, UInt64.add_assoc, UInt64.add_comm (UInt64.ofNat k)]
      rfl
    rw [storeBytes, List.mem_cons, ih]
    constructor
    · rintro (rfl | ⟨k, hk, rfl⟩)
      · exact ⟨0, by simp, by simp⟩
      · exact ⟨k + 1, by simpa using hk, by rw [hnext]; rfl⟩
    · rintro ⟨k, hk, rfl⟩
      cases k with
      | zero => exact Or.inl (by simp)
      | succ k => exact Or.inr ⟨k, by simpa using hk, by rw [hnext]; rfl⟩

/-- A chunk is stored in bounds exactly when it ends inside the region. -/
theorem storeBytes_inBounds_iff (region : Region) (off : UInt64) (bs : List UInt8) :
    (∀ index size, .store index size ∈ (storeBytes region off bs).2 → index < size) ↔
      bs.length ≤ region.size.toNat - off.toNat := by
  rw [← offsets_inBounds_iff]
  constructor
  · intro h k hk
    exact h _ _ (mem_storeBytes_iff.mpr ⟨k, hk, rfl⟩)
  · intro h index size hev
    obtain ⟨k, hk, heq⟩ := mem_storeBytes_iff.mp hev
    obtain ⟨rfl, rfl⟩ := ServerEvent.store.inj heq
    exact h k hk

/-- The stores of a payload are in bounds exactly when its header is safe. -/
theorem receivePayload_inBounds_iff (info : MappingInfo) (input : List (List UInt8)) :
    (∀ index size, .store index size ∈
        (receivePayload (.fresh info.mappingLen) info.mappingLen info input).1 → index < size) ↔
      WrapSafeInfo info input.flatten.length := by
  have hmapped : info.mappedAddr.toNat < 2 ^ 64 := info.mappedAddr.toNat_lt
  have hlen : info.len.toNat < 2 ^ 64 := info.len.toNat_lt
  have hsize : info.mappingLen.toNat < 2 ^ 64 := info.mappingLen.toNat_lt
  have hsum : (info.mappedAddr + info.len).toNat =
      (info.mappedAddr.toNat + info.len.toNat) % 2 ^ 64 := UInt64.toNat_add _ _
  rw [receivePayload, WrapSafeInfo]
  by_cases hpos : 0 < info.len
  · rw [if_pos hpos]
    by_cases hcheck : info.mappedAddr + info.len ≤ info.mappingLen
    · have hreject : ¬ info.mappingLen < info.mappedAddr + info.len := by
        rw [UInt64.not_lt]
        exact hcheck
      rw [if_pos hcheck]
      dsimp only
      rw [storeChunks_eq, recvLoop_chunks_flatten, storeBytes_inBounds_iff, List.length_take]
      rw [UInt64.le_iff_toNat_le, hsum] at hcheck
      rw [or_iff_right_of_imp (fun h => absurd h hreject)]
      show min info.len.toNat input.flatten.length ≤
        info.mappingLen.toNat - info.mappedAddr.toNat ↔ _
      omega
    · have hreject : info.mappingLen < info.mappedAddr + info.len := by
        rw [← UInt64.not_le]
        exact hcheck
      rw [if_neg hcheck]
      simp [hreject]
  · have hzero : info.len.toNat = 0 := by
      rw [UInt64.lt_iff_toNat_lt] at hpos
      exact Nat.eq_zero_of_not_pos hpos
    rw [if_neg hpos, hzero, Nat.add_zero]
    exact iff_of_true (fun index size hev => absurd hev (by simp)) (Or.inl hmapped)

theorem store_notMem_clientDisconnected (why : Disconnect) (rootBuf : Option Region)
    (size index bound : UInt64) : .store index bound ∉ clientDisconnected why rootBuf size := by
  rw [clientDisconnected]
  split <;> simp

theorem store_notMem_finishMapping (env : ServerEnv) (round : ℕ) (info : MappingInfo)
    (region : Region) (index bound : UInt64) :
    .store index bound ∉ (finishMapping env round info region).1 := by
  rw [finishMapping]
  split
  · split <;> simp
  · simp

/-- **What a round stores** is what the payload of its header stores, if it gets a region. -/
theorem mem_iteration_store_iff {env : ServerEnv} {s : LoopHead} (hs : s.rootBuf = none)
    (index size : UInt64) :
    .store index size ∈ (iteration env s).1 ↔
      ∃ info input, receiveInfo s.input = some (info, input) ∧ info.mappingLen ≠ 0 ∧
        env.mmap s.round info.mappingLen = true ∧ .store index size ∈
          (receivePayload (.fresh info.mappingLen) info.mappingLen info input).1 := by
  have hdisconnected := store_notMem_clientDisconnected
  have hfinish := store_notMem_finishMapping
  rw [iteration]
  cases hinfo : receiveInfo s.input with
  | none => simp [hdisconnected]
  | some received =>
    obtain ⟨info, input⟩ := received
    simp only [allocate, hs]
    by_cases hzero : info.mappingLen = 0
    · simp [hzero, hdisconnected]
    · cases hmmap : env.mmap s.round info.mappingLen with
      | false => simp [hzero, hmmap, hdisconnected]
      | true =>
        simp only [hzero, if_false, if_true]
        rcases hpayload : receivePayload (.fresh info.mappingLen) info.mappingLen info input with
          ⟨stores, region, why | ⟨payload, rest⟩⟩
        · simp [hzero, hmmap, hdisconnected, hpayload]
        · dsimp only
          split <;> simp [hzero, hmmap, hdisconnected, hpayload, hfinish]

/-- **One round** stores inside its region exactly when the loop head is safe. -/
theorem iteration_inBounds_iff {env : ServerEnv} {s : LoopHead} (hs : s.rootBuf = none) :
    (∀ index size, .store index size ∈ (iteration env s).1 → index < size) ↔ WrapSafe env s := by
  constructor
  · intro h info input hinfo hzero hmmap
    rw [← receivePayload_inBounds_iff]
    intro index size hev
    exact h index size
      ((mem_iteration_store_iff hs index size).mpr ⟨info, input, hinfo, hzero, hmmap, hev⟩)
  · intro h index size hev
    obtain ⟨info, input, hinfo, hzero, hmmap, hev⟩ := (mem_iteration_store_iff hs index size).mp hev
    exact (receivePayload_inBounds_iff info input).mpr (h info input hinfo hzero hmmap)
      index size hev

/-- **Where the server writes.**  Whatever a client sends, all stores of the run hit the region they
are meant for exactly when every loop head that the run reaches is safe. -/
theorem stores_inBounds_iff (env : ServerEnv) (input : List (List UInt8)) :
    (∀ index size, .store index size ∈ (receiveLoop env).run (.start input) → index < size) ↔
      ∀ evs s, (receiveLoop env).Reaches (.start input) evs s → WrapSafe env s := by
  constructor
  · intro h evs s hreach
    rw [← iteration_inBounds_iff (rootBuf_eq_none hreach)]
    intro index size hev
    exact h index size (Machine.mem_run_iff.mpr ⟨evs, s, hreach, hev⟩)
  · intro h index size hev
    obtain ⟨evs, s, hreach, hev⟩ := Machine.mem_run_iff.mp hev
    exact (iteration_inBounds_iff (rootBuf_eq_none hreach)).mpr (h evs s hreach) index size hev

/-- A header whose payload starts eight bytes before the region: the end of its range wraps to 8. -/
def wrappingInfo : MappingInfo where
  name := zeroChars taskCommLen
  args := zeroChars maxArgLen
  anonName := zeroChars maxAnonName
  initAddr := 0
  mappedAddr := 0xFFFFFFFFFFFFFFF8
  mappingLen := 4096
  len := 16
  prot := 3
  isEndOfMapping := 0

/-- A client that sends it, with 16 bytes of payload, makes the server write outside its region. -/
theorem wrapping_store_outOfBounds :
    ¬ ∀ index size, .store index size ∈
      (receiveLoop ⟨fun _ _ => true, fun _ => true⟩).run
        (.start [wrappingInfo.toBytes ++ List.replicate 16 0x41]) → index < size := by
  intro h
  have hinput : [wrappingInfo.toBytes ++ List.replicate 16 0x41].flatten =
      wrappingInfo.toBytes ++ List.replicate 16 0x41 := List.append_nil _
  obtain ⟨input, hinfo, hrest⟩ := receiveInfo_of_header hinput
  have hsafe : WrapSafe ⟨fun _ _ => true, fun _ => true⟩
      (.start [wrappingInfo.toBytes ++ List.replicate 16 0x41]) := by
    rw [← iteration_inBounds_iff rfl]
    intro index size hev
    exact h index size (Machine.mem_run_iff.mpr ⟨[], _, .refl _, hev⟩)
  have hfits := hsafe wrappingInfo input hinfo (by decide) rfl
  rw [hrest, List.length_replicate] at hfits
  exact absurd hfits (by decide)

end LsmFork
