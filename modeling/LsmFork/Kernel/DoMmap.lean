import LsmFork.Kernel.Verdict

/-!
# A denied mmap

The hook stands at the end of `do_mmap`, after `mmap_region` has installed the new mapping and taken
out what it covers, so that the pages of the mapping can be read.  When the hook denies the mapping,
`do_mmap` returns its error and undoes nothing.

`mmap_region` is the kernel's own and a parameter here; what it has done by then is
`MmapRequest.Installed`.

* `AddressSpace`: which mapping lies at each address.
* `doMmap`: the end of `do_mmap`.
* `deniedMmap_changes_mappings`: a denied call never leaves the mappings as they were.
-/

namespace LsmFork

/-- An address space: the mapping at each address, by the number under which it was made, and the
next number. -/
structure AddressSpace where
  mappingAt : ℕ → Option ℕ
  next : ℕ
  lt_next : ∀ a mapping, mappingAt a = some mapping → mapping < next

/-- What `mmap_region` and the hook see of a request that passed the checks of `do_mmap`.  With
`MAP_FIXED` the new mapping replaces what lies in the range. -/
structure MmapRequest where
  addr : UInt64
  len : UInt64
  prot : UInt64
  mapFixed : Bool
  len_pos : 0 < len.toNat

/-- The address lies in the range of the request, once it is placed at `addr`. -/
def MmapRequest.Covers (r : MmapRequest) (addr : UInt64) (a : ℕ) : Prop :=
  addr.toNat ≤ a ∧ a < addr.toNat + r.len.toNat

instance (r : MmapRequest) (addr : UInt64) (a : ℕ) : Decidable (r.Covers addr a) :=
  inferInstanceAs (Decidable (_ ∧ _))

/-- What `mmap_region` has done by the time the hook is asked: the range holds a new mapping,
whatever lay there before, and everything else is as it was. -/
def MmapRequest.Installed (r : MmapRequest) (s : AddressSpace) (region : AddressSpace × UInt64) :
    Prop :=
  ∃ mapping, s.next ≤ mapping ∧
    ∀ a, region.1.mappingAt a = if r.Covers region.2 a then some mapping else s.mappingAt a

/-- The end of `do_mmap`: the region is made, the hook asked, and its error returned. -/
def doMmap (mmapRegion : AddressSpace → MmapRequest → AddressSpace × UInt64)
    (securityMmapAddrSizeProt : UInt64 → UInt64 → UInt64 → Int32) (s : AddressSpace)
    (r : MmapRequest) : AddressSpace × UInt64 :=
  let region := mmapRegion s r
  (region.1, mmapReturn (securityMmapAddrSizeProt region.2 r.len r.prot) region.2)

/-- An installed region changes what lies at its first address. -/
theorem MmapRequest.Installed.mappingAt_ne {r : MmapRequest} {s : AddressSpace}
    {region : AddressSpace × UInt64} (h : r.Installed s region) :
    region.1.mappingAt ≠ s.mappingAt := by
  obtain ⟨mapping, hnew, hregion⟩ := h
  intro hsame
  have hcovers : r.Covers region.2 region.2.toNat :=
    ⟨le_refl _, Nat.lt_add_of_pos_right r.len_pos⟩
  have hat := hregion region.2.toNat
  rw [if_pos hcovers, hsame] at hat
  exact absurd (s.lt_next _ _ hat) (by omega)

/-- The unsigned long made of a nonzero int is not zero. -/
theorem errorWord_ne_zero {hook : Int32} (h : hook ≠ 0) : hook.toInt64.toUInt64 ≠ 0 := by
  intro h0
  have hword := toNat_errorWord hook
  rw [h0] at hword
  have hzero : ((0 : UInt64).toNat : ℤ) = 0 := rfl
  have hmin := hook.le_toInt
  apply h
  apply Int32.toInt_inj.mp
  show hook.toInt = 0
  split at hword <;> omega

/-- **A denied mmap never leaves the address space as it was.**  It returns the error of the hook,
and the region that `mmap_region` has installed stays. -/
theorem deniedMmap_changes_mappings
    (mmapRegion : AddressSpace → MmapRequest → AddressSpace × UInt64)
    (hook : UInt64 → UInt64 → UInt64 → Int32) (s : AddressSpace) (r : MmapRequest)
    (hinstalled : r.Installed s (mmapRegion s r))
    (hdenied : hook (mmapRegion s r).2 r.len r.prot ≠ 0) :
    (doMmap mmapRegion hook s r).2 =
        (hook (mmapRegion s r).2 r.len r.prot).toInt64.toUInt64 ∧
      ¬ (doMmap mmapRegion hook s r).1.mappingAt = s.mappingAt := by
  refine ⟨?_, hinstalled.mappingAt_ne⟩
  rw [doMmap, mmapReturn]
  exact if_pos (errorWord_ne_zero hdenied)

/-! ## A concrete region -/

/-- The region is placed at the address asked for. -/
def placeRegion (s : AddressSpace) (r : MmapRequest) : AddressSpace × UInt64 :=
  ({ mappingAt := fun a => if r.Covers r.addr a then some s.next else s.mappingAt a
     next := s.next + 1
     lt_next := by
      intro a mapping h
      split at h
      · rw [← Option.some.inj h]
        exact Nat.lt_succ_self _
      · exact Nat.lt_succ_of_lt (s.lt_next a mapping h) }, r.addr)

theorem placeRegion_installed (s : AddressSpace) (r : MmapRequest) :
    r.Installed s (placeRegion s r) := ⟨s.next, le_refl _, fun _ => rfl⟩

/-- One page of mapping 0 at address 4096. -/
def sampleSpace : AddressSpace where
  mappingAt a := if 4096 ≤ a ∧ a < 8192 then some 0 else none
  next := 1
  lt_next a mapping h := by
    split at h
    · rw [← Option.some.inj h]
      exact Nat.zero_lt_one
    · cases h

/-- A fixed mapping over it. -/
def sampleRequest : MmapRequest := ⟨4096, 4096, protRead ||| protWrite, true, by decide⟩

theorem deniedMmap_changes_sample :
    (doMmap placeRegion (fun _ _ _ => hookReturn .tcp 1) sampleSpace sampleRequest).2 =
        (hookReturn .tcp 1).toInt64.toUInt64 ∧
      ¬ (doMmap placeRegion (fun _ _ _ => hookReturn .tcp 1) sampleSpace
        sampleRequest).1.mappingAt = sampleSpace.mappingAt :=
  deniedMmap_changes_mappings placeRegion (fun _ _ _ => hookReturn .tcp 1) sampleSpace
    sampleRequest (placeRegion_installed _ _) (by decide)

/-- The analyzer denies the mapping, mmap returns -EPERM, and the page of mapping 0 is gone. -/
theorem deniedMmap_replaces_page :
    (doMmap placeRegion (fun _ _ _ => hookReturn .tcp 1) sampleSpace sampleRequest).2 = -1 ∧
      sampleSpace.mappingAt 4096 = some 0 ∧
      (doMmap placeRegion (fun _ _ _ => hookReturn .tcp 1) sampleSpace
        sampleRequest).1.mappingAt 4096 = some 1 ∧
      ¬ ((doMmap placeRegion (fun _ _ _ => hookReturn .tcp 1) sampleSpace
        sampleRequest).1.mappingAt = sampleSpace.mappingAt) := by
  have hpage : (doMmap placeRegion (fun _ _ _ => hookReturn .tcp 1) sampleSpace
      sampleRequest).1.mappingAt 4096 = some 1 := by decide
  refine ⟨by decide, by decide, hpage, fun hsame => ?_⟩
  rw [hsame] at hpage
  exact absurd hpage (by decide)

end LsmFork
