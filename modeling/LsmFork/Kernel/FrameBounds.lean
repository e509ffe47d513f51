import LsmFork.Kernel.Hook

/-!
# Every frame lies inside its mapping

Whatever fails inside a hook, the batch of the collector is a block of pages that ends where the
walk stands.  `BatchInv` says so; it is kept by a flush that sends nothing, by a failed growth and
by a walk that stops early, since none of them leaves pages in the batch that are not where the
offset puts them.  So every frame that a hook sends is complete and inside its mapping.

* `BatchInv.callback`, `BatchInv.walk`: one callback, and a walk, keep the invariant.
* `PagesCall.frames_sound`, `BpfCall.frames_sound`, `TcpHook.frames_sound`: the frames of a hook.
* `PagesCall.walk_final_sound`: no frame but that of the final flush has the end flag.
-/

namespace LsmFork

/-- The batch ends at the absolute position `pos`, and its offset is that of its first page.  The
offset of an empty batch is stale and says nothing. -/
structure BatchInv (info : MappingInfo) (pos : ℕ) (ctx : WalkCtx) : Prop where
  same : SameMapping info ctx.info
  ends : ctx.pages ≠ [] →
    info.initAddr.toNat + ctx.info.mappedAddr.toNat + ctx.count * pageSize = pos

/-- What the server relies on in a frame of the mapping that `info` is about. -/
def FrameSound (info : MappingInfo) (f : Frame) : Prop :=
  f.Complete ∧ f.Accepted ∧ f.header.mappingLen = info.mappingLen ∧
    f.header.isEndOfMapping = info.isEndOfMapping

variable {M : PhysMem} {info : MappingInfo} {pos : ℕ} {ctx : WalkCtx}

theorem BatchInv.empty (h : BatchInv info pos ctx) (pos' : ℕ) :
    BatchInv info pos' { ctx with pages := [] } := ⟨h.same, fun hne => absurd rfl hne⟩

theorem BatchInv.store (h : BatchInv info pos ctx) (pfn : Pfn) {a : UInt64} (ha : a.toNat = pos)
    (hle : info.initAddr.toNat ≤ pos) :
    BatchInv info (pos + pageSize) (storePage pfn a ctx).1 := by
  have hcount : ({ ctx with pages := ctx.pages ++ [pfn] } : WalkCtx).count = ctx.count + 1 := by
    simp [WalkCtx.count]
  rw [storePage_ctx]
  by_cases hpages : ctx.pages = []
  · have h0 : ctx.count = 0 := by rw [WalkCtx.count, hpages, List.length_nil]
    have hinit : ctx.info.initAddr ≤ a := by
      rw [UInt64.le_iff_toNat_le, h.same.initAddr, ha]
      exact hle
    rw [if_pos hpages]
    refine ⟨h.same, fun _ => ?_⟩
    show info.initAddr.toNat + (a - ctx.info.initAddr).toNat +
      ({ ctx with pages := ctx.pages ++ [pfn] } : WalkCtx).count * pageSize = pos + pageSize
    rw [hcount, h0, UInt64.toNat_sub_of_le _ _ hinit, h.same.initAddr, ha]
    omega
  · rw [if_neg hpages]
    refine ⟨h.same, fun _ => ?_⟩
    show info.initAddr.toNat + ctx.info.mappedAddr.toNat +
      ({ ctx with pages := ctx.pages ++ [pfn] } : WalkCtx).count * pageSize = pos + pageSize
    rw [hcount, ← h.ends hpages]
    ring

/-- **What a flush sends.**  Its frame is complete and inside the mapping, and carries the end flag
of the context. -/
theorem BatchInv.flushFrames_sound (h : BatchInv info pos ctx) {stop : ℕ}
    (hstop : stop = info.initAddr.toNat + info.mappingLen.toNat) (hpos : pos ≤ stop)
    (hlen : info.mappingLen ≠ 0) (o : AllocOutcome) :
    ∀ f ∈ flushFrames M o ctx, FrameSound info f := by
  intro f hf
  rw [flushFrames] at hf
  split at hf
  · rw [List.mem_singleton.mp hf]
    have hlen' : ctx.info.mappingLen ≠ 0 := by rw [h.same.mappingLen]; exact hlen
    have hlt := info.mappingLen.toNat_lt
    by_cases hpages : ctx.pages = []
    · have h0 : ctx.count = 0 := by rw [WalkCtx.count, hpages, List.length_nil]
      rw [batchFrame, h0, hpages]
      exact ⟨rfl, ⟨hlen', Or.inl rfl⟩, h.same.mappingLen, h.same.isEndOfMapping⟩
    · have hends := h.ends hpages
      have hdata : (UInt64.ofNat (ctx.count * pageSize)).toNat = ctx.count * pageSize :=
        UInt64.toNat_ofNat_of_lt' (lt_of_le_of_lt (by omega) hlt)
      refine ⟨?_, ⟨hlen', Or.inr ?_⟩, h.same.mappingLen, h.same.isEndOfMapping⟩
      · exact (pagesData_length M ctx.pages).trans hdata.symm
      · show ctx.info.mappedAddr.toNat + (UInt64.ofNat (ctx.count * pageSize)).toNat ≤
          ctx.info.mappingLen.toNat
        rw [hdata, h.same.mappingLen]
        omega
  · simp at hf

/-- **One callback.**  It leaves the batch where the walk stands, and its frames are sound. -/
theorem BatchInv.callback (h : BatchInv info pos ctx) (hinit : info.initAddr.toNat ≤ pos)
    {stop : ℕ} (hstop : stop = info.initAddr.toNat + info.mappingLen.toNat)
    (hlen : info.mappingLen ≠ 0) {step : WalkStep} {cbs : List WalkCallback}
    (hcover : Covers pos stop (step.1 :: cbs)) {value : Int32} {ctx' : WalkCtx} {fs : List Frame}
    (hstep : Callback M step ctx value ctx' fs) :
    (if value = 0 then BatchInv info (pos + (callbackSlots step.1).length * pageSize) ctx'
      else BatchInv info pos ctx') ∧ ∀ f ∈ fs, FrameSound info f := by
  have hpos : pos ≤ stop := hcover.le
  have hnone : ∀ f ∈ ([] : List Frame), FrameSound info f := fun f hf => absurd hf (by simp)
  have hflush := fun o => h.flushFrames_sound (M := M) hstop hpos hlen o
  cases hstep with
  | descend =>
    rw [if_pos rfl, callbackSlots, List.length_nil, Nat.zero_mul, Nat.add_zero]
    exact ⟨h, hnone⟩
  | hole => exact ⟨h.empty _, hflush _⟩
  | abort herr => exact ⟨h, hnone⟩
  | gap herr hpfn => exact ⟨h.empty _, hflush _⟩
  | @take pte pfn a b o _ herr hpfn hroom =>
    rw [if_pos rfl, callbackSlots, List.length_singleton, Nat.one_mul]
    exact ⟨h.store pfn hcover.1 hinit, hnone⟩
  | @grow pte pfn a b o _ herr hpfn hfull hgrown =>
    have hwide : BatchInv info pos { ctx with capacity := ctx.capacity * 2 } := ⟨h.same, h.ends⟩
    rw [if_pos rfl, callbackSlots, List.length_singleton, Nat.one_mul]
    exact ⟨hwide.store pfn hcover.1 hinit, hnone⟩
  | @growFail pte pfn a b o _ herr hpfn hfull hfail =>
    have hflagged : BatchInv info pos { ctx with memoryError := true, pages := [] } :=
      ⟨h.same, fun hne => absurd rfl hne⟩
    rw [if_pos rfl, callbackSlots, List.length_singleton, Nat.one_mul]
    exact ⟨hflagged.store pfn hcover.1 hinit, hflush _⟩

theorem BatchInv.walk (h : BatchInv info pos ctx) (hinit : info.initAddr.toNat ≤ pos) {stop : ℕ}
    (hstop : stop = info.initAddr.toNat + info.mappingLen.toNat) (hlen : info.mappingLen ≠ 0)
    {steps : List WalkStep} (hcover : Covers pos stop (steps.map Prod.fst)) :
    (∃ pos' ≤ stop, BatchInv info pos' (walkPageRange M steps ctx).1) ∧
      ∀ f ∈ walkFrames M steps ctx, FrameSound info f := by
  induction steps generalizing pos ctx with
  | nil => exact ⟨⟨pos, hcover.le, h⟩, fun f hf => absurd hf (by simp [walkFrames])⟩
  | cons step steps ih =>
    obtain ⟨hnext, hframes⟩ := h.callback hinit hstop hlen hcover (lsmWalkOps_cases M step ctx).1
    rw [walkFrames]
    by_cases hvalue : (lsmWalkOps M step ctx).1 = 0
    · rw [if_pos hvalue] at hnext
      obtain ⟨hinv, hrest⟩ := ih hnext (by omega) hcover.tail
      rw [walkPageRange_of_eq M hvalue, if_neg (fun hne => hne hvalue)]
      refine ⟨hinv, fun f hf => ?_⟩
      rcases List.mem_append.mp hf with hf | hf
      · exact hframes f hf
      · exact hrest f hf
    · rw [if_neg hvalue] at hnext
      rw [walkPageRange_of_ne M hvalue, if_pos hvalue]
      exact ⟨⟨pos, hcover.le, hnext⟩, hframes⟩

/-! ## The frames of a hook -/

theorem PagesCall.checked_ok {c : PagesCall} {vma : Vma} (h : c.checked = .ok vma) :
    c.addr ≠ 0 ∧ c.len ≠ 0 := by
  rw [checked] at h
  by_cases hrange : c.addr = 0 ∨ c.len = 0
  · rw [if_pos hrange] at h
    split at h
    · cases h
    · split at h <;> cases h
  · exact not_or.mp hrange

/-- The frames of the walk are sound and leave the mapping open; that of the final flush closes
it. -/
theorem PagesCall.walk_final_sound {c : PagesCall} {vma : Vma} (h : c.checked = .ok vma) :
    (∀ f ∈ walkFrames M c.walk (c.startCtx vma), FrameSound (c.info vma) f) ∧
      ∀ f ∈ flushFrames M c.final (markEnd (walkPageRange M c.walk (c.startCtx vma)).1),
        FrameSound { c.info vma with isEndOfMapping := 1 } f := by
  have hstart : BatchInv (c.info vma) c.addr.toNat (c.startCtx vma) :=
    ⟨SameMapping.refl _, fun hne => absurd rfl hne⟩
  have hlen : (c.info vma).mappingLen ≠ 0 := (checked_ok h).2
  obtain ⟨⟨pos, hpos, hinv⟩, hframes⟩ :=
    hstart.walk (M := M) (le_refl _) rfl hlen c.walk_covers
  refine ⟨hframes, ?_⟩
  have hmarked : BatchInv { c.info vma with isEndOfMapping := 1 } pos
      (markEnd (walkPageRange M c.walk (c.startCtx vma)).1) := by
    refine ⟨fun m => ?_, hinv.ends⟩
    exact congrArg (fun i : MappingInfo => { i with isEndOfMapping := 1 }) (hinv.same m)
  exact hmarked.flushFrames_sound rfl hpos hlen c.final

/-- **Every frame of an mmap or mprotect hook** is complete and accepted. -/
theorem PagesCall.frames_sound (c : PagesCall) : ∀ f ∈ c.frames M, f.Complete ∧ f.Accepted := by
  intro f hf
  rw [frames] at hf
  cases h : c.checked with
  | error value => simp [h] at hf
  | ok vma =>
    obtain ⟨hwalk, hfinal⟩ := walk_final_sound (M := M) h
    simp only [h] at hf
    rcases List.mem_append.mp hf with hf | hf
    · exact ⟨(hwalk f hf).1, (hwalk f hf).2.1⟩
    · exact ⟨(hfinal f hf).1, (hfinal f hf).2.1⟩

/-- **The frame of the hook for BPF programs** is complete and accepted. -/
theorem BpfCall.frames_sound (c : BpfCall) : ∀ f ∈ c.frames, f.Complete ∧ f.Accepted := by
  intro f hf
  rw [frames] at hf
  cases h : c.checked with
  | error value => simp [h] at hf
  | ok image =>
    simp only [h] at hf
    rw [List.mem_singleton.mp hf]
    have hlen : c.prog.jitedLen.toUInt64.toNat = c.prog.jitedLen.toNat :=
      UInt32.toNat_toUInt64 _
    have hne : c.prog.jitedLen.toUInt64 ≠ 0 := by
      intro h0
      have := congrArg UInt64.toNat h0
      rw [hlen] at this
      exact absurd this (by have := jitedLen_pos h; simp; omega)
    refine ⟨?_, hne, Or.inr ?_⟩
    · exact (image_length h).trans hlen.symm
    · show (0 : UInt64).toNat + c.prog.jitedLen.toUInt64.toNat ≤ c.prog.jitedLen.toUInt64.toNat
      simp

/-- **Every frame of a hook** is complete and accepted, whatever fails inside it. -/
theorem TcpHook.frames_sound (h : TcpHook) : ∀ f ∈ h.frames M, f.Complete ∧ f.Accepted := by
  cases h with
  | pages c => exact c.frames_sound
  | bpf c => exact c.frames_sound

end LsmFork
