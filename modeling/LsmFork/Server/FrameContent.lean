import LsmFork.Protocol.Alignment
import LsmFork.Server.Reconstruct

/-!
# What a frame says is true of its mapping

Allocations fail in the middle of a walk, batches are dropped, and a walk stops early; what the hook
does send is true all the same.  Every frame carries the identity of the mapping that the hook is
about, and its payload is the content of the mapping at the offset in its header.

* `TcpHook.mapping`: the header and the content of what a hook is about.
* `FrameTrue`: what a frame says is true of a mapping.
* `ContentInv`: the batch is the end of the cells that the walk has passed.
* `Callback.frames_eq`: all that a callback can send is the batch.
* `PagesCall.frames_true`, `TcpHook.frames_true`: the frames of a call, and of a hook.
* `Frame.dumped_length`, `FrameTrue.dumped_getElem?`: what the server lays into a fresh buffer.
-/

namespace LsmFork

open MaximalRuns

variable (M : PhysMem)

/-- The header and the content of the mapping or program that a hook is about, when it passes its
checks. -/
def TcpHook.mapping : TcpHook → Option (MappingInfo × List UInt8)
  | .pages c =>
    match c.checked with
    | .error _ => none
    | .ok vma => some (c.info vma, c.image M)
  | .bpf c =>
    match c.checked with
    | .error _ => none
    | .ok image => some (c.info, image)

/-- Two headers of the same mapping, up to the place and the length of the payload. -/
def SameSource (info info' : MappingInfo) : Prop :=
  ∃ m l, info' = { info with mappedAddr := m, len := l }

/-- The header names the mapping `info`, and the payload is what stands in `image` at its offset. -/
structure FrameTrue (info : MappingInfo) (image : List UInt8) (f : Frame) : Prop where
  header : SameSource info f.header
  payload : f.payload ≠ [] →
    ∃ pre post, image = pre ++ f.payload ++ post ∧ pre.length = f.header.mappedAddr.toNat

/-- The batch ends where the walk stands, and holds the last cells that it has passed. -/
structure ContentInv (info : MappingInfo) (row : List (Option Pfn)) (ctx : WalkCtx) : Prop where
  batch : BatchInv info (info.initAddr.toNat + row.length * pageSize) ctx
  cells : ctx.pages.map some <:+ row

variable {M} {info : MappingInfo} {row : List (Option Pfn)} {ctx : WalkCtx}

/-! ## The walk -/

/-- **All that a callback can send** is the batch that it finds. -/
theorem Callback.frames_eq {step : WalkStep} {value : Int32} {ctx' : WalkCtx} {fs : List Frame}
    (h : Callback M step ctx value ctx' fs) : fs = [] ∨ ∃ o, fs = flushFrames M o ctx := by
  cases h with
  | descend => exact Or.inl rfl
  | hole => exact Or.inr ⟨_, rfl⟩
  | abort herr => exact Or.inl rfl
  | gap herr hpfn => exact Or.inr ⟨_, rfl⟩
  | take herr hpfn hroom => exact Or.inl rfl
  | grow herr hpfn hfull hok => exact Or.inl rfl
  | growFail herr hpfn hfull hfail => exact Or.inr ⟨_, rfl⟩

/-- The batch at the end of the cells stands at its offset in the content of all cells. -/
theorem ContentInv.exists_split (h : ContentInv info row ctx) (hpages : ctx.pages ≠ [])
    (tail : List (Option Pfn)) :
    ∃ pre post, (row ++ tail).flatMap (cellContent M) = pre ++ pagesData M ctx.pages ++ post ∧
      pre.length = ctx.info.mappedAddr.toNat := by
  obtain ⟨before, hrow⟩ := h.cells
  have hends := h.batch.ends hpages
  have hrun : (ctx.pages.map some).flatMap (cellContent M) = pagesData M ctx.pages := by
    rw [List.flatMap_map]
    rfl
  have hlength : row.length = before.length + ctx.count := by
    rw [← hrow, List.length_append, List.length_map]
    rfl
  refine ⟨before.flatMap (cellContent M), tail.flatMap (cellContent M), ?_, ?_⟩
  · rw [← hrow, List.flatMap_append, List.flatMap_append, hrun]
  · rw [List.length_flatMap, List.map_congr_left fun cell _ => cellContent_length M cell,
      List.map_const', List.sum_replicate, smul_eq_mul]
    rw [hlength, Nat.add_mul] at hends
    omega

/-- **The frame of a flush** tells the truth about the cells so far, whatever comes behind them. -/
theorem ContentInv.flushFrames_true (h : ContentInv info row ctx) (tail : List (Option Pfn))
    (o : AllocOutcome) :
    ∀ f ∈ flushFrames M o ctx, FrameTrue info ((row ++ tail).flatMap (cellContent M)) f := by
  intro f hf
  rw [flushFrames] at hf
  split at hf
  · rw [List.mem_singleton.mp hf]
    refine ⟨⟨ctx.info.mappedAddr, UInt64.ofNat (ctx.count * pageSize), ?_⟩, fun hpayload => ?_⟩
    · exact congrArg (fun i : MappingInfo =>
        { i with len := UInt64.ofNat (ctx.count * pageSize) }) (h.batch.same ctx.info.mappedAddr)
    · refine h.exists_split (fun hnil => hpayload ?_) tail
      rw [batchFrame, hnil]
      rfl
  · cases hf

theorem ContentInv.cells_concat (h : ContentInv info row ctx) (pfn : Pfn) :
    (ctx.pages ++ [pfn]).map some <:+ row ++ [some pfn] := by
  obtain ⟨before, hrow⟩ := h.cells
  exact ⟨before, by rw [List.map_append, ← List.append_assoc, hrow, List.map_singleton]⟩

/-- **One callback** keeps the invariant: with its cells, if the walk goes on. -/
theorem ContentInv.callback (h : ContentInv info row ctx) {stop : ℕ}
    (hstop : stop = info.initAddr.toNat + info.mappingLen.toNat) (hlen : info.mappingLen ≠ 0)
    {step : WalkStep} {cbs : List WalkCallback}
    (hcover : Covers (info.initAddr.toNat + row.length * pageSize) stop (step.1 :: cbs))
    {value : Int32} {ctx' : WalkCtx} {fs : List Frame} (hstep : Callback M step ctx value ctx' fs) :
    ContentInv info (if value = 0 then row ++ LsmFork.cells M [step.1] else row) ctx' := by
  have hbatch := (h.batch.callback (Nat.le_add_right _ _) hstop hlen hcover hstep).1
  constructor
  · by_cases hvalue : value = 0
    · rw [if_pos hvalue] at hbatch ⊢
      rw [List.length_append, cells_length, slots_cons, slots_nil, List.append_nil, Nat.add_mul,
        ← Nat.add_assoc]
      exact hbatch
    · rw [if_neg hvalue] at hbatch ⊢
      exact hbatch
  · cases hstep with
    | descend =>
      rw [if_pos rfl, show LsmFork.cells M _ = [] from rfl, List.append_nil]
      exact h.cells
    | hole => exact List.nil_suffix
    | abort herr =>
      rw [if_neg (by decide)]
      exact h.cells
    | gap herr hpfn => exact List.nil_suffix
    | @take pte pfn a b o _ herr hpfn hroom =>
      rw [if_pos rfl, cells_pteEntry, hpfn, storePage_ctx]
      exact h.cells_concat pfn
    | @grow pte pfn a b o _ herr hpfn hfull hok =>
      rw [if_pos rfl, cells_pteEntry, hpfn, storePage_ctx]
      exact h.cells_concat pfn
    | @growFail pte pfn a b o _ herr hpfn hfull hfail =>
      rw [if_pos rfl, cells_pteEntry, hpfn, storePage_ctx]
      exact ⟨row, rfl⟩

/-- **The walk**, however far it gets: its frames are true, and it leaves the batch at the end of
the cells that it has passed. -/
theorem ContentInv.walk (h : ContentInv info row ctx) {stop : ℕ}
    (hstop : stop = info.initAddr.toNat + info.mappingLen.toNat) (hlen : info.mappingLen ≠ 0)
    {steps : List WalkStep}
    (hcover : Covers (info.initAddr.toNat + row.length * pageSize) stop (steps.map Prod.fst)) :
    (∀ f ∈ walkFrames M steps ctx,
        FrameTrue info ((row ++ LsmFork.cells M (steps.map Prod.fst)).flatMap (cellContent M)) f) ∧
      ∃ passed, passed <+: row ++ LsmFork.cells M (steps.map Prod.fst) ∧
        ContentInv info passed (walkPageRange M steps ctx).1 := by
  induction steps generalizing row ctx with
  | nil => exact ⟨fun f hf => absurd hf (by simp [walkFrames]), row, List.prefix_append _ _, h⟩
  | cons step steps ih =>
    have hstep := (lsmWalkOps_cases M step ctx).1
    have hnext := h.callback hstop hlen hcover hstep
    have hsent : ∀ f ∈ callbackFrames M step ctx, FrameTrue info
        ((row ++ LsmFork.cells M ((step :: steps).map Prod.fst)).flatMap (cellContent M)) f := by
      rcases hstep.frames_eq with hnone | ⟨o, hflush⟩
      · rw [hnone]
        exact fun f hf => absurd hf List.not_mem_nil
      · rw [hflush]
        exact h.flushFrames_true _ o
    rw [walkFrames]
    by_cases hvalue : (lsmWalkOps M step ctx).1 = 0
    · rw [if_pos hvalue] at hnext
      have hpos : info.initAddr.toNat + (row ++ LsmFork.cells M [step.1]).length * pageSize =
          info.initAddr.toNat + row.length * pageSize +
            (callbackSlots step.1).length * pageSize := by
        rw [List.length_append, cells_length, slots_cons, slots_nil, List.append_nil]
        ring
      obtain ⟨hframes, hpassed⟩ := ih hnext (by rw [hpos]; exact hcover.tail)
      rw [walkPageRange_of_eq M hvalue, if_neg fun hne => hne hvalue]
      rw [← append_cells_cons] at hframes hpassed
      refine ⟨fun f hf => ?_, hpassed⟩
      rcases List.mem_append.mp hf with hf | hf
      · exact hsent f hf
      · exact hframes f hf
    · -- the walk stops here, before the cell of this entry
      rw [if_neg hvalue] at hnext
      rw [walkPageRange_of_ne M hvalue, if_pos hvalue]
      exact ⟨hsent, row, List.prefix_append _ _, hnext⟩

/-! ## The frames of a hook -/

/-- The end flag is part of the identity that the frames of a call agree on, up to the last. -/
theorem ContentInv.marked (h : ContentInv info row ctx) :
    ContentInv { info with isEndOfMapping := 1 } row (markEnd ctx) :=
  ⟨⟨fun m => congrArg (fun i : MappingInfo => { i with isEndOfMapping := 1 }) (h.batch.same m),
    h.batch.ends⟩, h.cells⟩

/-- **The frames of a call are true**, whatever fails inside it: those of the walk leave the mapping
open, that of the final flush closes it. -/
theorem PagesCall.frames_true {c : PagesCall} {vma : Vma} (hchecked : c.checked = .ok vma) :
    (∀ f ∈ walkFrames M c.walk (c.startCtx vma), FrameTrue (c.info vma) (c.image M) f) ∧
      ∀ f ∈ flushFrames M c.final (markEnd (walkPageRange M c.walk (c.startCtx vma)).1),
        FrameTrue { c.info vma with isEndOfMapping := 1 } (c.image M) f := by
  have hcover : Covers ((c.info vma).initAddr.toNat + ([] : List (Option Pfn)).length * pageSize)
      (c.addr.toNat + c.len.toNat) (c.walk.map Prod.fst) := by
    rw [List.length_nil, Nat.zero_mul]
    exact c.walk_covers
  have hstart : ContentInv (c.info vma) [] (c.startCtx vma) :=
    ⟨⟨SameMapping.refl _, fun hne => absurd rfl hne⟩, List.nil_suffix⟩
  obtain ⟨hframes, passed, ⟨tail, hpassed⟩, hinv⟩ :=
    hstart.walk (M := M) rfl (PagesCall.checked_ok hchecked).2 hcover
  rw [List.nil_append] at hframes hpassed
  have himage : c.image M = (passed ++ tail).flatMap (cellContent M) := by
    rw [c.image_eq, PagesCall.row, hpassed]
  refine ⟨?_, ?_⟩
  · rw [c.image_eq]
    exact hframes
  · rw [himage]
    exact hinv.marked.flushFrames_true tail c.final

/-- **The end frame of a hook** tells the truth about what the hook is about. -/
theorem TcpHook.frames_true {h : TcpHook} {f : Frame} (hf : f ∈ h.endFrames M) :
    ∃ info image, h.mapping M = some (info, image) ∧
      FrameTrue { info with isEndOfMapping := 1 } image f := by
  obtain ⟨hmem, hend⟩ := mem_endFrames.mp hf
  cases h with
  | pages c =>
    rw [TcpHook.frames, PagesCall.frames] at hmem
    cases hchecked : c.checked with
    | error value =>
      rw [hchecked] at hmem
      cases hmem
    | ok vma =>
      rw [hchecked] at hmem
      refine ⟨c.info vma, c.image M, by rw [TcpHook.mapping, hchecked], ?_⟩
      rcases List.mem_append.mp hmem with hwalk | hfinal
      · -- no frame of the walk has the end flag
        have hopen := ((PagesCall.walk_final_sound (M := M) hchecked).1 f hwalk).2.2.2
        rw [Frame.IsEnd, hopen] at hend
        exact absurd hend (show (0 : UInt64) ≠ 1 by decide)
      · exact (PagesCall.frames_true hchecked).2 f hfinal
  | bpf c =>
    rw [TcpHook.frames, BpfCall.frames] at hmem
    cases hchecked : c.checked with
    | error value =>
      rw [hchecked] at hmem
      cases hmem
    | ok image =>
      rw [hchecked] at hmem
      refine ⟨c.info, image, by rw [TcpHook.mapping, hchecked], ?_⟩
      rw [List.mem_singleton.mp hmem]
      exact ⟨⟨0, c.info.len, rfl⟩, fun _ => ⟨[], [], by rw [List.nil_append, List.append_nil], rfl⟩⟩

/-! ## What the server makes of it -/

theorem Frame.dumped_length {f : Frame} (hcomplete : f.Complete) (haccepted : f.Accepted) :
    f.dumped.length = f.header.mappingLen.toNat := by
  rw [Frame.dumped, overwrite, List.length_append, List.length_append, List.length_take,
    List.length_drop, List.length_replicate]
  rcases haccepted.2 with hzero | hfits
  · have hlen : f.payload.length = 0 := by rw [hcomplete, hzero]; rfl
    omega
  · rw [← hcomplete] at hfits
    omega

/-- **Every byte of the dump** is a byte of the mapping in its place, or a zero that the server's
buffer had there. -/
theorem FrameTrue.dumped_getElem? {image : List UInt8} {f : Frame} (h : FrameTrue info image f)
    (hcomplete : f.Complete) (haccepted : f.Accepted) {k : ℕ} {b : UInt8}
    (hb : f.dumped[k]? = some b) : b = 0 ∨ image[k]? = some b := by
  have hzeros : ∀ {n : ℕ}, (List.replicate n (0 : UInt8))[k]? = some b → b = 0 := fun hk =>
    List.eq_of_mem_replicate (List.mem_of_getElem? hk)
  by_cases hpayload : f.payload = []
  · rw [Frame.dumped, hpayload, overwrite_nil] at hb
    exact Or.inl (hzeros hb)
  · obtain ⟨pre, post, himage, hpre⟩ := h.payload hpayload
    have hfits : f.header.mappedAddr.toNat ≤ f.header.mappingLen.toNat := by
      have hpos := List.length_pos_of_ne_nil hpayload
      rcases haccepted.2 with hzero | hfits
      · rw [hcomplete, hzero] at hpos
        exact absurd hpos (lt_irrefl 0)
      · omega
    rw [Frame.dumped, getElem?_overwrite _ (by rwa [List.length_replicate]), ← hpre] at hb
    split at hb
    · rename_i hinside
      right
      rw [himage, List.append_assoc, List.getElem?_append_right hinside.1,
        List.getElem?_append_left (by omega)]
      exact hb
    · exact Or.inl (hzeros hb)

end LsmFork
