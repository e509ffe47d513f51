import LsmFork.Kernel.Hook
import LsmFork.Wire.HeaderImage

/-!
# The headers that the hooks send

The collector's model carries the header as a record, on top of whatever the stack slot held.  Every
header that it sends is one of those that the memory functions put on the wire: that of a flush,
with one store to `mapped_addr` standing for those of the walk, or that of a BPF program.  So what a
hook writes to the socket does not depend on the old contents of its stack slot either.

* `walkFrames_header`: the headers of a walk.
* `PagesCall.header_bytes`, `BpfCall.header_bytes`: the bytes of a header, from memory.
* `TcpHook.bytes_withStack`: the bytes of a hook do not depend on the old stack slot.
-/

namespace LsmFork

open CStruct

variable {M : PhysMem} {info : MappingInfo} {ctx : WalkCtx}

/-- A header of the mapping, with some offset and length. -/
def HeaderOf (info : MappingInfo) (f : Frame) : Prop :=
  ∃ m n, f.header = { info with mappedAddr := m, len := n }

theorem SameMapping.eq {info' : MappingInfo} (h : SameMapping info info') :
    info' = { info with mappedAddr := info'.mappedAddr } := (h info'.mappedAddr)

theorem flushFrames_headerOf (h : SameMapping info ctx.info) (o : AllocOutcome) :
    ∀ f ∈ flushFrames M o ctx, HeaderOf info f := by
  intro f hf
  rw [flushFrames] at hf
  split at hf
  · refine ⟨ctx.info.mappedAddr, UInt64.ofNat (ctx.count * pageSize), ?_⟩
    rw [List.mem_singleton.mp hf, batchFrame]
    exact congrArg (fun info' : MappingInfo =>
      { info' with len := UInt64.ofNat (ctx.count * pageSize) }) h.eq
  · cases hf

/-- **One callback** sends headers of the mapping and leaves one. -/
theorem callback_headerOf (h : SameMapping info ctx.info) {step : WalkStep} {value : Int32}
    {ctx' : WalkCtx} {fs : List Frame} (hstep : Callback M step ctx value ctx' fs) :
    SameMapping info ctx'.info ∧ ∀ f ∈ fs, HeaderOf info f := by
  have hnone : ∀ f ∈ ([] : List Frame), HeaderOf info f := fun f hf => absurd hf List.not_mem_nil
  have hstore : ∀ (pfn : Pfn) (a : UInt64) {ctx : WalkCtx}, SameMapping info ctx.info →
      SameMapping info (storePage pfn a ctx).1.info := by
    intro pfn a ctx h
    rw [storePage_ctx]
    dsimp only
    split
    · exact h
    · exact h
  cases hstep with
  | descend => exact ⟨h, hnone⟩
  | hole => exact ⟨h, flushFrames_headerOf h _⟩
  | abort herr => exact ⟨h, hnone⟩
  | gap herr hpfn => exact ⟨h, flushFrames_headerOf h _⟩
  | take herr hpfn hroom => exact ⟨hstore _ _ h, hnone⟩
  | grow herr hpfn hfull hok => exact ⟨hstore _ _ h, hnone⟩
  | growFail herr hpfn hfull hfail => exact ⟨hstore _ _ h, flushFrames_headerOf h _⟩

theorem walkFrames_header (steps : List WalkStep) (ctx : WalkCtx)
    (h : SameMapping info ctx.info) :
    SameMapping info (walkPageRange M steps ctx).1.info ∧
      ∀ f ∈ walkFrames M steps ctx, HeaderOf info f := by
  induction steps generalizing ctx with
  | nil => exact ⟨h, fun f hf => absurd hf List.not_mem_nil⟩
  | cons step steps ih =>
    obtain ⟨hsame, hframes⟩ := callback_headerOf h (lsmWalkOps_cases M step ctx).1
    rw [walkFrames]
    by_cases hzero : (lsmWalkOps M step ctx).1 = 0
    · obtain ⟨hlast, hrest⟩ := ih _ hsame
      rw [walkPageRange_of_eq M hzero, if_neg (fun hne => hne hzero)]
      exact ⟨hlast, List.forall_mem_append.mpr ⟨hframes, hrest⟩⟩
    · rw [walkPageRange_of_ne M hzero, if_pos hzero]
      exact ⟨hsame, hframes⟩

namespace PagesCall

/-- The arguments that the call gives to `set_mapping_info`. -/
def headerInput (c : PagesCall) (vma : Vma) : HeaderInput where
  name := some c.comm
  args := some (secondArg c.argArea c.argReadable)
  anonName := vma.anonName
  initAddr := c.addr
  mappedAddr := 0
  mappingLen := c.len
  len := 0
  prot := c.prot
  isEndOfMapping := 0

theorem headerInput_header (c : PagesCall) (vma : Vma) :
    (c.headerInput vma).header = c.info vma := (setMappingInfo_eq ..).symm

/-- **The headers of a call** are what a flush sends from memory, whatever that held before. -/
theorem header_bytes (c : PagesCall) {f : Frame} (hf : f ∈ c.frames M) :
    ∃ vma b, c.checked = .ok vma ∧
      ∀ old, f.header.toBytes = flushBytes old (c.headerInput vma) b := by
  rw [frames] at hf
  cases hchecked : c.checked with
  | error value =>
    rw [hchecked] at hf
    cases hf
  | ok vma =>
    rw [hchecked] at hf
    obtain ⟨hsame, hwalk⟩ := walkFrames_header (M := M) c.walk (c.startCtx vma)
      (SameMapping.refl (c.info vma))
    rcases List.mem_append.mp hf with hf | hf
    · obtain ⟨m, n, hheader⟩ := hwalk f hf
      refine ⟨vma, ⟨[m], false, n⟩, rfl, fun old => ?_⟩
      rw [flushBytes_eq, hheader, headerInput_header]
      rfl
    · -- the final flush has the end flag
      have hend : SameMapping { c.info vma with isEndOfMapping := 1 }
          (markEnd (walkPageRange M c.walk (c.startCtx vma)).1).info := by
        intro m
        exact congrArg (fun info' : MappingInfo => { info' with isEndOfMapping := 1 }) (hsame m)
      obtain ⟨m, n, hheader⟩ := flushFrames_headerOf hend c.final f hf
      refine ⟨vma, ⟨[m], true, n⟩, rfl, fun old => ?_⟩
      rw [flushBytes_eq, hheader, headerInput_header]
      rfl

end PagesCall

namespace BpfCall

/-- The arguments that the call gives to `set_mapping_info`. -/
def headerInput (c : BpfCall) : HeaderInput where
  name := some c.comm
  args := none
  anonName := none
  initAddr := 0
  mappedAddr := 0
  mappingLen := c.prog.jitedLen.toUInt64
  len := c.prog.jitedLen.toUInt64
  prot := protRead ||| protExec
  isEndOfMapping := 1

theorem header_bytes (c : BpfCall) (stack : Mem) :
    c.info.toBytes = bpfBytes stack c.headerInput := by
  rw [bpfBytes_eq]
  exact congrArg MappingInfo.toBytes (setMappingInfo_eq ..)

end BpfCall

namespace TcpHook

/-- The hook, with other old contents of the stack slot of `info`. -/
def withStack (stack : MappingInfo) : TcpHook → TcpHook
  | pages c => pages { c with stack }
  | bpf c => bpf { c with stack }

/-- **The bytes of a hook** do not depend on what the stack slot held before. -/
theorem bytes_withStack (h : TcpHook) (stack : MappingInfo) :
    (h.withStack stack).bytes M = h.bytes M := by
  rw [bytes_eq, bytes_eq]
  cases h with
  | pages c =>
    have hinfo : ∀ vma, PagesCall.info { c with stack } vma = c.info vma := fun vma =>
      (setMappingInfo_eq ..).trans (setMappingInfo_eq ..).symm
    have hframes : PagesCall.frames M { c with stack } = c.frames M := by
      rw [PagesCall.frames, PagesCall.frames]
      simp only [PagesCall.startCtx, hinfo]
      rfl
    exact congrArg (List.flatMap Frame.toBytes) hframes
  | bpf c =>
    have hinfo : BpfCall.info { c with stack } = c.info :=
      (setMappingInfo_eq ..).trans (setMappingInfo_eq ..).symm
    have hframes : BpfCall.frames { c with stack } = c.frames := by
      rw [BpfCall.frames, BpfCall.frames, hinfo]
      rfl
    exact congrArg (List.flatMap Frame.toBytes) hframes

end TcpHook
end LsmFork
