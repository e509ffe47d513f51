import LsmFork.Kernel.PageTable

/-!
# The TCP-mode hooks

With `use_tcp` on, the mmap and mprotect hooks are `send_pages_to_userspace_tcp` and the hook for
BPF programs is `send_bpf_data_tcp`.  Both send the frames of one mapping and then, unless they
returned early, wait for the server's reply.  What a hook does up to that point is a function of the
call: `HookResult` says whether it returned a value of its own or went on to the reply.

* `secondArg`: the extraction of the process's second argument.
* `PagesCall`, `PagesCall.checked`, `sendPagesToUserspaceTcp`: the mmap and mprotect hooks.
* `BpfCall`, `sendBpfDataTcp`: the hook for BPF programs.
* `TcpHook`: either of them, with `TcpHook.frames` and `sends_run`.
* `hookVerdict`: the value returned after a reply.
-/

namespace LsmFork

open CString

/-- `SKIPPED`, the only value of `enum tcp_send_status`. -/
def skipped : Int32 := 0

/-- `-EINVAL`. -/
def eInval : Int32 := -22

/-- `PROT_READ`. -/
def protRead : UInt64 := 1

/-- `PROT_WRITE`. -/
def protWrite : UInt64 := 2

/-- `PROT_EXEC`. -/
def protExec : UInt64 := 4

/-- What a hook has come to before any reply is read: a return value, or the call of
`lsm_receive_reply_tcp`. -/
inductive HookResult where
  | ret (value : Int32)
  | awaitReply
  deriving DecidableEq

/-- The return value of a hook that waited: `SKIPPED` for a short reply, else
`-analyzer_response`, an unsigned negation read as an `int`. -/
def hookVerdict (replyLen : ℤ) (analyzerResponse : UInt32) : Int32 :=
  if replyLen < 4 then skipped else (-analyzerResponse).toInt32

/-! ## The second argument -/

/-- `args[j] = c`. -/
def putChar {n : ℕ} (buf : Chars n) (j : ℕ) (c : UInt8) : Chars n :=
  ⟨buf.toList.set j c, by rw [List.length_set, List.Vector.toList_length]⟩

/-- The first loop: the index of the first NUL, or `arg_len`. -/
def skipField (tempBuf : List UInt8) (argLen i : ℕ) : ℕ :=
  if i < argLen ∧ tempBuf.getD i 0 ≠ 0 then skipField tempBuf argLen (i + 1) else i
termination_by argLen - i

/-- The second loop: copy from `sec_arg = &temp_buf[i]` until a NUL, the end of the window, or
`MAX_ARG_LEN - 1` characters.  It leaves the array and the index of the terminator. -/
def copyField (tempBuf : List UInt8) (argLen i : ℕ) (args : Chars maxArgLen) (j : ℕ) :
    Chars maxArgLen × ℕ :=
  if i + j < argLen ∧ tempBuf.getD (i + j) 0 ≠ 0 then
    let args := putChar args j (tempBuf.getD (i + j) 0)
    if j + 1 = maxArgLen - 1 then (args, j + 1) else copyField tempBuf argLen i args (j + 1)
  else (args, j)
termination_by argLen - (i + j)

/-- `sizeof(temp_buf)`. -/
def tempBufLen : ℕ := 1024

/-- The second NUL-separated field of the process's argument area, as the hook reads it.  The area
is empty when the process has no `mm` or no arguments; `readable` is the outcome of
`copy_from_user_nofault`. -/
def secondArg (area : List UInt8) (readable : Bool) : Chars maxArgLen :=
  let args := zeroChars maxArgLen
  if area = [] then args
  else
    let argLen := if tempBufLen ≤ area.length then tempBufLen - 1 else area.length
    if readable then
      let tempBuf := area.take argLen ++ List.replicate (tempBufLen - argLen) 0
      let i := skipField tempBuf argLen 0 + 1
      if i < argLen ∧ tempBuf.getD i 0 ≠ 0 then
        let copied := copyField tempBuf argLen i args 0
        putChar copied.1 copied.2 0
      else putChar args 0 0
    else putChar args 0 0

/-! ## The mmap and mprotect hooks -/

/-- What the hook reads of a `struct vm_area_struct`. -/
structure Vma where
  /-- `vm_file` is not null. -/
  vmFile : Bool
  /-- The name given to an anonymous mapping, if any. -/
  anonName : Option (List UInt8)
  deriving DecidableEq

/-- One call of `send_pages_to_userspace_tcp`, with all that it finds: the process, the socket, the
mapping, the page walk, and the outcome of everything that can fail.  The last four fields are what
the callers and the walk guarantee. -/
structure PagesCall where
  /-- `current->comm`. -/
  comm : Chars taskCommLen
  targetComm : List UInt8
  /-- `sock` is set, or `lsm_init_tcp_connection` succeeds. -/
  connected : Bool
  addr : UInt64
  len : UInt64
  prot : UInt64
  /-- The result of `find_vma`. -/
  vma : Option Vma
  /-- The outcome of `kvmalloc_array`. -/
  pageArray : Bool
  argArea : List UInt8
  argReadable : Bool
  /-- What the stack slot of `info` held before. -/
  stack : MappingInfo
  walk : List WalkStep
  /-- The allocations of the final flush. -/
  final : AllocOutcome
  addr_aligned : pageSize ∣ addr.toNat
  len_aligned : pageSize ∣ len.toNat
  no_wrap : addr.toNat + len.toNat < 2 ^ 64
  walk_covers : Covers addr.toNat (addr.toNat + len.toNat) (walk.map Prod.fst)

namespace PagesCall

/-- The early returns, up to the allocation of the page array. -/
def checked (c : PagesCall) : Except Int32 Vma :=
  if !strncmpEq c.comm.toList c.targetComm taskCommLen then .error skipped
  else if !c.connected then .error skipped
  else if c.addr = 0 ∨ c.len = 0 then .error eInval
  else if c.prot &&& protExec = 0 ∧ c.prot &&& protWrite = 0 then .error skipped
  else
    match c.vma with
    | none => .error skipped
    | some vma =>
      if vma.vmFile then .error skipped
      else if !c.pageArray then .error eNoMem
      else .ok vma

/-- The header that the walk starts with. -/
def info (c : PagesCall) (vma : Vma) : MappingInfo :=
  setMappingInfo c.stack (some c.comm) (some (secondArg c.argArea c.argReadable)) vma.anonName
    c.addr 0 c.len 0 c.prot 0

/-- The context that the walk starts with. -/
def startCtx (c : PagesCall) (vma : Vma) : WalkCtx where
  pages := []
  capacity := initialCapacity
  memoryError := false
  info := c.info vma

/-- The page table of the mapping, one cell for each page. -/
def pageTable (c : PagesCall) : List (Option Pte) := slots (c.walk.map Prod.fst)

/-- The pages of the mapping that the collector takes, cell by cell. -/
def row (M : PhysMem) (c : PagesCall) : List (Option Pfn) := cells M (c.walk.map Prod.fst)

end PagesCall

/-- `ctx.info->is_end_of_mapping = 1`. -/
def markEnd (ctx : WalkCtx) : WalkCtx :=
  { ctx with info := { ctx.info with isEndOfMapping := 1 } }

variable (M : PhysMem)

/-- `send_pages_to_userspace_tcp`, up to the reply. -/
def sendPagesToUserspaceTcp (c : PagesCall) : List KernelEvent × HookResult :=
  match c.checked with
  | .error value => ([], .ret value)
  | .ok vma =>
    let walked := walkPageRange M c.walk (c.startCtx vma)
    let flushed := flushAccumulatedPages M c.final (markEnd walked.1)
    (walked.2 ++ flushed.2, if flushed.1.memoryError then .ret eNoMem else .awaitReply)

/-- The frames that the call sends. -/
def PagesCall.frames (c : PagesCall) : List Frame :=
  match c.checked with
  | .error _ => []
  | .ok vma =>
    walkFrames M c.walk (c.startCtx vma) ++
      flushFrames M c.final (markEnd (walkPageRange M c.walk (c.startCtx vma)).1)

/-- **The buffers that the call sends are the chunks of its frames.** -/
theorem sends_sendPagesToUserspaceTcp (c : PagesCall) :
    sends (sendPagesToUserspaceTcp M c).1 = (c.frames M).flatMap Frame.chunks := by
  rw [sendPagesToUserspaceTcp, PagesCall.frames]
  cases c.checked with
  | error value => rfl
  | ok vma =>
    simp only [sends_append, sends_walkPageRange, sends_flushAccumulatedPages, List.flatMap_append]

/-! ## The hook for BPF programs -/

/-- What the hook reads of a `struct bpf_prog`.  A compiled image is as long as `jited_len` says. -/
structure BpfProg where
  jited : Bool
  /-- The image at `bpf_func`, unless that pointer is null. -/
  bpfFunc : Option (List UInt8)
  jitedLen : UInt32
  image_length : ∀ image, bpfFunc = some image → image.length = jitedLen.toNat

/-- One call of `send_bpf_data_tcp`. -/
structure BpfCall where
  prog : BpfProg
  comm : Chars taskCommLen
  /-- `sock` is set, or `lsm_init_tcp_connection` succeeds. -/
  connected : Bool
  /-- What the stack slot of `info` held before. -/
  stack : MappingInfo

namespace BpfCall

/-- The header of the program's only frame. -/
def info (c : BpfCall) : MappingInfo :=
  setMappingInfo c.stack (some c.comm) none none 0 0 c.prog.jitedLen.toUInt64
    c.prog.jitedLen.toUInt64 (protRead ||| protExec) 1

/-- The early returns. -/
def checked (c : BpfCall) : Except Int32 (List UInt8) :=
  match c.prog.bpfFunc with
  | none => .error skipped
  | some image =>
    if !c.prog.jited || c.prog.jitedLen = 0 then .error skipped
    else if !c.connected then .error skipped
    else .ok image

end BpfCall

/-- `send_bpf_data_tcp`, up to the reply. -/
def sendBpfDataTcp (c : BpfCall) : List KernelEvent × HookResult :=
  match c.checked with
  | .error value => ([], .ret value)
  | .ok image =>
    (lsmSendToUserspaceTcp c.info.toBytes ++ lsmSendToUserspaceTcp image, .awaitReply)

/-- The frames that the call sends. -/
def BpfCall.frames (c : BpfCall) : List Frame :=
  match c.checked with
  | .error _ => []
  | .ok image => [⟨c.info, image⟩]

theorem BpfCall.checked_ok {c : BpfCall} {image : List UInt8} (h : c.checked = .ok image) :
    c.prog.bpfFunc = some image ∧ c.prog.jitedLen ≠ 0 := by
  rw [checked] at h
  split at h
  · cases h
  · rename_i hfunc
    split at h
    · cases h
    · rename_i hjit
      split at h
      · cases h
      · have himage : _ = image := Except.ok.inj h
        refine ⟨himage ▸ hfunc, fun h0 => hjit ?_⟩
        simp [h0]

theorem BpfCall.image_length {c : BpfCall} {image : List UInt8} (h : c.checked = .ok image) :
    image.length = c.prog.jitedLen.toNat :=
  c.prog.image_length image (checked_ok h).1

theorem BpfCall.jitedLen_pos {c : BpfCall} {image : List UInt8} (h : c.checked = .ok image) :
    0 < c.prog.jitedLen.toNat := by
  have hne := (checked_ok h).2
  rcases Nat.eq_zero_or_pos c.prog.jitedLen.toNat with h0 | hpos
  · exact absurd (UInt32.toNat_inj.mp h0) hne
  · exact hpos

/-- **The buffers that the call sends are the chunks of its frame.** -/
theorem sends_sendBpfDataTcp (c : BpfCall) :
    sends (sendBpfDataTcp c).1 = c.frames.flatMap Frame.chunks := by
  rw [sendBpfDataTcp, BpfCall.frames]
  cases h : c.checked with
  | error value => rfl
  | ok image =>
    have hne : image ≠ [] := by
      apply List.ne_nil_of_length_pos
      rw [BpfCall.image_length h]
      exact BpfCall.jitedLen_pos h
    simp only [lsmSendToUserspaceTcp, if_neg (toBytes_ne_nil c.info), if_neg hne]
    simp [sends, Frame.chunks, hne]

/-! ## Any TCP-mode hook -/

/-- A hook invocation in TCP mode. -/
inductive TcpHook where
  | pages (c : PagesCall)
  | bpf (c : BpfCall)

namespace TcpHook

/-- What the hook does, up to the reply. -/
def run : TcpHook → List KernelEvent × HookResult
  | pages c => sendPagesToUserspaceTcp M c
  | bpf c => sendBpfDataTcp c

/-- The frames that the hook sends. -/
def frames : TcpHook → List Frame
  | pages c => c.frames M
  | bpf c => c.frames

theorem sends_run (h : TcpHook) : sends (h.run M).1 = (h.frames M).flatMap Frame.chunks := by
  cases h with
  | pages c => exact sends_sendPagesToUserspaceTcp M c
  | bpf c => exact sends_sendBpfDataTcp c

/-- The bytes that the hook writes to the socket. -/
def bytes (h : TcpHook) : List UInt8 := (sends (h.run M).1).flatten

theorem bytes_eq (h : TcpHook) : h.bytes M = (h.frames M).flatMap Frame.toBytes := by
  rw [bytes, sends_run, Frame.flatMap_chunks_flatten]

end TcpHook

/-! ## A concrete call -/

/-- A memory where each byte of a page is the low byte of its frame number. -/
def sampleMemory : PhysMem where
  isZeroPfn pfn := pfn == 0
  pfnValid pfn := pfn < 1024
  page pfn := List.Vector.replicate pageSize (UInt8.ofNat pfn)
  page_zero pfn h := by
    rw [beq_iff_eq] at h
    rw [h]
    rfl

/-- The comm of the analyzed process, NUL-padded. -/
def sampleComm : Chars taskCommLen :=
  ⟨[0x73, 0x70, 0x69, 0x64, 0x65, 0x72, 0x6d, 0x6f, 0x6e, 0x6b, 0x65, 0x79, 0, 0, 0, 0], rfl⟩

/-- A header of zeros. -/
def zeroInfo : MappingInfo where
  name := zeroChars taskCommLen
  args := zeroChars maxArgLen
  anonName := zeroChars maxAnonName
  initAddr := 0
  mappedAddr := 0
  mappingLen := 0
  len := 0
  prot := 0
  isEndOfMapping := 0

/-- A mapping of three pages with a hole in the middle. -/
def sampleCall : PagesCall where
  comm := sampleComm
  targetComm := sampleComm.toList
  connected := true
  addr := 4096
  len := 12288
  prot := protRead ||| protWrite
  vma := some ⟨false, none⟩
  pageArray := true
  argArea := []
  argReadable := true
  stack := zeroInfo
  walk := [(.pteEntry ⟨true, 1⟩ 4096 8192, .ok), (.pteHole 8192 12288, .ok),
    (.pteEntry ⟨true, 2⟩ 12288 16384, .ok)]
  final := .ok
  addr_aligned := by decide
  len_aligned := by decide
  no_wrap := by decide
  walk_covers := ⟨rfl, rfl, rfl, ⟨0, rfl⟩, rfl, rfl, rfl⟩

theorem sampleCall_checked : sampleCall.checked = .ok ⟨false, none⟩ := rfl

theorem sampleCall_row : sampleCall.row sampleMemory = [some 1, none, some 2] := rfl

/-- A program of four bytes. -/
def sampleBpf : BpfCall where
  prog := ⟨true, some [0x55, 0x48, 0x89, 0xe5], 4, by simp⟩
  comm := sampleComm
  connected := true
  stack := zeroInfo

end LsmFork
