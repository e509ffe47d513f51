import LsmFork.Kernel.Verdict

/-!
# The netlink mode

With `use_tcp` off, a hook maps the memory in question into the analyzer, multicasts a NOTIFY
message, waits on the completion `analyzer_ready`, and returns the negation of `analyzer_response`.
A REPLY message from user space either registers the analyzer, when there is none, or stores its
response and completes.  All of this is in three globals.

* `Completion`: `complete`, `wait_for_completion` and `reinit_completion`.
* `Netlink`, `Netlink.receiveReply`: the globals, and `lsm_receive_reply`.
* `lsmSendToUserspace`: the NOTIFY message, with every step that can fail.
* `NetlinkHook`, `NetlinkHook.checked`: the three hooks, up to the NOTIFY.
-/

namespace LsmFork

/-! ## Completions -/

/-- `struct completion`: the number of completions that nobody has waited for. -/
structure Completion where
  done : ℕ
  deriving DecidableEq

namespace Completion

/-- `complete`. -/
def complete (c : Completion) : Completion := ⟨c.done + 1⟩

/-- `wait_for_completion`, as far as it gets: it blocks as long as there is nothing to wait for. -/
def waitFor (c : Completion) : Option Completion :=
  if 0 < c.done then some ⟨c.done - 1⟩ else none

/-- `reinit_completion`. -/
def reinit (_ : Completion) : Completion := ⟨0⟩

end Completion

/-! ## Replies -/

/-- A `struct task_struct`, by the number under which it was made. -/
abbrev Task := ℕ

/-- The globals of the netlink mode. -/
structure Netlink where
  analyzerTask : Option Task
  analyzerResponse : UInt32
  analyzerReady : Completion
  deriving DecidableEq

namespace Netlink

/-- The globals after `mcheck_lsm_init`. -/
def start : Netlink := ⟨none, 0, ⟨0⟩⟩

/-- `lsm_receive_reply`, for the RESPONSE attribute of the message, if it has one.  Nothing is
asked of the sender. -/
def receiveReply (findTaskByVpid : Int32 → Option Task) (response : Option Int32) (g : Netlink) :
    Int32 × Netlink :=
  match response with
  | none => (eInval, g)
  | some userResponse =>
    match g.analyzerTask with
    | none =>
      match findTaskByVpid userResponse with
      | none => (eInval, g)
      | some task => (0, { g with analyzerTask := some task })
    | some _ =>
      (0, { g with
        analyzerResponse := lsmReceiveReply userResponse
        analyzerReady := g.analyzerReady.complete })

/-- The end of every hook that has waited: `-analyzer_response` as an `int`. -/
def verdict (analyzerResponse : UInt32) : Int32 := (-analyzerResponse).toInt32

end Netlink

/-! ## The NOTIFY message -/

/-- The attributes of a NOTIFY message. -/
inductive LsmAttr where
  | pid
  | initAddress
  | address
  | length
  | prot
  | isFileBacked
  deriving DecidableEq

/-- The attributes in the order in which they are put. -/
def notifyAttrs (info : MappingInfo) : List (LsmAttr × UInt64) :=
  [(.pid, 0), (.initAddress, info.initAddr), (.address, info.mappedAddr), (.length, info.len),
    (.prot, info.prot), (.isFileBacked, 0)]

/-- A message that has been multicast, and the number of sockets that got it. -/
structure Notify where
  attrs : List (LsmAttr × UInt64)
  listeners : ℕ

/-- The outcome of everything that can fail in `lsm_send_to_userspace`.  `multicast` is the result
of `genlmsg_multicast`, and `listeners` how many sockets it delivers to. -/
structure NotifyOutcome where
  genlmsgNew : Bool
  genlmsgPut : Bool
  nlaPut : LsmAttr → Int32
  multicast : Int32
  listeners : ℕ

/-- Everything succeeds, and one analyzer listens. -/
def NotifyOutcome.ok : NotifyOutcome := ⟨true, true, fun _ => 0, 0, 1⟩

/-- `lsm_send_to_userspace`: its return value, and the message, if it gets to the multicast. -/
def lsmSendToUserspace (o : NotifyOutcome) (info : MappingInfo) : Int32 × Option Notify :=
  if !o.genlmsgNew then (eNoMem, none)
  else if !o.genlmsgPut then (eNoMem, none)
  else
    match (notifyAttrs info).find? fun a => o.nlaPut a.1 ≠ 0 with
    | some a => (o.nlaPut a.1, none)
    | none => (o.multicast, some ⟨notifyAttrs info, o.listeners⟩)

/-- At least one listener gets the message. -/
def delivered (sent : Int32 × Option Notify) : Bool :=
  match sent.2 with
  | none => false
  | some message => 0 < message.listeners

/-- Nothing fails on the way to the multicast, and somebody listens. -/
def NotifyOutcome.Delivers (o : NotifyOutcome) : Prop :=
  o.genlmsgNew = true ∧ o.genlmsgPut = true ∧ (∀ attr, o.nlaPut attr = 0) ∧ 0 < o.listeners

/-- **A NOTIFY is delivered** exactly when nothing fails and somebody listens. -/
theorem delivered_iff (o : NotifyOutcome) (info : MappingInfo) :
    delivered (lsmSendToUserspace o info) = true ↔ o.Delivers := by
  have hattrs : ((notifyAttrs info).find? fun a => o.nlaPut a.1 ≠ 0) = none ↔
      ∀ attr, o.nlaPut attr = 0 := by
    rw [List.find?_eq_none]
    constructor
    · intro h attr
      have hmem : ∃ word, (attr, word) ∈ notifyAttrs info := by
        cases attr <;> simp [notifyAttrs]
      obtain ⟨word, hword⟩ := hmem
      simpa using h _ hword
    · intro h a _
      simp [h a.1]
  rw [lsmSendToUserspace, NotifyOutcome.Delivers, ← hattrs]
  cases o.genlmsgNew <;> cases o.genlmsgPut <;>
    cases ((notifyAttrs info).find? fun a => o.nlaPut a.1 ≠ 0) <;> simp [delivered]

/-! ## The hooks -/

/-- The steps of a hook that map memory into the analyzer.  `address` is what the thread finds. -/
structure AnalyzerMap where
  getTaskMm : Bool
  kmalloc : Bool
  kthreadRun : Bool
  address : UInt64
  deriving DecidableEq

/-- One call of `mcheck_custom_mmap_hook`. -/
structure NetlinkMmap where
  comm : Chars taskCommLen
  addr : UInt64
  len : UInt64
  prot : UInt64
  /-- `current->active_mm == analyzer_task->mm`. -/
  inAnalyzer : Bool
  /-- The result of `find_vma`. -/
  vma : Option Vma
  map : AnalyzerMap
  /-- What the stack slot of `info` held before. -/
  stack : MappingInfo

/-- The early returns, in the end the header of the NOTIFY. -/
def NetlinkMmap.checked (analyzerTask : Option Task) (c : NetlinkMmap) : Except Int32 MappingInfo :=
  if analyzerTask.isNone then .error 0
  else if c.prot &&& protExec = 0 then .error 0
  else if c.inAnalyzer then .error 0
  else
    match c.vma with
    | none => .error eInval
    | some vma =>
      if vma.vmFile then .error 0
      else if !c.map.getTaskMm then .error eInval
      else if !c.map.kmalloc then .error eNoMem
      else if !c.map.kthreadRun then .error 0
      else if c.map.address = 0 then .error 0
      else
        .ok (setMappingInfo c.stack (some c.comm) none none c.addr c.map.address 0 c.len c.prot 0)

/-- One call of `mcheck_custom_mprotect_hook`. -/
structure NetlinkMprotect where
  comm : Chars taskCommLen
  addr : UInt64
  len : UInt64
  prot : UInt64
  /-- `current->active_mm == analyzer_task->mm`. -/
  inAnalyzer : Bool
  map : AnalyzerMap
  /-- The outcome of the `kmalloc` of the page array. -/
  pageArray : Bool
  /-- The result of `get_user_pages`. -/
  pinnedPages : Int32
  /-- `vm_file` of the new mapping in the analyzer is not null. -/
  analyzerVmFile : Bool
  /-- Every `remap_pfn_range` succeeds. -/
  remapped : Bool
  /-- What the stack slot of `info` held before. -/
  stack : MappingInfo

/-- The early returns, in the end the header of the NOTIFY.  When the remapping fails the hook goes
on to its end, without a NOTIFY, and returns 0 there. -/
def NetlinkMprotect.checked (analyzerTask : Option Task) (c : NetlinkMprotect) :
    Except Int32 MappingInfo :=
  if analyzerTask.isNone then .error 0
  else if c.prot &&& protExec = 0 then .error 0
  else if c.inAnalyzer then .error 0
  else if !c.map.getTaskMm then .error eInval
  else if !c.map.kmalloc then .error eNoMem
  else if !c.map.kthreadRun then .error 0
  else if !c.pageArray then .error eNoMem
  else if c.pinnedPages < 0 then .error eNoMem
  else if c.map.address = 0 then .error 0
  else if c.analyzerVmFile then .error 0
  else if !c.remapped then .error 0
  else .ok (setMappingInfo c.stack (some c.comm) none none c.addr c.map.address 0 c.len c.prot 0)

/-- One call of `bpf_prog_hook`. -/
structure NetlinkBpf where
  comm : Chars taskCommLen
  prog : BpfProg
  map : AnalyzerMap
  /-- What the stack slot of `info` held before. -/
  stack : MappingInfo

/-- The early returns, in the end the header of the NOTIFY. -/
def NetlinkBpf.checked (analyzerTask : Option Task) (c : NetlinkBpf) : Except Int32 MappingInfo :=
  if !c.prog.jited then .error 0
  else if c.prog.bpfFunc.isNone then .error 0
  else if analyzerTask.isNone then .error 0
  else if !c.map.getTaskMm then .error eInval
  else if !c.map.kmalloc then .error eNoMem
  else if !c.map.kthreadRun then .error 0
  else if c.map.address = 0 then .error 0
  else .ok (setMappingInfo c.stack (some c.comm) none none 0 c.map.address 0
    c.prog.jitedLen.toUInt64 0 0)

/-- A hook invocation in netlink mode. -/
inductive NetlinkHook where
  | mmap (c : NetlinkMmap)
  | mprotect (c : NetlinkMprotect)
  | bpf (c : NetlinkBpf)

/-- What a hook comes to before its NOTIFY: an early return, or the header to send. -/
def NetlinkHook.checked (analyzerTask : Option Task) : NetlinkHook → Except Int32 MappingInfo
  | mmap c => c.checked analyzerTask
  | mprotect c => c.checked analyzerTask
  | bpf c => c.checked analyzerTask

/-! ## A concrete hook -/

/-- An executable anonymous mapping of one page. -/
def sampleMmap : NetlinkHook :=
  .mmap ⟨sampleComm, 4096, 4096, protExec, false, some ⟨false, none⟩, ⟨true, true, true, 8192⟩,
    zeroInfo⟩

end LsmFork
