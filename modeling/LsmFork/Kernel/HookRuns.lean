import LsmFork.Kernel.Netlink

/-!
# What the netlink-mode hooks do, step by step

`NetlinkHook.checked` says what a hook comes to before its NOTIFY.  This file has the whole of each
hook with `use_tcp` off, from its first test to its return: the references, allocations and locks
that it takes and lets go, the pages that it maps into the analyzer, and the NOTIFY.

All three begin in the same way once they are past their tests, with a reference to the analyzer's
`mm`, the `analyzer_data` and the helper thread.  The mprotect hook then pins the pages and, when
the thread has found an address, maps them there one after another.

* `HookEvent`, `HookRun`: what a hook does, and how it ends.
* `startThread`, `awaitAnalysis`: the lines that the hooks share.
* `remapPages`: the remapping loop.
* `mcheckCustomMmapHook`, `mcheckCustomMprotectHook`, `bpfProgHook`: the hooks.
* `MprotectCall.ReachesLoop`: how far a hook gets.
* `HookCall`, `HookCall.sends_checked`: any of them, and its NOTIFY.
-/

namespace LsmFork

/-- One call of `remap_pfn_range`. -/
structure RemapCall where
  addr : UInt64
  pfn : Pfn
  size : UInt64
  deriving DecidableEq

/-- What a hook does to the world outside its locals.  A step that can fail is here only when it
succeeds, but for the calls of `remap_pfn_range`, which are here either way. -/
inductive HookEvent where
  | getTaskMm
  | mmput
  | kmallocData
  | kfreeData
  | kthreadRun
  | kthreadStop
  | kmallocPages
  | kfreePages
  | getUserPage (page : Pfn)
  | putPage (page : Pfn)
  | mmapWriteLock
  | mmapWriteUnlock
  | remapPfnRange (call : RemapCall)
  | sendToUserspace (info : MappingInfo)
  deriving DecidableEq

/-- How a hook ends: with a value, asleep on `analyzer_ready`, or in the oops of a null pointer. -/
inductive HookEnd where
  | ret (value : Int32)
  | blocks
  | faults
  deriving DecidableEq

/-- What a hook does, in order, and how it ends. -/
structure HookRun where
  events : List HookEvent
  ended : HookEnd
  deriving DecidableEq

namespace HookRun

/-- The rest of a hook, after the given events. -/
def after (evs : List HookEvent) (run : HookRun) : HookRun := ⟨evs ++ run.events, run.ended⟩

@[simp] theorem after_events (evs : List HookEvent) (run : HookRun) :
    (run.after evs).events = evs ++ run.events := rfl

end HookRun

/-! ## What the hooks share -/

/-- From `get_task_mm` to the test of `kthread_run`.  A hook that returns here drops only what is
named here. -/
def startThread (m : AnalyzerMap) (rest : HookRun) : HookRun :=
  if !m.getTaskMm then ⟨[], .ret eInval⟩
  else if !m.kmalloc then ⟨[.getTaskMm], .ret eNoMem⟩
  else if !m.kthreadRun then ⟨[.getTaskMm, .kmallocData, .kfreeData], .ret 0⟩
  else rest.after [.getTaskMm, .kmallocData, .kthreadRun]

/-- From `lsm_send_to_userspace` to the end.  `reply` is what `analyzer_response` holds when the
hook has been woken, if it ever is, and `release` the calls that are left then. -/
def awaitAnalysis (info : MappingInfo) (reply : Option UInt32) (release : List HookEvent) :
    HookRun :=
  match reply with
  | none => ⟨[.sendToUserspace info], .blocks⟩
  | some analyzerResponse =>
    ⟨.sendToUserspace info :: release, .ret (Netlink.verdict analyzerResponse)⟩

/-! ## The mmap hook -/

/-- `mcheck_custom_mmap_hook` with `use_tcp` off. -/
def mcheckCustomMmapHook (analyzerTask : Option Task) (reply : Option UInt32) (c : NetlinkMmap) :
    HookRun :=
  if analyzerTask.isNone then ⟨[], .ret 0⟩
  else if c.prot &&& protExec = 0 then ⟨[], .ret 0⟩
  else if c.inAnalyzer then ⟨[], .ret 0⟩
  else
    match c.vma with
    | none => ⟨[], .ret eInval⟩
    | some vma =>
      if vma.vmFile then ⟨[], .ret 0⟩
      else
        startThread c.map <|
          if c.map.address = 0 then ⟨[.kthreadStop, .mmput, .kfreeData], .ret 0⟩
          else
            let info := setMappingInfo c.stack (some c.comm) none none c.addr c.map.address 0 c.len
              c.prot 0
            awaitAnalysis info reply [.kthreadStop, .mmput, .kfreeData]

/-! ## The mprotect hook -/

/-- One call of `mcheck_custom_mprotect_hook`, with the pages that are pinned and the outcome of
each `remap_pfn_range`. -/
structure MprotectCall where
  comm : Chars taskCommLen
  addr : UInt64
  len : UInt64
  prot : UInt64
  /-- `current->active_mm == analyzer_task->mm`. -/
  inAnalyzer : Bool
  map : AnalyzerMap
  /-- The outcome of the `kmalloc` of the page array. -/
  pageArray : Bool
  /-- The result of `get_user_pages`. -/
  pinnedPages : Int32
  /-- What `get_user_pages` leaves in the page array. -/
  pages : List Pfn
  /-- The result of `find_vma` for the address in the analyzer. -/
  analyzerVma : Option Vma
  /-- The result of the call for each index. -/
  remapPfnRange : ℕ → Int32
  /-- What the stack slot of `info` held before. -/
  stack : MappingInfo
  pages_length : pages.length = pinnedPages.toInt.toNat

/-- The remapping loop from index `i` on, with the pages from there: the calls that it makes, and
`remapping_ok`.  A call that fails is the last. -/
def remapPages (len address : UInt64) (pinnedPages : ℕ) (remapPfnRange : ℕ → Int32) :
    ℕ → List Pfn → List RemapCall × Bool
  | _, [] => ([], true)
  | i, page :: pages =>
    let offset := UInt64.ofNat i * UInt64.ofNat pageSize
    let size := if i = pinnedPages - 1 then len - offset else UInt64.ofNat pageSize
    let call : RemapCall := ⟨address + offset, page, size⟩
    if remapPfnRange i ≠ 0 then ([call], false)
    else
      let rest := remapPages len address pinnedPages remapPfnRange (i + 1) pages
      (call :: rest.1, rest.2)

namespace MprotectCall

/-- The whole remapping loop. -/
def remapped (c : MprotectCall) : List RemapCall × Bool :=
  remapPages c.len c.map.address c.pages.length c.remapPfnRange 0 c.pages

/-- From the wait for the helper thread to the end. -/
def afterPinning (reply : Option UInt32) (c : MprotectCall) : HookRun :=
  if c.map.address = 0 then
    ⟨c.pages.map .putPage ++ [.kfreePages, .kthreadStop, .kfreeData, .mmput], .ret 0⟩
  else
    match c.analyzerVma with
    -- `vm_flags_clear` comes before the test for a null pointer
    | none => ⟨[.mmapWriteLock], .faults⟩
    | some vma =>
      if vma.vmFile then ⟨[.mmapWriteLock], .ret 0⟩
      else
        let release : List HookEvent :=
          [.kthreadStop, .mmput] ++ c.pages.map .putPage ++ [.kfreePages, .kfreeData]
        let info := setMappingInfo c.stack (some c.comm) none none c.addr c.map.address 0 c.len
          c.prot 0
        HookRun.after
          ([.mmapWriteLock] ++ c.remapped.1.map .remapPfnRange ++ [.mmapWriteUnlock])
          (if c.remapped.2 then awaitAnalysis info reply release else ⟨release, .ret 0⟩)

/-- From the allocation of the page array to the end. -/
def pinPages (reply : Option UInt32) (c : MprotectCall) : HookRun :=
  if !c.pageArray then ⟨[], .ret eNoMem⟩
  else if c.pinnedPages < 0 then ⟨[.kmallocPages, .kfreePages], .ret eNoMem⟩
  else (c.afterPinning reply).after (.kmallocPages :: c.pages.map .getUserPage)

end MprotectCall

/-- `mcheck_custom_mprotect_hook` with `use_tcp` off. -/
def mcheckCustomMprotectHook (analyzerTask : Option Task) (reply : Option UInt32)
    (c : MprotectCall) : HookRun :=
  if analyzerTask.isNone then ⟨[], .ret 0⟩
  else if c.prot &&& protExec = 0 then ⟨[], .ret 0⟩
  else if c.inAnalyzer then ⟨[], .ret 0⟩
  else startThread c.map (c.pinPages reply)

/-! ## The hook for BPF programs -/

/-- `bpf_prog_hook` with `use_tcp` off. -/
def bpfProgHook (analyzerTask : Option Task) (reply : Option UInt32) (c : NetlinkBpf) : HookRun :=
  if !c.prog.jited then ⟨[], .ret 0⟩
  else if c.prog.bpfFunc.isNone then ⟨[], .ret 0⟩
  else if analyzerTask.isNone then ⟨[], .ret 0⟩
  else
    startThread c.map <|
      -- here, unlike in the other two, the reference to the analyzer's `mm` is kept
      if c.map.address = 0 then ⟨[.kthreadStop, .kfreeData], .ret 0⟩
      else
        let info := setMappingInfo c.stack (some c.comm) none none 0 c.map.address 0
          c.prog.jitedLen.toUInt64 0 0
        awaitAnalysis info reply [.kthreadStop, .mmput, .kfreeData]

/-! ## How far a hook gets -/

/-- The hook gets as far as `get_task_mm`. -/
def NetlinkMmap.ReachesMm (analyzerTask : Option Task) (c : NetlinkMmap) : Prop :=
  analyzerTask.isNone = false ∧ c.prot &&& protExec ≠ 0 ∧ c.inAnalyzer = false ∧
    ∃ vma, c.vma = some vma ∧ vma.vmFile = false

/-- The hook gets as far as `get_task_mm`. -/
def MprotectCall.ReachesMm (analyzerTask : Option Task) (c : MprotectCall) : Prop :=
  analyzerTask.isNone = false ∧ c.prot &&& protExec ≠ 0 ∧ c.inAnalyzer = false

/-- The hook gets as far as `get_task_mm`. -/
def NetlinkBpf.ReachesMm (analyzerTask : Option Task) (c : NetlinkBpf) : Prop :=
  c.prog.jited = true ∧ c.prog.bpfFunc.isNone = false ∧ analyzerTask.isNone = false

/-- The mprotect hook gets as far as its remapping loop. -/
structure MprotectCall.ReachesLoop (analyzerTask : Option Task) (c : MprotectCall) : Prop where
  reachesMm : c.ReachesMm analyzerTask
  getTaskMm : c.map.getTaskMm = true
  kmalloc : c.map.kmalloc = true
  kthreadRun : c.map.kthreadRun = true
  pageArray : c.pageArray = true
  pinned : ¬ c.pinnedPages < 0
  address : c.map.address ≠ 0
  analyzerVma : ∃ vma, c.analyzerVma = some vma ∧ vma.vmFile = false

/-! ## Any hook -/

/-- What `NetlinkHook.checked` sees of a call of the mprotect hook. -/
def MprotectCall.seen (c : MprotectCall) : NetlinkMprotect where
  comm := c.comm
  addr := c.addr
  len := c.len
  prot := c.prot
  inAnalyzer := c.inAnalyzer
  map := c.map
  pageArray := c.pageArray
  pinnedPages := c.pinnedPages
  analyzerVmFile := c.analyzerVma.any Vma.vmFile
  remapped := c.analyzerVma.isSome && c.remapped.2
  stack := c.stack

/-- A hook invocation in netlink mode, with all that it finds. -/
inductive HookCall where
  | mmap (c : NetlinkMmap)
  | mprotect (c : MprotectCall)
  | bpf (c : NetlinkBpf)

namespace HookCall

/-- What the hook does. -/
def run (analyzerTask : Option Task) (reply : Option UInt32) : HookCall → HookRun
  | mmap c => mcheckCustomMmapHook analyzerTask reply c
  | mprotect c => mcheckCustomMprotectHook analyzerTask reply c
  | bpf c => bpfProgHook analyzerTask reply c

/-- The invocation as the exchange with the analyzer sees it. -/
def seen : HookCall → NetlinkHook
  | mmap c => .mmap c
  | mprotect c => .mprotect c.seen
  | bpf c => .bpf c

end HookCall

/-! ## The NOTIFY -/

/-- The run sends the NOTIFY that its tests come to, or none when these end in a return. -/
def HookRun.SendsAs (run : HookRun) (tests : Except Int32 MappingInfo) : Prop :=
  ∀ info, .sendToUserspace info ∈ run.events ↔ tests = .ok info

namespace HookRun.SendsAs

variable {run first : HookRun} {tests firstTests : Except Int32 MappingInfo} {info : MappingInfo}
  {evs release : List HookEvent} {ended : HookEnd} {reply : Option UInt32} {value : Int32}

theorem ret (h : ∀ info, .sendToUserspace info ∉ evs) : SendsAs ⟨evs, ended⟩ (.error value) :=
  fun info => iff_of_false (h info) (by simp)

theorem nil : SendsAs ⟨[], ended⟩ (.error value) := ret fun _ => List.not_mem_nil

theorem test {p : Prop} [Decidable p] (hfirst : SendsAs first firstTests) (h : SendsAs run tests) :
    SendsAs (if p then first else run) (if p then firstTests else tests) := by
  split
  · exact hfirst
  · exact h

theorem after (hevs : ∀ info, .sendToUserspace info ∉ evs) (h : SendsAs run tests) :
    SendsAs (run.after evs) tests := by
  intro info
  rw [after_events, List.mem_append, or_iff_right (hevs info)]
  exact h info

theorem awaitAnalysis (hrelease : ∀ info, .sendToUserspace info ∉ release) :
    SendsAs (LsmFork.awaitAnalysis info reply release) (.ok info) := by
  intro info'
  rw [Except.ok.injEq]
  cases reply with
  | none => simp [LsmFork.awaitAnalysis, eq_comm]
  | some analyzerResponse => simp [LsmFork.awaitAnalysis, hrelease, eq_comm]

theorem startThread {m : AnalyzerMap} (h : SendsAs run tests) :
    SendsAs (LsmFork.startThread m run)
      (if !m.getTaskMm then .error eInval
        else if !m.kmalloc then .error eNoMem
        else if !m.kthreadRun then .error 0
        else tests) :=
  test nil (test (ret (by simp)) (test (ret (by simp)) (after (by simp) h)))

end HookRun.SendsAs

section Sends

open HookRun

variable {analyzerTask : Option Task} {reply : Option UInt32}

/-- What the exchange sees of the tests, in the order in which the hook makes them. -/
theorem MprotectCall.seen_checked (c : MprotectCall) :
    c.seen.checked analyzerTask =
      if analyzerTask.isNone then .error 0
      else if c.prot &&& protExec = 0 then .error 0
      else if c.inAnalyzer then .error 0
      else if !c.map.getTaskMm then .error eInval
      else if !c.map.kmalloc then .error eNoMem
      else if !c.map.kthreadRun then .error 0
      else if !c.pageArray then .error eNoMem
      else if c.pinnedPages < 0 then .error eNoMem
      else if c.map.address = 0 then .error 0
      else if c.analyzerVma.any Vma.vmFile then .error 0
      else if !(c.analyzerVma.isSome && c.remapped.2) then .error 0
      else .ok (setMappingInfo c.stack (some c.comm) none none c.addr c.map.address 0 c.len
        c.prot 0) := rfl

theorem MprotectCall.afterPinning_sends (c : MprotectCall) :
    SendsAs (c.afterPinning reply)
      (if c.map.address = 0 then .error 0
        else if c.analyzerVma.any Vma.vmFile then .error 0
        else if !(c.analyzerVma.isSome && c.remapped.2) then .error 0
        else .ok (setMappingInfo c.stack (some c.comm) none none c.addr c.map.address 0 c.len
          c.prot 0)) := by
  unfold afterPinning
  refine SendsAs.test (SendsAs.ret (by simp)) ?_
  cases c.analyzerVma with
  | none => exact SendsAs.ret (by simp)
  | some vma =>
    refine SendsAs.test (SendsAs.ret (by simp)) (SendsAs.after (by simp) ?_)
    rw [Option.isSome_some, Bool.true_and]
    cases c.remapped.2 with
    | false => exact SendsAs.ret (by simp)
    | true => exact SendsAs.awaitAnalysis (by simp)

/-- **A hook sends its NOTIFY** exactly when its tests come to that. -/
theorem HookCall.sends_checked (h : HookCall) :
    SendsAs (h.run analyzerTask reply) (h.seen.checked analyzerTask) := by
  cases h with
  | mmap c =>
    rw [run, seen, NetlinkHook.checked, mcheckCustomMmapHook, NetlinkMmap.checked]
    refine SendsAs.test SendsAs.nil (SendsAs.test SendsAs.nil (SendsAs.test SendsAs.nil ?_))
    cases c.vma with
    | none => exact SendsAs.nil
    | some vma =>
      refine SendsAs.test SendsAs.nil (SendsAs.startThread ?_)
      exact SendsAs.test (SendsAs.ret (by simp)) (SendsAs.awaitAnalysis (by simp))
  | mprotect c =>
    rw [run, seen, NetlinkHook.checked, mcheckCustomMprotectHook, MprotectCall.seen_checked]
    refine SendsAs.test SendsAs.nil (SendsAs.test SendsAs.nil (SendsAs.test SendsAs.nil ?_))
    refine SendsAs.startThread ?_
    unfold MprotectCall.pinPages
    refine SendsAs.test SendsAs.nil (SendsAs.test (SendsAs.ret (by simp)) ?_)
    exact SendsAs.after (by simp) c.afterPinning_sends
  | bpf c =>
    rw [run, seen, NetlinkHook.checked, bpfProgHook, NetlinkBpf.checked]
    refine SendsAs.test SendsAs.nil (SendsAs.test SendsAs.nil (SendsAs.test SendsAs.nil ?_))
    refine SendsAs.startThread ?_
    exact SendsAs.test (SendsAs.ret (by simp)) (SendsAs.awaitAnalysis (by simp))

end Sends

end LsmFork
