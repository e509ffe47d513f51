import LsmFork.Kernel.HookRuns
import LsmFork.Lib.References

/-!
# What the netlink-mode hooks leave held

Each hook takes a reference to the analyzer's `mm`, two allocations, a thread, pages and a lock, and
has to let go of all of them on every way out, each way with its own list of calls.  The lists are
complete at the end of each hook and at its return for a failed mapping, except that the BPF hook
forgets `mmput` there.  The returns for a failed allocation, a failed `kthread_run` and a failed
`get_user_pages` all forget something, and the return for a file-backed mapping in the analyzer
forgets everything, the lock included.

* `HookResource`, `HookEvent.access`: what is held, and what an event does to it.
* `ReleasesAll`: a hook that returns has let go of all that it has taken.
* `HookCall.CleanWay`: the ways out with a complete list.
* `releasesAll_iff`: a hook releases what it takes exactly on these.
-/

namespace LsmFork

open References

/-- What a hook can hold. -/
inductive HookResource where
  | mm
  | analyzerData
  | thread
  | pageArray
  | page (page : Pfn)
  | mmapLock
  deriving DecidableEq

/-- What an event does to what is held. -/
def HookEvent.access : HookEvent → RefOp HookResource
  | .getTaskMm => .take .mm
  | .mmput => .drop .mm
  | .kmallocData => .take .analyzerData
  | .kfreeData => .drop .analyzerData
  | .kthreadRun => .take .thread
  | .kthreadStop => .drop .thread
  | .kmallocPages => .take .pageArray
  | .kfreePages => .drop .pageArray
  | .getUserPage page => .take (.page page)
  | .putPage page => .drop (.page page)
  | .mmapWriteLock => .take .mmapLock
  | .mmapWriteUnlock => .drop .mmapLock
  | .remapPfnRange _ => .other
  | .sendToUserspace _ => .other

/-- **A hook that returns has let go of what it has taken**, of each thing as often as it has taken
it, and never of what it does not hold. -/
def ReleasesAll (run : HookRun) : Prop :=
  ∀ value, run.ended = .ret value → Balanced HookEvent.access run.events

/-! ## The ways out -/

/-- What comes after the start of the thread has a complete list: the page array is allocated, the
pages are pinned, and the mapping in the analyzer, if there is one, is not one of a file. -/
def MprotectCall.CleanEnd (c : MprotectCall) : Prop :=
  c.pageArray = true ∧ ¬ c.pinnedPages < 0 ∧
    (c.map.address ≠ 0 → ∀ vma, c.analyzerVma = some vma → vma.vmFile = false)

/-- **The ways out with a complete list of calls**: before or at `get_task_mm`, and those on which
the allocations and the thread succeed and nothing is forgotten after that. -/
def HookCall.CleanWay (analyzerTask : Option Task) : HookCall → Prop
  | .mmap c => c.ReachesMm analyzerTask → c.map.getTaskMm = true →
      c.map.kmalloc = true ∧ c.map.kthreadRun = true
  | .mprotect c => c.ReachesMm analyzerTask → c.map.getTaskMm = true →
      c.map.kmalloc = true ∧ c.map.kthreadRun = true ∧ c.CleanEnd
  | .bpf c => c.ReachesMm analyzerTask → c.map.getTaskMm = true →
      c.map.kmalloc = true ∧ c.map.kthreadRun = true ∧ c.map.address ≠ 0

/-! ## The rest of a hook -/

/-- The rest of a hook, if it returns, lets go of all that is held and all that it takes itself. -/
def Releases (held : Multiset HookResource) (run : HookRun) : Prop :=
  ∀ value, run.ended = .ret value → Moves HookEvent.access held run.events 0

namespace Releases

variable {held held' : Multiset HookResource} {evs release : List HookEvent} {run : HookRun}
  {info : MappingInfo} {reply : Option UInt32} {value : Int32}

/-- What a hook has done so far decides what is left for its rest. -/
theorem after_iff (h : Moves HookEvent.access held evs held') :
    Releases held (run.after evs) ↔ Releases held' run := by
  refine forall₂_congr fun value _ => ?_
  rw [HookRun.after_events]
  constructor
  · intro hall
    have hrest := hall.of_append.2
    rwa [h.ends] at hrest
  · exact h.append

theorem ret_iff (h : Moves HookEvent.access held evs held') :
    Releases held ⟨evs, .ret value⟩ ↔ held' = 0 := by
  rw [← h.moves_iff]
  exact ⟨fun hall => hall value rfl, fun hmoves _ _ => hmoves⟩

/-- **An early return** of a hook that holds nothing yet. -/
theorem test_iff {p : Prop} [Decidable p] :
    Releases 0 (if p then ⟨[], .ret value⟩ else run) ↔ (¬ p → Releases 0 run) := by
  by_cases hp : p
  · rw [if_pos hp]
    exact iff_of_true ((ret_iff (Runs.Passes.nil 0)).mpr rfl) fun hnot => absurd hp hnot
  · rw [if_neg hp, forall_prop_of_true hp]

/-- A hook that waits for its reply lets go of all that is held when it wakes up. -/
theorem awaitAnalysis (h : Moves HookEvent.access held release 0) :
    Releases held (LsmFork.awaitAnalysis info reply release) := by
  intro value hret
  cases reply with
  | none => cases hret
  | some analyzerResponse => exact Moves.other rfl h

end Releases

/-- What the hooks hold once the thread has been started. -/
def startedHeld : Multiset HookResource := {.thread, .analyzerData, .mm}

/-- **The start of the thread.**  Of the ways out before the thread runs only the first is
complete. -/
theorem startThread_releases_iff (m : AnalyzerMap) (rest : HookRun) :
    Releases 0 (startThread m rest) ↔
      (m.getTaskMm = true →
        m.kmalloc = true ∧ m.kthreadRun = true ∧ Releases startedHeld rest) := by
  have hnone : Moves HookEvent.access 0 [] 0 := Runs.Passes.nil 0
  have hdata : Moves HookEvent.access 0 [.getTaskMm] {.mm} := ⟨by decide, by decide⟩
  have hthread : Moves HookEvent.access 0 [.getTaskMm, .kmallocData, .kfreeData] {.mm} :=
    ⟨by decide, by decide⟩
  have hstarted : Moves HookEvent.access 0 [.getTaskMm, .kmallocData, .kthreadRun] startedHeld :=
    ⟨by decide, by decide⟩
  unfold startThread
  cases m.getTaskMm with
  | false => simp [Releases.ret_iff hnone]
  | true =>
    cases m.kmalloc with
    | false => simp [Releases.ret_iff hdata]
    | true =>
      cases m.kthreadRun with
      | false => simp [Releases.ret_iff hthread]
      | true => simp [Releases.after_iff hstarted]

theorem moves_complete :
    Moves HookEvent.access startedHeld [.kthreadStop, .mmput, .kfreeData] 0 :=
  ⟨by decide, by decide⟩

/-! ## The three hooks -/

variable {analyzerTask : Option Task} {reply : Option UInt32}

/-- **The mmap hook** has complete lists once its thread runs. -/
theorem mcheckCustomMmapHook_releases_iff (c : NetlinkMmap) :
    Releases 0 (mcheckCustomMmapHook analyzerTask reply c) ↔
      (HookCall.mmap c).CleanWay analyzerTask := by
  have hend : Releases startedHeld (if c.map.address = 0 then
      ⟨[.kthreadStop, .mmput, .kfreeData], .ret 0⟩ else
        awaitAnalysis (setMappingInfo c.stack (some c.comm) none none c.addr c.map.address 0 c.len
          c.prot 0) reply [.kthreadStop, .mmput, .kfreeData]) := by
    split
    · exact (Releases.ret_iff moves_complete).mpr rfl
    · exact Releases.awaitAnalysis moves_complete
  rw [HookCall.CleanWay, NetlinkMmap.ReachesMm, mcheckCustomMmapHook, Releases.test_iff,
    Releases.test_iff, Releases.test_iff]
  simp only [and_imp, Bool.not_eq_true]
  refine imp_congr_right fun _ => imp_congr_right fun _ => imp_congr_right fun _ => ?_
  cases c.vma with
  | none => exact iff_of_true ((Releases.ret_iff (Runs.Passes.nil 0)).mpr rfl) (by simp)
  | some vma =>
    simp only [Option.some.injEq, exists_eq_left']
    rw [Releases.test_iff, startThread_releases_iff, Bool.not_eq_true]
    refine imp_congr_right fun _ => imp_congr_right fun _ => and_congr_right fun _ => ?_
    exact and_iff_left hend

/-- **The hook for BPF programs** has a complete list at its end only. -/
theorem bpfProgHook_releases_iff (c : NetlinkBpf) :
    Releases 0 (bpfProgHook analyzerTask reply c) ↔ (HookCall.bpf c).CleanWay analyzerTask := by
  have hmissing : Moves HookEvent.access startedHeld [.kthreadStop, .kfreeData] {.mm} :=
    ⟨by decide, by decide⟩
  rw [HookCall.CleanWay, NetlinkBpf.ReachesMm, bpfProgHook, Releases.test_iff, Releases.test_iff,
    Releases.test_iff, startThread_releases_iff]
  simp only [and_imp, Bool.not_eq_true, Bool.not_eq_false']
  refine imp_congr_right fun _ => imp_congr_right fun _ => imp_congr_right fun _ => ?_
  refine imp_congr_right fun _ => and_congr_right fun _ => and_congr_right fun _ => ?_
  by_cases haddr : c.map.address = 0
  · rw [if_pos haddr, Releases.ret_iff hmissing]
    simp [haddr]
  · rw [if_neg haddr]
    exact iff_of_true (Releases.awaitAnalysis moves_complete) haddr

namespace MprotectCall

/-- What the mprotect hook holds once the pages are pinned. -/
def pinnedHeld (c : MprotectCall) : Multiset HookResource :=
  ↑(c.pages.map HookResource.page) + .pageArray ::ₘ startedHeld

theorem moves_putPages (c : MprotectCall) (held : Multiset HookResource) :
    Moves HookEvent.access (↑(c.pages.map HookResource.page) + held) (c.pages.map .putPage) held :=
  moves_drops HookEvent.putPage HookResource.page (fun _ => rfl) c.pages held

theorem moves_pinning (c : MprotectCall) : Moves HookEvent.access startedHeld
    (.kmallocPages :: c.pages.map .getUserPage) c.pinnedHeld :=
  Moves.take rfl (moves_takes HookEvent.getUserPage HookResource.page (fun _ => rfl) c.pages _)

theorem moves_failedMapping (c : MprotectCall) : Moves HookEvent.access c.pinnedHeld
    (c.pages.map .putPage ++ [.kfreePages, .kthreadStop, .kfreeData, .mmput]) 0 :=
  (c.moves_putPages _).append ⟨by decide, by decide⟩

theorem moves_end (c : MprotectCall) : Moves HookEvent.access c.pinnedHeld
    ([.kthreadStop, .mmput] ++ c.pages.map .putPage ++ [.kfreePages, .kfreeData]) 0 := by
  have hstop : Moves HookEvent.access (.pageArray ::ₘ startedHeld) [.kthreadStop, .mmput]
      {.pageArray, .analyzerData} := ⟨by decide, by decide⟩
  exact ((hstop.frame _).append (c.moves_putPages _)).append ⟨by decide, by decide⟩

theorem moves_remapping (held : Multiset HookResource) (calls : List RemapCall) :
    Moves HookEvent.access held
      ([.mmapWriteLock] ++ calls.map .remapPfnRange ++ [.mmapWriteUnlock]) held := by
  have hcalls : Moves HookEvent.access (.mmapLock ::ₘ held) (calls.map .remapPfnRange)
      (.mmapLock ::ₘ held) := by
    refine moves_others (fun e he => ?_) _
    obtain ⟨call, -, rfl⟩ := List.mem_map.mp he
    rfl
  rw [List.append_assoc]
  exact Moves.take rfl (hcalls.append (Moves.drop rfl (Runs.Passes.nil held)))

/-- **After the pinning** only the return for a mapping of a file forgets something. -/
theorem afterPinning_releases_iff (c : MprotectCall) :
    Releases c.pinnedHeld (c.afterPinning reply) ↔
      (c.map.address ≠ 0 → ∀ vma, c.analyzerVma = some vma → vma.vmFile = false) := by
  unfold afterPinning
  by_cases haddr : c.map.address = 0
  · rw [if_pos haddr]
    exact iff_of_true ((Releases.ret_iff c.moves_failedMapping).mpr rfl)
      fun hne => absurd haddr hne
  · rw [if_neg haddr, forall_prop_of_true haddr]
    cases c.analyzerVma with
    | none =>
      -- the hook does not return
      exact iff_of_true (fun _ hret => by cases hret) fun _ hsome => by cases hsome
    | some vma =>
      simp only [Option.some.injEq, forall_eq']
      cases vma.vmFile with
      | true =>
        have hlock : Moves HookEvent.access c.pinnedHeld [.mmapWriteLock]
            (.mmapLock ::ₘ c.pinnedHeld) := Moves.take rfl (Runs.Passes.nil _)
        simp [Releases.ret_iff hlock]
      | false =>
        refine iff_of_true ?_ rfl
        simp only [Bool.false_eq_true, if_false]
        rw [Releases.after_iff (moves_remapping _ _)]
        split
        · exact Releases.awaitAnalysis c.moves_end
        · exact (Releases.ret_iff c.moves_end).mpr rfl

/-- **After the start of the thread** the lists are complete but for three ways out. -/
theorem pinPages_releases_iff (c : MprotectCall) :
    Releases startedHeld (c.pinPages reply) ↔ c.CleanEnd := by
  have hstarted : startedHeld ≠ 0 := by decide
  have hfreed : Moves HookEvent.access startedHeld [.kmallocPages, .kfreePages] startedHeld :=
    ⟨by decide, by decide⟩
  rw [CleanEnd, pinPages]
  cases c.pageArray with
  | false => simp [Releases.ret_iff (Runs.Passes.nil startedHeld), hstarted]
  | true =>
    by_cases hpinned : c.pinnedPages < 0
    · simp [hpinned, Releases.ret_iff hfreed, hstarted]
    · simp [hpinned, Releases.after_iff c.moves_pinning, c.afterPinning_releases_iff]

end MprotectCall

/-- **The mprotect hook** forgets something on five of its ways out. -/
theorem mcheckCustomMprotectHook_releases_iff (c : MprotectCall) :
    Releases 0 (mcheckCustomMprotectHook analyzerTask reply c) ↔
      (HookCall.mprotect c).CleanWay analyzerTask := by
  rw [HookCall.CleanWay, MprotectCall.ReachesMm, mcheckCustomMprotectHook, Releases.test_iff,
    Releases.test_iff, Releases.test_iff, startThread_releases_iff, c.pinPages_releases_iff]
  simp only [and_imp, Bool.not_eq_true, ne_eq]

/-! ## Any hook -/

/-- **A hook releases what it takes exactly on its complete ways out**, whatever the analyzer
answers. -/
theorem releasesAll_iff (h : HookCall) (analyzerTask : Option Task) (reply : Option UInt32) :
    ReleasesAll (h.run analyzerTask reply) ↔ h.CleanWay analyzerTask := by
  cases h with
  | mmap c => exact mcheckCustomMmapHook_releases_iff c
  | mprotect c => exact mcheckCustomMprotectHook_releases_iff c
  | bpf c => exact bpfProgHook_releases_iff c

/-- A program for which `analyzer_data` cannot be allocated. -/
def sampleBpfHook : HookCall :=
  .bpf ⟨sampleComm, sampleBpf.prog, ⟨true, false, true, 0⟩, zeroInfo⟩

/-- The hook for BPF programs returns and keeps its reference to the analyzer's `mm`. -/
theorem sampleBpfHook_keeps_mm :
    (sampleBpfHook.run (some 0) (some 0)).ended = .ret eNoMem ∧
      ¬ ReleasesAll (sampleBpfHook.run (some 0) (some 0)) := by
  refine ⟨rfl, fun h => ?_⟩
  have hbalanced := (h eNoMem rfl).ends
  revert hbalanced
  decide

end LsmFork
