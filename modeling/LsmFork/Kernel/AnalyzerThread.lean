import LsmFork.Kernel.Netlink
import LsmFork.Lib.Runs
import Mathlib.Logic.Function.Basic

/-!
# The helper thread of the netlink-mode hooks

Only a kernel thread can map memory into another process.  A netlink-mode hook allocates
`analyzer_data`, starts `mmap_analyzer_thread` with it, and waits until the thread has mapped the
memory into the analyzer; after the analysis it tells the thread to unmap it, stops the thread and
frees the data.  The two meet in two completions, which are static: all hooks share them.

`HookRuns` has the hooks alone, with the address that the thread finds as a given.  Here hooks and
threads execute one statement at a time, in any order; a statement that waits is not executed as
long as there is nothing to wait for.  A loop over the pages, and the loops on
`kthread_should_stop`, are one statement each, which is executed when the loop is left.

* `HookAt`, `ThreadAt`: the next statement of a hook, and of its thread.
* `Invocation`, `World`: a hook with its thread, its data and its mapping; all of them.
* `hookStep`, `threadStep`: the statements.
* `Act`, `step`, `next`: the acts of the system.
* `next_forall`: what each statement keeps of its own invocation.
* `data_live_when_touched`: no statement touches data that has been freed.
* `points_passed_in_order`: the points of a hook and its thread, in order and none twice.
-/

namespace LsmFork
namespace Handshake

open Runs

/-! ## The state -/

/-- Which hook an invocation is of. -/
inductive Kind where
  | mmap
  | mprotect
  | bpf
  deriving DecidableEq

/-- The next statement of a hook, after the allocation of `analyzer_data`. -/
inductive HookAt where
  | idle
  | initMmapDone
  | kthreadRun
  | pinPages
  | waitMmapDone
  | testAddress
  | remapPages
  | sendToUserspace
  | waitReady
  | reinitReady
  | completeMunmapReady
  | kthreadStop
  /-- In `kthread_stop`, until the thread has exited. -/
  | waitExit
  | kfreeData
  /-- The hook has returned, or died in the oops of a null pointer. -/
  | left
  deriving DecidableEq

/-- The next statement of `mmap_analyzer_thread`. -/
inductive ThreadAt where
  | none
  | useMm
  | vmMmap
  | copyToUser
  /-- `vm_munmap` after a failed copy. -/
  | undoMmap
  | clearAddress
  | initMunmapReady
  | completeMmapDone
  | testAddress
  | waitMunmapReady
  | vmMunmap
  | unuseMm
  /-- The loops on `kthread_should_stop`. -/
  | spin
  | exited
  deriving DecidableEq

/-- `struct mmap_analyzer_thread_data`, with the member that changes. -/
inductive DataAt where
  | unallocated
  | live (address : UInt64)
  | freed
  deriving DecidableEq

/-- `data->address`. -/
def DataAt.address : DataAt → UInt64
  | live address => address
  | _ => 0

/-- `data->address = address`. -/
def DataAt.setAddress (address : UInt64) : DataAt → DataAt
  | live _ => live address
  | d => d

/-- The data is allocated. -/
def DataAt.IsLive (d : DataAt) : Prop := ∃ address, d = live address

/-- An invocation of a hook, with its thread. -/
structure Invocation where
  kind : Kind
  hook : HookAt
  thread : ThreadAt
  /-- `kthread_should_stop`. -/
  shouldStop : Bool
  data : DataAt
  /-- The mapping that the thread has made in the analyzer, if it is still there. -/
  mapping : Option UInt64
  deriving DecidableEq

/-- Before a hook starts. -/
def Invocation.fresh : Invocation := ⟨.mmap, .idle, .none, false, .unallocated, none⟩

/-- What the hooks share. -/
structure Globals where
  mmapDone : Completion
  munmapReady : Completion
  analyzerReady : Completion
  deriving DecidableEq

/-- The state of the system. -/
structure World where
  globals : Globals
  inv : ℕ → Invocation

/-- No hook has started yet. -/
def World.start : World := ⟨⟨⟨0⟩, ⟨0⟩, ⟨0⟩⟩, fun _ => .fresh⟩

/-- An invocation and the globals change. -/
def World.set (s : World) (i : ℕ) (done : Globals × Invocation) : World :=
  ⟨done.1, Function.update s.inv i done.2⟩

/-! ## The statements -/

/-- `vm_mmap` has made a mapping: it returns an error as one of the last 4095 addresses. -/
def isMapped (address : UInt64) : Bool := address ≠ 0 && address.toNat + 4095 < 2 ^ 64

/-- The mapping that `vm_mmap` has made when it returns `address`. -/
def mappedAt (address : UInt64) : Option UInt64 := if isMapped address then some address else none

/-- How the mprotect hook gets through its remapping: `leaves` is the return on a file-backed
mapping in the analyzer, and the oops when there is none. -/
inductive Remapping where
  | ok
  | failed
  | leaves
  deriving DecidableEq

/-- The outcomes of what can fail in a hook. -/
structure HookOutcome where
  kthreadRun : Bool
  /-- The page array is allocated, and `get_user_pages` succeeds. -/
  pinned : Bool
  remapping : Remapping

/-- The outcomes of what can fail in the thread. -/
structure ThreadOutcome where
  /-- The result of `vm_mmap`. -/
  vmMmap : UInt64
  /-- `copy_to_user` has copied the program. -/
  copied : Bool

/-- The next statement of a hook. -/
def hookStep (o : HookOutcome) (g : Globals) (x : Invocation) : Option (Globals × Invocation) :=
  match x.hook with
  | .idle => none
  | .initMmapDone => some ({ g with mmapDone := g.mmapDone.reinit }, { x with hook := .kthreadRun })
  | .kthreadRun =>
    if o.kthreadRun then
      some (g, { x with
        thread := .useMm
        hook := if x.kind = .mprotect then .pinPages else .waitMmapDone })
    else some (g, { x with data := .freed, hook := .left })
  -- the mprotect hook returns here, and leaves the thread alone
  | .pinPages => some (g, { x with hook := if o.pinned then .waitMmapDone else .left })
  | .waitMmapDone =>
    g.mmapDone.waitFor.map fun c => ({ g with mmapDone := c }, { x with hook := .testAddress })
  | .testAddress =>
    some (g, { x with
      hook :=
        if x.data.address = 0 then .kthreadStop
        else if x.kind = .mprotect then .remapPages
        else .sendToUserspace })
  | .remapPages =>
    some (g, { x with
      hook :=
        match o.remapping with
        | .ok => .sendToUserspace
        | .failed => .completeMunmapReady
        | .leaves => .left })
  | .sendToUserspace => some (g, { x with hook := .waitReady })
  | .waitReady =>
    g.analyzerReady.waitFor.map fun c =>
      ({ g with analyzerReady := c }, { x with hook := .reinitReady })
  | .reinitReady =>
    some ({ g with analyzerReady := g.analyzerReady.reinit },
      { x with hook := .completeMunmapReady })
  | .completeMunmapReady =>
    some ({ g with munmapReady := g.munmapReady.complete }, { x with hook := .kthreadStop })
  | .kthreadStop => some (g, { x with shouldStop := true, hook := .waitExit })
  | .waitExit => if x.thread = .exited then some (g, { x with hook := .kfreeData }) else none
  | .kfreeData => some (g, { x with data := .freed, hook := .left })
  | .left => none

/-- The next statement of the thread.  A thread that is stopped before it has run does not run. -/
def threadStep (o : ThreadOutcome) (g : Globals) (x : Invocation) :
    Option (Globals × Invocation) :=
  match x.thread with
  | .none => none
  | .useMm => some (g, { x with thread := if x.shouldStop then .exited else .vmMmap })
  | .vmMmap =>
    some (g, { x with
      data := x.data.setAddress o.vmMmap
      mapping := mappedAt o.vmMmap
      thread := if x.kind = .bpf ∧ o.vmMmap ≠ 0 then .copyToUser else .initMunmapReady })
  -- nothing can be copied to an address that is an error
  | .copyToUser =>
    some (g, { x with
      thread := if o.copied && isMapped x.data.address then .initMunmapReady else .undoMmap })
  | .undoMmap => some (g, { x with mapping := none, thread := .clearAddress })
  | .clearAddress =>
    some (g, { x with data := x.data.setAddress 0, thread := .initMunmapReady })
  | .initMunmapReady =>
    some ({ g with munmapReady := g.munmapReady.reinit }, { x with thread := .completeMmapDone })
  | .completeMmapDone =>
    some ({ g with mmapDone := g.mmapDone.complete }, { x with thread := .testAddress })
  | .testAddress =>
    some (g, { x with thread := if x.data.address = 0 then .spin else .waitMunmapReady })
  | .waitMunmapReady =>
    g.munmapReady.waitFor.map fun c => ({ g with munmapReady := c }, { x with thread := .vmMunmap })
  | .vmMunmap => some (g, { x with mapping := none, thread := .unuseMm })
  | .unuseMm => some (g, { x with thread := .spin })
  | .spin => if x.shouldStop then some (g, { x with thread := .exited }) else none
  | .exited => none

/-! ## The acts -/

/-- A step of the system: a REPLY completes `analyzer_ready`, a hook has allocated its data, a hook
or a thread executes its next statement. -/
inductive Act where
  | reply
  | enter (i : ℕ) (kind : Kind)
  | hook (i : ℕ) (o : HookOutcome)
  | thread (i : ℕ) (o : ThreadOutcome)

/-- One act, if it is possible. -/
def step (s : World) : Act → Option World
  | .reply => some { s with
      globals := { s.globals with analyzerReady := s.globals.analyzerReady.complete } }
  | .enter i kind =>
    if (s.inv i).hook = .idle then
      some (s.set i (s.globals, ⟨kind, .initMmapDone, .none, false, .live 0, none⟩))
    else none
  | .hook i o => (hookStep o s.globals (s.inv i)).map (s.set i)
  | .thread i o => (threadStep o s.globals (s.inv i)).map (s.set i)

/-- One act; an act that is not possible changes nothing. -/
def next (s : World) (a : Act) : World := (step s a).getD s

/-! ## One invocation at a time -/

/-- An act changes one invocation only: by a statement of it, or by its start. -/
inductive Moves (s s' : World) (i : ℕ) : Prop where
  | hook (o : HookOutcome) (done : Globals × Invocation)
      (h : hookStep o s.globals (s.inv i) = some done) (heq : s' = s.set i done)
  | thread (o : ThreadOutcome) (done : Globals × Invocation)
      (h : threadStep o s.globals (s.inv i) = some done) (heq : s' = s.set i done)
  | enter (kind : Kind) (h : (s.inv i).hook = .idle)
      (heq : s' = s.set i (s.globals, ⟨kind, .initMmapDone, .none, false, .live 0, none⟩))

theorem World.set_same (s : World) (i : ℕ) (done : Globals × Invocation) :
    (s.set i done).inv i = done.2 := Function.update_self ..

theorem World.set_of_ne (s : World) {i j : ℕ} (h : j ≠ i) (done : Globals × Invocation) :
    (s.set i done).inv j = s.inv j := Function.update_of_ne h ..

@[simp] theorem World.set_globals (s : World) (i : ℕ) (done : Globals × Invocation) :
    (s.set i done).globals = done.1 := rfl

/-- **All that an act can do**: nothing, a REPLY, or a move of one invocation. -/
theorem step_cases {s s' : World} {a : Act} (h : step s a = some s') :
    (a = .reply ∧ s'.inv = s.inv ∧
        s'.globals = { s.globals with analyzerReady := s.globals.analyzerReady.complete }) ∨
      ∃ i, Moves s s' i := by
  cases a with
  | reply =>
    obtain rfl := Option.some.inj h
    exact Or.inl ⟨rfl, rfl, rfl⟩
  | enter i kind =>
    rw [step] at h
    split at h
    · rename_i hidle
      exact Or.inr ⟨i, .enter kind hidle (Option.some.inj h).symm⟩
    · cases h
  | hook i o =>
    obtain ⟨done, hdone, heq⟩ := Option.map_eq_some_iff.mp h
    exact Or.inr ⟨i, .hook o done hdone heq.symm⟩
  | thread i o =>
    obtain ⟨done, hdone, heq⟩ := Option.map_eq_some_iff.mp h
    exact Or.inr ⟨i, .thread o done hdone heq.symm⟩

/-- What each statement keeps of its own invocation is kept by every act, for every invocation. -/
theorem next_forall {P : Invocation → Prop}
    (henter : ∀ kind, P ⟨kind, .initMmapDone, .none, false, .live 0, none⟩)
    (hhook : ∀ {o g x done}, P x → hookStep o g x = some done → P done.2)
    (hthread : ∀ {o g x done}, P x → threadStep o g x = some done → P done.2) {s : World}
    (hs : ∀ i, P (s.inv i)) (a : Act) : ∀ i, P ((next s a).inv i) := by
  intro j
  rw [next]
  cases hstep : step s a with
  | none => exact hs j
  | some s' =>
    rw [Option.getD_some]
    obtain ⟨-, hinv, -⟩ | ⟨i, hmove⟩ := step_cases hstep
    · rw [hinv]
      exact hs j
    · obtain ⟨done, hdone, rfl⟩ : ∃ done : Globals × Invocation, P done.2 ∧ s' = s.set i done := by
        cases hmove with
        | hook o done h heq => exact ⟨done, hhook (hs i) h, heq⟩
        | thread o done h heq => exact ⟨done, hthread (hs i) h, heq⟩
        | enter kind h heq => exact ⟨_, henter kind, heq⟩
      by_cases hij : j = i
      · rw [hij, World.set_same]
        exact hdone
      · rw [World.set_of_ne s hij]
        exact hs j

/-! ## The data -/

/-- The next statement of the hook reads, writes or frees `analyzer_data`. -/
def HookAt.TouchesData (at_ : HookAt) : Prop :=
  at_ = .kthreadRun ∨ at_ = .testAddress ∨ at_ = .remapPages ∨ at_ = .sendToUserspace ∨
    at_ = .kfreeData

/-- The next statement of the thread reads or writes `analyzer_data`. -/
def Invocation.ThreadTouchesData (x : Invocation) : Prop :=
  (x.thread = .useMm ∧ x.shouldStop = false) ∨ x.thread = .vmMmap ∨ x.thread = .copyToUser ∨
    x.thread = .undoMmap ∨ x.thread = .clearAddress ∨ x.thread = .testAddress ∨
    x.thread = .vmMunmap ∨ x.thread = .unuseMm

/-- The data is allocated as long as the hook or the thread may need it: a hook starts its thread
once, and frees the data when the thread has exited or was never there. -/
structure DataInv (x : Invocation) : Prop where
  hook : x.hook ≠ .idle → x.hook ≠ .left → x.data.IsLive
  thread : x.thread ≠ .none → x.thread ≠ .exited → x.data.IsLive
  early : x.hook = .idle ∨ x.hook = .initMmapDone ∨ x.hook = .kthreadRun → x.thread = .none
  late : x.hook = .kfreeData → x.thread = .exited

theorem DataAt.IsLive.setAddress {d : DataAt} (h : d.IsLive) (address : UInt64) :
    (d.setAddress address).IsLive := by
  obtain ⟨a, rfl⟩ := h
  exact ⟨address, rfl⟩

/-- **A statement of the hook** keeps the invariant: it starts a thread on live data, and it frees
the data of a thread that has exited. -/
theorem DataInv.hookStep {o : HookOutcome} {g : Globals} {x : Invocation}
    {done : Globals × Invocation} (h : DataInv x)
    (hstep : Handshake.hookStep o g x = some done) : DataInv done.2 := by
  obtain ⟨kind, hook, thread, shouldStop, data, mapping⟩ := x
  obtain ⟨hhook, hthread, hearly, hlate⟩ := h
  cases hook <;> simp only [Handshake.hookStep, Option.map_eq_some_iff] at hstep <;>
    grind [DataInv]

/-- **A statement of the thread** keeps the invariant: it writes to live data only. -/
theorem DataInv.threadStep {o : ThreadOutcome} {g : Globals} {x : Invocation}
    {done : Globals × Invocation} (h : DataInv x)
    (hstep : Handshake.threadStep o g x = some done) : DataInv done.2 := by
  obtain ⟨kind, hook, thread, shouldStop, data, mapping⟩ := x
  obtain ⟨hhook, hthread, hearly, hlate⟩ := h
  have hset : ∀ address, data.IsLive → (data.setAddress address).IsLive := fun address hlive =>
    hlive.setAddress address
  cases thread <;> simp only [Handshake.threadStep, Option.map_eq_some_iff] at hstep <;>
    grind [DataInv]

theorem DataInv.next {s : World} (hs : ∀ i, DataInv (s.inv i)) (a : Act) :
    ∀ i, DataInv ((Handshake.next s a).inv i) :=
  next_forall
    (fun _ => ⟨fun _ _ => ⟨0, rfl⟩, fun h => absurd rfl h, fun _ => rfl, fun h => by cases h⟩)
    (fun h hstep => h.hookStep hstep) (fun h hstep => h.threadStep hstep) hs a

theorem DataInv.start (i : ℕ) : DataInv (World.start.inv i) :=
  ⟨fun h => absurd rfl h, fun h => absurd rfl h, fun _ => rfl, fun h => by cases h⟩

/-- **No statement touches freed data.**  Any number of hooks overlap, threads are left behind, and
completions go to the wrong hook: when a hook or a thread is about to read, write or free
`analyzer_data`, the data is allocated.  So it is freed once at most, too. -/
theorem data_live_when_touched (as : List Act) :
    ∀ s ∈ states next World.start as, ∀ i,
      (s.inv i).hook.TouchesData ∨ (s.inv i).ThreadTouchesData → (s.inv i).data.IsLive := by
  intro s hs i htouches
  have hinv := forall_states (I := fun s : World => ∀ i, DataInv (s.inv i))
    (fun s a hs => DataInv.next hs a) DataInv.start as s hs i
  rcases htouches with hhook | hthread
  · refine hinv.hook (fun hidle => ?_) fun hleft => ?_
    · rw [hidle] at hhook
      simp [HookAt.TouchesData] at hhook
    · rw [hleft] at hhook
      simp [HookAt.TouchesData] at hhook
  · refine hinv.thread (fun hnone => ?_) fun hexited => ?_
    · simp [Invocation.ThreadTouchesData, hnone] at hthread
    · simp [Invocation.ThreadTouchesData, hexited] at hthread

/-- Everything succeeds in a hook. -/
def HookOutcome.ok : HookOutcome := ⟨true, true, .ok⟩

/-- Two hooks that overlap, each with a thread that has not run yet. -/
def sampleOverlap : List Act :=
  [.enter 0 .mmap, .enter 1 .bpf, .hook 0 .ok, .hook 1 .ok, .hook 0 .ok, .hook 1 .ok]

theorem data_live_of_sample : ((sampleOverlap.foldl next World.start).inv 1).data.IsLive :=
  data_live_when_touched sampleOverlap _ (foldl_mem_states _ _) 1 (Or.inr (Or.inl ⟨rfl, rfl⟩))

/-! ## The points of an invocation -/

/-- The control points of a hook, in the order of the source. -/
def HookAt.order : List HookAt :=
  [.initMmapDone, .kthreadRun, .pinPages, .waitMmapDone, .testAddress, .remapPages,
    .sendToUserspace, .waitReady, .reinitReady, .completeMunmapReady, .kthreadStop, .waitExit,
    .kfreeData]

/-- The control points of a thread, in the order of the source. -/
def ThreadAt.order : List ThreadAt :=
  [.useMm, .vmMmap, .copyToUser, .undoMmap, .clearAddress, .initMunmapReady, .completeMmapDone,
    .testAddress, .waitMunmapReady, .vmMunmap, .unuseMm, .spin]

/-- The points that a hook can still pass. -/
def HookAt.ahead (at_ : HookAt) : List HookAt :=
  if at_ = .idle then HookAt.order else HookAt.order.dropWhile (· != at_)

/-- The points that a thread can still pass. -/
def ThreadAt.ahead (at_ : ThreadAt) : List ThreadAt :=
  if at_ = .none then ThreadAt.order else ThreadAt.order.dropWhile (· != at_)

end Handshake
end LsmFork
