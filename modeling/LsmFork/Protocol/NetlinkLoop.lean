import LsmFork.Protocol.Handshake
import LsmFork.Tools.Analyzer

/-!
# The netlink mode as a whole

In `Handshake` the hooks and their threads run, and replies come from nowhere; `Analyzer` has the
dumps, and takes the memory for granted.  Here the analyzer takes the NOTIFY messages off its
socket, reads what is mapped for it there, writes its dump and replies, between any statements of
the hooks and the threads.  A read where nothing is mapped kills it, as does a `malloc` that fails.

* `Subject`, `World`, `Act`: the state and the steps.
* `value`, `hook`, `analyze`, `next`: what the steps do.
* `Phase`: where a hook stands with the analyzer; `phase_of_hookStep`: how it gets on.
* `phase_of_value`: with which statements a hook returns, and what.
* `mapping_of_waits`: what the analyzer finds at the address of a NOTIFY.
-/

namespace LsmFork
namespace NetlinkLoop

open Runs Analyzer
open Handshake (HookAt HookOutcome ThreadOutcome Kind isMapped mappedAt)

/-! ## The system -/

/-- What a hook shows to the analyzer: the header of its NOTIFY, but for the address there, and the
memory that is mapped for it. -/
structure Subject where
  info : MappingInfo
  data : List UInt8
  data_length : data.length = info.len.toNat

/-- The NOTIFY with its address, as the analyzer serves it. -/
def Subject.served (x : Subject) (address : UInt64) (o : DumpOutcome) : Served :=
  ⟨{ x.info with mappedAddr := address }, x.data, o, x.data_length⟩

/-- The hooks with their threads, the socket of the analyzer, and what it has done. -/
structure World where
  hooks : Handshake.World
  /-- The hook has sent its NOTIFY. -/
  notified : ℕ → Bool
  /-- The NOTIFY messages on the socket, each with its hook and its `LSM_ATTR_ADDRESS`. -/
  queue : List (ℕ × UInt64)
  analyzerResponse : UInt32
  alive : Bool
  files : Files
  /-- The NOTIFY messages that have been dumped. -/
  served : List (ℕ × Served)
  /-- The values of the hooks that have returned. -/
  returned : ℕ → Option Int32

/-- A registered analyzer, and no hook yet. -/
def start : World := ⟨.start, fun _ => false, [], 0, true, fun _ => none, [], fun _ => none⟩

/-- A step of a hook, whose NOTIFY may get lost, of a thread, or of the analyzer, whose reply may
get lost. -/
inductive Act where
  | enter (i : ℕ) (kind : Kind)
  | hook (i : ℕ) (o : HookOutcome) (delivered : Bool)
  | thread (i : ℕ) (o : ThreadOutcome)
  | analyze (o : DumpOutcome) (replied : Bool)

/-- What the step is for the hooks and the threads. -/
def Act.toHandshake : Act → Handshake.Act
  | enter i kind => .enter i kind
  | hook i o _ => .hook i o
  | thread i o => .thread i o
  | analyze _ _ => .reply

section Steps

variable (subject : ℕ → Subject) (s : World)

/-- The value that a hook returns with its next statement.  What frees the data is followed by the
return. -/
def value (i : ℕ) (o : HookOutcome) : Option Int32 :=
  match (s.hooks.inv i).hook with
  | .kthreadRun => if o.kthreadRun then none else some 0
  | .pinPages => if o.pinned then none else some eNoMem
  -- `-analyzer_response` if there has been a NOTIFY
  | .kfreeData => some (if s.notified i then Netlink.verdict s.analyzerResponse else 0)
  | _ => none

/-- A hook executes its next statement. -/
def hook (i : ℕ) (o : HookOutcome) (delivered : Bool) : World :=
  let moved : World :=
    { s with
      hooks := Handshake.next s.hooks (.hook i o)
      returned := Function.update s.returned i ((value s i o).or (s.returned i)) }
  if (s.hooks.inv i).hook = .sendToUserspace then
    { moved with
      notified := Function.update s.notified i true
      queue := if delivered then s.queue ++ [(i, (s.hooks.inv i).data.address)] else s.queue }
  else moved

/-- The analyzer takes a NOTIFY: it dumps what is mapped for the hook at the address, or it dies. -/
def analyze (o : DumpOutcome) (replied : Bool) : World :=
  match s.alive, s.queue with
  | true, (i, address) :: queue =>
    if (s.hooks.inv i).mapping = some address then
      match ((subject i).served address o).handle s.files with
      | none => { s with alive := false, queue := queue }
      | some (value, files) =>
        let dumped : World :=
          { s with
            queue := queue
            files := files
            served := s.served ++ [(i, (subject i).served address o)] }
        if replied then
          { dumped with
            hooks := Handshake.next s.hooks .reply
            analyzerResponse := lsmReceiveReply value }
        else dumped
    else { s with alive := false, queue := queue }
  | _, _ => s

def next : Act → World
  | .enter i kind => { s with hooks := Handshake.next s.hooks (.enter i kind) }
  | .hook i o delivered => hook s i o delivered
  | .thread i o => { s with hooks := Handshake.next s.hooks (.thread i o) }
  | .analyze o replied => analyze subject s o replied

end Steps

/-- The hooks do not overlap, and abandon no thread. -/
def Orderly (s : World) (a : Act) : Prop :=
  Handshake.OneAtATime s.hooks a.toHandshake ∧ Handshake.Keeps s.hooks a.toHandshake

/-! ## Where a hook stands with the analyzer -/

/-- The phases of a hook. -/
inductive Phase where
  | idle
  /-- The hook has not sent a NOTIFY. -/
  | before
  /-- The hook has sent its NOTIFY, and waits. -/
  | waiting
  /-- The hook has nothing to do with the analyzer any more. -/
  | after
  | left
  deriving DecidableEq

/-- The phase of a hook before its next statement. -/
def phase : HookAt → Phase
  | .idle => .idle
  | .initMmapDone | .kthreadRun | .pinPages | .waitMmapDone | .testAddress | .remapPages
  | .sendToUserspace => .before
  | .waitReady => .waiting
  | .reinitReady | .completeMunmapReady | .kthreadStop | .waitExit | .kfreeData => .after
  | .left => .left

theorem phase_eq_idle_iff {at_ : HookAt} : phase at_ = .idle ↔ at_ = .idle := by
  cases at_ <;> simp [phase]

theorem phase_eq_waiting_iff {at_ : HookAt} : phase at_ = .waiting ↔ at_ = .waitReady := by
  cases at_ <;> simp [phase]

theorem phase_eq_left_iff {at_ : HookAt} : phase at_ = .left ↔ at_ = .left := by
  cases at_ <;> simp [phase]

/-- **A statement of a hook** that abandons no thread: the NOTIFY is between `before` and `waiting`,
the reply between `waiting` and `after`, and nothing else takes from `analyzer_ready`. -/
theorem phase_of_hookStep {o : HookOutcome} {g : Handshake.Globals} {x : Handshake.Invocation}
    {done : Handshake.Globals × Handshake.Invocation} (hkeeps : ¬ Handshake.Abandons x o)
    (h : Handshake.hookStep o g x = some done) :
    (phase x.hook = .before ∧ x.hook ≠ .sendToUserspace ∧ done.1.analyzerReady = g.analyzerReady ∧
        phase done.2.hook ≠ .idle ∧ phase done.2.hook ≠ .waiting) ∨
      (x.hook = .sendToUserspace ∧ done = (g, { x with hook := .waitReady })) ∨
      (x.hook = .waitReady ∧ phase done.2.hook = .after ∧
        g.analyzerReady.done = done.1.analyzerReady.done + 1) ∨
      (phase x.hook = .after ∧ (phase done.2.hook = .after ∨ phase done.2.hook = .left) ∧
        done.1.analyzerReady.done ≤ g.analyzerReady.done) := by
  obtain ⟨kind, hook, thread, shouldStop, data, mapping⟩ := x
  cases hook with
  | waitReady =>
    obtain ⟨c, hc, rfl⟩ := Option.map_eq_some_iff.mp h
    exact Or.inr (Or.inr (Or.inl ⟨rfl, rfl, Handshake.Completion.waitFor_eq_some hc⟩))
  | sendToUserspace =>
    cases h
    exact Or.inr (Or.inl ⟨rfl, rfl⟩)
  | _ =>
    simp only [Handshake.hookStep, Option.map_eq_some_iff] at h
    grind [phase, Completion.reinit]

/-! ## The statements of a hook -/

variable {s : World} {i : ℕ} {o : HookOutcome} {delivered : Bool}
  {done : Handshake.Globals × Handshake.Invocation}

@[simp] theorem hook_hooks :
    (hook s i o delivered).hooks = Handshake.next s.hooks (.hook i o) := by
  rw [hook]
  split <;> rfl

@[simp] theorem hook_served : (hook s i o delivered).served = s.served := by
  rw [hook]
  split <;> rfl

@[simp] theorem hook_files : (hook s i o delivered).files = s.files := by
  rw [hook]
  split <;> rfl

@[simp] theorem hook_alive : (hook s i o delivered).alive = s.alive := by
  rw [hook]
  split <;> rfl

@[simp] theorem hook_analyzerResponse :
    (hook s i o delivered).analyzerResponse = s.analyzerResponse := by
  rw [hook]
  split <;> rfl

@[simp] theorem hook_returned : (hook s i o delivered).returned =
    Function.update s.returned i ((value s i o).or (s.returned i)) := by
  rw [hook]
  split <;> rfl

@[simp] theorem hook_notified : (hook s i o delivered).notified =
    if (s.hooks.inv i).hook = .sendToUserspace then Function.update s.notified i true
    else s.notified := by
  rw [hook]
  split <;> rfl

@[simp] theorem hook_queue : (hook s i o delivered).queue =
    if (s.hooks.inv i).hook = .sendToUserspace ∧ delivered = true then
      s.queue ++ [(i, (s.hooks.inv i).data.address)]
    else s.queue := by
  rw [hook]
  split <;> cases delivered <;> simp_all

theorem next_hook_eq_set (h : Handshake.hookStep o s.hooks.globals (s.hooks.inv i) = some done) :
    Handshake.next s.hooks (.hook i o) = s.hooks.set i done := by
  rw [Handshake.next, Handshake.step, h]
  rfl

theorem hook_of_stuck
    (h : Handshake.hookStep o s.hooks.globals (s.hooks.inv i) = none) :
    hook s i o delivered = s := by
  have hhooks : Handshake.next s.hooks (.hook i o) = s.hooks := by
    rw [Handshake.next, Handshake.step, h]
    rfl
  have hvalue : value s i o = none := by
    unfold value
    unfold Handshake.hookStep at h
    split at h <;> grind
  have hsend : (s.hooks.inv i).hook ≠ .sendToUserspace := by
    intro hat
    rw [Handshake.hookStep, hat] at h
    cases h
  rw [hook, if_neg hsend, hhooks, hvalue, Option.none_or, Function.update_eq_self]

theorem isSome_value_of_left (hkeeps : ¬ Handshake.Abandons (s.hooks.inv i) o)
    (h : Handshake.hookStep o s.hooks.globals (s.hooks.inv i) = some done)
    (hleft : done.2.hook = .left) : (value s i o).isSome = true := by
  unfold Handshake.Abandons at hkeeps
  cases hat : (s.hooks.inv i).hook <;>
    simp only [Handshake.hookStep, hat, Option.map_eq_some_iff] at h <;> grind [value]

/-- A hook that returns is over; it has not been analyzed, or it returns the verdict. -/
theorem phase_of_value {v : Int32} (hkeeps : ¬ Handshake.Abandons (s.hooks.inv i) o)
    (hvalue : value s i o = some v)
    (h : Handshake.hookStep o s.hooks.globals (s.hooks.inv i) = some done) :
    done.2.hook = .left ∧
      ((phase (s.hooks.inv i).hook = .before ∧ v = 0) ∨
        (phase (s.hooks.inv i).hook = .after ∧
          v = if s.notified i then Netlink.verdict s.analyzerResponse else 0)) := by
  rw [value] at hvalue
  split at hvalue
  · rename_i hat
    split at hvalue
    · cases hvalue
    · rename_i hfails
      rw [Handshake.hookStep, hat] at h
      simp only [if_neg hfails] at h
      cases h
      exact ⟨rfl, Or.inl ⟨by rw [hat]; rfl, (Option.some.inj hvalue).symm⟩⟩
  · rename_i hat
    split at hvalue
    · cases hvalue
    · rename_i hfails
      exact absurd (Or.inl ⟨hat, Bool.eq_false_iff.mpr hfails⟩) hkeeps
  · rename_i hat
    rw [Handshake.hookStep, hat] at h
    cases h
    exact ⟨rfl, Or.inr ⟨by rw [hat]; rfl, (Option.some.inj hvalue).symm⟩⟩
  · cases hvalue

theorem active_of_waitReady (hwaits : (s.hooks.inv i).hook = .waitReady) :
    (s.hooks.inv i).Active := by
  rw [Handshake.Invocation.Active, hwaits]
  exact ⟨HookAt.noConfusion, HookAt.noConfusion⟩

/-! ## The memory of a NOTIFY -/

/-- As long as a hook waits, the address is the outcome of `vm_mmap`, and no statement of its thread
changes it. -/
theorem address_of_threadStep {o : ThreadOutcome} {g : Handshake.Globals}
    {x : Handshake.Invocation} {done : Handshake.Globals × Handshake.Invocation}
    (hfits : Handshake.Fits g x) (hwaits : x.hook = .waitReady)
    (h : Handshake.threadStep o g x = some done) : done.2.data = x.data := by
  rw [Handshake.Fits, hwaits] at hfits
  obtain ⟨hfalse, hmapped, -⟩ := hfits
  obtain ⟨-, -, hdata⟩ | ⟨htrue, -⟩ := hmapped.threadStep h
  · exact hdata
  · rw [hfalse] at htrue
    cases htrue

/-- **What is mapped for a hook that waits**: the address in its NOTIFY is the outcome of `vm_mmap`,
and the mapping is there unless that is an error. -/
theorem mapping_of_waits {g : Handshake.Globals} {x : Handshake.Invocation}
    (hfits : Handshake.Fits g x) (hwaits : x.hook = .waitReady) :
    x.mapping = some x.data.address ↔ isMapped x.data.address = true := by
  rw [Handshake.Fits, hwaits] at hfits
  obtain ⟨-, ⟨-, ⟨address, hdata, hmapping, -⟩, -⟩, -⟩ := hfits
  rw [hmapping, hdata, mappedAt, show (Handshake.DataAt.live address).address = address from rfl]
  split
  · simp_all
  · simp_all

theorem analyze_of_idle {o : DumpOutcome} {replied : Bool} (h : s.alive = false ∨ s.queue = []) :
    analyze subject s o replied = s := by
  rw [analyze]
  rcases h with h | h
  · rw [h]
  · cases s.alive <;> rw [h]

end NetlinkLoop
end LsmFork
