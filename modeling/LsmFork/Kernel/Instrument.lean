import LsmFork.Kernel.Netlink
import LsmFork.Lib.Printf
import LsmFork.Lib.Runs

/-!
# The instrumentation of the hooks

The module is compiled with `-finstrument-functions`, so every function of it calls
`__cyg_profile_func_enter` on its way in and `__cyg_profile_func_exit` on its way out.  Five
functions are timed; the records go to `perfchar_write`, into the buffer that `init_char_device`
allocates when the first analyzer registers.  Both callbacks do nothing as long as `analyzer_task`
is null, and that is the only thing they ask before they use the other globals.

* `CygProfile`, `cygProfileFuncEnter`, `cygProfileFuncExit`: the globals and the two callbacks.
* `InitStep`, `InitStep.next`: `init_char_device`, one call at a time.
* `Instrument.World`, `Instrument.step`: functions that enter and leave in any order, next to
  `lsm_receive_reply` handling one message after the other.
* `steps_step`: all that an act can do.
-/

namespace LsmFork

open CString

/-! ## The callbacks -/

/-- The instrumented functions that the callbacks know, and all the others. -/
inductive Fn where
  | mcheckCustomMmapHook
  | mcheckCustomMprotectHook
  | lsmSendToUserspace
  | lsmReceiveReply
  | mmapAnalyzerThread
  | other
  deriving DecidableEq

/-- The globals of the instrumentation, apart from `analyzer_task` and the buffer.  A `char` is a
byte here. -/
structure CygProfile where
  mmapHookStartTime : UInt64
  mprotectHookStartTime : UInt64
  lsmSendToUserspaceStartTime : UInt64
  lsmReceiveReplyStartTime : UInt64
  mmapAnalyzerThreadStartTime : UInt64
  mmapHookCounter : UInt64
  mprotectHookCounter : UInt64
  inMmapHook : UInt8
  inMprotectHook : UInt8
  mmapRelevant : UInt8
  mprotectRelevant : UInt8
  deriving DecidableEq

/-- The globals start at zero. -/
def CygProfile.start : CygProfile := ⟨0, 0, 0, 0, 0, 0, 0, 0, 0, 0, 0⟩

/-- A call of `perfchar_write`: what `snprintf` has left in `temp_buffer`, and the length it has
returned, which is that of the whole text. -/
structure PerfWrite where
  tempBuffer : List UInt8
  len : ℕ
  deriving DecidableEq

/-- One record, `<syscall>,<function>,<counter>,<elapsed>`, in a `temp_buffer` of 64 characters. -/
def perfRecord (label : String) (counter elapsed : UInt64) : PerfWrite :=
  let line := ascii label ++ numeral 10 counter ++ ascii "," ++ numeral 10 elapsed
  ⟨snprintf 64 line, line.length⟩

namespace CygProfile

/-- The record of a function that the hooks call: it goes to the mmap hook when one is in progress,
else to the mprotect hook; without either it has no text. -/
def nestedRecord (p : CygProfile) (mmapLabel mprotectLabel : String) (elapsed : UInt64) :
    PerfWrite :=
  if p.inMmapHook ≠ 0 then perfRecord mmapLabel p.mmapHookCounter elapsed
  else if p.inMprotectHook ≠ 0 then perfRecord mprotectLabel p.mprotectHookCounter elapsed
  else ⟨[], 0⟩

end CygProfile

/-- `__cyg_profile_func_enter`, at the time `now` of `ktime_get_ns`. -/
def cygProfileFuncEnter (analyzerTask : Option Task) (thisFn : Fn) (now : UInt64)
    (p : CygProfile) : CygProfile :=
  if analyzerTask.isNone then p
  else
    match thisFn with
    | .mcheckCustomMmapHook =>
      { p with mmapHookStartTime := now, inMmapHook := p.inMmapHook + 1, mmapRelevant := 0 }
    | .mcheckCustomMprotectHook =>
      { p with mprotectHookStartTime := now, inMprotectHook := 1, mprotectRelevant := 0 }
    | .lsmSendToUserspace => { p with lsmSendToUserspaceStartTime := now }
    | .lsmReceiveReply => { p with lsmReceiveReplyStartTime := now }
    | .mmapAnalyzerThread => { p with mmapAnalyzerThreadStartTime := now }
    | .other => p

/-- `__cyg_profile_func_exit`, at the time `now`: the globals after it, and its call of
`perfchar_write`, if it gets there. -/
def cygProfileFuncExit (analyzerTask : Option Task) (thisFn : Fn) (now : UInt64)
    (p : CygProfile) : CygProfile × Option PerfWrite :=
  if analyzerTask.isNone then (p, none)
  else
    match thisFn with
    | .mcheckCustomMmapHook =>
      let p := { p with inMmapHook := p.inMmapHook - 1 }
      if p.mmapRelevant = 0 then (p, none)
      else
        ({ p with mmapHookCounter := p.mmapHookCounter + 1 },
          some (perfRecord "mmap,mmap_hook," p.mmapHookCounter (now - p.mmapHookStartTime)))
    | .mcheckCustomMprotectHook =>
      let p := { p with inMprotectHook := 0 }
      if p.mprotectRelevant = 0 then (p, none)
      else
        ({ p with mprotectHookCounter := p.mprotectHookCounter + 1 },
          some (perfRecord "mprotect,mprotect_hook," p.mprotectHookCounter
            (now - p.mprotectHookStartTime)))
    | .lsmSendToUserspace =>
      (if p.inMmapHook ≠ 0 then { p with mmapRelevant := 1 }
        else if p.inMprotectHook ≠ 0 then { p with mprotectRelevant := 1 } else p,
        some (p.nestedRecord "mmap,lsm_send_to_userspace," "mprotect,lsm_send_to_userspace,"
          (now - p.lsmSendToUserspaceStartTime)))
    | .lsmReceiveReply =>
      if p.lsmReceiveReplyStartTime = 0 then (p, none)
      else
        (p, some (p.nestedRecord "mmap,lsm_receive_reply," "mprotect,lsm_receive_reply,"
          (now - p.lsmReceiveReplyStartTime)))
    | .mmapAnalyzerThread =>
      (p, some (p.nestedRecord "mmap,mmap_analyzer_thread," "mprotect,mmap_analyzer_thread,"
        (now - p.mmapAnalyzerThreadStartTime)))
    | .other => (p, none)

section Callbacks

variable (analyzerTask : Option Task) (thisFn : Fn) (now : UInt64) (p : CygProfile)

theorem enter_inMmapHook : (cygProfileFuncEnter analyzerTask thisFn now p).inMmapHook =
    if analyzerTask.isSome ∧ thisFn = .mcheckCustomMmapHook then p.inMmapHook + 1
    else p.inMmapHook := by
  unfold cygProfileFuncEnter
  cases analyzerTask <;> cases thisFn <;> rfl

theorem enter_inMprotectHook : (cygProfileFuncEnter analyzerTask thisFn now p).inMprotectHook =
    if analyzerTask.isSome ∧ thisFn = .mcheckCustomMprotectHook then 1
    else p.inMprotectHook := by
  unfold cygProfileFuncEnter
  cases analyzerTask <;> cases thisFn <;> rfl

/-- The counter of the mmap hook goes down where it leaves, whether it is timed or not. -/
theorem exit_inMmapHook : (cygProfileFuncExit analyzerTask thisFn now p).1.inMmapHook =
    if analyzerTask.isSome ∧ thisFn = .mcheckCustomMmapHook then p.inMmapHook - 1
    else p.inMmapHook := by
  unfold cygProfileFuncExit
  cases analyzerTask <;> cases thisFn <;> dsimp <;> split_ifs <;> simp_all

theorem exit_inMprotectHook : (cygProfileFuncExit analyzerTask thisFn now p).1.inMprotectHook =
    if analyzerTask.isSome ∧ thisFn = .mcheckCustomMprotectHook then 0
    else p.inMprotectHook := by
  unfold cygProfileFuncExit
  cases analyzerTask <;> cases thisFn <;> dsimp <;> split_ifs <;> simp_all

end Callbacks

/-- The guards of the exit callback, behind the one for `analyzer_task`. -/
def CygProfile.Timed (p : CygProfile) : Fn → Prop
  | .mcheckCustomMmapHook => p.mmapRelevant ≠ 0
  | .mcheckCustomMprotectHook => p.mprotectRelevant ≠ 0
  | .lsmSendToUserspace => True
  | .lsmReceiveReply => p.lsmReceiveReplyStartTime ≠ 0
  | .mmapAnalyzerThread => True
  | .other => False

/-- **The exit callback writes** exactly when it gets past its guards. -/
theorem exit_isSome_iff (analyzerTask : Option Task) (thisFn : Fn) (now : UInt64)
    (p : CygProfile) : (cygProfileFuncExit analyzerTask thisFn now p).2.isSome ↔
      analyzerTask.isSome ∧ p.Timed thisFn := by
  unfold cygProfileFuncExit CygProfile.Timed
  cases analyzerTask <;> cases thisFn <;> dsimp <;> try split_ifs
  all_goals simp_all

/-! ## The device -/

/-- What `perf_buffer` points to. -/
inductive PerfPtr where
  | null
  | allocated
  | freed
  deriving DecidableEq

/-- The next call that `init_char_device` makes; the last four are behind its error labels. -/
inductive InitStep where
  | kzalloc
  | allocChrdevRegion
  | cdevAdd
  | classCreate
  | deviceCreate
  | classDestroy
  | cdevDel
  | unregisterChrdevRegion
  | kfree
  deriving DecidableEq

namespace InitStep

/-- Where `init_char_device` goes from a call, and with which `ret`, or what it returns.  An
allocation that fails and a pointer that is an error have an outcome that is not zero. -/
def next (outcome : Int32) (ret : Int32) : InitStep → Except Int32 (InitStep × Int32)
  | kzalloc => if outcome ≠ 0 then .error eNoMem else .ok (allocChrdevRegion, ret)
  | allocChrdevRegion => if outcome < 0 then .error outcome else .ok (cdevAdd, outcome)
  | cdevAdd =>
    if outcome ≠ 0 then .ok (unregisterChrdevRegion, outcome) else .ok (classCreate, outcome)
  | classCreate => if outcome ≠ 0 then .ok (cdevDel, outcome) else .ok (deviceCreate, ret)
  | deviceCreate => if outcome ≠ 0 then .ok (classDestroy, eNoMem) else .error 0
  | classDestroy => .ok (cdevDel, ret)
  | cdevDel => .ok (unregisterChrdevRegion, ret)
  | unregisterChrdevRegion => .ok (kfree, ret)
  | kfree => .error ret

/-- What the call does to the buffer. -/
def buffer (outcome : Int32) (p : PerfPtr) : InitStep → PerfPtr
  | kzalloc => if outcome ≠ 0 then .null else .allocated
  | kfree => .freed
  | _ => p

end InitStep

/-! ## Functions in any order -/

namespace Instrument

/-- `lsm_receive_reply`, which handles one message at a time: the family does not ask for parallel
operations. -/
inductive Handler where
  | idle
  /-- It has been entered, with the RESPONSE attribute of the message, if that has one. -/
  | entered (response : Option Int32)
  /-- It is in `init_char_device`. -/
  | initCharDevice (call : InitStep) (ret : Int32)
  /-- It is about to return. -/
  | leaving

/-- The module: the globals, the message that is being handled, and the other functions in progress,
by whether an analyzer was registered when they were entered.  `initCalls` is what
`init_char_device` has called so far, with the outcomes, the last call first. -/
structure World where
  net : Netlink
  profile : CygProfile
  perfBuffer : PerfPtr
  handler : Handler
  inProgress : Fn → Bool → ℕ
  initCalls : List (InitStep × Int32)

/-- The module after `mcheck_lsm_init`. -/
def World.start : World := ⟨.start, .start, .null, .idle, fun _ _ => 0, []⟩

/-- What happens next. -/
inductive Act where
  /-- A function other than `lsm_receive_reply` is entered. -/
  | enter (fn : Fn) (now : UInt64)
  /-- A function leaves that was entered with or without a registered analyzer. -/
  | exit (fn : Fn) (registered : Bool) (now : UInt64)
  /-- A REPLY message arrives. -/
  | deliver (response : Option Int32) (now : UInt64)
  /-- `lsm_receive_reply` does its work up to `init_char_device`. -/
  | receive (findTaskByVpid : Int32 → Option Task)
  /-- `init_char_device` makes its next call. -/
  | init (outcome : Int32)
  /-- `lsm_receive_reply` leaves. -/
  | leave (now : UInt64)

namespace World

/-- An analyzer is registered. -/
def registered (s : World) : Bool := s.net.analyzerTask.isSome

/-- A function is entered. -/
def enter (s : World) (fn : Fn) (now : UInt64) : World :=
  { s with
    profile := cygProfileFuncEnter s.net.analyzerTask fn now s.profile
    inProgress := Function.update s.inProgress fn
      (Function.update (s.inProgress fn) s.registered (s.inProgress fn s.registered + 1)) }

/-- A function leaves; the callback may call `perfchar_write`. -/
def exit (s : World) (fn : Fn) (registered : Bool) (now : UInt64) : World × Option PerfWrite :=
  let done := cygProfileFuncExit s.net.analyzerTask fn now s.profile
  ({ s with
    profile := done.1
    inProgress := Function.update s.inProgress fn
      (Function.update (s.inProgress fn) registered (s.inProgress fn registered - 1)) }, done.2)

/-- `lsm_receive_reply` is entered. -/
def deliver (s : World) (response : Option Int32) (now : UInt64) : World :=
  { s with
    profile := cygProfileFuncEnter s.net.analyzerTask .lsmReceiveReply now s.profile
    handler := .entered response }

/-- The body of `lsm_receive_reply`: a message that registers an analyzer goes on to
`init_char_device`. -/
def receive (s : World) (findTaskByVpid : Int32 → Option Task) (response : Option Int32) : World :=
  let net := (s.net.receiveReply findTaskByVpid response).2
  { s with
    net := net
    handler := if s.net.analyzerTask = none ∧ net.analyzerTask ≠ none then
      .initCharDevice .kzalloc 0 else .leaving }

/-- The next call of `init_char_device`; the caller drops what it returns. -/
def init (s : World) (call : InitStep) (ret outcome : Int32) : World :=
  { s with
    perfBuffer := call.buffer outcome s.perfBuffer
    handler := match call.next outcome ret with
      | .ok (call', ret') => .initCharDevice call' ret'
      | .error _ => .leaving
    initCalls := (call, outcome) :: s.initCalls }

/-- `lsm_receive_reply` leaves. -/
def leave (s : World) (now : UInt64) : World × Option PerfWrite :=
  let done := cygProfileFuncExit s.net.analyzerTask .lsmReceiveReply now s.profile
  ({ s with profile := done.1, handler := .idle }, done.2)

end World

/-- What an act does, and the call of `perfchar_write` in it.  An act that the module is not ready
for does nothing. -/
def step (s : World) : Act → World × Option PerfWrite
  | .enter fn now => if fn = .lsmReceiveReply then (s, none) else (s.enter fn now, none)
  | .exit fn registered now =>
    if s.inProgress fn registered = 0 then (s, none) else s.exit fn registered now
  | .deliver response now =>
    match s.handler with
    | .idle => (s.deliver response now, none)
    | _ => (s, none)
  | .receive findTaskByVpid =>
    match s.handler with
    | .entered response => (s.receive findTaskByVpid response, none)
    | _ => (s, none)
  | .init outcome =>
    match s.handler with
    | .initCharDevice call ret => (s.init call ret outcome, none)
    | _ => (s, none)
  | .leave now =>
    match s.handler with
    | .leaving => s.leave now
    | _ => (s, none)

/-- The module after an act. -/
def next (s : World) (a : Act) : World := (step s a).1

/-- All that an act can do. -/
inductive Steps (s : World) : World → Option PerfWrite → Prop
  | stay : Steps s s none
  | enter (fn : Fn) (now : UInt64) (hfn : fn ≠ .lsmReceiveReply) : Steps s (s.enter fn now) none
  | exit (fn : Fn) (registered : Bool) (now : UInt64) (hin : s.inProgress fn registered ≠ 0) :
      Steps s (s.exit fn registered now).1 (s.exit fn registered now).2
  | deliver (response : Option Int32) (now : UInt64) (hidle : s.handler = .idle) :
      Steps s (s.deliver response now) none
  | receive (findTaskByVpid : Int32 → Option Task) (response : Option Int32)
      (hentered : s.handler = .entered response) : Steps s (s.receive findTaskByVpid response) none
  | init (call : InitStep) (ret outcome : Int32) (hcall : s.handler = .initCharDevice call ret) :
      Steps s (s.init call ret outcome) none
  | leave (now : UInt64) (hleaving : s.handler = .leaving) : Steps s (s.leave now).1 (s.leave now).2

theorem steps_step (s : World) (a : Act) : Steps s (step s a).1 (step s a).2 := by
  unfold step
  cases a with
  | enter fn now =>
    dsimp only
    split
    · exact .stay
    · exact .enter fn now ‹_›
  | exit fn registered now =>
    dsimp only
    split
    · exact .stay
    · exact .exit fn registered now ‹_›
  | deliver response now =>
    dsimp only
    split
    · exact .deliver response now ‹_›
    · exact .stay
  | receive findTaskByVpid =>
    dsimp only
    split
    · exact .receive findTaskByVpid _ ‹_›
    · exact .stay
  | init outcome =>
    dsimp only
    split
    · exact .init _ _ outcome ‹_›
    · exact .stay
  | leave now =>
    dsimp only
    split
    · exact .leave now ‹_›
    · exact .stay

end Instrument

end LsmFork
