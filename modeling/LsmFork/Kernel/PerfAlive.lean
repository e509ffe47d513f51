import LsmFork.Kernel.Instrument

/-!
# The buffer behind `perfchar_write`

`lsm_receive_reply` sets `analyzer_task` first and calls `init_char_device` after that, without a
look at what it returns.  The callbacks ask for `analyzer_task` only.  So a function that leaves
before the `kzalloc` finds a null pointer, and so does every one after a `kzalloc` that has failed;
and after `cdev_add`, `class_create` or `device_create` has failed, the buffer is freed and the
pointer stays.

* `Backed`: the calls of `init_char_device` so far have left a buffer; `RollsBack`: one of the three
  has failed behind which it is freed.
* `PerfInv`: what holds in every state; `perfBuffer_allocated_iff`.
* `KeepsPerf`: the acts that write only with such calls behind them.
* `perfAlive_iff`: the acts decide whether every write goes to a live buffer.
-/

namespace LsmFork
namespace Instrument

open Runs

/-- A `kzalloc` has succeeded, and `init_char_device` has not come to the `kfree` behind its error
labels. -/
def Backed (calls : List (InitStep × Int32)) : Prop :=
  (.kzalloc, 0) ∈ calls ∧ .kfree ∉ calls.map Prod.fst

/-- The calls whose failure leads to an error label. -/
def guardedCalls : List InitStep := [.cdevAdd, .classCreate, .deviceCreate]

/-- The calls behind the error labels. -/
def cleanupCalls : List InitStep := [.classDestroy, .cdevDel, .unregisterChrdevRegion, .kfree]

/-- One of the three calls has failed behind which the buffer is freed. -/
def RollsBack (calls : List (InitStep × Int32)) : Prop :=
  ∃ x ∈ calls, x.1 ∈ guardedCalls ∧ x.2 ≠ 0

/-- The guards that an act has to pass before it writes. -/
def PassesGuards (s : World) : Act → Prop
  | .exit fn registered _ =>
    s.inProgress fn registered ≠ 0 ∧ s.net.analyzerTask.isSome ∧ s.profile.Timed fn
  | .leave _ =>
    s.handler = .leaving ∧ s.net.analyzerTask.isSome ∧ s.profile.Timed .lsmReceiveReply
  | _ => False

/-- The act passes the guards only with a buffer that `init_char_device` has left. -/
def KeepsPerf (s : World) (a : Act) : Prop := PassesGuards s a → Backed s.initCalls

/-- **An act writes** exactly when it passes the guards. -/
theorem write_iff (s : World) (a : Act) : (step s a).2.isSome ↔ PassesGuards s a := by
  cases a with
  | exit fn registered now =>
    unfold step PassesGuards
    dsimp only
    split
    · rename_i hnone
      exact iff_of_false (by simp) fun h => h.1 hnone
    · rename_i hin
      rw [World.exit, exit_isSome_iff, and_iff_right hin]
  | leave now =>
    unfold step PassesGuards
    dsimp only
    split
    · rename_i hleaving
      rw [World.leave, exit_isSome_iff, and_iff_right hleaving]
    · rename_i hother
      exact iff_of_false (by simp) fun h => hother h.1
  | enter fn now =>
    unfold step PassesGuards
    dsimp only
    split <;> simp
  | deliver response now | receive findTaskByVpid | init outcome =>
    unfold step PassesGuards
    dsimp only
    split <;> simp

/-! ## What holds in every state -/

/-- What holds in every state: `init_char_device` is called once, by the message that registers the
analyzer, and its calls say what the pointer is. -/
structure PerfInv (s : World) : Prop where
  unregistered : s.net.analyzerTask = none → s.initCalls = []
  busy : ∀ {call ret}, s.handler = .initCharDevice call ret → s.net.analyzerTask ≠ none
  first : ∀ {ret}, s.handler = .initCharDevice .kzalloc ret → s.initCalls = []
  buffer : s.perfBuffer = .allocated ↔ Backed s.initCalls
  cleanup : ∀ {call ret}, s.handler = .initCharDevice call ret → call ∈ cleanupCalls →
    RollsBack s.initCalls
  freed : .kfree ∈ s.initCalls.map Prod.fst → RollsBack s.initCalls

namespace PerfInv

variable {s t : World}

theorem start : PerfInv .start where
  unregistered _ := rfl
  busy h := by cases h
  first h := by cases h
  buffer := iff_of_false (by decide) fun h => List.not_mem_nil h.1
  cleanup h := by cases h
  freed h := absurd h List.not_mem_nil

/-- The handler moves on, to a place outside of `init_char_device`. -/
theorem move (h : PerfInv s) (htask : t.net.analyzerTask = s.net.analyzerTask)
    (hbuffer : t.perfBuffer = s.perfBuffer) (hcalls : t.initCalls = s.initCalls)
    (hhandler : t.handler = s.handler ∨ ∀ call ret, t.handler ≠ .initCharDevice call ret) :
    PerfInv t where
  unregistered hnone := by
    rw [hcalls]
    exact h.unregistered (htask ▸ hnone)
  busy hat := by
    rw [htask]
    rcases hhandler with heq | hne
    · exact h.busy (heq ▸ hat)
    · exact absurd hat (hne _ _)
  first hat := by
    rw [hcalls]
    rcases hhandler with heq | hne
    · exact h.first (heq ▸ hat)
    · exact absurd hat (hne _ _)
  buffer := by rw [hbuffer, hcalls, h.buffer]
  cleanup hat := by
    rw [hcalls]
    rcases hhandler with heq | hne
    · exact h.cleanup (heq ▸ hat)
    · exact absurd hat (hne _ _)
  freed hfree := by
    rw [hcalls] at hfree ⊢
    exact h.freed hfree

/-- Only a message that registers an analyzer goes on to `init_char_device`. -/
theorem receive_cases (s : World) (findTaskByVpid : Int32 → Option Task)
    (response : Option Int32) {call : InitStep} {ret : Int32}
    (hat : (s.receive findTaskByVpid response).handler = .initCharDevice call ret) :
    s.net.analyzerTask = none ∧
      (s.net.receiveReply findTaskByVpid response).2.analyzerTask ≠ none ∧ call = .kzalloc := by
  unfold World.receive at hat
  dsimp only at hat
  split at hat
  · rename_i hnew
    cases hat
    exact ⟨hnew.1, hnew.2, rfl⟩
  · cases hat

theorem receive (h : PerfInv s) (findTaskByVpid : Int32 → Option Task)
    (response : Option Int32) : PerfInv (s.receive findTaskByVpid response) where
  unregistered hnone := by
    refine h.unregistered ?_
    -- a registered analyzer stays registered
    change (s.net.receiveReply findTaskByVpid response).2.analyzerTask = none at hnone
    unfold Netlink.receiveReply at hnone
    split at hnone
    · exact hnone
    · split at hnone
      · assumption
      · exact hnone
  busy hat := (receive_cases s _ _ hat).2.1
  first hat := h.unregistered (receive_cases s _ _ hat).1
  buffer := h.buffer
  cleanup hat hclean := by
    obtain rfl := (receive_cases s _ _ hat).2.2
    exact absurd hclean (by decide)
  freed := h.freed

/-- No call leads back to the `kzalloc`. -/
theorem next_ne_kzalloc {call call' : InitStep} {outcome ret ret' : Int32}
    (h : call.next outcome ret = .ok (call', ret')) : call' ≠ .kzalloc := by
  rintro rfl
  unfold InitStep.next at h
  cases call <;> dsimp at h <;> (try split at h) <;> cases h

/-- A call leads behind the error labels when it is one of the three and has failed, or is there
itself. -/
theorem next_mem_cleanup {call call' : InitStep} {outcome ret ret' : Int32}
    (h : call.next outcome ret = .ok (call', ret')) (hclean : call' ∈ cleanupCalls) :
    call ∈ cleanupCalls ∨ (call ∈ guardedCalls ∧ outcome ≠ 0) := by
  unfold InitStep.next at h
  cases call with
  | kzalloc | allocChrdevRegion =>
    dsimp only at h
    split at h <;> cases h
    exact absurd hclean (by decide)
  | cdevAdd | classCreate | deviceCreate =>
    dsimp only at h
    split at h <;> cases h
    · exact Or.inr ⟨by decide, ‹_›⟩
    all_goals exact absurd hclean (by decide)
  | classDestroy | cdevDel | unregisterChrdevRegion | kfree => exact Or.inl (by decide)

/-- What a call of `init_char_device` does to the pointer, and to what its calls say about it. -/
theorem buffer_init (h : PerfInv s) {call : InitStep} {ret outcome : Int32}
    (hcall : s.handler = .initCharDevice call ret) :
    call.buffer outcome s.perfBuffer = .allocated ↔ Backed ((call, outcome) :: s.initCalls) := by
  by_cases hfirst : call = .kzalloc
  · -- there is no call before the `kzalloc`
    obtain rfl := hfirst
    rw [h.first hcall, Backed]
    by_cases hok : outcome = 0
    · simp [InitStep.buffer, hok]
    · simp [InitStep.buffer, hok, Ne.symm hok]
  by_cases hlast : call = .kfree
  · obtain rfl := hlast
    simp [InitStep.buffer, Backed]
  · have hsame : call.buffer outcome s.perfBuffer = s.perfBuffer := by
      cases call <;> first | rfl | exact absurd rfl hfirst | exact absurd rfl hlast
    rw [hsame, h.buffer]
    simp [Backed, Ne.symm hfirst, Ne.symm hlast]

theorem init (h : PerfInv s) {call : InitStep} {ret outcome : Int32}
    (hcall : s.handler = .initCharDevice call ret) : PerfInv (s.init call ret outcome) where
  unregistered hnone := absurd hnone (h.busy hcall)
  busy _ := h.busy hcall
  first {ret'} hat := by
    unfold World.init at hat
    dsimp only at hat
    split at hat
    · rename_i call' ret'' hnext
      cases hat
      exact absurd rfl (next_ne_kzalloc hnext)
    · cases hat
  buffer := h.buffer_init hcall
  cleanup {call' ret'} hat hclean := by
    unfold World.init at hat
    dsimp only at hat
    split at hat
    · rename_i hnext
      cases hat
      rcases next_mem_cleanup hnext hclean with hbefore | hfailed
      · obtain ⟨x, hx, hfail⟩ := h.cleanup hcall hbefore
        exact ⟨x, List.mem_cons_of_mem _ hx, hfail⟩
      · exact ⟨_, List.mem_cons_self, hfailed⟩
    · cases hat
  freed hfree := by
    have hrolls : RollsBack s.initCalls := by
      rcases List.mem_cons.mp hfree with heq | hbefore
      · obtain rfl : InitStep.kfree = call := heq
        exact h.cleanup hcall (by decide)
      · exact h.freed hbefore
    obtain ⟨x, hx, hfail⟩ := hrolls
    exact ⟨x, List.mem_cons_of_mem _ hx, hfail⟩

theorem next (h : PerfInv s) (a : Act) : PerfInv (next s a) := by
  have hstep := steps_step s a
  rw [Instrument.next]
  generalize step s a = after at hstep ⊢
  obtain ⟨t, write⟩ := after
  cases hstep with
  | stay => exact h
  | enter fn now hfn => exact h.move rfl rfl rfl (Or.inl rfl)
  | exit fn registered now hin => exact h.move rfl rfl rfl (Or.inl rfl)
  | deliver response now hidle => exact h.move rfl rfl rfl (Or.inr nofun)
  | receive findTaskByVpid response hentered => exact h.receive _ _
  | init call ret outcome hcall => exact h.init hcall
  | leave now hleaving => exact h.move rfl rfl rfl (Or.inr nofun)

end PerfInv

/-! ## The writes -/

/-- A write finds an allocated buffer exactly when the act that makes it has one behind it. -/
theorem alive_iff {s : World} (h : PerfInv s) (a : Act) :
    ((step s a).2.isSome → s.perfBuffer = .allocated) ↔ KeepsPerf s a := by
  rw [KeepsPerf, write_iff, h.buffer]

/-- **Where the writes go.**  In every run, each call of `perfchar_write` finds an allocated buffer
exactly when each act that passes the guards has a buffer behind it that `init_char_device` has
allocated and has not come to free. -/
theorem perfAlive_iff (acts : List Act) :
    (∀ x ∈ trace next .start acts,
        (step x.1 x.2).2.isSome → x.1.perfBuffer = .allocated) ↔
      ∀ x ∈ trace next .start acts, KeepsPerf x.1 x.2 :=
  forall_trace_iff (I := PerfInv) (C := fun s a => (step s a).2.isSome → s.perfBuffer = .allocated)
    (fun _ a h => h.next a) (fun _ a h => alive_iff h a) .start acts

/-- It is enough that no act passes the guards before a successful `kzalloc`, or after one of the
three calls has failed. -/
theorem perfAlive_of_outcomes {acts : List Act}
    (h : ∀ x ∈ trace next .start acts, PassesGuards x.1 x.2 →
      (.kzalloc, 0) ∈ x.1.initCalls ∧ ¬ RollsBack x.1.initCalls) :
    ∀ x ∈ trace next .start acts, (step x.1 x.2).2.isSome → x.1.perfBuffer = .allocated := by
  intro x hx
  have hinv : PerfInv x.1 :=
    forall_states (fun _ a h => h.next a) .start acts x.1 (fst_mem_states hx)
  refine (alive_iff hinv x.2).mpr fun hpass => ?_
  exact ⟨(h x hx hpass).1, fun hfree => (h x hx hpass).2 (hinv.freed hfree)⟩

/-- An analyzer registers, the `kzalloc` fails, and a second message arrives. -/
def failedKzalloc : List Act :=
  [.deliver (some 100) 1, .receive fun _ => some 1, .init eNoMem, .leave 2,
    .deliver (some 1) 3, .receive fun _ => none, .leave 4]

/-- **A write to a null pointer.** -/
theorem failedKzalloc_writes_null : ¬ ∀ acts : List Act, ∀ x ∈ trace next .start acts,
    (step x.1 x.2).2.isSome → x.1.perfBuffer = .allocated := by
  intro hall
  have hlast := hall failedKzalloc (failedKzalloc.dropLast.foldl next .start, .leave 4)
    (by simp [failedKzalloc, trace])
  exact absurd (hlast (by decide +kernel)) (by decide +kernel)

end Instrument
end LsmFork
