import Mathlib.Logic.Relation
import LsmFork.Protocol.SharedSocket

/-!
# Interleaved hooks

In a run where any step may come next, hooks mix: the header of one invocation is taken for the
payload of another, and an invocation that receives takes the reply to whichever end frame came
first.  There is no lock, so a statement about the verdicts has to say which steps stay out of each
other's way: nobody sends while another invocation is inside a frame, and nobody receives before the
invocations that have completed their end frames earlier have returned.  All other steps may
interleave; any number of invocations may wait at the same time.

* `OutsideFrames`, `InOrder`: the two conditions, on the state before a step and the step.
* `VerdictsOwn`: a verdict that an invocation returns is that of the reply to its own end frame.
* `SendInv.step`, `RunInv.step`: a step that meets the first condition, or both.
* `exclusive_hooks_do_not_mix`: all runs of such steps.
* `interleaved_hooks_mix`: without the conditions neither half holds.
-/

namespace LsmFork

open SharedReply

variable {ι : Type*} [DecidableEq ι] (M : PhysMem) (hooks : ι → TcpHook) (answer : ℕ → Chars 4)

/-- Who has completed an end frame, in order.  The server's `k`-th reply answers the `k`-th. -/
def asked (wire : List (ι × Part)) : List ι := (sentEnds wire).map Prod.fst

/-- The first condition: nobody sends while another invocation is inside a frame. -/
def OutsideFrames (w : Shared ι) : Act ι → Prop
  | .send i => ∀ j, j ≠ i → ¬ MidFrame w.pending j
  | .receive _ => True
  | .finish _ => True

/-- The second condition: nobody receives before all who have completed their end frames earlier
have returned.  Invocations receive in the order of their end frames, then, and nobody receives
between another one's receive and its return. -/
def InOrder (w : Shared ι) : Act ι → Prop
  | .send _ => True
  | .receive i => FirstInLine (asked w.wire) w.phase i
  | .finish _ => True

/-- Both. -/
def Exclusive (w : Shared ι) (act : Act ι) : Prop := OutsideFrames w act ∧ InOrder w act

/-- A step that meets a condition. -/
def StepIf (P : Shared ι → Act ι → Prop) (w w' : Shared ι) : Prop :=
  ∃ act, P w act ∧ Step M hooks answer w act w'

/-- Any step. -/
def AnyStep : Shared ι → Shared ι → Prop := StepIf M hooks answer fun _ _ => True

/-- **A verdict that an invocation returns** is that of the server's reply to an end frame of its
own. -/
def VerdictsOwn (w : Shared ι) : Prop :=
  ∀ i value, w.phase i = .returned value → (hooks i).waits M = true →
    ∃ k f, (sentEnds w.wire)[k]? = some (i, f) ∧ value = replyVerdict (answer k)

/-- What holds between the steps of a run. -/
structure RunInv (w : Shared ι) : Prop where
  sends : SendInv M hooks w.pending w.wire
  replies : InTurn (fun k => lsmReceiveReplyTcp (answer k).toList) (hookVerdict 4)
    (fun i => (hooks i).waits M = true) (asked w.wire) w.phase w.taken w.analyzerResponse

variable {M hooks answer} {w w' : Shared ι} {wire : List (ι × Part)} {i : ι} {part : Part}

/-! ## Who has asked -/

theorem mem_asked : i ∈ asked wire ↔ ∃ f ∈ sentBy i wire, f.IsEnd := by
  rw [asked, List.mem_map]
  constructor
  · rintro ⟨⟨j, f⟩, hmem, rfl⟩
    obtain ⟨hsent, hend⟩ := mem_sentEnds.mp hmem
    exact ⟨f, mem_sentBy.mpr hsent, hend⟩
  · rintro ⟨f, hf, hend⟩
    exact ⟨(i, f), mem_sentEnds.mpr ⟨mem_sentBy.mp hf, hend⟩, rfl⟩

omit [DecidableEq ι] in
theorem asked_concat_end {f : Frame} (hpart : part.completes = some f) (hend : f.IsEnd) :
    asked (wire ++ [(i, part)]) = asked wire ++ [i] := by
  rw [asked, sentEnds, sent_concat, hpart, List.filter_append]
  simp [asked, sentEnds, hend]

omit [DecidableEq ι] in
theorem asked_concat_of_not (h : ∀ f, part.completes = some f → ¬ f.IsEnd) :
    asked (wire ++ [(i, part)]) = asked wire := by
  rw [asked, sentEnds, sent_concat, List.filter_append]
  cases hpart : part.completes with
  | none => simp [asked, sentEnds]
  | some f => simp [asked, sentEnds, h f hpart]

/-- An invocation that takes its own reply sends one end frame, or none if it does not wait. -/
theorem SendInv.endFrames_length (h : SendInv M hooks w.pending w.wire)
    (hown : (hooks i).TakesOwnReply M) :
    ((sentBy i w.wire).filter fun f => f.IsEnd).length +
        (((w.pending i).filterMap Part.completes).filter fun f => f.IsEnd).length =
      if (hooks i).waits M then 1 else 0 := by
  have hbalanced := (hookClient_balanced_iff (hooks i)).mpr hown
  rw [← List.length_append, ← List.filter_append, h.conserve i]
  exact hbalanced

/-- An invocation that is about to complete an end frame has not asked before. -/
theorem SendInv.not_asked (h : SendInv M hooks w.pending w.wire)
    (hown : (hooks i).TakesOwnReply M) {rest : List Part} (hpending : w.pending i = part :: rest)
    {f : Frame} (hpart : part.completes = some f) (hend : f.IsEnd) : i ∉ asked w.wire := by
  intro hmem
  obtain ⟨g, hg, hgend⟩ := mem_asked.mp hmem
  have hbefore : 0 < ((sentBy i w.wire).filter fun f => f.IsEnd).length :=
    List.length_pos_of_mem (List.mem_filter.mpr ⟨hg, decide_eq_true hgend⟩)
  have hnow : 0 < (((w.pending i).filterMap Part.completes).filter fun f => f.IsEnd).length := by
    refine List.length_pos_of_mem (a := f) (List.mem_filter.mpr ⟨?_, decide_eq_true hend⟩)
    rw [hpending]
    exact List.mem_filterMap.mpr ⟨part, List.mem_cons_self, hpart⟩
  have hcount := h.endFrames_length hown
  split at hcount <;> omega

/-- An invocation that has sent all has asked exactly if it waits. -/
theorem SendInv.asked_iff (h : SendInv M hooks w.pending w.wire)
    (hown : (hooks i).TakesOwnReply M) (hsent : w.pending i = []) :
    i ∈ asked w.wire ↔ (hooks i).waits M = true := by
  have hcount := h.endFrames_length hown
  rw [hsent, List.filterMap_nil, List.filter_nil, List.length_nil, Nat.add_zero] at hcount
  have hmem : i ∈ asked w.wire ↔ 0 < ((sentBy i w.wire).filter fun f => f.IsEnd).length := by
    rw [mem_asked, List.length_pos_iff_exists_mem]
    exact exists_congr fun f => by rw [List.mem_filter, decide_eq_true_iff]
  rw [hmem, hcount]
  cases (hooks i).waits M <;> simp

/-! ## Runs that meet the conditions -/

theorem StepIf.mono {P Q : Shared ι → Act ι → Prop} (h : ∀ w act, P w act → Q w act)
    (hrun : Relation.ReflTransGen (StepIf M hooks answer P) w w') :
    Relation.ReflTransGen (StepIf M hooks answer Q) w w' := by
  have hsteps : StepIf M hooks answer P ≤ StepIf M hooks answer Q := by
    rintro w w' ⟨act, hact, hstep⟩
    exact ⟨act, h w act hact, hstep⟩
  exact Relation.ReflTransGen.mono hsteps _ _ hrun

/-- **One step that meets the first condition** keeps the invariant. -/
theorem SendInv.step (h : SendInv M hooks w.pending w.wire) {act : Act ι}
    (houtside : OutsideFrames w act) (hstep : Step M hooks answer w act w') :
    SendInv M hooks w'.pending w'.wire := by
  cases hstep with
  | send hphase hpending => exact h.send hpending houtside
  | receive hphase hsent hwaits hreply => exact h
  | finish hphase => exact h
  | leave hphase hsent hearly => exact h

/-- Every state of a run of steps that meet the first condition. -/
theorem SendInv.run {response : UInt32} (hrun : Relation.ReflTransGen
    (StepIf M hooks answer OutsideFrames) (.start M hooks response) w) :
    SendInv M hooks w.pending w.wire := by
  induction hrun with
  | refl => exact SendInv.start
  | tail _ hstep ih =>
    obtain ⟨act, houtside, hone⟩ := hstep
    exact ih.step houtside hone

theorem RunInv.start (response : UInt32) : RunInv M hooks answer (.start M hooks response) :=
  ⟨SendInv.start, InTurn.start response⟩

/-- **One step that meets both**, of invocations that take their own replies. -/
theorem RunInv.step (h : RunInv M hooks answer w) (hown : ∀ i, (hooks i).TakesOwnReply M)
    {act : Act ι} (hexclusive : Exclusive w act) (hstep : Step M hooks answer w act w') :
    RunInv M hooks answer w' := by
  refine ⟨h.sends.step hexclusive.1 hstep, ?_⟩
  cases hstep with
  | @send i part rest hphase hpending =>
    show InTurn _ _ _ (asked (w.wire ++ [(i, part)])) w.phase w.taken w.analyzerResponse
    by_cases hends : ∃ f, part.completes = some f ∧ f.IsEnd
    · obtain ⟨f, hpart, hend⟩ := hends
      rw [asked_concat_end hpart hend]
      exact h.replies.ask (h.sends.not_asked (hown i) hpending hpart hend) hphase
    · rw [asked_concat_of_not fun f hpart hend => hends ⟨f, hpart, hend⟩]
      exact h.replies
  | @receive i hphase hsent hwaits hreply =>
    have hasked : i ∈ asked w.wire :=
      (h.sends.asked_iff (hown i) hsent).mpr (decide_eq_true hwaits)
    exact h.replies.receive hasked hphase hexclusive.2
  | finish hphase => exact h.replies.finish hphase
  | @leave i value hphase hsent hearly =>
    have hnot : ¬ (hooks i).waits M = true := by
      rw [TcpHook.waits, decide_eq_true_iff, hearly]
      exact fun hawait => by cases hawait
    refine h.replies.leave ?_ hnot value
    rw [h.sends.asked_iff (hown i) hsent]
    exact hnot

/-- Every state of a run of steps that meet both. -/
theorem RunInv.run (hown : ∀ i, (hooks i).TakesOwnReply M) {response : UInt32}
    (hrun : Relation.ReflTransGen (StepIf M hooks answer Exclusive) (.start M hooks response) w) :
    RunInv M hooks answer w := by
  induction hrun with
  | refl => exact RunInv.start response
  | tail _ hstep ih =>
    obtain ⟨act, hexclusive, hone⟩ := hstep
    exact ih.step hown hexclusive hone

theorem RunInv.verdictsOwn (h : RunInv M hooks answer w) : VerdictsOwn M hooks answer w := by
  intro i value hvalue hwaits
  obtain ⟨k, hget, hresult⟩ := h.replies.returned i value hvalue hwaits
  rw [asked, List.getElem?_map, Option.map_eq_some_iff] at hget
  obtain ⟨⟨j, f⟩, hget, rfl⟩ := hget
  exact ⟨k, f, hget, hresult⟩

/-! ## Two programs -/

/-- The frame of the sample program. -/
def sampleFrame : Frame := ⟨sampleBpf.info, [0x55, 0x48, 0x89, 0xe5]⟩

/-- Two processes load the sample program. -/
def twoPrograms : Bool → TcpHook := fun _ => .bpf sampleBpf

theorem twoPrograms_takeOwnReply (i : Bool) : (twoPrograms i).TakesOwnReply sampleMemory := trivial

theorem twoPrograms_parts (i : Bool) :
    (twoPrograms i).parts sampleMemory = [.header sampleFrame, .payload sampleFrame] := rfl

/-- A server that counts its replies. -/
def countingReply (k : ℕ) : Chars 4 := ⟨[UInt8.ofNat k, 0, 0, 0], rfl⟩

/-- The two invocations, before the first step. -/
def twoStart : Shared Bool := .start sampleMemory twoPrograms 0

/-- One of them has sent its header. -/
def oneHeader : Shared Bool :=
  twoStart.sendPart false (.header sampleFrame) [.payload sampleFrame]

/-- Both have sent their headers, and neither its payload. -/
def twoHeaders : Shared Bool :=
  oneHeader.sendPart true (.header sampleFrame) [.payload sampleFrame]

/-- One of them has sent its frame. -/
def oneFrame : Shared Bool := oneHeader.sendPart false (.payload sampleFrame) []

/-- One of them has sent its frame and the other its header. -/
def frameAndHeader : Shared Bool :=
  oneFrame.sendPart true (.header sampleFrame) [.payload sampleFrame]

/-- Both have sent their frames. -/
def twoFrames : Shared Bool := frameAndHeader.sendPart true (.payload sampleFrame) []

/-- The first has received its reply and returned, while the second waits. -/
def firstReturned : Shared Bool :=
  (twoFrames.takeReply false (countingReply 0)).finish false (replyVerdict (countingReply 0))

/-- And then the second. -/
def bothReturned : Shared Bool :=
  (firstReturned.takeReply true (countingReply 1)).finish true (replyVerdict (countingReply 1))

theorem step_oneHeader (answer : ℕ → Chars 4) :
    Step sampleMemory twoPrograms answer twoStart (.send false) oneHeader := .send rfl rfl

theorem step_twoHeaders (answer : ℕ → Chars 4) :
    Step sampleMemory twoPrograms answer oneHeader (.send true) twoHeaders := .send rfl rfl

theorem step_oneFrame (answer : ℕ → Chars 4) :
    Step sampleMemory twoPrograms answer oneHeader (.send false) oneFrame := .send rfl rfl

theorem step_frameAndHeader (answer : ℕ → Chars 4) :
    Step sampleMemory twoPrograms answer oneFrame (.send true) frameAndHeader := .send rfl rfl

theorem step_twoFrames (answer : ℕ → Chars 4) :
    Step sampleMemory twoPrograms answer frameAndHeader (.send true) twoFrames := .send rfl rfl

omit [DecidableEq ι] in
/-- An invocation whose next part is a header, or that has none, is not inside a frame. -/
theorem not_midFrame_of_next {pending : ι → List Part} {parts : List Part} (h : pending i = parts)
    (hparts : ∀ f rest, parts ≠ .payload f :: rest) : ¬ MidFrame pending i := by
  rintro ⟨f, rest, hmid⟩
  exact hparts f rest (h.symm.trans hmid)

theorem twoStart_exclusive (j : Bool) (_ : j ≠ false) : ¬ MidFrame twoStart.pending j := by
  exact not_midFrame_of_next (twoPrograms_parts j) fun f rest h => by cases h

theorem oneHeader_exclusive (j : Bool) (hj : j ≠ false) : ¬ MidFrame oneHeader.pending j := by
  obtain rfl : j = true := Bool.eq_true_of_not_eq_false hj
  exact not_midFrame_of_next (twoPrograms_parts true) fun f rest h => by cases h

theorem oneFrame_exclusive (j : Bool) (hj : j ≠ true) : ¬ MidFrame oneFrame.pending j := by
  obtain rfl : j = false := Bool.eq_false_of_not_eq_true hj
  exact not_midFrame_of_next (show oneFrame.pending false = [] from rfl) fun f rest h => by cases h

theorem frameAndHeader_exclusive (j : Bool) (hj : j ≠ true) :
    ¬ MidFrame frameAndHeader.pending j := by
  obtain rfl : j = false := Bool.eq_false_of_not_eq_true hj
  exact not_midFrame_of_next (show frameAndHeader.pending false = [] from rfl)
    fun f rest h => by cases h

theorem oneFrame_sendInv :
    SendInv sampleMemory twoPrograms oneFrame.pending oneFrame.wire :=
  (SendInv.start.send rfl twoStart_exclusive).send rfl oneHeader_exclusive

theorem frameAndHeader_sendInv :
    SendInv sampleMemory twoPrograms frameAndHeader.pending frameAndHeader.wire :=
  oneFrame_sendInv.send rfl oneFrame_exclusive

theorem twoFrames_replies : (replies (serverEvents twoFrames.wire)).length = 2 :=
  (frameAndHeader_sendInv.send rfl frameAndHeader_exclusive).replies_length

theorem asked_twoFrames : asked twoFrames.wire = [false, true] := rfl

theorem twoFrames_firstInLine : FirstInLine (asked twoFrames.wire) twoFrames.phase false := by
  rw [asked_twoFrames]
  rintro k (- | - | l) j - hget hlt
  · exact absurd hlt (Nat.not_lt_zero k)
  · cases hget
  · cases hget

theorem firstReturned_firstInLine :
    FirstInLine (asked firstReturned.wire) firstReturned.phase true := by
  have hreturned : firstReturned.phase false = .returned (replyVerdict (countingReply 0)) := rfl
  rw [show asked firstReturned.wire = [false, true] from rfl]
  rintro (- | k) (- | - | l) j hget hget' hlt
  · cases hget'
  · cases hget
    exact ⟨_, hreturned⟩
  · cases hget'
  · exact absurd hlt (Nat.not_lt_zero _)
  · exact absurd (Nat.lt_of_succ_lt_succ hlt) (Nat.not_lt_zero _)
  · cases hget'

/-- The server takes the beginning of the second header for the payload of the first. -/
theorem twoHeaders_parsed {segments : List (List UInt8)}
    (hsegments : segments.flatten = wireBytes twoHeaders.wire) :
    parsedFrames ((receiveLoop servingEnv).run (.start segments)) ≠ [] := by
  let mixed : Frame := ⟨sampleFrame.header, sampleFrame.header.toBytes.take 4⟩
  have hsplit : wireBytes twoHeaders.wire =
      [mixed].flatMap Frame.toBytes ++ sampleFrame.header.toBytes.drop 4 := by
    show sampleFrame.header.toBytes ++ (sampleFrame.header.toBytes ++ []) = _
    rw [List.flatMap_singleton, Frame.toBytes, List.append_nil, List.append_assoc,
      List.take_append_drop]
  have hsound : ∀ f ∈ [mixed], f.Complete ∧ f.Accepted := by
    intro f hf
    rw [List.mem_singleton.mp hf]
    refine ⟨?_, by decide, Or.inr (by decide)⟩
    exact List.length_take_of_le (by rw [MappingInfo.toBytes_length]; decide)
  have hserves : Serves servingEnv 0 [mixed] :=
    serves_of_forall (fun _ _ => rfl) (fun _ => rfl) 0 [mixed]
  obtain ⟨evs, s, hreach, -, -, -, hshows⟩ := reaches_frames (s := .start segments) rfl hsound
    (hsegments.trans hsplit) hserves
  rw [hreach.run_eq, parsedFrames, List.filterMap_append]
  intro hnil
  have hfirst : parsedFrames evs = [] := (List.append_eq_nil_iff.mp hnil).1
  rw [hshows.parsedFrames] at hfirst
  cases hfirst

/-! ## Runs with and without the conditions -/

/-- **Hooks that stay out of each other's way do not mix.**  While nobody sends inside the frame of
another invocation, in every state of every run by any number of invocations, the server parses the
frames of the invocations and no others.  If moreover nobody receives before the invocations whose
end frames are earlier have returned, and the invocations take their own replies, every verdict
returned is that of the reply to the invocation's own end frame. -/
theorem exclusive_hooks_do_not_mix (M : PhysMem) (hooks : ι → TcpHook) (answer : ℕ → Chars 4)
    (response : UInt32) (w : Shared ι) :
    (Relation.ReflTransGen (StepIf M hooks answer OutsideFrames) (.start M hooks response) w →
        FramesIntact M hooks w) ∧
      ((∀ i, (hooks i).TakesOwnReply M) →
        Relation.ReflTransGen (StepIf M hooks answer Exclusive) (.start M hooks response) w →
          VerdictsOwn M hooks answer w) :=
  ⟨fun hrun => (SendInv.run hrun).framesIntact,
    fun hown hrun => (RunInv.run hown hrun).verdictsOwn⟩

/-- Two programs that wait at the same time, and receive in the order of their frames. -/
theorem twoPrograms_do_not_mix :
    FramesIntact sampleMemory twoPrograms bothReturned ∧
      VerdictsOwn sampleMemory twoPrograms countingReply bothReturned := by
  have hfirst : Step sampleMemory twoPrograms countingReply twoFrames (.receive false)
      (twoFrames.takeReply false (countingReply 0)) := by
    refine .receive rfl rfl rfl ?_
    rw [twoFrames_replies]
    decide
  have hsecond : Step sampleMemory twoPrograms countingReply firstReturned (.receive true)
      (firstReturned.takeReply true (countingReply 1)) := by
    refine .receive rfl rfl rfl ?_
    show 1 < (replies (serverEvents twoFrames.wire)).length
    rw [twoFrames_replies]
    decide
  have hrun : Relation.ReflTransGen (StepIf sampleMemory twoPrograms countingReply Exclusive)
      twoStart bothReturned := by
    refine (((((((Relation.ReflTransGen.single
      ⟨.send false, ⟨?_, trivial⟩, step_oneHeader _⟩).tail
        ⟨.send false, ⟨?_, trivial⟩, step_oneFrame _⟩).tail
          ⟨.send true, ⟨?_, trivial⟩, step_frameAndHeader _⟩).tail
            ⟨.send true, ⟨?_, trivial⟩, step_twoFrames _⟩).tail
      ⟨.receive false, ⟨trivial, ?_⟩, hfirst⟩).tail
        ⟨.finish false, ⟨trivial, trivial⟩, .finish rfl⟩).tail
          ⟨.receive true, ⟨trivial, ?_⟩, hsecond⟩).tail
            ⟨.finish true, ⟨trivial, trivial⟩, .finish rfl⟩
    · exact twoStart_exclusive
    · exact oneHeader_exclusive
    · exact oneFrame_exclusive
    · exact frameAndHeader_exclusive
    · exact twoFrames_firstInLine
    · exact firstReturned_firstInLine
  have houtside : Relation.ReflTransGen
      (StepIf sampleMemory twoPrograms countingReply OutsideFrames) twoStart bothReturned :=
    StepIf.mono (fun _ _ hexclusive => hexclusive.1) hrun
  obtain ⟨hframes, hverdicts⟩ :=
    exclusive_hooks_do_not_mix sampleMemory twoPrograms countingReply 0 bothReturned
  exact ⟨hframes houtside, hverdicts twoPrograms_takeOwnReply hrun⟩

/-- **Without the conditions neither half holds**, although both programs take their own replies.
When two headers are sent one after the other, the server parses a frame that nobody has sent.  When
both frames are sent before either hook receives, the second hook can receive first, and returns
the verdict on the first program. -/
theorem interleaved_hooks_mix :
    (¬ ∀ (M : PhysMem) (hooks : Bool → TcpHook) (answer : ℕ → Chars 4) (response : UInt32)
      (w : Shared Bool), (∀ i, (hooks i).TakesOwnReply M) →
        Relation.ReflTransGen (AnyStep M hooks answer) (.start M hooks response) w →
          FramesIntact M hooks w) ∧
    ¬ ∀ (M : PhysMem) (hooks : Bool → TcpHook) (answer : ℕ → Chars 4) (response : UInt32)
      (w : Shared Bool), (∀ i, (hooks i).TakesOwnReply M) →
        Relation.ReflTransGen (AnyStep M hooks answer) (.start M hooks response) w →
          VerdictsOwn M hooks answer w := by
  constructor
  · intro hall
    have hrun : Relation.ReflTransGen (AnyStep sampleMemory twoPrograms fun _ => zeroChars 4)
        twoStart twoHeaders :=
      (Relation.ReflTransGen.single ⟨_, trivial, step_oneHeader _⟩).tail
        ⟨_, trivial, step_twoHeaders _⟩
    have hintact := hall _ _ _ _ _ twoPrograms_takeOwnReply hrun
    have hsegments : [wireBytes twoHeaders.wire].flatten = wireBytes twoHeaders.wire :=
      List.append_nil _
    exact twoHeaders_parsed hsegments (hintact.parsed _ hsegments)
  · intro hall
    have hreceive : Step sampleMemory twoPrograms countingReply twoFrames (.receive true)
        (twoFrames.takeReply true (countingReply 0)) := by
      refine .receive rfl rfl rfl ?_
      rw [twoFrames_replies]
      decide
    have hrun : Relation.ReflTransGen (AnyStep sampleMemory twoPrograms countingReply) twoStart
        ((twoFrames.takeReply true (countingReply 0)).finish true
          (replyVerdict (countingReply 0))) :=
      (((((Relation.ReflTransGen.single ⟨_, trivial, step_oneHeader _⟩).tail
        ⟨_, trivial, step_oneFrame _⟩).tail ⟨_, trivial, step_frameAndHeader _⟩).tail
          ⟨_, trivial, step_twoFrames _⟩).tail ⟨_, trivial, hreceive⟩).tail
            ⟨_, trivial, .finish rfl⟩
    obtain ⟨k, f, hget, hvalue⟩ := hall _ _ _ _ _ twoPrograms_takeOwnReply hrun true
      (replyVerdict (countingReply 0)) rfl rfl
    -- the second program's end frame is the second, but its verdict is that of the first reply
    have hget' : [(false, sampleFrame), (true, sampleFrame)][k]? = some (true, f) := hget
    rcases k with - | - | k
    · cases hget'
    · exact absurd hvalue (by decide)
    · cases hget'

end LsmFork
