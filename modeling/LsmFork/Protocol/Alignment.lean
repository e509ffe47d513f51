import LsmFork.Kernel.Growth
import LsmFork.Kernel.Verdict
import LsmFork.Lib.RequestReply

/-!
# Hooks and replies, one hook after another

The hooks of one connection are requests in the sense of `RequestReply`: the server answers every
frame that ends a mapping with four bytes, and a hook that reaches `lsm_receive_reply_tcp` takes the
next four bytes of the socket.  A call of `send_pages_to_userspace_tcp` takes its own reply exactly
when it sends an end frame and goes on to the reply.  It returns early, with the reply on its way,
when the page array could not grow; and it waits without having sent an end frame when an
allocation of the final flush fails.

* `hookClient`, `runHooks`: the hooks as requests, and a run of them.
* `InStep`, `HooksInStep`: one hook, and a run, in step with the server.
* `TcpHook.TakesOwnReply`: what each hook has to get right, in terms of its mapping and its
  allocations.
* `hookClient_balanced_iff`: it is that the hook takes as many replies as it causes.
* `hooksInStep_iff`: a run of hooks is in step exactly when every hook of it gets that right.
-/

namespace LsmFork

open RequestReply

variable (M : PhysMem)

/-! ## Hooks as requests -/

/-- The frames of a hook that the server answers. -/
def TcpHook.endFrames (h : TcpHook) : List Frame := (h.frames M).filter fun f => f.IsEnd

/-- The hook goes on to `lsm_receive_reply_tcp`. -/
def TcpHook.waits (h : TcpHook) : Bool := (h.run M).2 = .awaitReply

/-- The hooks as the client of the server. -/
def hookClient : Client TcpHook Frame where
  answered := TcpHook.endFrames M
  waits := TcpHook.waits M

/-- Hooks run one after another on a new connection: what happened at each that was started, and the
replies unread in the socket after them. -/
def runHooks (hooks : List TcpHook) : List (Exchange TcpHook Frame) × List (Reply Frame) :=
  (hookClient M).run 0 hooks []

/-- What a hook makes of the four bytes of its reply. -/
def replyVerdict (bytes : Chars 4) : Int32 := hookVerdict 4 (lsmReceiveReplyTcp bytes.toList)

/-- The value that the hook returns, if it does: its own, or the verdict of the reply it took.
`answer i f` is the server's reply to the end frame `f` of the `i`-th hook. -/
def returned (answer : ℕ → Frame → Chars 4) (e : Exchange TcpHook Frame) : Option Int32 :=
  match (e.request.run M).2 with
  | .ret value => some value
  | .awaitReply => e.taken.map fun reply => replyVerdict (answer reply.request reply.message)

/-- **A hook in step with the server.**  No reply was unread when it started, a verdict that it
returns is that of the reply to an end frame of its own, and it waits for a reply only if it has
sent an end frame. -/
structure InStep (answer : ℕ → Frame → Chars 4) (e : Exchange TcpHook Frame) : Prop where
  unread : e.unread = []
  verdict : e.request.waits M = true → ∀ value, returned M answer e = some value →
    ∃ f ∈ e.request.endFrames M, e.taken = some ⟨e.index, f⟩ ∧
      value = replyVerdict (answer e.index f)
  endFrame : e.request.waits M = true → ∃ f ∈ e.request.frames M, f.IsEnd

/-- Every hook of the run is in step, and the next one would start with no reply unread. -/
def HooksInStep (answer : ℕ → Frame → Chars 4) (hooks : List TcpHook) : Prop :=
  (∀ e ∈ (runHooks M hooks).1, InStep M answer e) ∧ (runHooks M hooks).2 = []

/-- What a hook has to get right.  A call that passes its checks makes room for every page and can
do the allocations of the final flush; or, when it runs out of room, it fails to send the end frame
as well.  The hook for BPF programs has nothing to get wrong. -/
def TcpHook.TakesOwnReply : TcpHook → Prop
  | .pages c => (∃ vma, c.checked = .ok vma) → (c.GrowthFails M ↔ ¬ c.FinalFlushSends M)
  | .bpf _ => True

variable {M}

/-! ## One hook -/

theorem mem_endFrames {h : TcpHook} {f : Frame} :
    f ∈ h.endFrames M ↔ f ∈ h.frames M ∧ f.IsEnd := by
  rw [TcpHook.endFrames, List.mem_filter, decide_eq_true_iff]

theorem PagesCall.endFrames_length {c : PagesCall} {vma : Vma} (hchecked : c.checked = .ok vma) :
    (c.FinalFlushSends M → ((TcpHook.pages c).endFrames M).length = 1) ∧
      (¬ c.FinalFlushSends M → ((TcpHook.pages c).endFrames M).length = 0) := by
  obtain ⟨before, hbefore, hcase⟩ := c.frames_end_iff (M := M) hchecked
  have hopen : (before.filter fun f => f.IsEnd) = [] :=
    List.filter_eq_nil_iff.mpr fun f hf => by simpa using hbefore f hf
  rw [TcpHook.endFrames, TcpHook.frames]
  rcases hcase with ⟨hfinal, last, hlast, hframes⟩ | ⟨hfinal, hframes⟩
  · refine ⟨fun _ => ?_, fun hno => absurd hfinal hno⟩
    rw [hframes, List.filter_append, hopen, List.nil_append]
    simp [hlast]
  · refine ⟨fun hyes => absurd hyes hfinal, fun _ => ?_⟩
    rw [hframes, hopen, List.length_nil]

/-- A call that passes its checks goes on to the reply exactly when the page array could grow. -/
theorem PagesCall.waits_iff {c : PagesCall} {vma : Vma} (hchecked : c.checked = .ok vma) :
    (TcpHook.pages c).waits M = true ↔ ¬ c.GrowthFails M := by
  obtain ⟨hearly, hlate⟩ := PagesCall.sendPages_result (M := M) hchecked
  rw [TcpHook.waits, TcpHook.run, decide_eq_true_iff]
  constructor
  · intro hawait hgrowth
    rw [hearly hgrowth] at hawait
    cases hawait
  · exact hlate

theorem PagesCall.idle_of_error {c : PagesCall} {value : Int32}
    (hchecked : c.checked = .error value) :
    (TcpHook.pages c).endFrames M = [] ∧ (TcpHook.pages c).waits M = false := by
  rw [TcpHook.endFrames, TcpHook.frames, PagesCall.frames, TcpHook.waits, TcpHook.run,
    sendPagesToUserspaceTcp, hchecked]
  exact ⟨rfl, rfl⟩

/-- **A hook takes as many replies as it causes** exactly when it gets its allocations right. -/
theorem hookClient_balanced_iff (h : TcpHook) :
    (hookClient M).Balanced h ↔ h.TakesOwnReply M := by
  have hbalanced : (hookClient M).Balanced h ↔
      (h.endFrames M).length = if h.waits M then 1 else 0 := Iff.rfl
  rw [hbalanced]
  cases h with
  | pages c =>
    rw [TcpHook.TakesOwnReply]
    cases hchecked : c.checked with
    | error value =>
      obtain ⟨hframes, hwaits⟩ := PagesCall.idle_of_error (M := M) hchecked
      rw [hframes, hwaits]
      refine ⟨fun _ hok => ?_, fun _ => rfl⟩
      obtain ⟨vma, hvma⟩ := hok
      cases hvma
    | ok vma =>
      obtain ⟨hone, hnone⟩ := PagesCall.endFrames_length (M := M) hchecked
      have hwaits := PagesCall.waits_iff (M := M) hchecked
      have hcondition : (∃ vma', Except.ok vma = Except.ok (ε := Int32) vma') ↔ True :=
        iff_true_intro ⟨vma, rfl⟩
      rw [hcondition, true_implies]
      by_cases hgrowth : c.GrowthFails M
      · rw [if_neg fun hw => hwaits.mp hw hgrowth, iff_true_intro hgrowth, true_iff]
        constructor
        · intro hlen hfinal
          rw [hone hfinal] at hlen
          cases hlen
        · exact hnone
      · rw [if_pos (hwaits.mpr hgrowth), iff_false_intro hgrowth, false_iff, not_not]
        constructor
        · intro hlen
          by_contra hfinal
          rw [hnone hfinal] at hlen
          cases hlen
        · exact hone
  | bpf c =>
    rw [TcpHook.TakesOwnReply, iff_true, TcpHook.endFrames, TcpHook.frames, TcpHook.waits,
      TcpHook.run, sendBpfDataTcp, BpfCall.frames]
    cases c.checked with
    | error value => rfl
    | ok image => rfl

/-- For one hook, being in step is being aligned, whatever the server answers. -/
theorem inStep_iff {answer : ℕ → Frame → Chars 4} {e : Exchange TcpHook Frame}
    (htaken : e.request.waits M = false → e.taken = none) :
    InStep M answer e ↔ (hookClient M).Aligned e := by
  have hreturned : e.request.waits M = true → returned M answer e =
      e.taken.map fun reply => replyVerdict (answer reply.request reply.message) := by
    intro hwaits
    rw [TcpHook.waits, decide_eq_true_iff] at hwaits
    rw [returned, hwaits]
  constructor
  · intro h
    refine ⟨h.unread, fun reply hreply => ?_, fun hwaits hnil => ?_⟩
    · have hwaits : e.request.waits M = true := by
        by_contra hno
        rw [htaken (Bool.eq_false_iff.mpr hno)] at hreply
        cases hreply
      have hvalue := hreturned hwaits
      rw [Option.mem_def.mp hreply, Option.map_some] at hvalue
      obtain ⟨f, hf, hown, -⟩ := h.verdict hwaits _ hvalue
      rw [Option.mem_def.mp hreply] at hown
      rw [Option.some.inj hown]
      exact ⟨rfl, hf⟩
    · obtain ⟨f, hf, hend⟩ := h.endFrame hwaits
      have hmem : f ∈ e.request.endFrames M := mem_endFrames.mpr ⟨hf, hend⟩
      rw [show e.request.endFrames M = [] from hnil] at hmem
      cases hmem
  · rintro ⟨hunread, hown, hsent⟩
    refine ⟨hunread, fun hwaits value hvalue => ?_, fun hwaits => ?_⟩
    · rw [hreturned hwaits, Option.map_eq_some_iff] at hvalue
      obtain ⟨⟨i, f⟩, hreply, rfl⟩ := hvalue
      obtain ⟨rfl, hf⟩ := hown _ hreply
      exact ⟨f, hf, hreply, rfl⟩
    · obtain ⟨f, hf⟩ := List.exists_mem_of_ne_nil _ (hsent hwaits)
      exact ⟨f, mem_endFrames.mp hf⟩

/-! ## A run of hooks -/

/-- **A run of hooks is in step with the server** exactly when every hook takes its own reply: for
every outcome of the allocations inside the hooks, and whatever the server answers. -/
theorem hooksInStep_iff (M : PhysMem) (answer : ℕ → Frame → Chars 4) (hooks : List TcpHook) :
    HooksInStep M answer hooks ↔ ∀ h ∈ hooks, h.TakesOwnReply M := by
  have hrun : HooksInStep M answer hooks ↔ (hookClient M).RunAligned 0 hooks [] := by
    refine and_congr_left fun _ => forall₂_congr fun e he => ?_
    exact inStep_iff fun hwaits => Client.taken_of_not_waits he hwaits
  rw [hrun, Client.run_aligned_iff]
  exact forall₂_congr fun h _ => hookClient_balanced_iff h

/-- A mapping whose final flush cannot allocate the copy of the header. -/
def endlessCall : PagesCall := { sampleCall with final := ⟨true, true, false⟩ }

theorem sampleCall_growth_ok : ¬ GrowthFailsIn sampleMemory [] sampleCall.walk :=
  not_growthFailsIn_of_forall (by decide)

/-- **A hook that waits for a reply it has not asked for.**  The copy of the last header cannot be
allocated, the flush drops the frame without a word, and the hook goes on to the reply. -/
theorem endlessCall_waits_without_endFrame : ¬ ∀ (M : PhysMem) (answer : ℕ → Frame → Chars 4)
    (hooks : List TcpHook), ∀ e ∈ (runHooks M hooks).1, InStep M answer e := by
  intro hall
  have hchecked : endlessCall.checked = .ok ⟨false, none⟩ := rfl
  have hwaits : (TcpHook.pages endlessCall).waits sampleMemory = true :=
    (PagesCall.waits_iff hchecked).mpr sampleCall_growth_ok
  obtain ⟨taken, rest, hhead⟩ := (hookClient sampleMemory).run_head 0
    (TcpHook.pages endlessCall) [] []
  have hstep := hall sampleMemory (fun _ _ => zeroChars 4) [.pages endlessCall]
    ⟨0, .pages endlessCall, [], taken⟩ (by rw [runHooks, hhead]; exact List.mem_cons_self)
  obtain ⟨f, hf, hend⟩ := hstep.endFrame hwaits
  obtain ⟨before, hbefore, ⟨hfinal, -⟩ | ⟨-, hframes⟩⟩ :=
    PagesCall.frames_end_iff (M := sampleMemory) hchecked
  · exact absurd hfinal.1 (by decide)
  · exact hbefore f (hframes ▸ hf) hend

end LsmFork
