import Mathlib.Logic.Function.Basic
import LsmFork.Kernel.Netlink
import LsmFork.Lib.Runs

/-!
# Hooks, analyzers, and one completion

In netlink mode any number of hooks and of processes share the three globals.  A hook sends its
NOTIFY, waits until `analyzer_ready` is completed, resets it, and later reads `analyzer_response`;
a REPLY of any process may come between any two of these steps.  The system below takes these steps
in any order.  Two things are read off it: which reply a returned verdict comes from, and when a
hook waits for a reply that nobody has been asked for.

* `Message`, `Phase`, `World`: the replies received so far, where each hook stands, the whole state.
* `Act`, `next`: the steps, one at a time; a step that is not possible changes nothing.
* `RendezvousInv`: the reply that stands in `analyzer_response`, and whom it can reach.
* `returned_verdict_is_reply`: where a returned verdict comes from.
* `notBlocked_iff`: no hook is blocked on a NOTIFY that nobody got, as long as the acts leave none.
-/

namespace LsmFork
namespace Rendezvous

open Runs

/-! ## The system -/

/-- Who has sent a REPLY: a process that has sent its pid before or does so now, or any other. -/
inductive Sender where
  | analyzer (task : Task)
  | other
  deriving DecidableEq

/-- A REPLY message. -/
structure Message where
  sender : Sender
  /-- `LSM_ATTR_RESPONSE`, if it is there. -/
  response : Option Int32
  /-- It is the first message of an analyzer, with its pid. -/
  isRegistration : Bool
  deriving DecidableEq

/-- What a hook has found at its NOTIFY: whether anybody got it, how many replies had been received
by then, and how many completions nobody had waited for. -/
structure Notice where
  delivered : Bool
  received : ℕ
  pending : ℕ
  deriving DecidableEq

/-- Where an invocation of a hook stands. -/
inductive Phase where
  | idle
  | entered (info : MappingInfo)
  | waiting (notice : Notice)
  | woken (notice : Notice)
  | reinited (notice : Notice)
  | left (value : Int32)
  /-- `source` is the reply that stood in `analyzer_response`, by its place among the replies. -/
  | returned (value : Int32) (notice : Notice) (source : Option ℕ)
  deriving DecidableEq

/-- The hook has started and has not returned. -/
def Phase.Active : Phase → Prop
  | .entered _ => True
  | .waiting _ => True
  | .woken _ => True
  | .reinited _ => True
  | _ => False

/-- The state of the system. -/
structure World where
  net : Netlink
  /-- `find_task_by_vpid`: the running processes. -/
  tasks : Int32 → Option Task
  nextTask : Task
  /-- The analyzers that have sent their pid, the last one first. -/
  registered : List Task
  /-- Every REPLY so far, in the order of arrival. -/
  inbox : List Message
  /-- What `analyzer_task` was when each of them arrived. -/
  taskAt : List (Option Task)
  /-- The reply that stands in `analyzer_response`. -/
  stored : Option ℕ
  phase : ℕ → Phase

namespace World

/-- Nothing runs, and nothing has happened. -/
def start : World := ⟨.start, fun _ => none, 0, [], [], [], none, fun _ => .idle⟩

/-- An invocation gets to its next phase. -/
def setPhase (s : World) (i : ℕ) (p : Phase) : World :=
  { s with phase := Function.update s.phase i p }

/-- `lsm_receive_reply` on a message.  It is the message that stands in `analyzer_response` from
then on if it has been counted by `complete`. -/
def receive (s : World) (m : Message) : World :=
  let net := (s.net.receiveReply s.tasks m.response).2
  { s with
    net := net
    inbox := s.inbox ++ [m]
    taskAt := s.taskAt ++ [s.net.analyzerTask]
    stored := if s.net.analyzerReady.done < net.analyzerReady.done then some s.inbox.length
      else s.stored }

end World

/-- A step of the system.  The messages of analyzers are their registration and their answers; any
other process may send a REPLY as well. -/
inductive Act where
  | start (pid : Int32)
  | exit (pid : Int32)
  | register (pid : Int32)
  | answer (pid : Int32) (response : Option Int32)
  | foreign (response : Option Int32)
  | enter (i : ℕ) (hook : NetlinkHook)
  | notify (i : ℕ) (o : NotifyOutcome)
  | wake (i : ℕ)
  | reinit (i : ℕ)
  | ret (i : ℕ)

/-- **One step.**  A process starts under a free pid, an analyzer registers once and answers after
that, and a hook goes through its phases. -/
def next (s : World) : Act → World
  | .start pid =>
    if s.tasks pid = none then
      { s with tasks := Function.update s.tasks pid (some s.nextTask), nextTask := s.nextTask + 1 }
    else s
  | .exit pid => { s with tasks := Function.update s.tasks pid none }
  | .register pid =>
    match s.tasks pid with
    | none => s
    | some task =>
      if task ∈ s.registered then s
      else { s.receive ⟨.analyzer task, some pid, true⟩ with registered := task :: s.registered }
  | .answer pid response =>
    match s.tasks pid with
    | none => s
    | some task =>
      if task ∈ s.registered then s.receive ⟨.analyzer task, response, false⟩ else s
  | .foreign response => s.receive ⟨.other, response, false⟩
  | .enter i hook =>
    match s.phase i with
    | .idle =>
      match hook.checked s.net.analyzerTask with
      | .error value => s.setPhase i (.left value)
      | .ok info => s.setPhase i (.entered info)
    | _ => s
  | .notify i o =>
    match s.phase i with
    | .entered info => s.setPhase i (.waiting ⟨delivered (lsmSendToUserspace o info),
        s.inbox.length, s.net.analyzerReady.done⟩)
    | _ => s
  | .wake i =>
    match s.phase i, s.net.analyzerReady.waitFor with
    | .waiting notice, some ready =>
      { s.setPhase i (.woken notice) with net := { s.net with analyzerReady := ready } }
    | _, _ => s
  | .reinit i =>
    match s.phase i with
    | .woken notice => { s.setPhase i (.reinited notice) with
        net := { s.net with analyzerReady := s.net.analyzerReady.reinit } }
    | _ => s
  | .ret i =>
    match s.phase i with
    | .reinited notice =>
      s.setPhase i (.returned (Netlink.verdict s.net.analyzerResponse) notice s.stored)
    | _ => s

/-! ## All that a step can do -/

namespace World

variable {s : World} {i j : ℕ} {p : Phase}

theorem setPhase_phase : (s.setPhase i p).phase j = if j = i then p else s.phase j :=
  Function.update_apply s.phase i p j

/-- **What a REPLY does**: it is refused, or it registers a task, or it is stored and completes. -/
theorem receive_cases (s : World) (m : Message) :
    s.receive m =
      { s with inbox := s.inbox ++ [m], taskAt := s.taskAt ++ [s.net.analyzerTask] } ∨
    (∃ r task, m.response = some r ∧ s.net.analyzerTask = none ∧ s.tasks r = some task ∧
      s.receive m =
        { s with
          net := { s.net with analyzerTask := some task }
          inbox := s.inbox ++ [m]
          taskAt := s.taskAt ++ [s.net.analyzerTask] }) ∨
    (∃ r task, m.response = some r ∧ s.net.analyzerTask = some task ∧
      s.receive m =
        { s with
          net := { s.net with
            analyzerResponse := lsmReceiveReply r
            analyzerReady := s.net.analyzerReady.complete }
          inbox := s.inbox ++ [m]
          taskAt := s.taskAt ++ [s.net.analyzerTask]
          stored := some s.inbox.length }) := by
  cases hresponse : m.response with
  | none => exact Or.inl (by simp [receive, Netlink.receiveReply, hresponse])
  | some r =>
    cases htask : s.net.analyzerTask with
    | some task =>
      refine Or.inr (Or.inr ⟨r, task, rfl, rfl, ?_⟩)
      simp [receive, Netlink.receiveReply, hresponse, htask, Completion.complete]
    | none =>
      cases hfind : s.tasks r with
      | none =>
        refine Or.inl ?_
        simp [receive, Netlink.receiveReply, hresponse, htask, hfind]
      | some task =>
        refine Or.inr (Or.inl ⟨r, task, rfl, rfl, hfind, ?_⟩)
        simp [receive, Netlink.receiveReply, hresponse, htask, hfind]

end World

/-- **The steps that change something**, each with what it needs and what it leaves. -/
inductive Step : World → Act → World → Prop where
  | start {s : World} {pid : Int32} (hfree : s.tasks pid = none) :
      Step s (.start pid) { s with
        tasks := Function.update s.tasks pid (some s.nextTask), nextTask := s.nextTask + 1 }
  | exit {s : World} {pid : Int32} :
      Step s (.exit pid) { s with tasks := Function.update s.tasks pid none }
  | register {s : World} {pid : Int32} {task : Task} (htask : s.tasks pid = some task)
      (hnew : task ∉ s.registered) :
      Step s (.register pid) { s.receive ⟨.analyzer task, some pid, true⟩ with
        registered := task :: s.registered }
  | answer {s : World} {pid : Int32} {task : Task} {response : Option Int32}
      (htask : s.tasks pid = some task) (hknown : task ∈ s.registered) :
      Step s (.answer pid response) (s.receive ⟨.analyzer task, response, false⟩)
  | foreign {s : World} {response : Option Int32} :
      Step s (.foreign response) (s.receive ⟨.other, response, false⟩)
  | leave {s : World} {i : ℕ} {hook : NetlinkHook} {value : Int32} (hidle : s.phase i = .idle)
      (hchecked : hook.checked s.net.analyzerTask = .error value) :
      Step s (.enter i hook) (s.setPhase i (.left value))
  | enter {s : World} {i : ℕ} {hook : NetlinkHook} {info : MappingInfo} (hidle : s.phase i = .idle)
      (hchecked : hook.checked s.net.analyzerTask = .ok info) :
      Step s (.enter i hook) (s.setPhase i (.entered info))
  | notify {s : World} {i : ℕ} {o : NotifyOutcome} {info : MappingInfo}
      (hphase : s.phase i = .entered info) :
      Step s (.notify i o) (s.setPhase i (.waiting ⟨delivered (lsmSendToUserspace o info),
        s.inbox.length, s.net.analyzerReady.done⟩))
  | wake {s : World} {i : ℕ} {notice : Notice} (hphase : s.phase i = .waiting notice)
      (hdone : 0 < s.net.analyzerReady.done) :
      Step s (.wake i) { s.setPhase i (.woken notice) with
        net := { s.net with analyzerReady := ⟨s.net.analyzerReady.done - 1⟩ } }
  | reinit {s : World} {i : ℕ} {notice : Notice} (hphase : s.phase i = .woken notice) :
      Step s (.reinit i) { s.setPhase i (.reinited notice) with
        net := { s.net with analyzerReady := ⟨0⟩ } }
  | ret {s : World} {i : ℕ} {notice : Notice} (hphase : s.phase i = .reinited notice) :
      Step s (.ret i)
        (s.setPhase i (.returned (Netlink.verdict s.net.analyzerResponse) notice s.stored))

/-- **A step changes something in one of these ways**, or nothing. -/
theorem next_cases (s : World) (a : Act) : Step s a (next s a) ∨ next s a = s := by
  cases a with
  | start pid =>
    rw [next]
    split
    · exact Or.inl (.start ‹_›)
    · exact Or.inr rfl
  | exit pid => exact Or.inl .exit
  | register pid =>
    rw [next]
    split
    · exact Or.inr rfl
    · split
      · exact Or.inr rfl
      · exact Or.inl (.register ‹_› ‹_›)
  | answer pid response =>
    rw [next]
    split
    · exact Or.inr rfl
    · split
      · exact Or.inl (.answer ‹_› ‹_›)
      · exact Or.inr rfl
  | foreign response => exact Or.inl .foreign
  | enter i hook =>
    rw [next]
    split
    · split
      · exact Or.inl (.leave ‹_› ‹_›)
      · exact Or.inl (.enter ‹_› ‹_›)
    · exact Or.inr rfl
  | notify i o =>
    rw [next]
    split
    · exact Or.inl (.notify ‹_›)
    · exact Or.inr rfl
  | wake i =>
    rw [next]
    split
    · rename_i notice ready hphase hwait
      rw [Completion.waitFor] at hwait
      split at hwait
      · obtain rfl := Option.some.inj hwait
        exact Or.inl (.wake hphase ‹_›)
      · cases hwait
    · exact Or.inr rfl
  | reinit i =>
    rw [next]
    split
    · exact Or.inl (.reinit ‹_›)
    · exact Or.inr rfl
  | ret i =>
    rw [next]
    split
    · exact Or.inl (.ret ‹_›)
    · exact Or.inr rfl

/-! ## Where a verdict comes from -/

namespace World

/-- A reply is stored, and it came after the NOTIFY unless a completion was pending there. -/
def Answered (s : World) (notice : Notice) : Prop :=
  ∃ k, s.stored = some k ∧ (notice.pending = 0 → notice.received ≤ k)

/-- The value is the verdict of the reply at `source`, which came while an analyzer was registered,
and after the NOTIFY unless a completion was pending there. -/
def VerdictOf (s : World) (value : Int32) (notice : Notice) (source : Option ℕ) : Prop :=
  ∃ k m r task, source = some k ∧ s.inbox[k]? = some m ∧ s.taskAt[k]? = some (some task) ∧
    m.response = some r ∧ value = Netlink.verdict (lsmReceiveReply r) ∧
    (notice.pending = 0 → notice.received ≤ k)

/-- What holds of a hook in each phase. -/
def PhaseInv (s : World) : Phase → Prop
  | .waiting notice => notice.received ≤ s.inbox.length ∧
      (0 < s.net.analyzerReady.done → s.Answered notice)
  | .woken notice => notice.received ≤ s.inbox.length ∧ s.Answered notice
  | .reinited notice => notice.received ≤ s.inbox.length ∧ s.Answered notice
  | .returned value notice source => s.VerdictOf value notice source
  | _ => True

end World

/-- **The rendezvous.**  The response is that of the stored reply, which an analyzer was registered
for, there is one as soon as a completion is pending, and every hook has what its phase needs. -/
structure RendezvousInv (s : World) : Prop where
  arrivals : s.taskAt.length = s.inbox.length
  stored : ∀ k, s.stored = some k → ∃ m r task, s.inbox[k]? = some m ∧
    s.taskAt[k]? = some (some task) ∧ m.response = some r ∧
    s.net.analyzerResponse = lsmReceiveReply r
  pending : 0 < s.net.analyzerReady.done → ∃ k, s.stored = some k
  phases : ∀ i, s.PhaseInv (s.phase i)

namespace RendezvousInv

variable {s s' : World} {p : Phase}

theorem start : RendezvousInv .start where
  arrivals := rfl
  stored k h := by cases h
  pending h := absurd h (Nat.lt_irrefl 0)
  phases _ := trivial

theorem answered_mono {notice : Notice} (hreceived : notice.received ≤ s.inbox.length)
    (hstored : s'.stored = s.stored ∨ s'.stored = some s.inbox.length) (h : s.Answered notice) :
    s'.Answered notice := by
  rcases hstored with hsame | hnew
  · obtain ⟨k, hk, hle⟩ := h
    exact ⟨k, hsame.trans hk, hle⟩
  · exact ⟨_, hnew, fun _ => hreceived⟩

/-- A hook keeps what it has when replies come in, or are waited for. -/
theorem phaseInv_mono {ms : List Message} {ts : List (Option Task)}
    (hinbox : s'.inbox = s.inbox ++ ms) (htaskAt : s'.taskAt = s.taskAt ++ ts)
    (hstored : s'.stored = s.stored ∨ s'.stored = some s.inbox.length)
    (hdone : 0 < s'.net.analyzerReady.done →
      0 < s.net.analyzerReady.done ∨ s'.stored = some s.inbox.length)
    (h : s.PhaseInv p) : s'.PhaseInv p := by
  have hlen : s.inbox.length ≤ s'.inbox.length := by
    rw [hinbox, List.length_append]
    exact Nat.le_add_right _ _
  cases p with
  | waiting notice =>
    refine ⟨h.1.trans hlen, fun hpos => ?_⟩
    rcases hdone hpos with hbefore | hnew
    · exact answered_mono h.1 hstored (h.2 hbefore)
    · exact ⟨_, hnew, fun _ => h.1⟩
  | woken notice => exact ⟨h.1.trans hlen, answered_mono h.1 hstored h.2⟩
  | reinited notice => exact ⟨h.1.trans hlen, answered_mono h.1 hstored h.2⟩
  | returned value notice source =>
    obtain ⟨k, m, r, task, hsource, hm, htask, hrest⟩ := h
    refine ⟨k, m, r, task, hsource, ?_, ?_, hrest⟩
    · rw [hinbox, List.getElem?_append_left (List.getElem?_eq_some_iff.mp hm).1]
      exact hm
    · rw [htaskAt, List.getElem?_append_left (List.getElem?_eq_some_iff.mp htask).1]
      exact htask
  | _ => trivial

theorem setPhase (h : RendezvousInv s) {i : ℕ} (hp : s.PhaseInv p) :
    RendezvousInv (s.setPhase i p) where
  arrivals := h.arrivals
  stored := h.stored
  pending := h.pending
  phases j := by
    have hsame : ∀ q, s.PhaseInv q → (s.setPhase i p).PhaseInv q := fun q =>
      phaseInv_mono (s := s) (List.append_nil _).symm (List.append_nil _).symm (Or.inl rfl) Or.inl
    rw [World.setPhase_phase]
    split
    · exact hsame p hp
    · exact hsame _ (h.phases j)

theorem withTasks (h : RendezvousInv s) (tasks : Int32 → Option Task) (nextTask : Task)
    (registered : List Task) :
    RendezvousInv { s with tasks := tasks, nextTask := nextTask, registered := registered } :=
  ⟨h.arrivals, h.stored, h.pending, fun i =>
    phaseInv_mono (s := s) (List.append_nil _).symm (List.append_nil _).symm (Or.inl rfl) Or.inl
      (h.phases i)⟩

theorem withReady (h : RendezvousInv s) {ready : Completion}
    (hle : ready.done ≤ s.net.analyzerReady.done) :
    RendezvousInv { s with net := { s.net with analyzerReady := ready } } where
  arrivals := h.arrivals
  stored := h.stored
  pending hpos := h.pending (lt_of_lt_of_le hpos hle)
  phases i := phaseInv_mono (s := s) (List.append_nil _).symm (List.append_nil _).symm (Or.inl rfl)
    (fun hpos => Or.inl (lt_of_lt_of_le hpos hle)) (h.phases i)

theorem receive (h : RendezvousInv s) (m : Message) : RendezvousInv (s.receive m) := by
  have harrivals : (s.taskAt ++ [s.net.analyzerTask]).length = (s.inbox ++ [m]).length := by
    rw [List.length_append, List.length_append, h.arrivals, List.length_singleton,
      List.length_singleton]
  have hstored : ∀ k, s.stored = some k → ∃ m' r task, (s.inbox ++ [m])[k]? = some m' ∧
      (s.taskAt ++ [s.net.analyzerTask])[k]? = some (some task) ∧ m'.response = some r ∧
      s.net.analyzerResponse = lsmReceiveReply r := by
    intro k hk
    obtain ⟨m', r, task, hm', htask, hrest⟩ := h.stored k hk
    refine ⟨m', r, task, ?_, ?_, hrest⟩
    · rw [List.getElem?_append_left (List.getElem?_eq_some_iff.mp hm').1]
      exact hm'
    · rw [List.getElem?_append_left (List.getElem?_eq_some_iff.mp htask).1]
      exact htask
  obtain heq | ⟨r, task, -, -, -, heq⟩ | ⟨r, task, hresponse, htask, heq⟩ := s.receive_cases m
  · rw [heq]
    exact ⟨harrivals, hstored, h.pending,
      fun i => phaseInv_mono (s := s) rfl rfl (Or.inl rfl) Or.inl (h.phases i)⟩
  · rw [heq]
    exact ⟨harrivals, hstored, h.pending,
      fun i => phaseInv_mono (s := s) rfl rfl (Or.inl rfl) Or.inl (h.phases i)⟩
  · -- the message is the last one, and stands in `analyzer_response`
    rw [heq]
    refine ⟨harrivals, fun k hk => ?_, fun _ => ⟨_, rfl⟩, fun i =>
      phaseInv_mono (s := s) rfl rfl (Or.inr rfl) (fun _ => Or.inr rfl) (h.phases i)⟩
    obtain rfl := Option.some.inj hk
    refine ⟨m, r, task, List.getElem?_concat_length, ?_, hresponse, rfl⟩
    rw [← h.arrivals, ← htask]
    exact List.getElem?_concat_length

/-- **Every step keeps the rendezvous.** -/
theorem next (h : RendezvousInv s) (a : Act) : RendezvousInv (next s a) := by
  rcases next_cases s a with hstep | hsame
  · generalize Rendezvous.next s a = t at hstep ⊢
    cases hstep with
    | start hfree => exact h.withTasks _ _ _
    | exit => exact h.withTasks _ _ _
    | register htask hnew => exact (h.receive _).withTasks _ _ _
    | answer htask hknown => exact h.receive _
    | foreign => exact h.receive _
    | leave hidle hchecked => exact h.setPhase trivial
    | enter hidle hchecked => exact h.setPhase trivial
    | notify hphase =>
      refine h.setPhase ⟨le_refl _, fun hpos => ?_⟩
      obtain ⟨k, hk⟩ := h.pending hpos
      exact ⟨k, hk, fun hnone => absurd hnone hpos.ne'⟩
    | @wake i notice hphase hdone =>
      have hwaiting := h.phases i
      rw [hphase] at hwaiting
      exact (h.setPhase (p := .woken notice) ⟨hwaiting.1, hwaiting.2 hdone⟩).withReady
        (Nat.sub_le _ _)
    | @reinit i notice hphase =>
      have hwoken := h.phases i
      rw [hphase] at hwoken
      exact (h.setPhase (p := .reinited notice) hwoken).withReady (Nat.zero_le _)
    | @ret i notice hphase =>
      have hreinited := h.phases i
      rw [hphase] at hreinited
      obtain ⟨-, k, hk, hlate⟩ := hreinited
      obtain ⟨m, r, task, hm, htask, hresponse, hvalue⟩ := h.stored k hk
      refine h.setPhase ⟨k, m, r, task, hk, hm, htask, hresponse, ?_, hlate⟩
      rw [hvalue]
  · rw [hsame]
    exact h

end RendezvousInv

/-- **Where a verdict comes from.**  In every run, whatever hooks and processes do in between, the
value that a hook returns after waiting is the verdict of a reply that was received while an
analyzer was registered; and it was received after the NOTIFY of that hook, if no completion was
pending there. -/
theorem returned_verdict_is_reply (acts : List Act) {s : World}
    (hs : s ∈ states next .start acts) {i : ℕ} {value : Int32} {notice : Notice}
    {source : Option ℕ} (hphase : s.phase i = .returned value notice source) :
    s.VerdictOf value notice source := by
  have hinv := forall_states (I := RendezvousInv) (fun _ a h => h.next a) RendezvousInv.start acts
  have hreturned := (hinv s hs).phases i
  rw [hphase] at hreturned
  exact hreturned

/-- An analyzer registers, a hook sends its NOTIFY, and a reply with response 1 comes from
`sender`. -/
def oneReply (reply : Act) : List Act :=
  [.start 100, .register 100, .enter 0 sampleMmap, .notify 0 .ok, reply, .wake 0, .reinit 0, .ret 0]

/-- The analyzer answers, and the hook returns its verdict. -/
theorem oneReply_verdict :
    ((oneReply (.answer 100 (some 1))).foldl next .start).VerdictOf (-1) ⟨true, 1, 0⟩ (some 1) :=
  returned_verdict_is_reply _ (foldl_mem_states _ _) (i := 0) rfl

/-- The value is the verdict of a reply that the registered analyzer sent after the NOTIFY. -/
def World.OwnVerdict (s : World) (value : Int32) (notice : Notice) : Prop :=
  ∃ k m r task, notice.received ≤ k ∧ s.inbox[k]? = some m ∧ s.net.analyzerTask = some task ∧
    m.sender = .analyzer task ∧ m.response = some r ∧
    value = Netlink.verdict (lsmReceiveReply r)

/-- A hook starts only while no other one is active. -/
def OneAtATime (s : World) : Act → Prop
  | .enter _ _ => ∀ j, ¬ (s.phase j).Active
  | _ => True

/-- **Any process can give the verdict.**  The only hook of the run returns the response of a
process that is no analyzer. -/
theorem foreign_reply_is_verdict : ¬ ∀ acts,
    (∀ x ∈ trace next .start acts, OneAtATime x.1 x.2) →
      ∀ s ∈ states next .start acts, ∀ i value notice source,
        s.phase i = .returned value notice source → s.OwnVerdict value notice := by
  intro hall
  have halone : ∀ x ∈ trace next .start (oneReply (.foreign (some 1))), OneAtATime x.1 x.2 := by
    simp only [oneReply, trace, List.forall_mem_cons]
    exact ⟨trivial, trivial, fun _ => id, trivial, trivial, trivial, trivial, trivial, by simp⟩
  obtain ⟨k, m, r, task, hlate, hm, -, hsender, -⟩ :=
    hall _ halone _ (foldl_mem_states _ _) 0 (-1) ⟨true, 1, 0⟩ (some 1) rfl
  -- the only message after the NOTIFY is not from an analyzer
  have hinbox : ((oneReply (.foreign (some 1))).foldl next .start).inbox =
      [⟨.analyzer 0, some 100, true⟩, ⟨.other, some 1, false⟩] := rfl
  rw [hinbox] at hm
  have hk : k < 2 := (List.getElem?_eq_some_iff.mp hm).1
  obtain rfl : k = 1 := Nat.le_antisymm (Nat.lt_succ_iff.mp hk) hlate
  obtain rfl := Option.some.inj hm
  cases hsender

/-! ## Hooks that wait for nobody -/

/-- No hook is blocked: whoever waits while nothing is pending has reached a listener. -/
def NotBlocked (s : World) : Prop :=
  ∀ i notice, s.phase i = .waiting notice → s.net.analyzerReady.done = 0 → notice.delivered = true

/-- The act leaves no hook blocked.  A NOTIFY reaches a listener, or finds a completion pending; and
no completion is taken, or thrown away, that a hook without a listener needs to get on. -/
def LeavesNoneBlocked (s : World) : Act → Prop
  | .notify i o => ∀ info, s.phase i = .entered info →
      o.Delivers ∨ 0 < s.net.analyzerReady.done
  | .wake i => ∀ notice, s.phase i = .waiting notice → s.net.analyzerReady.done = 1 →
      ∀ j, j ≠ i → ∀ notice', s.phase j = .waiting notice' → notice'.delivered = true
  | .reinit i => ∀ notice, s.phase i = .woken notice →
      ∀ j notice', s.phase j = .waiting notice' → notice'.delivered = true
  | _ => True

namespace NotBlocked

variable {s : World}

theorem setPhase (h : NotBlocked s) {i : ℕ} {p : Phase}
    (hp : ∀ notice, p = .waiting notice → s.net.analyzerReady.done = 0 →
      notice.delivered = true) : NotBlocked (s.setPhase i p) := by
  intro j notice hphase hdone
  rw [World.setPhase_phase] at hphase
  split at hphase
  · exact hp notice hphase hdone
  · exact h j notice hphase hdone

theorem receive (h : NotBlocked s) (m : Message) : NotBlocked (s.receive m) := by
  obtain heq | ⟨r, task, -, -, -, heq⟩ | ⟨r, task, -, -, heq⟩ := s.receive_cases m
  · rw [heq]
    exact h
  · rw [heq]
    exact h
  · rw [heq]
    intro i notice _ hdone
    cases hdone

end NotBlocked

/-- **One act** leaves no hook blocked exactly when it meets the condition. -/
theorem notBlocked_decides :
    Decides next (fun _ => True) NotBlocked NotBlocked LeavesNoneBlocked where
  safe := id
  keeps {s a} h _ hC := by
    rcases next_cases s a with hstep | hsame
    · generalize next s a = t at hstep ⊢
      cases hstep with
      | start hfree => exact h
      | exit => exact h
      | register htask hnew => exact h.receive _
      | answer htask hknown => exact h.receive _
      | foreign => exact h.receive _
      | leave hidle hchecked => exact h.setPhase nofun
      | enter hidle hchecked => exact h.setPhase nofun
      | @notify i o info hphase =>
        refine h.setPhase fun notice heq hdone => ?_
        obtain rfl := Phase.waiting.inj heq
        rcases hC info hphase with hdelivers | hpending
        · exact (delivered_iff o info).mpr hdelivers
        · exact absurd hdone hpending.ne'
      | @wake i notice hphase hdone =>
        intro j notice' hphase' hnone
        have hwaits := World.setPhase_phase.symm.trans hphase'
        split at hwaits
        · cases hwaits
        · have hone : s.net.analyzerReady.done = 1 := by
            have hpred : s.net.analyzerReady.done - 1 = 0 := hnone
            omega
          exact hC notice hphase hone j ‹_› notice' hwaits
      | @reinit i notice hphase =>
        intro j notice' hphase' _
        have hwaits := World.setPhase_phase.symm.trans hphase'
        split at hwaits
        · cases hwaits
        · exact hC notice hphase j notice' hwaits
      | ret hphase => exact h.setPhase nofun
    · rw [hsame]
      exact h
  breaks {s a} h _ hC hP := by
    cases a with
    | notify i o =>
      simp only [LeavesNoneBlocked, not_forall, not_or] at hC
      obtain ⟨info, hphase, hlost, hnone⟩ := hC
      have hnext : next s (.notify i o) = s.setPhase i (.waiting
          ⟨delivered (lsmSendToUserspace o info), s.inbox.length, s.net.analyzerReady.done⟩) := by
        rw [next, hphase]
      rw [hnext] at hP
      have hdelivered := hP i _ (World.setPhase_phase.trans (if_pos rfl))
        (Nat.eq_zero_of_not_pos hnone)
      exact hlost ((delivered_iff o info).mp hdelivered)
    | wake i =>
      simp only [LeavesNoneBlocked, not_forall] at hC
      obtain ⟨notice, hphase, hone, j, hne, notice', hwaits, hlost⟩ := hC
      have hnext : next s (.wake i) = { s.setPhase i (.woken notice) with
          net := { s.net with analyzerReady := ⟨0⟩ } } := by
        rw [next, hphase, Completion.waitFor, hone]
        rfl
      rw [hnext] at hP
      refine hlost (hP j notice' ?_ rfl)
      exact World.setPhase_phase.trans ((if_neg hne).trans hwaits)
    | reinit i =>
      simp only [LeavesNoneBlocked, not_forall] at hC
      obtain ⟨notice, hphase, j, notice', hwaits, hlost⟩ := hC
      have hnext : next s (.reinit i) = { s.setPhase i (.reinited notice) with
          net := { s.net with analyzerReady := ⟨0⟩ } } := by
        rw [next, hphase]
        rfl
      have hne : j ≠ i := by
        rintro rfl
        rw [hphase] at hwaits
        cases hwaits
      rw [hnext] at hP
      refine hlost (hP j notice' ?_ rfl)
      exact World.setPhase_phase.trans ((if_neg hne).trans hwaits)
    | _ => exact hC trivial

/-- **A hook waits only for a reply that can come**, in every state of a run, exactly when every act
of the run leaves no hook blocked: the return value of `lsm_send_to_userspace` is not looked at, so
a NOTIFY that nobody gets is waited for like any other. -/
theorem notBlocked_iff (acts : List Act) :
    (∀ s ∈ states next .start acts, NotBlocked s) ↔
      ∀ x ∈ trace next .start acts, LeavesNoneBlocked x.1 x.2 :=
  notBlocked_decides.states_iff (fun i notice h => by cases h) fun _ _ => trivial

/-- **A hook waits for nobody.**  There is no memory for the NOTIFY, and the hook blocks. -/
theorem lost_notify_blocks : ¬ ∀ acts, ∀ s ∈ states next .start acts, NotBlocked s := by
  intro hall
  have hblocked := hall [.start 100, .register 100, .enter 0 sampleMmap,
    .notify 0 { NotifyOutcome.ok with genlmsgNew := false }] _ (foldl_mem_states _ _) 0
    ⟨false, 1, 0⟩ rfl rfl
  cases hblocked

end Rendezvous
end LsmFork
