import LsmFork.Protocol.Rendezvous

/-!
# The registered analyzer

The first REPLY makes the process whose pid it carries the analyzer, and every later one is a
verdict, the first message of another analyzer included.  `analyzer_task` is never reset and holds
no reference to the task, so it outlives the analyzer.  This file takes the runs of hooks and
analyzers, without messages of other processes, and says in which of them the registration stays
sound: those in which the registered analyzer does not exit, and no other one registers after it.

* `RegistrationSound`: the pointer is null, or the last analyzer, and no pid is taken for a verdict.
* `KeepsRegistration`: the acts that leave it so.
* `registrationSound_iff`: the acts decide it, in every run.
-/

namespace LsmFork
namespace Rendezvous

open Runs

namespace World

/-- A process of this task runs. -/
def Running (s : World) (task : Task) : Prop := ∃ pid, s.tasks pid = some task

/-- The task is that of an analyzer that runs, and was the last to register. -/
def AnalyzerAlive (s : World) : Prop :=
  ∀ task, s.net.analyzerTask = some task → s.Running task ∧ s.registered.head? = some task

/-- No returned verdict is that of a registration message. -/
def NoPidVerdict (s : World) : Prop :=
  ∀ i value notice k m, s.phase i = .returned value notice (some k) → s.inbox[k]? = some m →
    m.isRegistration = false

end World

/-- **The registration is sound.** -/
structure RegistrationSound (s : World) : Prop where
  alive : s.AnalyzerAlive
  verdicts : s.NoPidVerdict

/-- The act is one of a hook or of an analyzer. -/
def Act.IsLocal : Act → Prop
  | .foreign _ => False
  | _ => True

/-- The act leaves the registration sound: the process that exits is not the registered analyzer,
and an analyzer registers only if none is registered. -/
def KeepsRegistration (s : World) : Act → Prop
  | .exit pid => ∀ task, s.tasks pid = some task → s.net.analyzerTask ≠ some task
  | .register pid => ∀ task, s.tasks pid = some task → task ∉ s.registered →
      s.net.analyzerTask = none
  | _ => True

/-- What holds as long as the registration is sound. -/
structure RegistrationInv (s : World) : Prop where
  rendezvous : RendezvousInv s
  sound : RegistrationSound s
  unregistered : s.net.analyzerTask = none → s.registered = []
  stored : ∀ k m, s.stored = some k → s.inbox[k]? = some m → m.isRegistration = false
  tasks_lt : ∀ pid task, s.tasks pid = some task → task < s.nextTask
  tasks_inj : ∀ pid pid' task, s.tasks pid = some task → s.tasks pid' = some task → pid = pid'

namespace World

variable {s : World} {m : Message} {task : Task}

theorem receive_of_none {r : Int32} (hnone : s.net.analyzerTask = none)
    (hresponse : m.response = some r) (htask : s.tasks r = some task) :
    s.receive m =
      { s with
        net := { s.net with analyzerTask := some task }
        inbox := s.inbox ++ [m]
        taskAt := s.taskAt ++ [none] } := by
  simp [receive, Netlink.receiveReply, hresponse, hnone, htask]

/-- Once an analyzer is registered, it stays registered. -/
theorem receive_analyzerTask (hsome : s.net.analyzerTask = some task) :
    (s.receive m).net.analyzerTask = some task := by
  obtain heq | ⟨r, task', -, hnone, -, -⟩ | ⟨r, task', -, -, heq⟩ := s.receive_cases m
  · rw [heq]
    exact hsome
  · rw [hsome] at hnone
    cases hnone
  · rw [heq]
    exact hsome

end World

namespace RegistrationInv

variable {s : World}

theorem start : RegistrationInv .start where
  rendezvous := .start
  sound := ⟨fun task h => (by cases h), fun i value notice k m h => (by cases h)⟩
  unregistered _ := rfl
  stored k m h := by cases h
  tasks_lt pid task h := by cases h
  tasks_inj pid pid' task h := by cases h

theorem mem_registered (h : RegistrationInv s) {task : Task}
    (htask : s.net.analyzerTask = some task) : task ∈ s.registered :=
  List.mem_of_mem_head? (h.sound.alive task htask).2

/-- A hook gets to another phase, and may take from the completion; a verdict that it returns is
that of the stored reply. -/
theorem move (h : RegistrationInv s) {i : ℕ} {p : Phase} {c : Completion}
    (hr : RendezvousInv { s.setPhase i p with net := { s.net with analyzerReady := c } })
    (hsource : ∀ value notice source, p = .returned value notice source → source = s.stored) :
    RegistrationInv { s.setPhase i p with net := { s.net with analyzerReady := c } } where
  rendezvous := hr
  sound := by
    refine ⟨h.sound.alive, fun j value notice k m hphase hm => ?_⟩
    have hmoved := World.setPhase_phase.symm.trans hphase
    split at hmoved
    · exact h.stored k m (hsource _ _ _ hmoved).symm hm
    · exact h.sound.verdicts j value notice k m hmoved hm
  unregistered := h.unregistered
  stored := h.stored
  tasks_lt := h.tasks_lt
  tasks_inj := h.tasks_inj

/-- A process starts, or one exits that is not the registered analyzer. -/
theorem withTasks (h : RegistrationInv s) {tasks : Int32 → Option Task} {nextTask : Task}
    (halive : ∀ task, s.net.analyzerTask = some task → s.Running task →
      ∃ pid, tasks pid = some task)
    (hlt : ∀ pid task, tasks pid = some task → task < nextTask)
    (hinj : ∀ pid pid' task, tasks pid = some task → tasks pid' = some task → pid = pid') :
    RegistrationInv { s with tasks := tasks, nextTask := nextTask } where
  rendezvous := h.rendezvous.withTasks _ _ _
  sound := ⟨fun task htask => ⟨halive task htask (h.sound.alive task htask).1,
    (h.sound.alive task htask).2⟩, h.sound.verdicts⟩
  unregistered := h.unregistered
  stored := h.stored
  tasks_lt := hlt
  tasks_inj := hinj

theorem start_task (h : RegistrationInv s) {pid : Int32} (hfree : s.tasks pid = none) :
    RegistrationInv { s with
      tasks := Function.update s.tasks pid (some s.nextTask), nextTask := s.nextTask + 1 } := by
  refine h.withTasks (fun task _ hruns => ?_) (fun pid' task' h' => ?_)
    (fun pid' pid'' task' h' h'' => ?_)
  · obtain ⟨pid', hpid'⟩ := hruns
    have hne : pid' ≠ pid := by
      rintro rfl
      rw [hfree] at hpid'
      cases hpid'
    exact ⟨pid', by rw [Function.update_of_ne hne, hpid']⟩
  · rw [Function.update_apply] at h'
    split at h'
    · rw [← Option.some.inj h']
      exact Nat.lt_succ_self _
    · exact Nat.lt_succ_of_lt (h.tasks_lt pid' task' h')
  · have hold : ∀ q, s.tasks q ≠ some s.nextTask := fun q hq =>
      absurd (h.tasks_lt q _ hq) (Nat.lt_irrefl _)
    rw [Function.update_apply] at h' h''
    split at h' <;> split at h''
    · rw [‹pid' = pid›, ‹pid'' = pid›]
    · rw [← h'] at h''
      exact absurd h'' (hold pid'')
    · rw [← h''] at h'
      exact absurd h' (hold pid')
    · exact h.tasks_inj pid' pid'' task' h' h''

theorem exit_task (h : RegistrationInv s) {pid : Int32}
    (hother : ∀ task, s.tasks pid = some task → s.net.analyzerTask ≠ some task) :
    RegistrationInv { s with tasks := Function.update s.tasks pid none } := by
  have hleft : ∀ pid' task', Function.update s.tasks pid none pid' = some task' →
      s.tasks pid' = some task' := by
    intro pid' task' h'
    rw [Function.update_apply] at h'
    split at h'
    · cases h'
    · exact h'
  refine h.withTasks (fun task htask hruns => ?_) (fun pid' task' h' => ?_)
    (fun pid' pid'' task' h' h'' => ?_)
  · obtain ⟨pid', hpid'⟩ := hruns
    have hne : pid' ≠ pid := by
      rintro rfl
      exact hother task hpid' htask
    exact ⟨pid', by rw [Function.update_of_ne hne, hpid']⟩
  · exact h.tasks_lt pid' task' (hleft pid' task' h')
  · exact h.tasks_inj pid' pid'' task' (hleft _ _ h') (hleft _ _ h'')

/-- The replies behind returned verdicts are still the same after another message. -/
theorem noPidVerdict_concat (h : RegistrationInv s) (m : Message) {i : ℕ} {value : Int32}
    {notice : Notice} {k : ℕ} {m' : Message} (hphase : s.phase i = .returned value notice (some k))
    (hm' : (s.inbox ++ [m])[k]? = some m') : m'.isRegistration = false := by
  have hreturned := h.rendezvous.phases i
  rw [hphase] at hreturned
  obtain ⟨k', m'', r, task, hk, hm'', -⟩ := hreturned
  obtain rfl := Option.some.inj hk
  rw [List.getElem?_append_left (List.getElem?_eq_some_iff.mp hm'').1] at hm'
  exact h.sound.verdicts i value notice k m' hphase hm'

theorem stored_concat (h : RegistrationInv s) (m : Message) {k : ℕ} {m' : Message}
    (hk : s.stored = some k) (hm' : (s.inbox ++ [m])[k]? = some m') :
    m'.isRegistration = false := by
  obtain ⟨m'', r, task, hm'', -⟩ := h.rendezvous.stored k hk
  rw [List.getElem?_append_left (List.getElem?_eq_some_iff.mp hm'').1] at hm'
  exact h.stored k m' hk hm'

theorem register (h : RegistrationInv s) {pid : Int32} {task : Task}
    (htask : s.tasks pid = some task) (hnone : s.net.analyzerTask = none) :
    RegistrationInv { s.receive ⟨.analyzer task, some pid, true⟩ with
      registered := task :: s.registered } := by
  have hrendezvous := (h.rendezvous.receive ⟨.analyzer task, some pid, true⟩).withTasks
    s.tasks s.nextTask (task :: s.registered)
  rw [World.receive_of_none hnone rfl htask] at hrendezvous ⊢
  exact
    { rendezvous := hrendezvous
      sound := ⟨fun task' h' => Option.some.inj h' ▸ ⟨⟨pid, htask⟩, rfl⟩,
        fun i value notice k m hphase hm => h.noPidVerdict_concat _ hphase hm⟩
      unregistered := fun h' => by cases h'
      stored := fun k m hk hm => h.stored_concat _ hk hm
      tasks_lt := h.tasks_lt
      tasks_inj := h.tasks_inj }

theorem answer (h : RegistrationInv s) {task : Task} {response : Option Int32}
    (hknown : task ∈ s.registered) :
    RegistrationInv (s.receive ⟨.analyzer task, response, false⟩) := by
  have hrendezvous := h.rendezvous.receive ⟨.analyzer task, response, false⟩
  obtain heq | ⟨r, task', -, hnone, -, -⟩ | ⟨r, task', -, hsome, heq⟩ :=
    s.receive_cases ⟨.analyzer task, response, false⟩
  · rw [heq] at hrendezvous ⊢
    exact
      { rendezvous := hrendezvous
        sound := ⟨h.sound.alive, fun i value notice k m hphase hm =>
          h.noPidVerdict_concat _ hphase hm⟩
        unregistered := h.unregistered
        stored := fun k m hk hm => h.stored_concat _ hk hm
        tasks_lt := h.tasks_lt
        tasks_inj := h.tasks_inj }
  · -- somebody has registered, so there is a task
    rw [h.unregistered hnone] at hknown
    cases hknown
  · rw [heq] at hrendezvous ⊢
    refine
      { rendezvous := hrendezvous
        sound := ⟨h.sound.alive, fun i value notice k m hphase hm =>
          h.noPidVerdict_concat _ hphase hm⟩
        unregistered := h.unregistered
        stored := fun k m hk hm => ?_
        tasks_lt := h.tasks_lt
        tasks_inj := h.tasks_inj }
    obtain rfl := Option.some.inj hk
    obtain rfl := Option.some.inj (List.getElem?_concat_length.symm.trans hm)
    rfl

end RegistrationInv

/-- **One act** keeps the registration sound exactly when it meets the condition. -/
theorem registration_decides :
    Decides next Act.IsLocal RegistrationInv RegistrationSound KeepsRegistration where
  safe h := h.sound
  keeps {s a} h hlocal hC := by
    have hr := h.rendezvous.next a
    rcases next_cases s a with hstep | hsame
    · generalize next s a = t at hstep hr ⊢
      cases hstep with
      | start hfree => exact h.start_task hfree
      | exit => exact h.exit_task hC
      | @register pid task htask hnew => exact h.register htask (hC task htask hnew)
      | answer htask hknown => exact h.answer hknown
      | foreign => cases hlocal
      | leave hidle hchecked => exact h.move (c := s.net.analyzerReady) hr nofun
      | enter hidle hchecked => exact h.move (c := s.net.analyzerReady) hr nofun
      | notify hphase => exact h.move (c := s.net.analyzerReady) hr nofun
      | wake hphase hdone => exact h.move hr nofun
      | reinit hphase => exact h.move hr nofun
      | ret hphase =>
        refine h.move (c := s.net.analyzerReady) hr fun value notice source heq => ?_
        exact (Phase.returned.inj heq).2.2.symm
    · rw [hsame]
      exact h
  breaks {s a} h _ hC hP := by
    cases a with
    | exit pid =>
      simp only [KeepsRegistration, not_forall, not_not] at hC
      obtain ⟨task, htask, hregistered⟩ := hC
      obtain ⟨pid', hpid'⟩ := (hP.alive task hregistered).1
      have hpid : Function.update s.tasks pid none pid' = some task := hpid'
      rw [Function.update_apply] at hpid
      split at hpid
      · cases hpid
      · exact absurd (h.tasks_inj pid' pid task hpid htask) ‹_›
    | register pid =>
      simp only [KeepsRegistration, not_forall] at hC
      obtain ⟨task, htask, hnew, hsome⟩ := hC
      obtain ⟨first, hfirst⟩ := Option.ne_none_iff_exists'.mp hsome
      have hnext : next s (.register pid) =
          { s.receive ⟨.analyzer task, some pid, true⟩ with
            registered := task :: s.registered } := by
        rw [next, htask]
        exact if_neg hnew
      rw [hnext] at hP
      -- the pointer stays with the first analyzer, and the last one is another
      have hlast := (hP.alive first (World.receive_analyzerTask hfirst)).2
      obtain rfl := Option.some.inj hlast
      exact hnew (h.mem_registered hfirst)
    | _ => exact hC trivial

/-- **The registration survives restarts** of hooks and analyzers, in every state of a run, exactly
when the registered analyzer never exits and no analyzer registers while there is one. -/
theorem registrationSound_iff (acts : List Act) (hlocal : ∀ a ∈ acts, a.IsLocal) :
    (∀ s ∈ states next .start acts, RegistrationSound s) ↔
      ∀ x ∈ trace next .start acts, KeepsRegistration x.1 x.2 :=
  registration_decides.states_iff .start hlocal

/-- An analyzer starts, registers, answers a hook, and exits. -/
def oneAnalyzer : List Act := oneReply (.answer 100 (some 1)) ++ [.exit 100]

/-- What decides the run of one analyzer. -/
theorem oneAnalyzer_registrationSound_iff :
    (∀ s ∈ states next .start oneAnalyzer, RegistrationSound s) ↔
      ∀ x ∈ trace next .start oneAnalyzer, KeepsRegistration x.1 x.2 :=
  registrationSound_iff oneAnalyzer (by simp [oneAnalyzer, oneReply, Act.IsLocal])

/-- **The pointer outlives the analyzer.** -/
theorem oneAnalyzer_not_sound : ¬ ∀ acts : List Act, (∀ a ∈ acts, a.IsLocal) →
    ∀ s ∈ states next .start acts, RegistrationSound s := by
  intro hall
  have hsound := hall oneAnalyzer (by simp [oneAnalyzer, oneReply, Act.IsLocal]) _
    (foldl_mem_states _ _)
  obtain ⟨pid, hpid⟩ := (hsound.alive 0 rfl).1
  -- nobody runs any more
  have htasks : (oneAnalyzer.foldl next .start).tasks =
      Function.update (Function.update (fun _ => none) 100 (some 0)) 100 none := rfl
  rw [htasks, Function.update_idem, Function.update_apply] at hpid
  split at hpid <;> cases hpid

end Rendezvous
end LsmFork
