import LsmFork.Protocol.NetlinkReplies

/-!
# The verdicts of the netlink mode

As long as hooks run one after another and do not abandon their threads, the value that a hook
returns is the outcome of the dump of its own memory.  That memory is there when the analyzer reads
it, unless `vm_mmap` has failed: its error is not 0, so the hook sends it as an address.  Then the
analyzer dies, and the hook waits for ever, as it does when its NOTIFY or the reply gets lost.

* `netlink_verdicts`: where the values of the hooks come from.
* `netlink_alive_iff`: what kills the analyzer.
* `Hangs`, `Stuck`: a hook that waits for nothing, and a system that has come to its end.
* `netlink_completes_iff`: when every hook returns.
-/

namespace LsmFork
namespace NetlinkLoop

open Runs Analyzer
open Handshake (HookAt HookOutcome Kind isMapped)

variable {subject : ℕ → Subject} {s : World} {i : ℕ}

/-! ## The values of the hooks -/

/-- The only hook of a run does not overlap with others, and abandons no thread if everything
succeeds in it. -/
theorem orderly_of_cons {kind : Kind} {as : List Act}
    (h : ∀ a ∈ as, a.toHandshake.IsEnter = false ∧ a.toHandshake.Succeeds = true) :
    ∀ x ∈ trace (NetlinkLoop.next subject) start (.enter i kind :: as), Orderly x.1 x.2 := by
  rw [trace, List.forall_mem_cons]
  refine ⟨⟨fun j hj => hj.1 rfl, trivial⟩, fun x hx => ?_⟩
  obtain ⟨henter, hsucceeds⟩ := forall_trace_act_iff.mpr h x hx
  exact ⟨.of_isEnter henter, .of_succeeds hsucceeds⟩

/-- Two bytes at 4096. -/
def sampleSubject : Subject :=
  ⟨⟨zeroChars _, zeroChars _, zeroChars _, 0, 4096, 0, 2, 7, 0⟩, [1, 2], rfl⟩

/-- A dump of the two bytes that is written in full. -/
def sampleDump : DumpOutcome := ⟨true, none, 2, 28, 2⟩

/-- A hook from its start to its end, with its thread and the analyzer. -/
def sampleRest : List Act :=
  [.hook 0 .ok true, .hook 0 .ok true, .thread 0 .ok, .thread 0 .ok, .thread 0 .ok, .thread 0 .ok,
    .hook 0 .ok true, .hook 0 .ok true, .hook 0 .ok true, .analyze sampleDump true,
    .hook 0 .ok true, .thread 0 .ok, .hook 0 .ok true, .hook 0 .ok true, .hook 0 .ok true,
    .thread 0 .ok, .thread 0 .ok, .thread 0 .ok, .thread 0 .ok, .hook 0 .ok true,
    .hook 0 .ok true]

/-- The analyzer does not take a NOTIFY of a failed `vm_mmap`, and has memory for what it takes. -/
def Survives (s : World) : Act → Prop
  | .analyze o _ => ∀ x ∈ s.queue.head?, isMapped x.2 = true ∧ o.malloc = true
  | _ => True

/-- The analyzer is alive after a step that it survives, and after no other. -/
theorem Inv.alive_next_iff (h : Inv subject s) (halive : s.alive = true) (a : Act) :
    (NetlinkLoop.next subject s a).alive = true ↔ Survives s a := by
  cases a with
  | enter i kind => exact iff_of_true halive trivial
  | hook i o delivered => exact iff_of_true (hook_alive.trans halive) trivial
  | thread i o => exact iff_of_true halive trivial
  | analyze o replied =>
    rw [NetlinkLoop.next, Survives]
    obtain ⟨heq, hqueue⟩ | ⟨i, -, -, hqueue, -, -, heq⟩ := h.analyze_cases o replied
    · rw [heq, hqueue halive]
      exact iff_of_true halive fun x hx => by cases hx
    · rw [heq, hqueue]
      split
      · rename_i hdumps
        refine iff_of_true halive fun x hx => ?_
        cases hx
        exact hdumps
      · rename_i hdies
        exact iff_of_false Bool.false_ne_true fun hboth => hdies (hboth _ rfl)

/-- **What kills the analyzer.**  In a run of hooks that do not overlap and abandon no thread, with
any interleaving, the memory of a NOTIFY is there whenever the analyzer takes it, unless `vm_mmap`
has failed: the analyzer is alive in every state exactly when it never takes the NOTIFY of a hook
whose `vm_mmap` has returned an error, and its own `malloc` never fails. -/
theorem netlink_alive_iff (subject : ℕ → Subject) (as : List Act)
    (horderly : ∀ x ∈ trace (next subject) start as, Orderly x.1 x.2) :
    (∀ s ∈ states (next subject) start as, s.alive = true) ↔
      ∀ x ∈ trace (next subject) start as, Survives x.1 x.2 :=
  states_iff_of_trace (I := fun s => Inv subject s ∧ s.alive = true) (fun _ h => h.2)
    (fun _ a h horderly hsurvives =>
      ⟨h.1.next horderly, (h.1.alive_next_iff h.2 a).mpr hsurvives⟩)
    (fun _ a h _ hdies halive => hdies ((h.1.alive_next_iff h.2 a).mp halive))
    ⟨inv_start subject, rfl⟩ horderly

theorem netlink_alive_iff_of_sample :
    (∀ s ∈ states (next fun _ => sampleSubject) start (.enter 0 .mmap :: sampleRest),
      s.alive = true) ↔
      ∀ x ∈ trace (next fun _ => sampleSubject) start (.enter 0 .mmap :: sampleRest),
        Survives x.1 x.2 :=
  netlink_alive_iff (fun _ => sampleSubject) (.enter 0 .mmap :: sampleRest)
    (orderly_of_cons (by decide))

/-! ## Hooks that hang -/

/-- A hook waits, and nothing is on its way. -/
def Hangs (s : World) : Prop := ∃ i, (s.hooks.inv i).hook = .waitReady ∧ Quiet s

/-- Nothing gets lost in the step, and the analyzer survives it. -/
def Delivers (s : World) : Act → Prop
  | .hook i _ delivered => (s.hooks.inv i).hook = .sendToUserspace → delivered = true
  | .analyze o replied =>
    s.alive = true → ∀ x ∈ s.queue.head?, isMapped x.2 = true ∧ o.malloc = true ∧ replied = true
  | _ => True

/-- No hook and no thread can go on, and the analyzer has nothing to take. -/
structure Stuck (s : World) : Prop where
  hook : ∀ i o, Handshake.step s.hooks (.hook i o) = none
  thread : ∀ i o, Handshake.step s.hooks (.thread i o) = none
  analyzer : s.alive = true → s.queue = []

theorem Inv.hookStep_of_hangs (h : Inv subject s) (hhangs : Hangs s) (j : ℕ) (o : HookOutcome) :
    Handshake.hookStep o s.hooks.globals (s.hooks.inv j) = none := by
  obtain ⟨i, hwaits, -, hzero⟩ := hhangs
  cases hstep : Handshake.hookStep o s.hooks.globals (s.hooks.inv j) with
  | none => rfl
  | some done =>
    obtain rfl := h.hooks.one i j (active_of_waitReady hwaits) (Handshake.active_of_hookStep hstep)
    rw [Handshake.hookStep, hwaits] at hstep
    obtain ⟨c, hc, -⟩ := Option.map_eq_some_iff.mp hstep
    have hpos := Handshake.Completion.waitFor_eq_some hc
    omega

/-- **A hook that hangs hangs for ever.** -/
theorem Inv.hangs_next (h : Inv subject s) {a : Act} (horderly : Orderly s a) (hhangs : Hangs s) :
    Hangs (NetlinkLoop.next subject s a) := by
  cases a with
  | enter j kind =>
    obtain ⟨i, hwaits, -⟩ := hhangs
    exact absurd (active_of_waitReady hwaits) (horderly.1 i)
  | hook j o delivered =>
    rw [NetlinkLoop.next, hook_of_stuck (h.hookStep_of_hangs hhangs j o)]
    exact hhangs
  | thread j o =>
    obtain ⟨i, hwaits, hqueue, hzero⟩ := hhangs
    obtain ⟨hhook, hready⟩ := Handshake.next_thread_frame s.hooks j o
    exact ⟨i, (hhook i).trans hwaits, hqueue, (congrArg Completion.done hready).trans hzero⟩
  | analyze o replied =>
    rw [NetlinkLoop.next, analyze_of_idle (Or.inr hhangs.choose_spec.2.1)]
    exact hhangs

/-- The system as long as nothing gets lost. -/
structure Live (subject : ℕ → Subject) (s : World) : Prop where
  inv : Inv subject s
  alive : s.alive = true
  not_hangs : ¬ Hangs s

theorem live_start (subject : ℕ → Subject) : Live subject start where
  inv := inv_start subject
  alive := rfl
  not_hangs := by
    rintro ⟨i, hwaits, -⟩
    cases hwaits

/-- **As long as nothing gets lost** the analyzer is alive and no hook hangs. -/
theorem Live.next (h : Live subject s) {a : Act} (horderly : Orderly s a)
    (hdelivers : Delivers s a) : Live subject (NetlinkLoop.next subject s a) := by
  have hinv := h.inv.next horderly
  cases a with
  | enter i kind =>
    refine ⟨hinv, h.alive, fun ⟨j, hwaits, _⟩ => ?_⟩
    exact horderly.1 j (active_of_waitReady (Handshake.waitReady_of_enter hwaits))
  | hook i o delivered =>
    refine ⟨hinv, hook_alive.trans h.alive, ?_⟩
    rw [NetlinkLoop.next]
    cases hstep : Handshake.hookStep o s.hooks.globals (s.hooks.inv i) with
    | none =>
      rw [hook_of_stuck hstep]
      exact h.not_hangs
    | some done =>
      rintro ⟨j, hwaits, hqueue, -⟩
      rw [hook_hooks, next_hook_eq_set hstep] at hwaits
      by_cases hij : j = i
      · rw [hij, Handshake.World.set_same] at hwaits
        have hphase := phase_eq_waiting_iff.mpr hwaits
        -- only a NOTIFY makes a hook wait
        obtain ⟨-, -, -, -, hother⟩ | ⟨hsend, -⟩ | ⟨-, hafter, -⟩ | ⟨-, hafter | hleft, -⟩ :=
          phase_of_hookStep horderly.2 hstep
        · exact hother hphase
        · rw [hook_queue, if_pos ⟨hsend, hdelivers hsend⟩] at hqueue
          exact List.append_ne_nil_of_right_ne_nil _ (List.cons_ne_nil _ _) hqueue
        · exact absurd (hafter.symm.trans hphase) (by decide)
        · exact absurd (hafter.symm.trans hphase) (by decide)
        · exact absurd (hleft.symm.trans hphase) (by decide)
      · rw [Handshake.World.set_of_ne s.hooks hij] at hwaits
        exact hij (h.inv.hooks.one j i (active_of_waitReady hwaits)
          (Handshake.active_of_hookStep hstep))
  | thread i o =>
    obtain ⟨hhook, hready⟩ := Handshake.next_thread_frame s.hooks i o
    refine ⟨hinv, h.alive, fun ⟨j, hwaits, hqueue, hzero⟩ => h.not_hangs ⟨j, ?_, hqueue, ?_⟩⟩
    · exact (hhook j).symm.trans hwaits
    · exact (congrArg Completion.done hready).symm.trans hzero
  | analyze o replied =>
    rw [NetlinkLoop.next] at hinv ⊢
    obtain ⟨heq, -⟩ | ⟨i, -, -, hqueue, hzero, -, heq⟩ := h.inv.analyze_cases o replied
    · rw [heq]
      exact h
    · obtain ⟨hmapped, hmalloc, hreplied⟩ := hdelivers h.alive
        (i, (s.hooks.inv i).data.address) (by rw [hqueue]; rfl)
      rw [heq, if_pos ⟨hmapped, hmalloc⟩, hreplied] at hinv ⊢
      exact ⟨hinv, h.alive, fun ⟨_, _, _, hdone⟩ => Nat.succ_ne_zero _ hdone⟩

/-- **What gets lost** leaves a hook that hangs. -/
theorem Inv.hangs_of_not_delivers (h : Inv subject s) {a : Act} (hlost : ¬ Delivers s a) :
    Hangs (NetlinkLoop.next subject s a) := by
  cases a with
  | enter i kind => exact absurd trivial hlost
  | thread i o => exact absurd trivial hlost
  | hook i o delivered =>
    obtain ⟨hsend, hfails⟩ := Classical.not_imp.mp hlost
    have hstep : Handshake.hookStep o s.hooks.globals (s.hooks.inv i) =
        some (s.hooks.globals, { s.hooks.inv i with hook := .waitReady }) := by
      rw [Handshake.hookStep, hsend]
    have hown := h.fits i
    rw [Fits, hsend] at hown
    obtain ⟨-, -, hqueue, hzero⟩ := hown
    refine ⟨i, ?_, ?_, ?_⟩
    · rw [NetlinkLoop.next, hook_hooks, next_hook_eq_set hstep, Handshake.World.set_same]
    · rw [NetlinkLoop.next, hook_queue, if_neg fun hboth => hfails hboth.2]
      exact hqueue
    · rw [NetlinkLoop.next, hook_hooks, next_hook_eq_set hstep]
      exact hzero
  | analyze o replied =>
    rw [NetlinkLoop.next]
    obtain ⟨halive, hfails⟩ := Classical.not_imp.mp hlost
    obtain ⟨heq, hqueue⟩ | ⟨i, hwaits, hnotified, hqueue, hzero, -, heq⟩ :=
      h.analyze_cases o replied
    · rw [hqueue halive] at hfails
      exact absurd (fun x hx => by cases hx) hfails
    · rw [heq]
      split
      · rename_i hdumps
        cases replied with
        | false => exact ⟨i, hwaits, rfl, hzero⟩
        | true =>
          refine absurd (fun x hx => ?_) hfails
          rw [hqueue] at hx
          cases hx
          exact ⟨hdumps.1, hdumps.2, rfl⟩
      · exact ⟨i, hwaits, rfl, hzero⟩

/-- Where nobody can go on and nothing has got lost, every hook that has started has returned. -/
theorem Live.returned_of_stuck (h : Live subject s) (hstuck : Stuck s) (i : ℕ) :
    (s.hooks.inv i).hook = .idle ∨ ∃ value, s.returned i = some value := by
  have hown := h.inv.fits i
  unfold Fits at hown
  rcases (h.inv.hooks.fits i).stuck (fun o => Option.map_eq_none_iff.mp (hstuck.hook i o))
    (fun o => Option.map_eq_none_iff.mp (hstuck.thread i o)) with hidle | hleft | ⟨hwaits, -, hzero⟩
  · exact Or.inl hidle
  · rw [hleft] at hown
    exact Or.inr (Option.isSome_iff_exists.mp hown)
  · rw [hwaits] at hown
    cases hown.2 with
    | lost hlost => exact absurd ⟨i, hwaits, hlost⟩ h.not_hangs
    | notify hqueue _ _ =>
      rw [hstuck.analyzer h.alive] at hqueue
      cases hqueue
    | reply _ hone _ =>
      rw [hzero] at hone
      cases hone

/-- **A hook hangs exactly when something gets lost.** -/
theorem not_hangs_iff (subject : ℕ → Subject) {as : List Act}
    (horderly : ∀ x ∈ trace (next subject) start as, Orderly x.1 x.2) :
    (∀ s ∈ states (next subject) start as, ¬ Hangs s) ↔
      ∀ x ∈ trace (next subject) start as, Delivers x.1 x.2 :=
  states_iff_of_trace (I := Live subject) (fun _ h => h.not_hangs)
    (fun _ _ h horderly hdelivers => h.next horderly hdelivers)
    (fun _ _ h _ hlost hno => hno (h.inv.hangs_of_not_delivers hlost)) (live_start subject)
    horderly

/-- **The hooks all return exactly when nothing gets lost.**  In a run of hooks that do not overlap
and abandon no thread, with any interleaving, that goes on until nobody can: every hook that has
started has returned exactly when every NOTIFY has been delivered, and the analyzer has survived and
answered every one that it has taken.  Otherwise a hook waits for ever. -/
theorem netlink_completes_iff (subject : ℕ → Subject) (as : List Act)
    (horderly : ∀ x ∈ trace (next subject) start as, Orderly x.1 x.2)
    (hstuck : Stuck (as.foldl (next subject) start)) :
    (∀ i, ((as.foldl (next subject) start).hooks.inv i).hook = .idle ∨
        ∃ value, (as.foldl (next subject) start).returned i = some value) ↔
      ∀ x ∈ trace (next subject) start as, Delivers x.1 x.2 := by
  constructor
  · intro hreturned
    rw [← not_hangs_iff subject horderly]
    intro t ht hhangs
    have hinv : ∀ s ∈ states (next subject) start as, Inv subject s :=
      forall_states_of_trace (fun _ _ h horderly => h.next horderly) (inv_start subject) horderly
    obtain ⟨hend, i, hwaits, -⟩ := foldl_of_mem_states (P := fun s => Inv subject s ∧ Hangs s)
      (fun _ _ h horderly => ⟨h.1.next horderly, h.1.hangs_next horderly h.2⟩) horderly ht
      ⟨hinv t ht, hhangs⟩
    rcases hreturned i with hidle | ⟨value, hvalue⟩
    · exact absurd (hwaits.symm.trans hidle) (by decide)
    · exact absurd (hwaits.symm.trans (hend.returned i value hvalue).1) (by decide)
  · intro hdelivers
    exact (forall_states_of_trace (I := Live subject)
      (C := fun s a => Orderly s a ∧ Delivers s a) (fun _ _ h hC => h.next hC.1 hC.2)
      (live_start subject) (fun x hx => ⟨horderly x hx, hdelivers x hx⟩) _
      (foldl_mem_states _ _)).returned_of_stuck hstuck

theorem netlink_completes_iff_of_sample :
    (∀ i, (((.enter 0 .mmap :: sampleRest).foldl (next fun _ => sampleSubject) start).hooks.inv
          i).hook = .idle ∨
        ∃ value, ((.enter 0 .mmap :: sampleRest).foldl (next fun _ => sampleSubject)
          start).returned i = some value) ↔
      ∀ x ∈ trace (next fun _ => sampleSubject) start (.enter 0 .mmap :: sampleRest),
        Delivers x.1 x.2 := by
  refine netlink_completes_iff (fun _ => sampleSubject) (.enter 0 .mmap :: sampleRest)
    (orderly_of_cons (by decide)) ⟨?_, ?_, fun _ => rfl⟩
  · intro i o
    rcases i with - | i <;> rfl
  · intro i o
    rcases i with - | i <;> rfl

end NetlinkLoop
end LsmFork
