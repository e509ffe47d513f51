import LsmFork.Protocol.NetlinkLoop

/-!
# Between a hook and the analyzer

As long as hooks run one after another and do not abandon their threads, one message at most is on
its way: the NOTIFY of the hook that waits, or the reply to it.  So what a hook reads in
`analyzer_response` is the answer to its own NOTIFY.

* `Quiet`, `Waits`: what is on its way.
* `Fits`, `Inv`: the invariant, by the phase of each hook.
* `Inv.move`: the one active hook moves.
* `Inv.enter`, `Inv.thread`, `Inv.hook`, `Inv.analyze`: the acts.
* `Inv.analyze_cases`: all that the analyzer can do.
-/

namespace LsmFork
namespace NetlinkLoop

open Runs Analyzer
open Handshake (HookAt HookOutcome ThreadOutcome Kind isMapped)

/-! ## What is on its way -/

/-- Nothing is on its way. -/
def Quiet (s : World) : Prop := s.queue = [] ∧ s.hooks.globals.analyzerReady.done = 0

/-- The analyzer has not dumped the hook. -/
def Unseen (s : World) (i : ℕ) : Prop := ∀ r, (i, r) ∉ s.served

/-- The reply of the analyzer to the hook is in `analyzer_response`. -/
def Answered (s : World) (i : ℕ) : Prop :=
  ∃ r, (i, r) ∈ s.served ∧ s.analyzerResponse = lsmReceiveReply r.reply

/-- What is on its way between a hook that waits and the analyzer. -/
inductive Waits (s : World) (i : ℕ) : Prop where
  /-- The NOTIFY or the reply has got lost, or the NOTIFY has killed the analyzer. -/
  | lost (h : Quiet s)
  | notify (hqueue : s.queue = [(i, (s.hooks.inv i).data.address)])
      (hdone : s.hooks.globals.analyzerReady.done = 0) (hunseen : Unseen s i)
  | reply (hqueue : s.queue = []) (hdone : s.hooks.globals.analyzerReady.done = 1)
      (hanswered : Answered s i)

/-- **The invariant of a hook**, by its phase. -/
def Fits (s : World) (i : ℕ) : Prop :=
  match phase (s.hooks.inv i).hook with
  | .idle => s.notified i = false ∧ Unseen s i
  | .before => s.notified i = false ∧ Unseen s i ∧ Quiet s
  | .waiting => s.notified i = true ∧ Waits s i
  | .after => Quiet s ∧ (s.notified i = true → Answered s i)
  | .left => (s.returned i).isSome = true

/-- What a hook has returned: the verdict on its own memory, if it has been analyzed. -/
def Returned (subject : ℕ → Subject) (s : World) (i : ℕ) (value : Int32) : Prop :=
  if s.notified i then
    ∃ address o, (i, (subject i).served address o) ∈ s.served ∧
      value = Netlink.verdict (lsmReceiveReply ((subject i).served address o).reply)
  else value = 0

/-- **The invariant.** -/
structure Inv (subject : ℕ → Subject) (s : World) : Prop where
  hooks : Handshake.Inv s.hooks
  fits : ∀ i, Fits s i
  quiet : (∀ i, ¬ (s.hooks.inv i).Active) → Quiet s
  served : ∀ x ∈ s.served, x.2.outcome.malloc = true ∧
    ∃ address o, x.2 = (subject x.1).served address o
  once : (s.served.map Prod.fst).Nodup
  files : s.files = serveAll (fun _ => none) (s.served.map Prod.snd)
  returned : ∀ i value, s.returned i = some value →
    (s.hooks.inv i).hook = .left ∧ Returned subject s i value

theorem inv_start (subject : ℕ → Subject) : Inv subject start where
  hooks := .start
  fits _ := ⟨rfl, fun _ h => absurd h List.not_mem_nil⟩
  quiet _ := ⟨rfl, rfl⟩
  served _ h := absurd h List.not_mem_nil
  once := List.nodup_nil
  files := rfl
  returned _ _ h := by cases h

variable {subject : ℕ → Subject} {s s' : World} {i : ℕ}

theorem Returned.mono {value : Int32} (h : Returned subject s i value)
    (hnotified : s'.notified i = s.notified i) (hserved : ∀ x ∈ s.served, x ∈ s'.served) :
    Returned subject s' i value := by
  unfold Returned at h ⊢
  rw [hnotified]
  split
  · rename_i hsent
    rw [if_pos hsent] at h
    obtain ⟨address, o, hmem, hverdict⟩ := h
    exact ⟨address, o, hserved _ hmem, hverdict⟩
  · rename_i hsilent
    rwa [if_neg hsilent] at h

/-- A hook that is not active does not look at what is on its way. -/
theorem Fits.of_not_active {j : ℕ} (hfits : Fits s j) (hactive : ¬ (s.hooks.inv j).Active)
    (hinv : s'.hooks.inv j = s.hooks.inv j) (hnotified : s'.notified j = s.notified j)
    (hserved : ∀ r, (j, r) ∈ s'.served → (j, r) ∈ s.served)
    (hreturned : s'.returned j = s.returned j) : Fits s' j := by
  rw [Handshake.Invocation.Active, not_and_or, not_not, not_not] at hactive
  unfold Fits at hfits ⊢
  rw [hinv, hnotified, hreturned]
  rcases hactive with hat | hat <;> rw [hat] at hfits ⊢
  · exact ⟨hfits.1, fun r hr => hfits.2 r (hserved r hr)⟩
  · exact hfits

/-- Everyone but the active hook is at rest. -/
theorem Inv.alone (h : Inv subject s) (hactive : (s.hooks.inv i).Active) :
    ∀ j ≠ i, ¬ (s.hooks.inv j).Active := fun j hij hj => hij (h.hooks.one j i hj hactive)

theorem Inv.not_returned (h : Inv subject s) (hactive : (s.hooks.inv i).Active) :
    s.returned i = none := by
  cases hvalue : s.returned i with
  | none => rfl
  | some value => exact absurd (h.returned i value hvalue).1 hactive.2

/-- **The one active hook moves**, and what has been dumped stays what it is. -/
theorem Inv.move (h : Inv subject s) (halone : ∀ j ≠ i, ¬ (s.hooks.inv j).Active)
    (hhooks : Handshake.Inv s'.hooks) (hinv : ∀ j ≠ i, s'.hooks.inv j = s.hooks.inv j)
    (hnotified : ∀ j ≠ i, s'.notified j = s.notified j) (hserved : s'.served = s.served)
    (hfiles : s'.files = s.files) (hfits : Fits s' i)
    (hquiet : ¬ (s'.hooks.inv i).Active → Quiet s')
    (hvalue : ∀ value, s'.returned i = some value →
      (s'.hooks.inv i).hook = .left ∧ Returned subject s' i value)
    (hreturned : ∀ j ≠ i, s'.returned j = s.returned j) : Inv subject s' where
  hooks := hhooks
  fits j := by
    by_cases hij : j = i
    · rw [hij]
      exact hfits
    · exact (h.fits j).of_not_active (halone j hij) (hinv j hij) (hnotified j hij)
        (fun r hr => hserved ▸ hr) (hreturned j hij)
  quiet hnone := hquiet (hnone i)
  served := hserved ▸ h.served
  once := hserved ▸ h.once
  files := by rw [hfiles, hserved, h.files]
  returned j value hj := by
    by_cases hij : j = i
    · rw [hij] at hj ⊢
      exact hvalue value hj
    · rw [hreturned j hij] at hj
      obtain ⟨hleft, hold⟩ := h.returned j value hj
      rw [hinv j hij]
      exact ⟨hleft, hold.mono (hnotified j hij) fun x hx => hserved ▸ hx⟩

/-! ## The hooks and the threads -/

theorem Inv.enter (h : Inv subject s) {kind : Kind}
    (hone : ∀ j, ¬ (s.hooks.inv j).Active) :
    Inv subject { s with hooks := Handshake.next s.hooks (.enter i kind) } := by
  have hhooks : Handshake.Inv (Handshake.next s.hooks (.enter i kind)) :=
    h.hooks.next hone trivial
  rw [Handshake.next, Handshake.step] at hhooks ⊢
  split
  · rename_i hidle
    rw [if_pos hidle] at hhooks
    rw [Option.getD_some] at hhooks ⊢
    have hfits := h.fits i
    rw [Fits, phase_eq_idle_iff.mpr hidle] at hfits
    have hquiet : Quiet s := h.quiet hone
    have hi := Handshake.World.set_same s.hooks i
      (s.hooks.globals, ⟨kind, .initMmapDone, .none, false, .live 0, none⟩)
    refine h.move (fun j _ => hone j) hhooks
      (fun j hij => Handshake.World.set_of_ne s.hooks hij _) (fun _ _ => rfl) rfl rfl ?_ ?_ ?_
      fun _ _ => rfl
    · rw [Fits, hi]
      exact ⟨hfits.1, hfits.2, hquiet⟩
    · exact fun _ => hquiet
    · intro value hvalue
      have hleft := (h.returned i value hvalue).1
      rw [hidle] at hleft
      cases hleft
  · exact h

/-- A thread executes its next statement, and the hook does not notice. -/
theorem Inv.thread (h : Inv subject s) (o : ThreadOutcome) :
    Inv subject { s with hooks := Handshake.next s.hooks (.thread i o) } := by
  have hhooks : Handshake.Inv (Handshake.next s.hooks (.thread i o)) :=
    h.hooks.next trivial trivial
  rw [Handshake.next, Handshake.step] at hhooks ⊢
  cases hstep : Handshake.threadStep o s.hooks.globals (s.hooks.inv i) with
  | none => exact h
  | some done =>
    rw [hstep, Option.map_some, Option.getD_some] at hhooks
    rw [Option.map_some, Option.getD_some]
    obtain ⟨hhook, -, -, hready⟩ := Handshake.threadStep_frame hstep
    have hactive := (h.hooks.fits i).active_of_threadStep hstep
    have hi := Handshake.World.set_same s.hooks i done
    have hdone : (s.hooks.set i done).globals.analyzerReady.done =
        s.hooks.globals.analyzerReady.done := congrArg Completion.done hready
    have hquiet : Quiet s → Quiet { s with hooks := s.hooks.set i done } := fun hquiet =>
      ⟨hquiet.1, hdone.trans hquiet.2⟩
    refine h.move (h.alone hactive) hhooks
      (fun j hij => Handshake.World.set_of_ne s.hooks hij _) (fun _ _ => rfl) rfl rfl ?_ ?_ ?_
      fun _ _ => rfl
    · have hown := h.fits i
      unfold Fits at hown ⊢
      rw [hi, hhook]
      cases hphase : phase (s.hooks.inv i).hook <;> rw [hphase] at hown
      case idle => exact hown
      case before => exact ⟨hown.1, hown.2.1, hquiet hown.2.2⟩
      case waiting =>
        refine ⟨hown.1, ?_⟩
        cases hown.2 with
        | lost hlost => exact .lost (hquiet hlost)
        | notify hqueue hzero hunseen =>
          have hdata := address_of_threadStep (h.hooks.fits i) (phase_eq_waiting_iff.mp hphase)
            hstep
          refine .notify ?_ (hdone.trans hzero) hunseen
          show s.queue = [(i, ((s.hooks.set i done).inv i).data.address)]
          rw [hi, hdata]
          exact hqueue
        | reply hqueue hone hanswered => exact .reply hqueue (hdone.trans hone) hanswered
      case after => exact ⟨hquiet hown.1, hown.2⟩
      case left => exact hown
    · intro hrest
      rw [hi, Handshake.Invocation.Active, hhook] at hrest
      exact absurd hactive hrest
    · intro value hvalue
      rw [h.not_returned hactive] at hvalue
      cases hvalue

section Hook

variable {o : HookOutcome} {delivered : Bool} {done : Handshake.Globals × Handshake.Invocation}

@[simp] theorem unseen_hook (j : ℕ) : Unseen (hook s i o delivered) j ↔ Unseen s j := by
  simp only [Unseen, hook_served]

@[simp] theorem answered_hook (j : ℕ) : Answered (hook s i o delivered) j ↔ Answered s j := by
  simp only [Answered, hook_served, hook_analyzerResponse]

/-- **The hook that executes a statement** keeps its invariant. -/
theorem Inv.fits_hook (h : Inv subject s) (hkeeps : ¬ Handshake.Abandons (s.hooks.inv i) o)
    (hstep : Handshake.hookStep o s.hooks.globals (s.hooks.inv i) = some done) :
    Fits (hook s i o delivered) i ∧ (¬ done.2.Active → Quiet (hook s i o delivered)) := by
  have hown := h.fits i
  have hset := next_hook_eq_set hstep
  have hi := Handshake.World.set_same s.hooks i done
  have hreturns : phase done.2.hook = .left →
      ((hook s i o delivered).returned i).isSome = true := by
    intro hleft
    have hvalue := isSome_value_of_left hkeeps hstep (phase_eq_left_iff.mp hleft)
    rw [hook_returned, Function.update_self]
    exact Option.isSome_or.trans (by rw [hvalue, Bool.true_or])
  -- a statement that is not the NOTIFY, and leaves no reply
  have hquiet : (s.hooks.inv i).hook ≠ .sendToUserspace → s.queue = [] →
      done.1.analyzerReady.done = 0 → Quiet (hook s i o delivered) := by
    intro hsend hqueue hdone
    rw [Quiet, hook_queue, hook_hooks, hset, if_neg fun hat => hsend hat.1]
    exact ⟨hqueue, hdone⟩
  obtain ⟨hbefore, hsend, hready, hidle, hwaits⟩ | ⟨hsend, rfl⟩ | ⟨hwaits, hafter, hready⟩ |
    ⟨hafter, hnext, hready⟩ := phase_of_hookStep hkeeps hstep
  · rw [Fits, hbefore] at hown
    obtain ⟨hnotified, hunseen, hqueue, hdone⟩ := hown
    have hnow := hquiet hsend hqueue ((congrArg Completion.done hready).trans hdone)
    refine ⟨?_, fun _ => hnow⟩
    rw [Fits, hook_hooks, hset, hi, hook_notified, if_neg hsend, unseen_hook, hnotified]
    cases hphase : phase done.2.hook
    case idle => exact absurd hphase hidle
    case before => exact ⟨rfl, hunseen, hnow⟩
    case waiting => exact absurd hphase hwaits
    case after => exact ⟨hnow, fun hfalse => by cases hfalse⟩
    case left => exact hreturns hphase
  · rw [Fits, hsend] at hown
    obtain ⟨hnotified, hunseen, hqueue, hdone⟩ := hown
    refine ⟨?_, fun hrest => absurd ⟨HookAt.noConfusion, HookAt.noConfusion⟩ hrest⟩
    rw [Fits, hook_hooks, hset, hi, hook_notified, if_pos hsend, Function.update_self]
    refine ⟨rfl, ?_⟩
    cases delivered with
    | false =>
      refine .lost ⟨?_, ?_⟩
      · rw [hook_queue, if_neg fun hat => Bool.false_ne_true hat.2, hqueue]
      · rw [hook_hooks, hset]
        exact hdone
    | true =>
      refine .notify ?_ ?_ ((unseen_hook i).mpr hunseen)
      · rw [hook_queue, if_pos ⟨hsend, rfl⟩, hqueue, hook_hooks, hset, hi, List.nil_append]
      · rw [hook_hooks, hset]
        exact hdone
  · rw [Fits, hwaits] at hown
    obtain ⟨hnotified, hwait⟩ := hown
    have hsend : (s.hooks.inv i).hook ≠ .sendToUserspace := by
      rw [hwaits]
      decide
    cases hwait with
    | lost hlost => exact absurd (hlost.2.symm.trans hready) (by omega)
    | notify _ hzero _ => exact absurd (hzero.symm.trans hready) (by omega)
    | reply hqueue hone hanswered =>
      have hnow := hquiet hsend hqueue (Nat.succ.inj (hready.symm.trans hone))
      refine ⟨?_, fun _ => hnow⟩
      rw [Fits, hook_hooks, hset, hi, hafter]
      exact ⟨hnow, fun _ => (answered_hook i).mpr hanswered⟩
  · rw [Fits, hafter] at hown
    obtain ⟨⟨hqueue, hdone⟩, hanswered⟩ := hown
    have hsend : (s.hooks.inv i).hook ≠ .sendToUserspace := by
      intro hat
      rw [hat] at hafter
      cases hafter
    have hnow := hquiet hsend hqueue (Nat.le_zero.mp (hready.trans hdone.le))
    refine ⟨?_, fun _ => hnow⟩
    rw [Fits, hook_hooks, hset, hi, hook_notified, if_neg hsend, answered_hook]
    rcases hnext with hnext | hnext <;> rw [hnext]
    · exact ⟨hnow, hanswered⟩
    · exact hreturns hnext

/-- What a hook returns is the verdict on its own memory, if it has been analyzed. -/
theorem Inv.returned_hook (h : Inv subject s) {v : Int32}
    (hkeeps : ¬ Handshake.Abandons (s.hooks.inv i) o)
    (hstep : Handshake.hookStep o s.hooks.globals (s.hooks.inv i) = some done)
    (hv : (hook s i o delivered).returned i = some v) :
    done.2.hook = .left ∧ Returned subject (hook s i o delivered) i v := by
  rw [hook_returned, Function.update_self,
    h.not_returned (Handshake.active_of_hookStep hstep), Option.or_none] at hv
  obtain ⟨hleft, hv⟩ := phase_of_value hkeeps hv hstep
  refine ⟨hleft, ?_⟩
  have hsend : (s.hooks.inv i).hook ≠ .sendToUserspace := by
    intro hat
    rw [Handshake.hookStep, hat] at hstep
    cases hstep
    cases hleft
  have hown := h.fits i
  rw [Returned, hook_notified, if_neg hsend, hook_served]
  rcases hv with ⟨hbefore, rfl⟩ | ⟨hafter, rfl⟩
  · rw [Fits, hbefore] at hown
    rw [hown.1, if_neg Bool.false_ne_true]
  · rw [Fits, hafter] at hown
    by_cases hnotified : s.notified i = true
    · rw [if_pos hnotified, if_pos hnotified]
      obtain ⟨r, hr, hresponse⟩ := hown.2 hnotified
      obtain ⟨-, address, outcome, heq⟩ := h.served _ hr
      obtain rfl : r = (subject i).served address outcome := heq
      exact ⟨address, outcome, hr, congrArg Netlink.verdict hresponse⟩
    · rw [if_neg hnotified, if_neg hnotified]

/-- **A hook executes its next statement.** -/
theorem Inv.hook (h : Inv subject s) (hkeeps : ¬ Handshake.Abandons (s.hooks.inv i) o) :
    Inv subject (NetlinkLoop.hook s i o delivered) := by
  cases hstep : Handshake.hookStep o s.hooks.globals (s.hooks.inv i) with
  | none =>
    rw [hook_of_stuck hstep]
    exact h
  | some done =>
    have hactive := Handshake.active_of_hookStep hstep
    have hset := next_hook_eq_set hstep
    have hi := Handshake.World.set_same s.hooks i done
    obtain ⟨hfits, hquiet⟩ :
        Fits (NetlinkLoop.hook s i o delivered) i ∧
          (¬ done.2.Active → Quiet (NetlinkLoop.hook s i o delivered)) :=
      h.fits_hook hkeeps hstep
    refine h.move (h.alone hactive) ?_ ?_ ?_ hook_served hook_files hfits ?_ ?_ ?_
    · rw [hook_hooks]
      exact h.hooks.next trivial hkeeps
    · intro j hij
      rw [hook_hooks, hset, Handshake.World.set_of_ne s.hooks hij]
    · intro j hij
      rw [hook_notified]
      split
      · rw [Function.update_of_ne hij]
      · rfl
    · rw [hook_hooks, hset, hi]
      exact hquiet
    · intro v hv
      rw [hook_hooks, hset, hi]
      exact h.returned_hook hkeeps hstep hv
    · intro j hij
      rw [hook_returned, Function.update_of_ne hij]

end Hook

/-! ## The analyzer -/

/-- **Who has sent what is on the socket**: there is one NOTIFY at most, of the hook that waits. -/
theorem Inv.queue_cases (h : Inv subject s) (hqueue : s.queue ≠ []) :
    ∃ i, (s.hooks.inv i).hook = .waitReady ∧ s.notified i = true ∧
      s.queue = [(i, (s.hooks.inv i).data.address)] ∧
      s.hooks.globals.analyzerReady.done = 0 ∧ Unseen s i := by
  by_cases hactive : ∃ i, (s.hooks.inv i).Active
  · obtain ⟨i, hidle, hleft⟩ := hactive
    have hown := h.fits i
    rw [Fits] at hown
    cases hphase : phase (s.hooks.inv i).hook <;> rw [hphase] at hown
    case idle => exact absurd (phase_eq_idle_iff.mp hphase) hidle
    case before => exact absurd hown.2.2.1 hqueue
    case waiting =>
      obtain ⟨hnotified, hwait⟩ := hown
      cases hwait with
      | lost hlost => exact absurd hlost.1 hqueue
      | notify hnotify hzero hunseen =>
        exact ⟨i, phase_eq_waiting_iff.mp hphase, hnotified, hnotify, hzero, hunseen⟩
      | reply hempty _ _ => exact absurd hempty hqueue
    case after => exact absurd hown.1.1 hqueue
    case left => exact absurd (phase_eq_left_iff.mp hphase) hleft
  · exact absurd (h.quiet (not_exists.mp hactive)).1 hqueue

/-- **All that the analyzer can do**: nothing, or it takes the one NOTIFY of the hook that waits,
and dumps the memory, with or without a reply, or it dies. -/
theorem Inv.analyze_cases (h : Inv subject s) (o : DumpOutcome) (replied : Bool) :
    (analyze subject s o replied = s ∧ (s.alive = true → s.queue = [])) ∨
      ∃ i, (s.hooks.inv i).hook = .waitReady ∧ s.notified i = true ∧
        s.queue = [(i, (s.hooks.inv i).data.address)] ∧
        s.hooks.globals.analyzerReady.done = 0 ∧ Unseen s i ∧
        analyze subject s o replied =
          if isMapped (s.hooks.inv i).data.address = true ∧ o.malloc = true then
            let r := (subject i).served (s.hooks.inv i).data.address o
            { s with
              hooks := if replied then Handshake.next s.hooks .reply else s.hooks
              queue := []
              analyzerResponse := if replied then lsmReceiveReply r.reply else s.analyzerResponse
              files := serveAll (fun _ => none) (s.served.map Prod.snd ++ [r])
              served := s.served ++ [(i, r)] }
          else { s with alive := false, queue := [] } := by
  by_cases htakes : s.alive = true ∧ s.queue ≠ []
  · obtain ⟨halive, hqueue⟩ := htakes
    obtain ⟨i, hwaits, hnotified, hqueue, hzero, hunseen⟩ := h.queue_cases hqueue
    refine Or.inr ⟨i, hwaits, hnotified, hqueue, hzero, hunseen, ?_⟩
    have hmapping := mapping_of_waits (h.hooks.fits i) hwaits
    rw [analyze, halive, hqueue]
    dsimp only
    by_cases hmapped : isMapped (s.hooks.inv i).data.address = true
    · rw [if_pos (hmapping.mpr hmapped)]
      obtain ⟨hmalloc, files', hhandle⟩ | ⟨hdies, hhandle⟩ :=
        ((subject i).served (s.hooks.inv i).data.address o).handle_cases s.files
      · have hfiles : serveAll (fun _ => none)
            (s.served.map Prod.snd ++ [(subject i).served (s.hooks.inv i).data.address o]) =
            files' := by
          refine serveAll_concat (fun r hr => ?_) (h.files ▸ hhandle)
          obtain ⟨x, hx, rfl⟩ := List.mem_map.mp hr
          exact (h.served x hx).1
        rw [if_pos ⟨hmapped, hmalloc⟩, hhandle, hfiles]
        cases replied <;> rfl
      · rw [if_neg fun hboth => hdies hboth.2, hhandle]
    · rw [if_neg fun hsome => hmapped (hmapping.mp hsome), if_neg fun hboth => hmapped hboth.1]
  · rw [not_and_or, not_not, Bool.not_eq_true] at htakes
    refine Or.inl ⟨analyze_of_idle htakes, fun halive => htakes.resolve_left ?_⟩
    rw [halive]
    decide

/-- The analyzer dies, and the hook waits for ever. -/
theorem Inv.dies (h : Inv subject s) (hwaits : (s.hooks.inv i).hook = .waitReady)
    (hnotified : s.notified i = true) (hzero : s.hooks.globals.analyzerReady.done = 0) :
    Inv subject { s with alive := false, queue := [] } := by
  have hactive := active_of_waitReady hwaits
  refine h.move (h.alone hactive) h.hooks (fun _ _ => rfl) (fun _ _ => rfl) rfl rfl ?_
    (fun _ => ⟨rfl, hzero⟩) (fun value hvalue => h.returned i value hvalue) fun _ _ => rfl
  rw [Fits, phase_eq_waiting_iff.mpr hwaits]
  exact ⟨hnotified, .lost ⟨rfl, hzero⟩⟩

theorem Inv.dumps (h : Inv subject s) (hwaits : (s.hooks.inv i).hook = .waitReady)
    (hnotified : s.notified i = true) (hzero : s.hooks.globals.analyzerReady.done = 0)
    (hunseen : Unseen s i) {address : UInt64} {o : DumpOutcome} (hmalloc : o.malloc = true)
    {r : Served} (hr : r = (subject i).served address o) (replied : Bool) :
    Inv subject { s with
      hooks := if replied then Handshake.next s.hooks .reply else s.hooks
      queue := []
      analyzerResponse := if replied then lsmReceiveReply r.reply else s.analyzerResponse
      files := serveAll (fun _ => none) (s.served.map Prod.snd ++ [r])
      served := s.served ++ [(i, r)] } := by
  have hactive := active_of_waitReady hwaits
  have hinv : (if replied then Handshake.next s.hooks .reply else s.hooks).inv = s.hooks.inv := by
    cases replied <;> rfl
  have hother : ∀ j ≠ i, ∀ r', (j, r') ∈ s.served ++ [(i, r)] → (j, r') ∈ s.served := by
    intro j hij r' hmem
    rcases List.mem_append.mp hmem with hmem | hmem
    · exact hmem
    · exact absurd (Prod.mk.inj (List.mem_singleton.mp hmem)).1 hij
  refine ⟨?_, fun j => ?_, fun hnone => ?_, ?_, ?_, ?_, fun j value hvalue => ?_⟩
  · cases replied with
    | false => exact h.hooks
    | true =>
      show Handshake.Inv (Handshake.next s.hooks .reply)
      exact h.hooks.next trivial trivial
  · by_cases hij : j = i
    · rw [hij, Fits]
      dsimp only
      rw [hinv, phase_eq_waiting_iff.mpr hwaits]
      refine ⟨hnotified, ?_⟩
      cases replied with
      | false => exact .lost ⟨rfl, hzero⟩
      | true =>
        exact .reply rfl (congrArg (· + 1) hzero)
          ⟨r, List.mem_append_right _ (List.mem_singleton_self _), rfl⟩
    · exact (h.fits j).of_not_active (h.alone hactive j hij) (congrFun hinv j) rfl (hother j hij)
        rfl
  · refine absurd ?_ (hnone i)
    dsimp only
    rw [hinv]
    exact hactive
  · intro x hx
    rcases List.mem_append.mp hx with hx | hx
    · exact h.served x hx
    · rw [List.mem_singleton.mp hx, hr]
      exact ⟨hmalloc, address, o, rfl⟩
  · rw [List.map_append, List.nodup_append]
    refine ⟨h.once, List.nodup_singleton i, ?_⟩
    intro j hj k hk hjk
    obtain ⟨x, hx, rfl⟩ := List.mem_map.mp hj
    obtain rfl : k = i := List.mem_singleton.mp hk
    exact hunseen x.2 (hjk ▸ hx)
  · rw [List.map_append]
    rfl
  · obtain ⟨hleft, hreturned⟩ := h.returned j value hvalue
    exact ⟨(congrArg _ (congrFun hinv j)).trans hleft,
      hreturned.mono rfl fun x hx => List.mem_append_left _ hx⟩

/-- **The analyzer takes a NOTIFY.** -/
theorem Inv.analyze (h : Inv subject s) (o : DumpOutcome) (replied : Bool) :
    Inv subject (NetlinkLoop.analyze subject s o replied) := by
  obtain ⟨heq, -⟩ | ⟨i, hwaits, hnotified, -, hzero, hunseen, heq⟩ := h.analyze_cases o replied
  · rw [heq]
    exact h
  · rw [heq]
    split
    · rename_i hdumps
      exact h.dumps hwaits hnotified hzero hunseen hdumps.2 rfl replied
    · exact h.dies hwaits hnotified hzero

/-! ## The acts -/

/-- **One act** keeps the invariant. -/
theorem Inv.next (h : Inv subject s) {a : Act} (horderly : Orderly s a) :
    Inv subject (NetlinkLoop.next subject s a) := by
  cases a with
  | enter i kind => exact h.enter horderly.1
  | hook i o delivered => exact h.hook horderly.2
  | thread i o => exact h.thread o
  | analyze o replied => exact h.analyze o replied

end NetlinkLoop
end LsmFork
