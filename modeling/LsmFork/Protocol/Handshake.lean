import LsmFork.Kernel.AnalyzerThread

/-!
# The handshake of a hook and its thread

As long as hooks run one after another, the two completions are between one hook and one thread.
Then the hook finds the memory mapped from its NOTIFY on until it has the reply, the thread unmaps
it after that, and the hook returns with nothing left behind; unless it is the mprotect hook, and
returns in the middle.  Nothing but the reply can keep the two waiting.

* `Abandons`, `OneAtATime`: what breaks the handshake, and hooks that do not overlap.
* `Outcome`, `Mapping`, `Mapped`, `Unmapping`, `Exited`: where the thread stands, and what the
  completions and the data say then.
* `Fits`: which of these go with the next statement of the hook.
* `Fits.hookStep`, `Fits.threadStep`: the statements.
* `handshake_sound_iff`: hooks that leave nothing behind and show only what is mapped.
* `handshake_stuck`: what a hook can wait for.
-/

namespace LsmFork
namespace Handshake

open Runs

/-- The hook has started and is not over. -/
def Invocation.Active (x : Invocation) : Prop := x.hook ≠ .idle ∧ x.hook ≠ .left

/-- Nothing of the invocation is left: no thread, no mapping in the analyzer, no data. -/
structure Invocation.Clean (x : Invocation) : Prop where
  thread : x.thread = .none ∨ x.thread = .exited
  mapping : x.mapping = none
  data : x.data = .freed

/-- The hook returns in the middle, with its thread running. -/
def Abandons (x : Invocation) (o : HookOutcome) : Prop :=
  (x.hook = .pinPages ∧ o.pinned = false) ∨ (x.hook = .remapPages ∧ o.remapping = .leaves)

/-- A hook starts when no other is active. -/
def OneAtATime (s : World) : Act → Prop
  | .enter _ _ => ∀ j, ¬ (s.inv j).Active
  | _ => True

/-- The act does not abandon a thread. -/
def Keeps (s : World) : Act → Prop
  | .hook i o => ¬ Abandons (s.inv i) o
  | _ => True

/-- The thread's attempt to map the memory: what `vm_mmap` has returned is in the data, and the
mapping is there unless that is an error.  A program is not shown under an error. -/
def Outcome (x : Invocation) : Prop :=
  ∃ address, x.data = .live address ∧ x.mapping = mappedAt address ∧
    (x.kind = .bpf → address ≠ 0 → isMapped address = true)

/-- The hook is analyzed: from its NOTIFY until it has taken the reply. -/
def HookAt.Analyzed (at_ : HookAt) : Prop :=
  at_ = .sendToUserspace ∨ at_ = .waitReady ∨ at_ = .reinitReady

/-- What the hooks promise: one that is over leaves nothing behind, and one that is analyzed has an
address for the analyzer, with the outcome of `vm_mmap` behind it. -/
structure Sound (x : Invocation) : Prop where
  clean : x.hook = .left → x.Clean
  shown : x.hook.Analyzed → Outcome x ∧ x.data.address ≠ 0

/-! ## Where the thread stands -/

/-- The thread has not been started. -/
def Unstarted (x : Invocation) : Prop :=
  x.shouldStop = false ∧ x.thread = .none ∧ x.data = .live 0 ∧ x.mapping = none

/-- The thread has not completed `analyzer_mmap_done`. -/
def Mapping (g : Globals) (x : Invocation) : Prop :=
  g.mmapDone.done = 0 ∧
    match x.thread with
    | .useMm => x.data = .live 0 ∧ x.mapping = none
    | .vmMmap => x.data = .live 0 ∧ x.mapping = none
    | .copyToUser => x.kind = .bpf ∧ ∃ a, x.data = .live a ∧ x.mapping = mappedAt a
    | .undoMmap => x.data.IsLive
    | .clearAddress => x.data.IsLive ∧ x.mapping = none
    | .initMunmapReady => Outcome x
    | .completeMmapDone => Outcome x ∧ g.munmapReady.done = 0
    | _ => False

/-- The thread has completed `analyzer_mmap_done`, and is not to unmap the memory yet. -/
def Mapped (g : Globals) (x : Invocation) : Prop :=
  g.munmapReady.done = 0 ∧ Outcome x ∧
    match x.thread with
    | .testAddress => True
    | .waitMunmapReady => x.data.address ≠ 0
    | .spin => x.data.address = 0
    | _ => False

/-- The thread is to unmap the memory, or has done so. -/
def Unmapping (g : Globals) (x : Invocation) : Prop :=
  x.data.address ≠ 0 ∧
    match x.thread with
    | .testAddress => g.munmapReady.done = 1
    | .waitMunmapReady => g.munmapReady.done = 1
    | .vmMunmap => True
    | .unuseMm => x.mapping = none
    | .spin => x.mapping = none
    | _ => False

/-- The thread has exited, and the memory is not mapped. -/
def Exited (x : Invocation) : Prop := x.thread = .exited ∧ x.mapping = none

/-- **The invariant of one invocation**, by the next statement of its hook. -/
def Fits (g : Globals) (x : Invocation) : Prop :=
  match x.hook with
  | .idle => x.thread = .none
  | .initMmapDone => Unstarted x
  | .kthreadRun => Unstarted x ∧ g.mmapDone.done = 0
  | .pinPages => x.shouldStop = false ∧ (Mapping g x ∨ (Mapped g x ∧ g.mmapDone.done = 1))
  | .waitMmapDone => x.shouldStop = false ∧ (Mapping g x ∨ (Mapped g x ∧ g.mmapDone.done = 1))
  | .testAddress => x.shouldStop = false ∧ Mapped g x
  | .remapPages => x.shouldStop = false ∧ Mapped g x ∧ x.data.address ≠ 0
  | .sendToUserspace => x.shouldStop = false ∧ Mapped g x ∧ x.data.address ≠ 0
  | .waitReady => x.shouldStop = false ∧ Mapped g x ∧ x.data.address ≠ 0
  | .reinitReady => x.shouldStop = false ∧ Mapped g x ∧ x.data.address ≠ 0
  | .completeMunmapReady => x.shouldStop = false ∧ Mapped g x ∧ x.data.address ≠ 0
  | .kthreadStop =>
    x.shouldStop = false ∧ ((Mapped g x ∧ x.data.address = 0) ∨ Unmapping g x)
  | .waitExit =>
    x.shouldStop = true ∧ ((Mapped g x ∧ x.data.address = 0) ∨ Unmapping g x ∨ Exited x)
  | .kfreeData => Exited x
  | .left => x.Clean

/-! ## The thread -/

section Thread

variable {o : ThreadOutcome} {g : Globals} {x : Invocation} {done : Globals × Invocation}

theorem threadStep_frame (h : threadStep o g x = some done) :
    done.2.hook = x.hook ∧ done.2.kind = x.kind ∧ done.2.shouldStop = x.shouldStop ∧
      done.1.analyzerReady = g.analyzerReady := by
  obtain ⟨kind, hook, thread, shouldStop, data, mapping⟩ := x
  cases thread <;> simp only [threadStep, Option.map_eq_some_iff] at h <;> grind

theorem mappedAt_zero : mappedAt 0 = none := rfl

theorem Completion.waitFor_eq_some {c c' : Completion} (h : c.waitFor = some c') :
    c.done = c'.done + 1 := by
  rw [Completion.waitFor] at h
  split at h
  · cases h
    exact (Nat.succ_pred_eq_of_pos ‹_›).symm
  · cases h

/-- **Up to the completion of `analyzer_mmap_done`**: the thread maps the memory, copies the program
into it or gives it up, and makes `analyzer_munmap_ready` new before it completes the other one. -/
theorem Mapping.threadStep (hmap : Mapping g x) (hstop : x.shouldStop = false)
    (h : Handshake.threadStep o g x = some done) :
    Mapping done.1 done.2 ∨ (Mapped done.1 done.2 ∧ done.1.mmapDone.done = 1) := by
  obtain ⟨kind, hook, thread, shouldStop, data, mapping⟩ := x
  obtain ⟨hdone, hthread⟩ := hmap
  dsimp only at hthread hstop
  subst hstop
  cases thread with
  | useMm =>
    cases h
    exact Or.inl ⟨hdone, hthread⟩
  | vmMmap =>
    cases h
    obtain ⟨rfl, -⟩ := hthread
    left
    refine ⟨hdone, ?_⟩
    by_cases hcopy : kind = .bpf ∧ o.vmMmap ≠ 0
    · simp only [if_pos hcopy]
      exact ⟨hcopy.1, o.vmMmap, rfl, rfl⟩
    · simp only [if_neg hcopy]
      exact ⟨o.vmMmap, rfl, rfl, fun hbpf hne => absurd ⟨hbpf, hne⟩ hcopy⟩
  | copyToUser =>
    cases h
    obtain ⟨rfl, a, rfl, rfl⟩ := hthread
    left
    refine ⟨hdone, ?_⟩
    by_cases hcopied : (o.copied && isMapped a) = true
    · simp only [show (DataAt.live a).address = a from rfl, if_pos hcopied]
      exact ⟨a, rfl, rfl, fun _ _ => (Bool.and_eq_true_iff.mp hcopied).2⟩
    · simp only [show (DataAt.live a).address = a from rfl, if_neg hcopied]
      exact ⟨a, rfl⟩
  | undoMmap =>
    cases h
    exact Or.inl ⟨hdone, hthread, rfl⟩
  | clearAddress =>
    cases h
    obtain ⟨⟨a, rfl⟩, rfl⟩ := hthread
    exact Or.inl ⟨hdone, 0, rfl, mappedAt_zero.symm, fun _ h => absurd rfl h⟩
  | initMunmapReady =>
    cases h
    exact Or.inl ⟨hdone, hthread, rfl⟩
  | completeMmapDone =>
    cases h
    obtain ⟨houtcome, hready⟩ := hthread
    exact Or.inr ⟨⟨hready, houtcome, trivial⟩, congrArg (· + 1) hdone⟩
  | _ => exact absurd hthread id

theorem threadStep_of_spin (hat : x.thread = .spin) (h : threadStep o g x = some done) :
    x.shouldStop = true ∧ done = (g, { x with thread := .exited }) := by
  simp only [threadStep, hat] at h
  split at h
  · rename_i hstop
    exact ⟨hstop, (Option.some.inj h).symm⟩
  · cases h

/-- **Between the two completions**: the thread finds out whether there is anything to unmap, and
waits for one of the two ends. -/
theorem Mapped.threadStep (hmapped : Mapped g x) (h : Handshake.threadStep o g x = some done) :
    (Mapped done.1 done.2 ∧ done.1 = g ∧ done.2.data = x.data) ∨
      (x.shouldStop = true ∧ x.data.address = 0 ∧ Exited done.2) := by
  obtain ⟨kind, hook, thread, shouldStop, data, mapping⟩ := x
  obtain ⟨hready, houtcome, hthread⟩ := hmapped
  dsimp only at hthread
  cases thread with
  | testAddress =>
    cases h
    refine Or.inl ⟨⟨hready, houtcome, ?_⟩, rfl, rfl⟩
    by_cases haddress : data.address = 0
    · simp only [if_pos haddress]
      exact haddress
    · simp only [if_neg haddress]
      exact haddress
  | waitMunmapReady =>
    obtain ⟨c, hc, -⟩ := Option.map_eq_some_iff.mp h
    have hpos := Completion.waitFor_eq_some hc
    omega
  | spin =>
    obtain ⟨hstop, rfl⟩ := threadStep_of_spin rfl h
    obtain ⟨a, rfl, rfl, -⟩ := houtcome
    refine Or.inr ⟨hstop, hthread, rfl, ?_⟩
    rw [show a = 0 from hthread]
    exact mappedAt_zero
  | _ => exact absurd hthread id

/-- **After the completion of `analyzer_munmap_ready`**: the thread unmaps the memory, and exits
when it is stopped. -/
theorem Unmapping.threadStep (hunmapping : Unmapping g x)
    (h : Handshake.threadStep o g x = some done) :
    Unmapping done.1 done.2 ∨ (x.shouldStop = true ∧ Exited done.2) := by
  obtain ⟨kind, hook, thread, shouldStop, data, mapping⟩ := x
  obtain ⟨haddress, hthread⟩ := hunmapping
  dsimp only at hthread haddress
  cases thread with
  | testAddress =>
    cases h
    refine Or.inl ⟨haddress, ?_⟩
    simp only [if_neg haddress]
    exact hthread
  | waitMunmapReady =>
    obtain ⟨c, hc, rfl⟩ := Option.map_eq_some_iff.mp h
    exact Or.inl ⟨haddress, trivial⟩
  | vmMunmap =>
    cases h
    exact Or.inl ⟨haddress, rfl⟩
  | unuseMm =>
    cases h
    exact Or.inl ⟨haddress, hthread⟩
  | spin =>
    obtain ⟨hstop, rfl⟩ := threadStep_of_spin rfl h
    exact Or.inr ⟨hstop, rfl, hthread⟩
  | _ => exact absurd hthread id

/-- A thread that was never there, or has exited, has no statement left. -/
theorem threadStep_of_gone (h : x.thread = .none ∨ x.thread = .exited) :
    Handshake.threadStep o g x = none := by
  rcases h with h | h <;> rw [Handshake.threadStep, h]

/-- A thread runs for a hook that is active. -/
theorem Fits.active_of_threadStep (hfits : Fits g x)
    (h : Handshake.threadStep o g x = some done) : x.Active := by
  constructor <;> intro hat <;> rw [Fits, hat] at hfits
  · rw [threadStep_of_gone (Or.inl hfits)] at h
    cases h
  · rw [threadStep_of_gone hfits.thread] at h
    cases h

/-- **A statement of the thread** keeps the invariant. -/
theorem Fits.threadStep (hfits : Fits g x) (h : Handshake.threadStep o g x = some done) :
    Fits done.1 done.2 := by
  obtain ⟨hhook, -, hstop, -⟩ := threadStep_frame h
  have hgone : ¬ (x.thread = .none ∨ x.thread = .exited) := by
    intro hgone
    rw [threadStep_of_gone hgone] at h
    cases h
  unfold Fits at hfits ⊢
  rw [hhook, hstop]
  cases hat : x.hook <;> rw [hat] at hfits <;> dsimp only at hfits ⊢
  case idle => exact absurd (Or.inl hfits) hgone
  case initMmapDone => exact absurd (Or.inl hfits.2.1) hgone
  case kthreadRun => exact absurd (Or.inl hfits.1.2.1) hgone
  case kfreeData => exact absurd (Or.inr hfits.1) hgone
  case left => exact absurd hfits.thread hgone
  case pinPages | waitMmapDone =>
    obtain ⟨hfalse, hmap | ⟨hmapped, hone⟩⟩ := hfits
    · exact ⟨hfalse, hmap.threadStep hfalse h⟩
    · obtain ⟨hnext, hg, -⟩ | ⟨htrue, -⟩ := hmapped.threadStep h
      · exact ⟨hfalse, Or.inr ⟨hnext, hg ▸ hone⟩⟩
      · rw [hfalse] at htrue
        cases htrue
  case testAddress =>
    obtain ⟨hfalse, hmapped⟩ := hfits
    obtain ⟨hnext, -, -⟩ | ⟨htrue, -⟩ := hmapped.threadStep h
    · exact ⟨hfalse, hnext⟩
    · rw [hfalse] at htrue
      cases htrue
  case remapPages | sendToUserspace | waitReady | reinitReady | completeMunmapReady =>
    obtain ⟨hfalse, hmapped, haddress⟩ := hfits
    obtain ⟨hnext, -, hdata⟩ | ⟨htrue, -⟩ := hmapped.threadStep h
    · exact ⟨hfalse, hnext, hdata ▸ haddress⟩
    · rw [hfalse] at htrue
      cases htrue
  case kthreadStop =>
    obtain ⟨hfalse, ⟨hmapped, haddress⟩ | hunmapping⟩ := hfits
    · obtain ⟨hnext, -, hdata⟩ | ⟨htrue, -⟩ := hmapped.threadStep h
      · exact ⟨hfalse, Or.inl ⟨hnext, hdata ▸ haddress⟩⟩
      · rw [hfalse] at htrue
        cases htrue
    · obtain hnext | ⟨htrue, -⟩ := hunmapping.threadStep h
      · exact ⟨hfalse, Or.inr hnext⟩
      · rw [hfalse] at htrue
        cases htrue
  case waitExit =>
    obtain ⟨htrue, ⟨hmapped, haddress⟩ | hunmapping | hexited⟩ := hfits
    · obtain ⟨hnext, -, hdata⟩ | ⟨-, -, hexit⟩ := hmapped.threadStep h
      · exact ⟨htrue, Or.inl ⟨hnext, hdata ▸ haddress⟩⟩
      · exact ⟨htrue, Or.inr (Or.inr hexit)⟩
    · obtain hnext | ⟨-, hexit⟩ := hunmapping.threadStep h
      · exact ⟨htrue, Or.inr (Or.inl hnext)⟩
      · exact ⟨htrue, Or.inr (Or.inr hexit)⟩
    · exact absurd (Or.inr hexited.1) hgone

end Thread

/-! ## The hook -/

section Hook

variable {o : HookOutcome} {g : Globals} {x : Invocation} {done : Globals × Invocation}

/-- When the hook completes `analyzer_munmap_ready`, the thread waits for it or is about to. -/
theorem Mapped.complete (hmapped : Mapped g x) (haddress : x.data.address ≠ 0) :
    Unmapping { g with munmapReady := g.munmapReady.complete }
      { x with hook := .kthreadStop } := by
  obtain ⟨kind, hook, thread, shouldStop, data, mapping⟩ := x
  obtain ⟨hready, -, hthread⟩ := hmapped
  have hone : g.munmapReady.done + 1 = 1 := by rw [hready]
  dsimp only at hthread
  refine ⟨haddress, ?_⟩
  cases thread with
  | testAddress => exact hone
  | waitMunmapReady => exact hone
  | spin => exact absurd hthread haddress
  | _ => exact absurd hthread id

/-- A thread that has exited in `kthread_stop` has left nothing mapped. -/
theorem exited_of_waitExit
    (h : (Mapped g x ∧ x.data.address = 0) ∨ Unmapping g x ∨ Exited x)
    (hexited : x.thread = .exited) : Exited x := by
  rcases h with ⟨⟨-, -, hthread⟩, -⟩ | ⟨-, hthread⟩ | hexit
  · rw [hexited] at hthread
    exact absurd hthread id
  · rw [hexited] at hthread
    exact absurd hthread id
  · exact hexit

theorem active_of_hookStep (h : Handshake.hookStep o g x = some done) : x.Active := by
  constructor <;> intro hat <;> rw [Handshake.hookStep, hat] at h <;> cases h

/-- **A statement of the hook** keeps the invariant, unless it abandons the thread. -/
theorem Fits.hookStep (hfits : Fits g x) (hkeeps : ¬ Abandons x o)
    (h : Handshake.hookStep o g x = some done) : Fits done.1 done.2 := by
  obtain ⟨kind, hook, thread, shouldStop, data, mapping⟩ := x
  cases hook with
  | idle => cases h
  | left => cases h
  | initMmapDone =>
    cases h
    exact ⟨hfits, rfl⟩
  | kthreadRun =>
    obtain ⟨⟨hstop, hnone, hdata, hmapping⟩, hdone⟩ := hfits
    simp only [Handshake.hookStep] at h
    split at h
    · cases h
      have hmap : ∀ hook, Mapping g ⟨kind, hook, .useMm, shouldStop, data, mapping⟩ := fun _ =>
        ⟨hdone, hdata, hmapping⟩
      by_cases hkind : kind = .mprotect
      · simp only [if_pos hkind]
        exact ⟨hstop, Or.inl (hmap _)⟩
      · simp only [if_neg hkind]
        exact ⟨hstop, Or.inl (hmap _)⟩
    · cases h
      exact ⟨Or.inl hnone, hmapping, rfl⟩
  | pinPages =>
    cases h
    have hpinned : o.pinned = true := by
      by_contra hno
      exact hkeeps (Or.inl ⟨rfl, Bool.eq_false_iff.mpr hno⟩)
    simp only [hpinned, if_true]
    exact hfits
  | waitMmapDone =>
    obtain ⟨c, hc, rfl⟩ := Option.map_eq_some_iff.mp h
    have hpos := Completion.waitFor_eq_some hc
    obtain ⟨hstop, ⟨hdone, -⟩ | ⟨hmapped, -⟩⟩ := hfits
    · omega
    · exact ⟨hstop, hmapped⟩
  | testAddress =>
    cases h
    obtain ⟨hstop, hmapped⟩ := hfits
    by_cases haddress : data.address = 0
    · simp only [if_pos haddress]
      exact ⟨hstop, Or.inl ⟨hmapped, haddress⟩⟩
    · by_cases hkind : kind = .mprotect
      · simp only [if_neg haddress, if_pos hkind]
        exact ⟨hstop, hmapped, haddress⟩
      · simp only [if_neg haddress, if_neg hkind]
        exact ⟨hstop, hmapped, haddress⟩
  | remapPages =>
    cases h
    cases hremap : o.remapping with
    | ok => exact hfits
    | failed => exact hfits
    | leaves => exact absurd (Or.inr ⟨rfl, hremap⟩) hkeeps
  | sendToUserspace =>
    cases h
    exact hfits
  | waitReady =>
    obtain ⟨c, -, rfl⟩ := Option.map_eq_some_iff.mp h
    exact hfits
  | reinitReady =>
    cases h
    exact hfits
  | completeMunmapReady =>
    cases h
    obtain ⟨hstop, hmapped, haddress⟩ := hfits
    exact ⟨hstop, Or.inr (hmapped.complete haddress)⟩
  | kthreadStop =>
    cases h
    obtain ⟨-, hmapped | hunmapping⟩ := hfits
    · exact ⟨rfl, Or.inl hmapped⟩
    · exact ⟨rfl, Or.inr (Or.inl hunmapping)⟩
  | waitExit =>
    simp only [Handshake.hookStep] at h
    split at h
    · rename_i hexited
      cases h
      exact exited_of_waitExit hfits.2 hexited
    · cases h
  | kfreeData =>
    cases h
    exact ⟨Or.inr hfits.1, hfits.2, rfl⟩

/-- **What the invariant promises.** -/
theorem Fits.sound (hfits : Fits g x) : Sound x := by
  refine ⟨fun hleft => ?_, fun hanalyzed => ?_⟩
  · rw [Fits, hleft] at hfits
    exact hfits
  · rcases hanalyzed with hat | hat | hat <;> rw [Fits, hat] at hfits <;>
      exact ⟨hfits.2.1.2.1, hfits.2.2⟩

/-- **A hook that abandons its thread** has not cleaned up. -/
theorem Fits.not_sound_of_abandons (hfits : Fits g x) (habandons : Abandons x o)
    (h : Handshake.hookStep o g x = some done) : ¬ Sound done.2 := by
  obtain ⟨kind, hook, thread, shouldStop, data, mapping⟩ := x
  have hmapping : ∀ {g x}, Mapping g x → ¬ (x.thread = .none ∨ x.thread = .exited) := by
    rintro g x ⟨-, hthread⟩ (hat | hat) <;> rw [hat] at hthread <;> exact hthread
  have hmapped : ∀ {g x}, Mapped g x → ¬ (x.thread = .none ∨ x.thread = .exited) := by
    rintro g x ⟨-, -, hthread⟩ (hat | hat) <;> rw [hat] at hthread <;> exact hthread
  intro hsound
  rcases habandons with ⟨hat, hpinned⟩ | ⟨hat, hleaves⟩
  · obtain rfl : hook = .pinPages := hat
    cases h
    simp only [hpinned] at hsound
    have hgone := (hsound.clean rfl).thread
    obtain ⟨-, hmap | ⟨hmap, -⟩⟩ := hfits
    · exact hmapping hmap hgone
    · exact hmapped hmap hgone
  · obtain rfl : hook = .remapPages := hat
    cases h
    simp only [hleaves] at hsound
    exact hmapped hfits.2.1 (hsound.clean rfl).thread

/-- A completion can be waited for unless nobody has completed it. -/
theorem Completion.waitFor_eq_none {c : Completion} (h : c.waitFor = none) : c.done = 0 := by
  rw [Completion.waitFor] at h
  split at h
  · cases h
  · exact Nat.eq_zero_of_not_pos ‹_›

/-- Up to the completion of `analyzer_mmap_done` the thread never waits. -/
theorem Mapping.not_stuck (hmap : Mapping g x) :
    ¬ ∀ o, Handshake.threadStep o g x = none := by
  obtain ⟨kind, hook, thread, shouldStop, data, mapping⟩ := x
  intro hstuck
  have hone := hstuck ⟨0, false⟩
  cases thread with
  | none => exact hmap.2
  | exited => exact hmap.2
  | waitMunmapReady => exact hmap.2
  | spin => exact hmap.2
  | _ => cases hone

/-- Between the two completions the thread waits for what the hook does next. -/
theorem Mapped.stuck (hmapped : Mapped g x) (hstuck : ∀ o, Handshake.threadStep o g x = none) :
    (x.thread = .waitMunmapReady ∧ x.data.address ≠ 0) ∨
      (x.shouldStop = false ∧ x.data.address = 0) := by
  obtain ⟨kind, hook, thread, shouldStop, data, mapping⟩ := x
  obtain ⟨-, -, hthread⟩ := hmapped
  have hone := hstuck ⟨0, false⟩
  cases thread with
  | testAddress => cases hone
  | waitMunmapReady => exact Or.inl ⟨rfl, hthread⟩
  | spin =>
    cases shouldStop with
    | false => exact Or.inr ⟨rfl, hthread⟩
    | true => cases hone
  | _ => exact absurd hthread id

/-- After the completion of `analyzer_munmap_ready` the thread does not wait once it is stopped. -/
theorem Unmapping.not_stuck (hunmapping : Unmapping g x) (hstop : x.shouldStop = true) :
    ¬ ∀ o, Handshake.threadStep o g x = none := by
  obtain ⟨kind, hook, thread, shouldStop, data, mapping⟩ := x
  obtain ⟨-, hthread⟩ := hunmapping
  dsimp only at hthread hstop
  subst hstop
  intro hstuck
  have hone := hstuck ⟨0, false⟩
  cases thread with
  | waitMunmapReady =>
    have hzero := Completion.waitFor_eq_none (Option.map_eq_none_iff.mp hone)
    omega
  | none => exact hthread
  | exited => exact hthread
  | _ => cases hone

/-- **Something is left to execute**, unless the hook has not started, is over, or waits for the
reply. -/
theorem Fits.stuck (hfits : Fits g x) (hhook : ∀ o, Handshake.hookStep o g x = none)
    (hthread : ∀ o, Handshake.threadStep o g x = none) :
    x.hook = .idle ∨ x.hook = .left ∨
      (x.hook = .waitReady ∧ x.thread = .waitMunmapReady ∧ g.analyzerReady.done = 0) := by
  have hone := hhook ⟨true, true, .ok⟩
  obtain ⟨kind, hook, thread, shouldStop, data, mapping⟩ := x
  cases hook with
  | idle => exact Or.inl rfl
  | left => exact Or.inr (Or.inl rfl)
  | waitMmapDone =>
    have hzero := Completion.waitFor_eq_none (Option.map_eq_none_iff.mp hone)
    obtain ⟨-, hmap | ⟨-, hdone⟩⟩ := hfits
    · exact absurd hthread hmap.not_stuck
    · omega
  | waitReady =>
    have hzero := Completion.waitFor_eq_none (Option.map_eq_none_iff.mp hone)
    obtain ⟨-, hmapped, haddress⟩ := hfits
    obtain ⟨hat, -⟩ | ⟨-, hnull⟩ := hmapped.stuck hthread
    · exact Or.inr (Or.inr ⟨rfl, hat, hzero⟩)
    · exact absurd hnull haddress
  | waitExit =>
    obtain ⟨hstop, ⟨hmapped, hnull⟩ | hunmapping | hexited⟩ := hfits
    · obtain ⟨-, haddress⟩ | ⟨hfalse, -⟩ := hmapped.stuck hthread
      · exact absurd hnull haddress
      · exact absurd (hstop.symm.trans hfalse) (by decide)
    · exact absurd hthread (hunmapping.not_stuck hstop)
    · simp only [Handshake.hookStep, if_pos hexited.1] at hone
      cases hone
  | kthreadRun => cases hone
  | _ => cases hone

end Hook

/-! ## Runs -/

/-- **The invariant**: one hook at a time, and each invocation fits the completions. -/
structure Inv (s : World) : Prop where
  one : ∀ i j, (s.inv i).Active → (s.inv j).Active → i = j
  fits : ∀ i, Fits s.globals (s.inv i)

/-- The invariant of an invocation is about the completions of the thread only, and of an invocation
that is not active not even about these. -/
theorem Fits.congr {g g' : Globals} {x : Invocation} (hfits : Fits g x)
    (h : x.Active → g'.mmapDone = g.mmapDone ∧ g'.munmapReady = g.munmapReady) : Fits g' x := by
  by_cases hactive : x.Active
  · obtain ⟨hdone, hready⟩ := h hactive
    unfold Fits Mapping Mapped Unmapping at hfits ⊢
    rw [hdone, hready]
    exact hfits
  · rw [Invocation.Active, not_and_or, not_not, not_not] at hactive
    rcases hactive with hat | hat <;> rw [Fits, hat] at hfits ⊢ <;> exact hfits

theorem Inv.start : Inv World.start := ⟨fun _ _ hi => absurd rfl hi.1, fun _ => rfl⟩

/-- The one active invocation moves, and the others do not look at the completions. -/
theorem Inv.set {s : World} {i : ℕ} {done : Globals × Invocation} (h : Inv s)
    (hactive : (s.inv i).Active) (hfits : Fits done.1 done.2) : Inv (s.set i done) := by
  have halone : ∀ j, ((s.set i done).inv j).Active → j = i := by
    intro j hj
    by_contra hij
    rw [World.set_of_ne s hij] at hj
    exact hij (h.one j i hj hactive)
  refine ⟨fun j k hj hk => (halone j hj).trans (halone k hk).symm, fun j => ?_⟩
  by_cases hij : j = i
  · rw [hij, World.set_same]
    exact hfits
  · rw [World.set_of_ne s hij]
    exact (h.fits j).congr fun hj => absurd (h.one j i hj hactive) hij

/-- **One act** keeps the invariant: it moves the one invocation that is active, or starts one when
none is. -/
theorem Inv.next {s : World} {a : Act} (h : Inv s) (hone : OneAtATime s a) (hkeeps : Keeps s a) :
    Inv (Handshake.next s a) := by
  rw [Handshake.next]
  cases a with
  | reply => exact ⟨h.one, fun i => (h.fits i).congr fun _ => ⟨rfl, rfl⟩⟩
  | enter i kind =>
    rw [step]
    split
    · rw [Option.getD_some]
      have halone : ∀ j, ((s.set i (s.globals,
          ⟨kind, .initMmapDone, .none, false, .live 0, none⟩)).inv j).Active → j = i := by
        intro j hj
        by_contra hij
        rw [World.set_of_ne s hij] at hj
        exact hone j hj
      refine ⟨fun j k hj hk => (halone j hj).trans (halone k hk).symm, fun j => ?_⟩
      by_cases hij : j = i
      · rw [hij, World.set_same]
        exact ⟨rfl, rfl, rfl, rfl⟩
      · rw [World.set_of_ne s hij]
        exact h.fits j
    · exact h
  | hook i o =>
    rw [step]
    cases hstep : Handshake.hookStep o s.globals (s.inv i) with
    | none => exact h
    | some done =>
      exact h.set (active_of_hookStep hstep) ((h.fits i).hookStep hkeeps hstep)
  | thread i o =>
    rw [step]
    cases hstep : Handshake.threadStep o s.globals (s.inv i) with
    | none => exact h
    | some done =>
      have hfits := h.fits i
      exact h.set (hfits.active_of_threadStep hstep) (hfits.threadStep hstep)

/-- A hook that starts does not wait for a reply, and neither does any other because of it. -/
theorem waitReady_of_enter {s : World} {i j : ℕ} {kind : Kind}
    (h : ((Handshake.next s (.enter i kind)).inv j).hook = .waitReady) :
    (s.inv j).hook = .waitReady := by
  rw [Handshake.next, step] at h
  split at h
  · rw [Option.getD_some] at h
    by_cases hij : j = i
    · rw [hij, World.set_same] at h
      cases h
    · rwa [World.set_of_ne s hij] at h
  · exact h

/-- The hooks do not notice what a thread does, and neither does `analyzer_ready`. -/
theorem next_thread_frame (s : World) (i : ℕ) (o : ThreadOutcome) :
    (∀ j, ((Handshake.next s (.thread i o)).inv j).hook = (s.inv j).hook) ∧
      (Handshake.next s (.thread i o)).globals.analyzerReady = s.globals.analyzerReady := by
  rw [Handshake.next, step]
  cases hstep : Handshake.threadStep o s.globals (s.inv i) with
  | none => exact ⟨fun _ => rfl, rfl⟩
  | some done =>
    obtain ⟨hhook, -, -, hready⟩ := threadStep_frame hstep
    refine ⟨fun j => ?_, hready⟩
    rw [Option.map_some, Option.getD_some]
    by_cases hij : j = i
    · rw [hij, World.set_same, hhook]
    · rw [World.set_of_ne s hij]

/-- An act that abandons a thread leaves a hook behind that has not cleaned up. -/
theorem Inv.not_sound {s : World} {a : Act} (h : Inv s) (habandons : ¬ Keeps s a) :
    ¬ ∀ i, Sound ((Handshake.next s a).inv i) := by
  cases a with
  | reply => exact absurd trivial habandons
  | enter i kind => exact absurd trivial habandons
  | thread i o => exact absurd trivial habandons
  | hook i o =>
    have habandons : Abandons (s.inv i) o := not_not.mp habandons
    obtain ⟨done, hstep⟩ : ∃ done, Handshake.hookStep o s.globals (s.inv i) = some done := by
      rcases habandons with ⟨hat, -⟩ | ⟨hat, -⟩ <;> rw [Handshake.hookStep, hat] <;> exact ⟨_, rfl⟩
    intro hsound
    have hi := hsound i
    rw [Handshake.next, step, hstep, Option.map_some, Option.getD_some, World.set_same] at hi
    exact (h.fits i).not_sound_of_abandons habandons hstep hi

/-- **The handshake is sound exactly when no hook abandons its thread.**  In a run of hooks that do
not overlap, with any interleaving of the hooks, their threads and the replies: every hook that is
over has left no thread, no mapping and no data, and every hook that is analyzed has the outcome of
`vm_mmap` to show, unless an mprotect hook returns between the start of its thread and the end. -/
theorem handshake_sound_iff (as : List Act)
    (hone : ∀ x ∈ trace next World.start as, OneAtATime x.1 x.2) :
    (∀ s ∈ states next World.start as, ∀ i, Sound (s.inv i)) ↔
      ∀ x ∈ trace next World.start as, Keeps x.1 x.2 :=
  states_iff_of_trace (I := Inv) (fun _ h i => (h.fits i).sound)
    (fun _ _ h hone hkeeps => h.next hone hkeeps) (fun _ _ h _ habandons => h.not_sound habandons)
    Inv.start hone

/-- The act is the start of a hook. -/
def Act.IsEnter : Act → Bool
  | .enter _ _ => true
  | _ => false

/-- No statement of the act makes a hook leave in the middle. -/
def Act.Succeeds : Act → Bool
  | .hook _ o => o.pinned && o.remapping != .leaves
  | _ => true

/-- An act that is not the start of a hook overlaps with nothing. -/
theorem OneAtATime.of_isEnter {s : World} {a : Act} (h : a.IsEnter = false) : OneAtATime s a := by
  cases a with
  | enter j kind => cases h
  | _ => trivial

theorem Keeps.of_succeeds {s : World} {a : Act} (h : a.Succeeds = true) : Keeps s a := by
  cases a with
  | hook i o =>
    rw [Act.Succeeds, Bool.and_eq_true, bne_iff_ne] at h
    rintro (⟨-, hpinned⟩ | ⟨-, hleaves⟩)
    · rw [h.1] at hpinned
      cases hpinned
    · exact h.2 hleaves
  | _ => trivial

/-- The first hook of a run does not overlap with the others when there are no others. -/
theorem oneAtATime_of_cons {i : ℕ} {kind : Kind} {as : List Act}
    (h : ∀ a ∈ as, a.IsEnter = false) :
    ∀ x ∈ trace Handshake.next World.start (.enter i kind :: as), OneAtATime x.1 x.2 := by
  rw [trace, List.forall_mem_cons]
  exact ⟨fun j hj => hj.1 rfl, fun x hx => .of_isEnter (forall_trace_act_iff.mpr h x hx)⟩

/-- Everything succeeds in a thread. -/
def ThreadOutcome.ok : ThreadOutcome := ⟨8192, true⟩

/-- A hook for a BPF program, up to the wait for the reply. -/
def sampleUpToReply : List Act :=
  [.hook 0 .ok, .hook 0 .ok, .thread 0 .ok, .thread 0 .ok, .thread 0 .ok, .thread 0 .ok,
    .thread 0 .ok, .hook 0 .ok, .hook 0 .ok, .thread 0 .ok, .hook 0 .ok]

/-- An mprotect hook that cannot pin its pages. -/
theorem handshake_sound_iff_of_sample :
    (∀ s ∈ states Handshake.next World.start
        [.enter 0 .mprotect, .hook 0 .ok, .hook 0 .ok, .hook 0 ⟨true, false, .ok⟩],
      ∀ i, Sound (s.inv i)) ↔
      ∀ x ∈ trace Handshake.next World.start
        [.enter 0 .mprotect, .hook 0 .ok, .hook 0 .ok, .hook 0 ⟨true, false, .ok⟩],
        Keeps x.1 x.2 :=
  handshake_sound_iff _ (oneAtATime_of_cons (by decide))

/-- **Nothing but the reply keeps the two waiting.**  In a run of hooks that do not overlap and do
not abandon their threads, a state in which no hook and no thread can go on is one in which every
hook has not started, has cleaned up, or waits for a reply that has not come. -/
theorem handshake_stuck (as : List Act)
    (hone : ∀ x ∈ trace next World.start as, OneAtATime x.1 x.2)
    (hkeeps : ∀ x ∈ trace next World.start as, Keeps x.1 x.2) :
    ∀ s ∈ states next World.start as,
      (∀ i o, step s (.hook i o) = none) → (∀ i o, step s (.thread i o) = none) →
      ∀ i, (s.inv i).hook = .idle ∨ (s.inv i).Clean ∨
        ((s.inv i).hook = .waitReady ∧ (s.inv i).thread = .waitMunmapReady ∧
          s.globals.analyzerReady.done = 0) := by
  intro s hs hhook hthread i
  have hinv : Inv s := forall_states_of_trace (I := Inv)
    (C := fun s a => OneAtATime s a ∧ Keeps s a) (fun _ _ h hC => h.next hC.1 hC.2) Inv.start
    (fun x hx => ⟨hone x hx, hkeeps x hx⟩) s hs
  have hfits := hinv.fits i
  rcases hfits.stuck (fun o => Option.map_eq_none_iff.mp (hhook i o))
    (fun o => Option.map_eq_none_iff.mp (hthread i o)) with hidle | hleft | hwaits
  · exact Or.inl hidle
  · exact Or.inr (Or.inl (hfits.sound.clean hleft))
  · exact Or.inr (Or.inr hwaits)

/-- The hook for a BPF program waits for its reply. -/
theorem handshake_stuck_of_sample :
    (((.enter 0 .bpf :: sampleUpToReply).foldl Handshake.next World.start).inv 0).hook = .idle ∨
      (((.enter 0 .bpf :: sampleUpToReply).foldl Handshake.next World.start).inv 0).Clean ∨
      ((((.enter 0 .bpf :: sampleUpToReply).foldl Handshake.next World.start).inv 0).hook =
          .waitReady ∧
        (((.enter 0 .bpf :: sampleUpToReply).foldl Handshake.next World.start).inv 0).thread =
          .waitMunmapReady ∧
        ((.enter 0 .bpf :: sampleUpToReply).foldl Handshake.next
          World.start).globals.analyzerReady.done = 0) := by
  refine handshake_stuck (.enter 0 .bpf :: sampleUpToReply) (oneAtATime_of_cons (by decide))
    (fun x hx => .of_succeeds (forall_trace_act_iff (Q := fun a => a.Succeeds = true).mpr
      (by decide) x hx)) _ (foldl_mem_states _ _) ?_ ?_ 0
  · intro i o
    rcases i with - | i <;> rfl
  · intro i o
    rcases i with - | i <;> rfl

end Handshake
end LsmFork
