import LsmFork.Lib.Runs
import Mathlib.Logic.Function.Basic

/-!
# Resources that are acquired and released

A program acquires resources, each under a name of its own, and releases them.  A ledger keeps the
state of every name: fresh, held with what was agreed on at the acquisition, or gone.  When each
acquisition in a run finds its name fresh and each release finds it held under the same terms, and
nothing is held at the end, then every resource that was acquired has been released exactly once,
under its own terms, and it has been held all the time between.

* `Status`, `Access`, `Ledger.next`: the ledger, and what an event does to it.
* `Orderly`: acquisitions of fresh names, and releases of held ones.
* `Idle`: nothing is held.
* `released_exactly_once`: the account of one resource over a whole run.
-/

namespace LsmFork

open Runs

variable {κ τ ε : Type*}

/-- The state of a name. -/
inductive Status (τ : Type*) where
  | fresh
  | held (terms : τ)
  | gone
  deriving DecidableEq

/-- What an event does to the resources. -/
inductive Access (κ τ : Type*) where
  | acquire (k : κ) (terms : τ)
  | release (k : κ) (terms : τ)
  | other

/-- The state of every name. -/
abbrev Ledger (κ τ : Type*) := κ → Status τ

namespace Ledger

/-- At the start of a run. -/
def empty : Ledger κ τ := fun _ => .fresh

/-- Nothing is held. -/
def Idle (l : Ledger κ τ) : Prop := ∀ k t, l k ≠ .held t

/-- The access is in order. -/
def Orderly (l : Ledger κ τ) : Access κ τ → Prop
  | .acquire k _ => l k = .fresh
  | .release k t => l k = .held t
  | .other => True

theorem idle_empty : Idle (empty : Ledger κ τ) := fun _ _ h => by cases h

section Next

variable [DecidableEq κ]

/-- The ledger after an access. -/
def next (l : Ledger κ τ) : Access κ τ → Ledger κ τ
  | .acquire k t => Function.update l k (.held t)
  | .release k _ => Function.update l k .gone
  | .other => l

theorem next_of_ne {l : Ledger κ τ} {a : Access κ τ} {k : κ} (hacquire : ∀ t, a ≠ .acquire k t)
    (hrelease : ∀ t, a ≠ .release k t) : l.next a k = l k := by
  cases a with
  | acquire k' t =>
    have hne : k ≠ k' := by
      rintro rfl
      exact hacquire t rfl
    exact Function.update_of_ne hne _ _
  | release k' t =>
    have hne : k ≠ k' := by
      rintro rfl
      exact hrelease t rfl
    exact Function.update_of_ne hne _ _
  | other => rfl

theorem next_of_gone {l : Ledger κ τ} {a : Access κ τ} {k : κ} (ha : l.Orderly a)
    (hk : l k = .gone) : l.next a k = .gone ∧ ∀ t, a ≠ .release k t := by
  have hacquire : ∀ t, a ≠ .acquire k t := by
    rintro t rfl
    have hfresh : l k = .fresh := ha
    rw [hk] at hfresh
    cases hfresh
  have hrelease : ∀ t, a ≠ .release k t := by
    rintro t rfl
    have hheld : l k = .held t := ha
    rw [hk] at hheld
    cases hheld
  exact ⟨(next_of_ne hacquire hrelease).trans hk, hrelease⟩

/-- What is held stays so under the same terms, or is released under them. -/
theorem next_of_held {l : Ledger κ τ} {a : Access κ τ} {k : κ} {t : τ} (ha : l.Orderly a)
    (hk : l k = .held t) :
    a = .release k t ∨ (l.next a k = .held t ∧ ∀ t', a ≠ .release k t') := by
  by_cases hrelease : ∃ t', a = .release k t'
  · obtain ⟨t', rfl⟩ := hrelease
    have hheld : l k = .held t' := ha
    rw [hk] at hheld
    rw [Status.held.inj hheld]
    exact Or.inl rfl
  · have hacquire : ∀ t', a ≠ .acquire k t' := by
      rintro t' rfl
      have hfresh : l k = .fresh := ha
      rw [hk] at hfresh
      cases hfresh
    have hnone : ∀ t', a ≠ .release k t' := fun t' h => hrelease ⟨t', h⟩
    exact Or.inr ⟨(next_of_ne hacquire hnone).trans hk, hnone⟩

end Next

/-! ## Whole runs -/

variable [DecidableEq κ] {access : ε → Access κ τ} {C : Ledger κ τ → ε → Prop}
  {l l' : Ledger κ τ} {k : κ} {t : τ} {es : List ε}

/-- What is gone stays so along a run, and is not released again. -/
theorem run_of_gone (horderly : ∀ l e, C l e → l.Orderly (access e))
    (h : Passes (fun l e => l.next (access e)) C l es l') (hk : l k = .gone) :
    l' k = .gone ∧ ∀ e ∈ es, ∀ t, access e ≠ .release k t := by
  induction es generalizing l with
  | nil => exact ⟨h.ends ▸ hk, fun e he => absurd he List.not_mem_nil⟩
  | cons e es ih =>
    obtain ⟨he, hrest⟩ := h.of_cons
    obtain ⟨hgone, hnot⟩ := next_of_gone (horderly l e he) hk
    obtain ⟨hend, hothers⟩ := ih hrest hgone
    refine ⟨hend, fun e' he' => ?_⟩
    rcases List.mem_cons.mp he' with rfl | he'
    · exact hnot
    · exact hothers e' he'

/-- **What is held, and not at the end**, is released on the way, once, and each event before that
has met its condition while it was held. -/
theorem run_of_held (horderly : ∀ l e, C l e → l.Orderly (access e))
    (h : Passes (fun l e => l.next (access e)) C l es l') (hk : l k = .held t)
    (hend : l' k ≠ .held t) :
    ∃ mid e post, es = mid ++ e :: post ∧ access e = .release k t ∧
      (∀ e' ∈ mid, ∃ l, C l e' ∧ l k = .held t) ∧
      ∀ e' ∈ mid ++ post, ∀ t', access e' ≠ .release k t' := by
  induction es generalizing l with
  | nil => exact absurd (h.ends ▸ hk) hend
  | cons e es ih =>
    obtain ⟨he, hrest⟩ := h.of_cons
    rcases next_of_held (horderly l e he) hk with hrelease | ⟨hheld, hnot⟩
    · have hgone : l.next (access e) k = .gone := by
        rw [hrelease]
        exact Function.update_self ..
      exact ⟨[], e, es, rfl, hrelease, fun e' he' => absurd he' List.not_mem_nil,
        (run_of_gone horderly hrest hgone).2⟩
    · obtain ⟨mid, e', post, rfl, hrelease, hmid, hothers⟩ := ih hrest hheld
      refine ⟨e :: mid, e', post, rfl, hrelease, ?_, ?_⟩
      · rw [List.forall_mem_cons]
        exact ⟨⟨l, he, hk⟩, hmid⟩
      · rw [List.cons_append, List.forall_mem_cons]
        exact ⟨hnot, hothers⟩

/-- **Every resource is released exactly once**, under the terms of its acquisition, in an orderly
run that leaves it not held; the events between met their conditions while it was held. -/
theorem released_exactly_once (access : ε → Access κ τ)
    (horderly : ∀ l e, C l e → l.Orderly (access e)) {pre post : List ε} {e : ε}
    (h : Passes (fun l e => l.next (access e)) C l (pre ++ e :: post) l')
    (he : access e = .acquire k t) (hend : l' k ≠ .held t) :
    ∃ mid e' post', post = mid ++ e' :: post' ∧ access e' = .release k t ∧
      (∀ e'' ∈ mid, ∃ l, C l e'' ∧ l k = .held t) ∧
      ∀ e' ∈ pre ++ (mid ++ post'), ∀ t', access e' ≠ .release k t' := by
  obtain ⟨hpre, hrest⟩ := h.of_append
  obtain ⟨hC, hpost⟩ := hrest.of_cons
  have hfresh : pre.foldl (fun l e => l.next (access e)) l k = .fresh := by
    have hacquire := horderly _ e hC
    rw [he] at hacquire
    exact hacquire
  have hheld : (pre.foldl (fun l e => l.next (access e)) l).next (access e) k = .held t := by
    rw [he]
    exact Function.update_self ..
  obtain ⟨mid, e', post', rfl, hrelease, hmid, hothers⟩ := run_of_held horderly hpost hheld hend
  refine ⟨mid, e', post', rfl, hrelease, hmid, ?_⟩
  rw [List.forall_mem_append]
  refine ⟨fun e'' he'' t' hbefore => ?_, hothers⟩
  -- a release before the acquisition would have left the name gone
  obtain ⟨as, bs, rfl⟩ := List.append_of_mem he''
  obtain ⟨-, hbs⟩ := hpre.of_append.2.of_cons
  have hgone : (as.foldl (fun l e => l.next (access e)) l).next (access e'') k = .gone := by
    rw [hbefore]
    exact Function.update_self ..
  rw [(run_of_gone horderly hbs hgone).1] at hfresh
  cases hfresh

end Ledger
end LsmFork
