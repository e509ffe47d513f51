import Mathlib.Data.Finset.Card
import Mathlib.Tactic

/-!
# The first free name

A name that is in use is replaced by the next of a sequence of numbered names, until one is free.
Nothing bounds the loop but the names in use: there are finitely many, and no two numbers give the
same name, so each turn leaves one name fewer that can still be in the way.

* `Numbering`: names with numbers, all different.
* `firstFree`: the loop.
* `firstFree_notMem`: where it stops, the name is free.
* `firstFree_tried`: it stops after at most one turn more than there are names in use.
-/

namespace LsmFork

/-- Names with numbers; no two numbers give the same name. -/
structure Numbering (α : Type*) where
  name : ℕ → α
  injective : Function.Injective name

namespace Numbering

variable {α : Type*} (num : Numbering α) (used : Finset α)

open Classical in
/-- The names in use that are those of a number from `n` on. -/
noncomputable def usedFrom (n : ℕ) : Finset α := used.filter fun a => ∃ m ≥ n, num.name m = a

/-- Without the name of `n`, one fewer is left. -/
theorem usedFrom_succ_lt {n : ℕ} (h : num.name n ∈ used) :
    (num.usedFrom used (n + 1)).card < (num.usedFrom used n).card := by
  classical
  refine Finset.card_lt_card (Finset.ssubset_iff_subset_ne.mpr ⟨?_, fun heq => ?_⟩)
  · intro a ha
    obtain ⟨hmem, m, hm, hname⟩ := Finset.mem_filter.mp ha
    exact Finset.mem_filter.mpr ⟨hmem, m, by omega, hname⟩
  · have hn : num.name n ∈ num.usedFrom used n := Finset.mem_filter.mpr ⟨h, n, le_refl n, rfl⟩
    rw [← heq] at hn
    obtain ⟨-, m, hm, hname⟩ := Finset.mem_filter.mp hn
    have := num.injective hname
    omega

theorem usedFrom_succ_le (n : ℕ) :
    (num.usedFrom used (n + 1)).card ≤ (num.usedFrom used n).card := by
  classical
  refine Finset.card_le_card fun a ha => ?_
  obtain ⟨hmem, m, hm, hname⟩ := Finset.mem_filter.mp ha
  exact Finset.mem_filter.mpr ⟨hmem, m, by omega, hname⟩

/-- The names in the order in which the loop tries them. -/
def tried (x : α) (n : ℕ) : ℕ → α
  | 0 => x
  | i + 1 => num.name (n + i)

theorem tried_succ (x : α) (n i : ℕ) :
    num.tried x n (i + 1) = num.tried (num.name n) (n + 1) i := by
  cases i with
  | zero => rfl
  | succ i =>
    show num.name (n + (i + 1)) = num.name (n + 1 + i)
    congr 1
    omega

/-- Names in use that the loop tries one after the other are different, from the second on. -/
theorem le_card_of_tried {x : α} {n k : ℕ} (h : ∀ i < k, num.tried x n i ∈ used) :
    k ≤ used.card + 1 := by
  have hcard : (Finset.range (k - 1)).card ≤ used.card := by
    refine Finset.card_le_card_of_injOn (fun i => num.name (n + i)) (fun i hi => ?_)
      (fun i _ j _ heq => ?_)
    · exact h (i + 1) (by have := Finset.mem_range.mp hi; omega)
    · have := num.injective heq
      omega
  rw [Finset.card_range] at hcard
  omega

variable [DecidableEq α]

/-- The loop: as long as `x` is in use, take the name of `n` and go on with the next number. -/
def firstFree (x : α) (n : ℕ) : α :=
  if x ∈ used then firstFree (num.name n) (n + 1) else x
termination_by (num.usedFrom used n).card + if x ∈ used then 1 else 0
decreasing_by
  rw [if_pos ‹x ∈ used›]
  split
  · rename_i hnext
    have := num.usedFrom_succ_lt used hnext
    omega
  · have := num.usedFrom_succ_le used n
    omega

/-- **The loop stops at a free name.** -/
theorem firstFree_notMem (x : α) (n : ℕ) : num.firstFree used x n ∉ used := by
  fun_induction firstFree num used x n with
  | case1 x n hused ih => exact ih
  | case2 x n hfree => exact hfree

/-- **The loop stops**, after at most one turn more than there are names in use: it takes the first
free one of the names that it tries. -/
theorem firstFree_tried (x : α) (n : ℕ) : ∃ k ≤ used.card + 1,
    num.firstFree used x n = num.tried x n k ∧ ∀ i < k, num.tried x n i ∈ used := by
  suffices hstop : ∃ k, num.firstFree used x n = num.tried x n k ∧
      ∀ i < k, num.tried x n i ∈ used by
    obtain ⟨k, heq, hused⟩ := hstop
    exact ⟨k, num.le_card_of_tried used hused, heq, hused⟩
  fun_induction firstFree num used x n with
  | case1 x n hused ih =>
    obtain ⟨k, heq, hbefore⟩ := ih
    refine ⟨k + 1, heq.trans (num.tried_succ x n k).symm, fun i hi => ?_⟩
    cases i with
    | zero => exact hused
    | succ i =>
      rw [num.tried_succ]
      exact hbefore i (by omega)
  | case2 x n hfree => exact ⟨0, rfl, fun i hi => absurd hi (Nat.not_lt_zero i)⟩

end Numbering
end LsmFork
