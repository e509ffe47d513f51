import LsmFork.Lib.Runs
import Mathlib.Data.Multiset.AddSub
import Mathlib.Tactic

/-!
# References that are taken and dropped

A program takes references to objects, any number to one object, and drops them.  What it holds at
a point is a multiset of objects: a reference that is taken is one more, and one that is dropped has
to be there and is one less.  A list of events that leads from nothing held to nothing held is
balanced: every object is dropped as often as it is taken, and never ahead of that.

* `RefOp`, `References.next`, `References.Held`: what an event does, and when it may.
* `Moves`: the events lead from one multiset to another, and drop only what is held.
* `Moves.take`, `Moves.drop`, `Moves.other`, `moves_takes`, `moves_drops`: one event, and several.
* `Moves.frame`, `Moves.moves_iff`: what the events leave alone, and what they lead to.
* `Moves.counts`: the account of one object.
* `Balanced`: from nothing held to nothing held.
-/

namespace LsmFork

/-- What an event does to the references. -/
inductive RefOp (κ : Type*) where
  | take (k : κ)
  | drop (k : κ)
  | other
  deriving DecidableEq

namespace References

open Runs

variable {κ ε β : Type*} [DecidableEq κ]

/-- The references held after an event. -/
def next (held : Multiset κ) : RefOp κ → Multiset κ
  | .take k => k ::ₘ held
  | .drop k => held.erase k
  | .other => held

/-- What an event drops is held. -/
def Held (held : Multiset κ) : RefOp κ → Prop
  | .drop k => k ∈ held
  | _ => True

instance (held : Multiset κ) : DecidablePred (Held held)
  | .take _ => inferInstanceAs (Decidable True)
  | .drop k => inferInstanceAs (Decidable (k ∈ held))
  | .other => inferInstanceAs (Decidable True)

/-- The events lead from the references `held` to `held'`, and drop only what is held. -/
abbrev Moves (access : ε → RefOp κ) (held : Multiset κ) (es : List ε) (held' : Multiset κ) : Prop :=
  Passes (fun h e => next h (access e)) (fun h e => Held h (access e)) held es held'

/-- The number of times that an object is taken. -/
def taken (access : ε → RefOp κ) (k : κ) (es : List ε) : ℕ := es.countP fun e => access e = .take k

/-- The number of times that an object is dropped. -/
def dropped (access : ε → RefOp κ) (k : κ) (es : List ε) : ℕ :=
  es.countP fun e => access e = .drop k

/-- The events take and drop references, and end with none. -/
def Balanced (access : ε → RefOp κ) (es : List ε) : Prop := Moves access 0 es 0

variable {access : ε → RefOp κ} {held held' : Multiset κ} {e : ε} {es : List ε} {k : κ}

namespace Moves

/-! ## One event -/

theorem take (he : access e = .take k) (h : Moves access (k ::ₘ held) es held') :
    Moves access held (e :: es) held' :=
  Passes.cons (by rw [he]; trivial) (by rw [he]; exact h)

theorem drop (he : access e = .drop k) (h : Moves access held es held') :
    Moves access (k ::ₘ held) (e :: es) held' :=
  Passes.cons (by rw [he]; exact Multiset.mem_cons_self k held)
    (by rw [he, next, Multiset.erase_cons_head]; exact h)

theorem other (he : access e = .other) (h : Moves access held es held') :
    Moves access held (e :: es) held' :=
  Passes.cons (by rw [he]; trivial) (by rw [he]; exact h)

/-! ## What the events lead to -/

theorem moves_iff {held'' : Multiset κ} (h : Moves access held es held') :
    Moves access held es held'' ↔ held' = held'' := by
  constructor
  · intro h'
    exact h.ends.symm.trans h'.ends
  · rintro rfl
    exact h

theorem frame (h : Moves access held es held') (rest : Multiset κ) :
    Moves access (rest + held) es (rest + held') := by
  induction es generalizing held with
  | nil =>
    have hend : held = held' := h.ends
    rw [hend]
    exact Passes.nil _
  | cons e es ih =>
    obtain ⟨hheld, hrest⟩ := h.of_cons
    have hnext := ih hrest
    cases he : access e with
    | take k =>
      rw [he, next, Multiset.add_cons] at hnext
      exact take he hnext
    | drop k =>
      rw [he] at hheld
      have hk : k ∈ held := hheld
      rw [he, next] at hnext
      rw [← Multiset.cons_erase hk, Multiset.add_cons]
      exact drop he hnext
    | other =>
      rw [he, next] at hnext
      exact other he hnext

/-! ## Counting -/

/-- **The account of one object**: what was held and what is taken has been dropped or is held. -/
theorem counts (h : Moves access held es held') (k : κ) :
    taken access k es + held.count k = dropped access k es + held'.count k := by
  induction es generalizing held with
  | nil =>
    have hend : held = held' := h.ends
    rw [hend]
    rfl
  | cons e es ih =>
    obtain ⟨hheld, hrest⟩ := h.of_cons
    have hcount := ih hrest
    rw [taken, dropped, List.countP_cons, List.countP_cons, ← taken, ← dropped]
    cases he : access e with
    | take k' =>
      rw [he, next] at hcount
      by_cases hk : k' = k
      · subst hk
        rw [Multiset.count_cons_self] at hcount
        simp only [decide_true, reduceCtorEq, decide_false, if_true, Bool.false_eq_true, if_false]
        omega
      · rw [Multiset.count_cons_of_ne (Ne.symm hk)] at hcount
        simp only [RefOp.take.injEq, hk, reduceCtorEq, decide_false, Bool.false_eq_true, if_false]
        omega
    | drop k' =>
      rw [he, next] at hcount
      rw [he] at hheld
      by_cases hk : k' = k
      · subst hk
        have hpos : 0 < held.count k' := Multiset.count_pos.mpr hheld
        rw [Multiset.count_erase_self] at hcount
        simp only [reduceCtorEq, decide_false, decide_true, Bool.false_eq_true, if_false, if_true]
        omega
      · rw [Multiset.count_erase_of_ne (Ne.symm hk)] at hcount
        simp only [RefOp.drop.injEq, hk, reduceCtorEq, decide_false, Bool.false_eq_true, if_false]
        omega
    | other =>
      rw [he, next] at hcount
      simp only [reduceCtorEq, decide_false, Bool.false_eq_true, if_false]
      omega

end Moves

/-! ## Several events -/

theorem moves_others (h : ∀ e ∈ es, access e = .other) (held : Multiset κ) :
    Moves access held es held := by
  induction es with
  | nil => exact Passes.nil held
  | cons e es ih =>
    obtain ⟨he, hes⟩ := List.forall_mem_cons.mp h
    exact Moves.other he (ih hes)

theorem moves_takes (f : β → ε) (g : β → κ) (h : ∀ b, access (f b) = .take (g b)) (bs : List β)
    (held : Multiset κ) : Moves access held (bs.map f) (↑(bs.map g) + held) := by
  induction bs generalizing held with
  | nil =>
    rw [List.map_nil, List.map_nil, Multiset.coe_nil, zero_add]
    exact Passes.nil held
  | cons b bs ih =>
    rw [List.map_cons, List.map_cons, ← Multiset.cons_coe, Multiset.cons_add,
      ← Multiset.add_cons]
    exact Moves.take (h b) (ih _)

theorem moves_drops (f : β → ε) (g : β → κ) (h : ∀ b, access (f b) = .drop (g b)) (bs : List β)
    (held : Multiset κ) : Moves access (↑(bs.map g) + held) (bs.map f) held := by
  induction bs with
  | nil =>
    rw [List.map_nil, List.map_nil, Multiset.coe_nil, zero_add]
    exact Passes.nil held
  | cons b bs ih =>
    rw [List.map_cons, List.map_cons, ← Multiset.cons_coe, Multiset.cons_add]
    exact Moves.drop (h b) ih

namespace Balanced

/-- **Every object is dropped as often as it is taken.** -/
theorem taken_eq_dropped (h : Balanced access es) (k : κ) :
    taken access k es = dropped access k es := by
  have hcount := Moves.counts h k
  rwa [Multiset.count_zero, Nat.add_zero, Nat.add_zero] at hcount

/-- At no point has an object been dropped more often than taken. -/
theorem dropped_le_taken {pre post : List ε} (h : Balanced access (pre ++ post)) (k : κ) :
    dropped access k pre ≤ taken access k pre := by
  have hcount := Moves.counts h.of_append.1 k
  rw [Multiset.count_zero, Nat.add_zero] at hcount
  omega

end Balanced
end References
end LsmFork
