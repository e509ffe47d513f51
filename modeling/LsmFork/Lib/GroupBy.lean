import Mathlib.Data.Finmap
import Mathlib.Order.Lattice
import Mathlib.Tactic

/-!
# Gathering by key

A table that joins the values that come for each key, and starts at the bottom value for a key that
is new.  What a key holds at the end is decided by the values that came for it, in any order.

* `valueAt`, `joinAt`, `joinAll`: the table, one value, and a list of them.
* `mem_joinAll`: the keys.
* `Additive.valueAt_joinAll`: what the values have, the join has, and nothing else.
* `joinAll_perm`: the order of the list does not matter.
-/

namespace LsmFork
namespace GroupBy

variable {κ γ : Type*} [DecidableEq κ] [SemilatticeSup γ] [OrderBot γ]

/-- A table of joined values. -/
abbrev Table (κ γ : Type*) := Finmap fun _ : κ => γ

/-- What the table holds for a key. -/
def valueAt (s : Table κ γ) (k : κ) : γ := (s.lookup k).getD ⊥

/-- One more value for a key. -/
def joinAt (s : Table κ γ) (e : κ × γ) : Table κ γ := s.insert e.1 (valueAt s e.1 ⊔ e.2)

/-- A list of values. -/
def joinAll (s : Table κ γ) (es : List (κ × γ)) : Table κ γ := es.foldl joinAt s

theorem valueAt_empty (k : κ) : valueAt (∅ : Table κ γ) k = ⊥ := by
  rw [valueAt, Finmap.lookup_empty, Option.getD_none]

theorem valueAt_joinAt_self (s : Table κ γ) (e : κ × γ) :
    valueAt (joinAt s e) e.1 = valueAt s e.1 ⊔ e.2 := by
  rw [valueAt, joinAt, Finmap.lookup_insert, Option.getD_some]

theorem valueAt_joinAt_of_ne (s : Table κ γ) {e : κ × γ} {k : κ} (h : k ≠ e.1) :
    valueAt (joinAt s e) k = valueAt s k := by
  rw [valueAt, joinAt, Finmap.lookup_insert_of_ne s h, valueAt]

/-- **The keys** of the table are those that a value came for. -/
theorem mem_joinAll {s : Table κ γ} {es : List (κ × γ)} {k : κ} :
    k ∈ joinAll s es ↔ k ∈ s ∨ ∃ e ∈ es, e.1 = k := by
  induction es generalizing s with
  | nil => simp [joinAll]
  | cons e es ih =>
    rw [joinAll, List.foldl_cons, ← joinAll, ih, joinAt, Finmap.mem_insert,
      List.exists_mem_cons_iff]
    tauto

/-- A property of a join that one of the two parts has. -/
structure Additive (P : γ → Prop) : Prop where
  bot : ¬ P ⊥
  sup : ∀ a b, P (a ⊔ b) ↔ P a ∨ P b

/-- **What a key holds**: it has an additive property when a value that came for the key has it. -/
theorem Additive.valueAt_joinAll {P : γ → Prop} (hP : Additive P) {s : Table κ γ}
    {es : List (κ × γ)} {k : κ} :
    P (valueAt (joinAll s es) k) ↔ P (valueAt s k) ∨ ∃ e ∈ es, e.1 = k ∧ P e.2 := by
  induction es generalizing s with
  | nil => simp [joinAll]
  | cons e es ih =>
    rw [joinAll, List.foldl_cons, ← joinAll, ih, List.exists_mem_cons_iff]
    by_cases hk : e.1 = k
    · subst hk
      rw [valueAt_joinAt_self, hP.sup]
      tauto
    · rw [valueAt_joinAt_of_ne s (Ne.symm hk)]
      tauto

theorem joinAt_comm (s : Table κ γ) (a b : κ × γ) :
    joinAt (joinAt s a) b = joinAt (joinAt s b) a := by
  by_cases hk : b.1 = a.1
  · have hself : valueAt (joinAt s a) b.1 = valueAt s a.1 ⊔ a.2 := by
      rw [hk, valueAt_joinAt_self]
    have hself' : valueAt (joinAt s b) a.1 = valueAt s a.1 ⊔ b.2 := by
      rw [← hk, valueAt_joinAt_self]
    unfold joinAt at hself hself' ⊢
    rw [hself, hself', hk, Finmap.insert_insert, Finmap.insert_insert, sup_right_comm]
  · have hother := valueAt_joinAt_of_ne s hk
    have hother' := valueAt_joinAt_of_ne s (Ne.symm hk)
    unfold joinAt at hother hother' ⊢
    rw [hother, hother', Finmap.insert_insert_of_ne s (Ne.symm hk)]

/-- **The order does not matter.** -/
theorem joinAll_perm {es es' : List (κ × γ)} (h : es.Perm es') (s : Table κ γ) :
    joinAll s es = joinAll s es' :=
  h.foldl_eq' (fun a _ b _ t => joinAt_comm t a b) s

end GroupBy
end LsmFork
