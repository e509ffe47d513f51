import Mathlib.Data.List.Basic

/-!
# Seccomp filters

A filter looks at the number and the six arguments of a system call and decides what becomes of it.
Its rules name a call and comparisons on the arguments, all of which have to hold; a call that no
rule matches gets the default action.

* `Call`, `ArgCmp`, `Rule`, `FilterCtx`: the call, and the parts of a filter.
* `FilterCtx.action`: what the filter decides.
* `FilterCtx.action_eq_default_iff`: when all rules take another action, the default is left for the
  calls that no rule matches.
-/

namespace LsmFork
namespace Seccomp

variable {ν : Type*} [DecidableEq ν]

/-- A system call, with what stands in its six argument registers. -/
structure Call (ν : Type*) where
  nr : ν
  args : Fin 6 → UInt64

/-- `SCMP_CMP_MASKED_EQ` on one argument: `args[arg] & mask == datum`. -/
structure ArgCmp where
  arg : Fin 6
  mask : UInt64
  datum : UInt64
  deriving DecidableEq

/-- The comparison holds. -/
def ArgCmp.Holds (c : ArgCmp) (args : Fin 6 → UInt64) : Prop := args c.arg &&& c.mask = c.datum

instance (c : ArgCmp) (args : Fin 6 → UInt64) : Decidable (c.Holds args) :=
  inferInstanceAs (Decidable (_ = _))

/-- What becomes of a call: it is made, or it returns an error at once. -/
inductive Action where
  | allow
  | errno (e : ℕ)
  deriving DecidableEq

/-- An action for the calls of one number whose arguments pass the comparisons. -/
structure Rule (ν : Type*) where
  action : Action
  nr : ν
  cmps : List ArgCmp
  deriving DecidableEq

/-- The rule is for the call. -/
def Rule.Matches (r : Rule ν) (c : Call ν) : Prop := c.nr = r.nr ∧ ∀ cmp ∈ r.cmps, cmp.Holds c.args

instance (r : Rule ν) (c : Call ν) : Decidable (r.Matches c) :=
  inferInstanceAs (Decidable (_ ∧ _))

/-- A filter. -/
structure FilterCtx (ν : Type*) where
  default : Action
  rules : List (Rule ν)
  deriving DecidableEq

/-- What the filter decides. -/
def FilterCtx.action (f : FilterCtx ν) (c : Call ν) : Action :=
  match f.rules.find? fun r => r.Matches c with
  | some r => r.action
  | none => f.default

/-- **The default action** is left for the calls that no rule matches. -/
theorem FilterCtx.action_eq_default_iff {f : FilterCtx ν} (h : ∀ r ∈ f.rules, r.action ≠ f.default)
    (c : Call ν) : f.action c = f.default ↔ ∀ r ∈ f.rules, ¬ r.Matches c := by
  rw [action]
  cases hfind : f.rules.find? fun r => r.Matches c with
  | none =>
    refine iff_of_true rfl fun r hr => ?_
    simpa using List.find?_eq_none.mp hfind r hr
  | some r =>
    have hmem := List.mem_of_find?_eq_some hfind
    have hmatches : r.Matches c := by simpa using List.find?_some hfind
    exact iff_of_false (h r hmem) fun hnone => hnone r hmem hmatches

end Seccomp
end LsmFork
