import Mathlib.Logic.Function.Basic
import Mathlib.Data.List.Nodup

/-!
# Replies through one shared register

Any number of clients ask questions on one connection and are answered in the order of the
questions.  A client that has asked takes the next reply, whichever it is, into a register that all
clients share, and in a later step returns what it then finds there.  Nothing in this protects a
client from the others.  But if nobody receives before those who have asked before it have returned,
then every client returns the result of the reply to its own question, however many of them wait at
the same time: `InTurn` says where the replies are in such a run, and is kept by each of the steps.

* `Phase`: where a client stands.
* `FirstInLine`: all who have asked before a client have returned.
* `InTurn`: the replies taken are those of the clients that have received.
* `InTurn.own`: the next reply is that of the first in line.
* `InTurn.ask`, `InTurn.receive`, `InTurn.finish`, `InTurn.leave`: the steps.
-/

namespace LsmFork
namespace SharedReply

/-- Where a client stands: before its receive, between the receive and the return, or done. -/
inductive Phase (ν : Type*) where
  | asking
  | received
  | returned (value : ν)
  deriving DecidableEq

variable {ι β ν : Type*} {read : ℕ → β} {result : β → ν} {waits : ι → Prop}

/-- All who have asked before the client have returned. -/
def FirstInLine (asked : List ι) (phase : ι → Phase ν) (i : ι) : Prop :=
  ∀ (k l : ℕ) (j : ι), asked[k]? = some j → asked[l]? = some i → k < l →
    ∃ value, phase j = .returned value

variable (read result waits) in
/-- The clients take their turns.  `asked` is who has asked, in order, and `read k` the reply to the
`k`-th question; only a client that waits receives. -/
structure InTurn (asked : List ι) (phase : ι → Phase ν) (taken : ℕ) (register : β) : Prop where
  once : asked.Nodup
  taken_le : taken ≤ asked.length
  asking : ∀ k i, asked[k]? = some i → (phase i = .asking ↔ taken ≤ k)
  received : ∀ i, phase i = .received → ∃ k, taken = k + 1 ∧ asked[k]? = some i ∧ register = read k
  returned : ∀ i value, phase i = .returned value → waits i →
    ∃ k, asked[k]? = some i ∧ value = result (read k)

variable {asked : List ι} {phase : ι → Phase ν} {taken : ℕ} {register : β} {i : ι}

theorem InTurn.start (register : β) :
    InTurn read result waits [] (fun _ => .asking) 0 register where
  once := List.nodup_nil
  taken_le := Nat.le_refl 0
  asking k i h := by cases h
  received i h := by cases h
  returned i value h := by cases h

/-- **The next reply is that of the first in line.** -/
theorem InTurn.own (h : InTurn read result waits asked phase taken register) (hasked : i ∈ asked)
    (hphase : phase i = .asking) (hfirst : FirstInLine asked phase i) :
    asked[taken]? = some i := by
  obtain ⟨l, hl, hget⟩ := List.getElem_of_mem hasked
  have hget : asked[l]? = some i := List.getElem?_eq_some_iff.mpr ⟨hl, hget⟩
  have hle : taken ≤ l := (h.asking l i hget).mp hphase
  rcases Nat.lt_or_eq_of_le hle with hlt | rfl
  · -- whoever is next in the order of the questions would be ahead of the client, still asking
    have hnext : asked[taken]? = some asked[taken] := List.getElem?_eq_getElem (Nat.lt_trans hlt hl)
    obtain ⟨value, hvalue⟩ := hfirst taken l _ hnext hget hlt
    rw [(h.asking taken _ hnext).mpr (Nat.le_refl taken)] at hvalue
    cases hvalue
  · exact hget

theorem InTurn.ask (h : InTurn read result waits asked phase taken register) (hasked : i ∉ asked)
    (hphase : phase i = .asking) :
    InTurn read result waits (asked ++ [i]) phase taken register := by
  have hold : ∀ k j, asked[k]? = some j → (asked ++ [i])[k]? = some j := fun k j hget =>
    (List.getElem?_append_left (List.getElem?_eq_some_iff.mp hget).1).trans hget
  refine ⟨?_, ?_, fun k j hget => ?_, fun j hj => ?_, fun j value hvalue hwaits => ?_⟩
  · exact List.nodup_append.mpr ⟨h.once, List.nodup_singleton i, fun j hj l hl heq =>
      hasked (List.mem_singleton.mp hl ▸ heq ▸ hj)⟩
  · rw [List.length_append]
    exact Nat.le_add_right_of_le h.taken_le
  · rcases Nat.lt_or_ge k asked.length with hk | hk
    · rw [List.getElem?_append_left hk] at hget
      exact h.asking k j hget
    · rw [List.getElem?_append_right hk] at hget
      obtain rfl : i = j := List.mem_singleton.mp (List.mem_of_getElem? hget) |>.symm
      exact ⟨fun _ => Nat.le_trans h.taken_le hk, fun _ => hphase⟩
  · obtain ⟨k, htaken, hget, hregister⟩ := h.received j hj
    exact ⟨k, htaken, hold k j hget, hregister⟩
  · obtain ⟨k, hget, hresult⟩ := h.returned j value hvalue hwaits
    exact ⟨k, hold k j hget, hresult⟩

variable [DecidableEq ι]

/-- The first in line takes the next reply, which is its own, into the register. -/
theorem InTurn.receive (h : InTurn read result waits asked phase taken register)
    (hasked : i ∈ asked) (hphase : phase i = .asking) (hfirst : FirstInLine asked phase i) :
    InTurn read result waits asked (Function.update phase i .received) (taken + 1)
      (read taken) := by
  have hown : asked[taken]? = some i := h.own hasked hphase hfirst
  have hlt : taken < asked.length := (List.getElem?_eq_some_iff.mp hown).1
  refine ⟨h.once, hlt, fun k j hget => ?_, fun j hj => ?_, fun j value hvalue hwaits => ?_⟩
  · by_cases hne : j = i
    · subst hne
      obtain rfl : k = taken :=
        (List.getElem?_inj (List.getElem?_eq_some_iff.mp hget).1 h.once).mp (hget.trans hown.symm)
      rw [Function.update_self]
      exact ⟨fun h => (by cases h), fun h => absurd h (Nat.not_succ_le_self k)⟩
    · have hk : taken ≠ k := fun heq => hne (Option.some.inj (hget.symm.trans (heq ▸ hown)))
      rw [Function.update_of_ne hne, h.asking k j hget]
      exact ⟨fun hle => Nat.lt_of_le_of_ne hle hk, Nat.le_of_succ_le⟩
  · by_cases hne : j = i
    · subst hne
      exact ⟨taken, rfl, hown, rfl⟩
    · -- another one that has received and not returned would have asked before
      rw [Function.update_of_ne hne] at hj
      obtain ⟨k, htaken, hget, -⟩ := h.received j hj
      obtain ⟨value, hvalue⟩ := hfirst k taken j hget hown (htaken ▸ Nat.lt_succ_self k)
      rw [hj] at hvalue
      cases hvalue
  · by_cases hne : j = i
    · subst hne
      rw [Function.update_self] at hvalue
      cases hvalue
    · rw [Function.update_of_ne hne] at hvalue
      exact h.returned j value hvalue hwaits

/-- A client that has received returns what is in the register, which is still its own reply. -/
theorem InTurn.finish (h : InTurn read result waits asked phase taken register)
    (hphase : phase i = .received) :
    InTurn read result waits asked (Function.update phase i (.returned (result register))) taken
      register := by
  obtain ⟨k, htaken, hget, hregister⟩ := h.received i hphase
  refine ⟨h.once, h.taken_le, fun l j hl => ?_, fun j hj => ?_, fun j value hvalue hwaits => ?_⟩
  · by_cases hne : j = i
    · subst hne
      have hbefore : ¬ taken ≤ l := by
        rw [← h.asking l j hl, hphase]
        exact fun h => by cases h
      rw [Function.update_self]
      exact ⟨fun h => (by cases h), fun h => absurd h hbefore⟩
    · rw [Function.update_of_ne hne]
      exact h.asking l j hl
  · by_cases hne : j = i
    · subst hne
      rw [Function.update_self] at hj
      cases hj
    · rw [Function.update_of_ne hne] at hj
      exact h.received j hj
  · by_cases hne : j = i
    · subst hne
      rw [Function.update_self] at hvalue
      exact ⟨k, hget, by rw [← hregister, Phase.returned.inj hvalue]⟩
    · rw [Function.update_of_ne hne] at hvalue
      exact h.returned j value hvalue hwaits

/-- A client that does not wait and has asked nothing returns a value of its own. -/
theorem InTurn.leave (h : InTurn read result waits asked phase taken register) (hasked : i ∉ asked)
    (hwaits : ¬ waits i) (value : ν) :
    InTurn read result waits asked (Function.update phase i (.returned value)) taken register := by
  refine ⟨h.once, h.taken_le, fun k j hget => ?_, fun j hj => ?_, fun j value' hvalue hw => ?_⟩
  · have hne : j ≠ i := fun heq => hasked (heq ▸ List.mem_of_getElem? hget)
    rw [Function.update_of_ne hne]
    exact h.asking k j hget
  · by_cases hne : j = i
    · subst hne
      rw [Function.update_self] at hj
      cases hj
    · rw [Function.update_of_ne hne] at hj
      exact h.received j hj
  · by_cases hne : j = i
    · subst hne
      exact absurd hw hwaits
    · rw [Function.update_of_ne hne] at hvalue
      exact h.returned j value' hvalue hw

end SharedReply
end LsmFork
