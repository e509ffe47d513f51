import Mathlib.Tactic

/-!
# Writing into the middle of a list

`overwrite buf off xs` is the list `buf` with `xs` laid over it from position `off` on.  A block
that fits is written item by item with the same result, in whatever pieces it comes.

* `overwrite_set`: the first item written, then the rest.
* `overwrite_replicate`: laid over a constant list.
* `getElem?_overwrite`: an item of the result is one of the block, or one of the list.
* `flatMap_eq_replicate_iff`: when a list of equal blocks is constant.
-/

namespace LsmFork

variable {α : Type*}

/-- The list `buf` with `xs` in place of its items from `off` on. -/
def overwrite (buf : List α) (off : ℕ) (xs : List α) : List α :=
  buf.take off ++ xs ++ buf.drop (off + xs.length)

@[simp] theorem overwrite_nil (buf : List α) (off : ℕ) : overwrite buf off [] = buf := by
  rw [overwrite, List.append_nil, List.length_nil, Nat.add_zero, List.take_append_drop]

/-- Writing the first item and then the others writes the block. -/
theorem overwrite_set {buf : List α} {off : ℕ} (x : α) (xs : List α) (h : off < buf.length) :
    overwrite (buf.set off x) (off + 1) xs = overwrite buf off (x :: xs) := by
  have htake : (buf.set off x).take (off + 1) = buf.take off ++ [x] := by
    rw [List.take_add_one, List.take_set_of_le (le_refl _), List.getElem?_set_self h]
    rfl
  have hdrop : (buf.set off x).drop (off + 1 + xs.length) =
      buf.drop (off + (x :: xs).length) := by
    rw [List.drop_set_of_lt (by omega), List.length_cons]
    congr 1
    omega
  rw [overwrite, overwrite, htake, hdrop, List.append_assoc, List.append_assoc, List.append_assoc,
    List.singleton_append]
  rfl

theorem overwrite_replicate (x : α) (n : ℕ) (xs : List α) :
    overwrite (List.replicate (n + xs.length) x) n xs = List.replicate n x ++ xs := by
  rw [overwrite, List.take_replicate, List.drop_replicate, Nat.sub_self, List.replicate_zero,
    List.append_nil, Nat.min_eq_left (Nat.le_add_right _ _)]

/-- An item of the result stands in the block, or in the list outside it. -/
theorem getElem?_overwrite {buf : List α} {off : ℕ} (xs : List α) (h : off ≤ buf.length) (k : ℕ) :
    (overwrite buf off xs)[k]? =
      if off ≤ k ∧ k < off + xs.length then xs[k - off]? else buf[k]? := by
  have hfront : (buf.take off ++ xs).length = off + xs.length := by
    rw [List.length_append, List.length_take_of_le h]
  rw [overwrite]
  rcases Nat.lt_or_ge k (off + xs.length) with hlt | hge
  · rw [List.getElem?_append_left (hfront ▸ hlt)]
    rcases Nat.lt_or_ge k off with hbefore | hinside
    · rw [if_neg (fun hk => absurd hk.1 (Nat.not_le_of_lt hbefore)),
        List.getElem?_append_left (by rwa [List.length_take_of_le h]),
        List.getElem?_take_of_lt hbefore]
    · rw [if_pos ⟨hinside, hlt⟩, List.getElem?_append_right (by rwa [List.length_take_of_le h]),
        List.length_take_of_le h]
  · rw [if_neg (fun hk => absurd hk.2 (Nat.not_lt_of_ge hge)),
      List.getElem?_append_right (hfront ▸ hge), List.getElem?_drop, hfront,
      Nat.add_sub_cancel' hge]

/-- Blocks of equal length are constant together exactly when each of them is. -/
theorem flatMap_eq_replicate_iff {β : Type*} (f : β → List α) {n : ℕ} (x : α)
    (hlen : ∀ b, (f b).length = n) (l : List β) :
    l.flatMap f = List.replicate (l.length * n) x ↔ ∀ b ∈ l, f b = List.replicate n x := by
  induction l with
  | nil => simp
  | cons b l ih =>
    have hsplit : List.replicate ((b :: l).length * n) x =
        List.replicate n x ++ List.replicate (l.length * n) x := by
      rw [List.replicate_append_replicate, List.length_cons]
      congr 1
      ring
    rw [List.flatMap_cons, hsplit, List.forall_mem_cons, ← ih]
    constructor
    · intro h
      exact List.append_inj h (by rw [hlen, List.length_replicate])
    · rintro ⟨hb, hl⟩
      rw [hb, hl]

end LsmFork
