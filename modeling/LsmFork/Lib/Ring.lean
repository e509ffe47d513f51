import LsmFork.Lib.Runs
import Mathlib.Tactic

/-!
# Blocks around a ring

A ring of `n` cells holds a block that may run over the last cell and go on with the first.  Two
places, the tail and the head, delimit the block, and equal places mean that it is empty; so a ring
holds at most `n - 1` items.  A block that is put behind another one, with room for both, makes one
longer block and leaves the first as it was.

* `items`: the items of a block, by its first place and its length.
* `ahead`: the length of the block between two places.
* `items_of_le`, `items_of_wrap`: a block in one piece, and one in two.
* `Puts`: a ring in which a block has been put; `Puts.append`, `Puts.items_append`.
* `conserved`: what goes into a queue comes out of it in the same order, or is still in it.
-/

namespace LsmFork
namespace RingBlocks

variable {α : Type*} {n : ℕ} {cells cells' cells'' : ℕ → α}

/-- The `k` items from a place on, around a ring of `n` cells. -/
def items (n : ℕ) (cells : ℕ → α) (start k : ℕ) : List α :=
  (List.range k).map fun i => cells ((start + i) % n)

/-- The number of places from `tail` on before `head`. -/
def ahead (n head tail : ℕ) : ℕ := if tail ≤ head then head - tail else n - tail + head

/-! ## Places -/

theorem ahead_lt {head tail : ℕ} (hhead : head < n) (htail : tail < n) : ahead n head tail < n := by
  unfold ahead
  split <;> omega

theorem ahead_eq_zero_iff {head tail : ℕ} (htail : tail < n) :
    ahead n head tail = 0 ↔ head = tail := by
  unfold ahead
  split <;> omega

theorem add_ahead_mod {head tail : ℕ} (hhead : head < n) (htail : tail < n) :
    (tail + ahead n head tail) % n = head := by
  unfold ahead
  split
  · rw [Nat.add_sub_cancel' ‹_›, Nat.mod_eq_of_lt hhead]
  · rw [show tail + (n - tail + head) = head + n by omega, Nat.add_mod_right,
      Nat.mod_eq_of_lt hhead]

/-- A place that is `k` places on, and `k` is not a whole turn. -/
theorem ahead_add_mod {tail k : ℕ} (htail : tail < n) (hk : k < n) :
    ahead n ((tail + k) % n) tail = k := by
  rcases Nat.lt_or_ge (tail + k) n with h | h
  · rw [Nat.mod_eq_of_lt h, ahead, if_pos (Nat.le_add_right _ _), Nat.add_sub_cancel_left]
  · have hmod : (tail + k) % n = tail + k - n := by
      rw [Nat.mod_eq_sub_mod h, Nat.mod_eq_of_lt (by omega)]
    rw [hmod, ahead, if_neg (by omega)]
    omega

/-- Two places less than a turn apart are different. -/
theorem mod_ne_of_lt {s i j : ℕ} (hij : i < j) (hj : j < i + n) : (s + i) % n ≠ (s + j) % n := by
  intro h
  have hdvd : n ∣ (s + j) - (s + i) := (Nat.modEq_iff_dvd' (by omega)).mp h
  have hle := Nat.le_of_dvd (by omega) hdvd
  omega

/-! ## Blocks -/

@[simp] theorem items_length (cells : ℕ → α) (start k : ℕ) :
    (items n cells start k).length = k := by
  rw [items, List.length_map, List.length_range]

theorem items_add (cells : ℕ → α) (start j k : ℕ) :
    items n cells start (j + k) = items n cells start j ++ items n cells (start + j) k := by
  rw [items, List.range_add, List.map_append, List.map_map]
  simp only [items, Function.comp_def, Nat.add_assoc]

theorem items_mod (cells : ℕ → α) (start k : ℕ) :
    items n cells (start % n) k = items n cells start k := by
  simp only [items, Nat.mod_add_mod]

theorem items_take (cells : ℕ → α) (start : ℕ) {m k : ℕ} (h : m ≤ k) :
    (items n cells start k).take m = items n cells start m := by
  obtain ⟨j, rfl⟩ := Nat.exists_eq_add_of_le h
  rw [items_add, List.take_left' (items_length _ _ _)]

theorem items_drop (cells : ℕ → α) (start : ℕ) {m k : ℕ} (h : m ≤ k) :
    (items n cells start k).drop m = items n cells (start + m) (k - m) := by
  obtain ⟨j, rfl⟩ := Nat.exists_eq_add_of_le h
  rw [items_add, List.drop_left' (items_length _ _ _), Nat.add_sub_cancel_left]

theorem items_congr {start k : ℕ}
    (h : ∀ i < k, cells ((start + i) % n) = cells' ((start + i) % n)) :
    items n cells start k = items n cells' start k :=
  List.map_congr_left fun i hi => h i (List.mem_range.mp hi)

theorem items_of_le {start k : ℕ} (h : start + k ≤ n) :
    items n cells start k = (List.range k).map fun i => cells (start + i) := by
  refine List.map_congr_left fun i hi => ?_
  rw [Nat.mod_eq_of_lt (by have := List.mem_range.mp hi; omega)]

theorem items_of_wrap {start k : ℕ} (hstart : start < n) (h : n ≤ start + k) :
    items n cells start k =
      items n cells start (n - start) ++ items n cells 0 (k - (n - start)) := by
  have hsplit : k = n - start + (k - (n - start)) := by omega
  have hend : (start + (n - start)) % n = 0 := by
    rw [Nat.add_sub_cancel' hstart.le, Nat.mod_self]
  conv_lhs => rw [hsplit, items_add]
  rw [← items_mod cells (start + (n - start)), hend]

/-- The cells of the ring after a block has been put into it. -/
structure Puts (n : ℕ) (cells : ℕ → α) (pos : ℕ) (xs : List α) (cells' : ℕ → α) : Prop where
  there : items n cells' pos xs.length = xs
  elsewhere : ∀ a < n, (∀ i < xs.length, a ≠ (pos + i) % n) → cells' a = cells a

namespace Puts

variable {pos : ℕ} {xs ys : List α}

theorem of_mod (h : Puts n cells (pos % n) xs cells') : Puts n cells pos xs cells' where
  there := by
    rw [← items_mod]
    exact h.there
  elsewhere a ha hne := h.elsewhere a ha fun i hi => by
    rw [Nat.mod_add_mod]
    exact hne i hi

theorem items_eq (hpos : 0 < n) (h : Puts n cells pos xs cells') {start k : ℕ}
    (hne : ∀ i < k, ∀ j < xs.length, (start + i) % n ≠ (pos + j) % n) :
    items n cells' start k = items n cells start k :=
  items_congr fun i hi => h.elsewhere _ (Nat.mod_lt _ hpos) (hne i hi)

theorem items_append (hpos : 0 < n) {start k : ℕ} (h : Puts n cells (start + k) xs cells')
    (hroom : k + xs.length ≤ n) :
    items n cells' start (k + xs.length) = items n cells start k ++ xs := by
  have hfirst : items n cells' start k = items n cells start k := by
    refine h.items_eq hpos fun i hi j hj => ?_
    rw [Nat.add_assoc]
    exact mod_ne_of_lt (by omega) (by omega)
  rw [items_add, hfirst, h.there]

theorem append (hpos : 0 < n) (h : Puts n cells pos xs cells')
    (h' : Puts n cells' (pos + xs.length) ys cells'') (hroom : xs.length + ys.length ≤ n) :
    Puts n cells pos (xs ++ ys) cells'' where
  there := by
    rw [List.length_append, h'.items_append hpos hroom, h.there]
  elsewhere a ha hne := by
    rw [List.length_append] at hne
    have hsecond : cells'' a = cells' a := by
      refine h'.elsewhere a ha fun i hi => ?_
      rw [Nat.add_assoc]
      exact hne _ (by omega)
    rw [hsecond]
    exact h.elsewhere a ha fun i hi => hne i (by omega)

end Puts

/-! ## Queues -/

open Runs

/-- **First in, first out.**  When every act of a run adds to the back of what is in the queue and
takes from its front, all that goes in comes out in the same order, or is still there. -/
theorem conserved {σ ο : Type*} {next : σ → ο → σ} {I : σ → Prop} {C : σ → ο → Prop}
    {contents : σ → List α} {ins outs : σ → ο → List α}
    (hstep : ∀ {s : σ} {o : ο}, I s → C s o →
      I (next s o) ∧ contents s ++ ins s o = outs s o ++ contents (next s o))
    {s : σ} (hs : I s) {os : List ο} (h : ∀ x ∈ trace next s os, C x.1 x.2) :
    contents s ++ (trace next s os).flatMap (fun x => ins x.1 x.2) =
      (trace next s os).flatMap (fun x => outs x.1 x.2) ++ contents (os.foldl next s) := by
  induction os generalizing s with
  | nil => simp [trace]
  | cons o os ih =>
    rw [trace, List.forall_mem_cons] at h
    obtain ⟨hnext, hone⟩ := hstep hs h.1
    rw [trace, List.flatMap_cons, List.flatMap_cons, List.foldl_cons, ← List.append_assoc, hone,
      List.append_assoc, ih hnext h.2, List.append_assoc]

end RingBlocks
end LsmFork
