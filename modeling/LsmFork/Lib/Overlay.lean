import LsmFork.Lib.MaximalRuns
import LsmFork.Lib.Overwrite

/-!
# Laying the runs of a row over a buffer

A sparse row is sent as its maximal runs, each with its position.  Laid over a buffer that has the
content of a gap everywhere, the runs give the content of the whole row back.

* `overwrite_append`: a block, and another one right behind it.
* `overlay`: pieces laid over a list one after another.
* `overlay_runs`: the runs of a row.
-/

namespace LsmFork

variable {α β : Type*}

/-- Two blocks, the second one right behind the first, are one block. -/
theorem overwrite_append (buf : List β) (off : ℕ) (xs ys : List β) :
    overwrite buf off (xs ++ ys) = overwrite (overwrite buf off xs) (off + xs.length) ys := by
  rcases Nat.le_total off buf.length with hle | hle
  · have hfront : (buf.take off ++ xs).length = off + xs.length := by
      rw [List.length_append, List.length_take_of_le hle]
    have hback : (buf.take off ++ xs ++ buf.drop (off + xs.length)).drop
        (off + xs.length + ys.length) = buf.drop (off + (xs.length + ys.length)) := by
      rw [List.drop_append, List.drop_eq_nil_of_le (by omega), hfront, List.drop_drop,
        List.nil_append]
      congr 1
      omega
    rw [overwrite, overwrite, overwrite, List.take_left' hfront, hback, List.length_append,
      ← List.append_assoc]
  · -- past the end of the list the blocks are put behind it
    have hnone : ∀ n, buf.drop (off + n) = [] := fun n => List.drop_eq_nil_of_le (by omega)
    have hall : (buf ++ xs).take (off + xs.length) = buf ++ xs :=
      List.take_of_length_le (by rw [List.length_append]; omega)
    have hrest : (buf ++ xs).drop (off + xs.length + ys.length) = [] :=
      List.drop_eq_nil_of_le (by rw [List.length_append]; omega)
    rw [overwrite, overwrite, overwrite, List.take_of_length_le hle, hnone, hnone, List.append_nil,
      List.append_nil, hall, hrest, List.append_nil, List.append_assoc]

/-- The list `buf` with some pieces laid over it, each from its own position on. -/
def overlay (buf : List β) (pieces : List (ℕ × List β)) : List β :=
  pieces.foldl (fun buf piece => overwrite buf piece.1 piece.2) buf

@[simp] theorem overlay_nil (buf : List β) : overlay buf [] = buf := rfl

theorem overlay_cons (buf : List β) (piece : ℕ × List β) (pieces : List (ℕ × List β)) :
    overlay buf (piece :: pieces) = overlay (overwrite buf piece.1 piece.2) pieces := rfl

theorem overlay_append (buf : List β) (pieces pieces' : List (ℕ × List β)) :
    overlay buf (pieces ++ pieces') = overlay (overlay buf pieces) pieces' := List.foldl_append

namespace MaximalRuns

section Content

variable (w : ℕ) (gap : β) (content : α → List β)

/-- The content of a cell of width `w`. -/
def cell : Option α → List β
  | some x => content x
  | none => List.replicate w gap

/-- A run as a piece: its content, and the position of that. -/
def piece (r : ℕ × List α) : ℕ × List β := (r.1 * w, r.2.flatMap content)

variable {w gap content} (hcontent : ∀ x, (content x).length = w)

include hcontent

theorem length_cell (c : Option α) : (cell w gap content c).length = w := by
  cases c with
  | none => exact List.length_replicate
  | some x => exact hcontent x

theorem length_flatMap_content (xs : List α) : (xs.flatMap content).length = xs.length * w := by
  rw [List.length_flatMap, List.map_congr_left fun x _ => hcontent x, List.map_const',
    List.sum_replicate, smul_eq_mul]

theorem length_flatMap_cell (l : List (Option α)) :
    (l.flatMap (cell w gap content)).length = l.length * w := by
  rw [List.length_flatMap, List.map_congr_left fun c _ => length_cell hcontent c, List.map_const',
    List.sum_replicate, smul_eq_mul]

/-- A filled cell behind a row is one more block behind the runs of the row. -/
theorem overlay_runs_concat_some (buf : List β) (l : List (Option α)) (x : α) :
    overlay buf ((runs (l ++ [some x])).map (piece w content)) =
      overwrite (overlay buf ((runs l).map (piece w content))) (l.length * w) (content x) := by
  rw [runs_concat_some, runs_eq, openRuns_eq, List.map_append, List.map_append, overlay_append,
    overlay_append, List.map_singleton, overlay_cons, overlay_nil, piece]
  have hle := lastRun_length_le l
  split
  · rename_i hrun
    rw [hrun, List.map_nil, overlay_nil, List.nil_append, List.length_nil, Nat.sub_zero,
      List.flatMap_singleton]
  · rw [List.map_singleton, overlay_cons, overlay_nil, piece, List.flatMap_append,
      List.flatMap_singleton, overwrite_append, length_flatMap_content hcontent, ← Nat.add_mul,
      Nat.sub_add_cancel hle]

/-- **The runs of a row give its content back**, laid over the content of gaps. -/
theorem overlay_runs (l : List (Option α)) (rest : List β) :
    overlay (List.replicate (l.length * w) gap ++ rest) ((runs l).map (piece w content)) =
      l.flatMap (cell w gap content) ++ rest := by
  induction l using List.reverseRecOn generalizing rest with
  | nil =>
    rw [List.length_nil, Nat.zero_mul]
    rfl
  | append_singleton l c ih =>
    have hsplit : List.replicate ((l ++ [c]).length * w) gap =
        List.replicate (l.length * w) gap ++ List.replicate w gap := by
      rw [List.replicate_append_replicate, List.length_append, List.length_singleton, Nat.add_mul,
        Nat.one_mul]
    rw [hsplit, List.append_assoc, List.flatMap_append, List.flatMap_singleton, List.append_assoc]
    cases c with
    | none =>
      rw [runs_concat_none, ih]
      rfl
    | some x =>
      have hfront : (l.flatMap (cell w gap content)).length = l.length * w :=
        length_flatMap_cell hcontent l
      rw [overlay_runs_concat_some hcontent, ih, overwrite, ← hfront, List.take_left, hfront,
        hcontent, ← List.append_assoc, List.drop_left', List.append_assoc]
      · rfl
      · rw [List.length_append, hfront, List.length_replicate]

end Content

end MaximalRuns
end LsmFork
