import Mathlib.Tactic

/-!
# Reading from a stream that arrives in pieces

A byte stream reaches its reader cut into segments, and one `recv` returns at most what is left of
the first segment.  A reader that wants `n` bytes therefore loops.  This file is that loop, for an
arbitrary cutting, and the two statements about it that a reader relies on: with enough bytes in
the stream the loop delivers exactly the first `n`, and otherwise it delivers all there is and then
sees the end of the stream.  Neither depends on where the cuts are.

* `recv`: one receive call, `none` at the end of the stream.
* `recvLoop`: receive until `n` items have arrived; the chunks, and what is left if the loop did
  not run into the end of the stream.
* `recvLoop_of_le`, `recvLoop_of_lt`: the two outcomes in terms of the uncut stream.
-/

namespace LsmFork
namespace Segments

variable {α : Type*}

/-- One receive call for at most `n` items.  Empty segments carry nothing and are passed over;
`none` is the end of the stream. -/
def recv (n : ℕ) : List (List α) → Option (List α × List (List α))
  | [] => none
  | s :: ss =>
    if s = [] then recv n ss
    else if s.length ≤ n then some (s, ss)
    else some (s.take n, s.drop n :: ss)

/-- A receive call that returns something returns a nonempty piece of the front of the stream, no
longer than asked for. -/
theorem recv_eq_some {n : ℕ} (hn : 0 < n) {segs : List (List α)} {chunk : List α}
    {rest : List (List α)} (h : recv n segs = some (chunk, rest)) :
    chunk ≠ [] ∧ chunk.length ≤ n ∧ chunk ++ rest.flatten = segs.flatten := by
  induction segs with
  | nil => simp [recv] at h
  | cons s ss ih =>
    rw [recv] at h
    split at h
    · rename_i hs
      rw [List.flatten_cons, hs, List.nil_append]
      exact ih h
    · rename_i hs
      split at h
      · rename_i hlen
        obtain ⟨rfl, rfl⟩ := Prod.mk.inj (Option.some.inj h)
        exact ⟨hs, hlen, rfl⟩
      · rename_i hlen
        obtain ⟨rfl, rfl⟩ := Prod.mk.inj (Option.some.inj h)
        refine ⟨?_, List.length_take_le n s, ?_⟩
        · rw [ne_eq, List.take_eq_nil_iff]
          rintro (h0 | hnil)
          · omega
          · exact hs hnil
        · rw [List.flatten_cons, ← List.append_assoc, List.take_append_drop, List.flatten_cons]

/-- A receive call finds the end of the stream exactly when nothing is left in it. -/
theorem recv_eq_none_iff {n : ℕ} {segs : List (List α)} :
    recv n segs = none ↔ segs.flatten = [] := by
  induction segs with
  | nil => simp [recv]
  | cons s ss ih =>
    rw [recv, List.flatten_cons, List.append_eq_nil_iff]
    by_cases hs : s = []
    · rw [if_pos hs, ih]
      exact ⟨fun h => ⟨hs, h⟩, fun h => h.2⟩
    · rw [if_neg hs]
      constructor
      · intro h
        split at h <;> simp at h
      · intro h
        exact absurd h.1 hs

/-- Receive until `n` items have arrived: the chunks in order, and the remaining stream, or `none`
when the stream ended first. -/
def recvLoop (n : ℕ) (segs : List (List α)) : List (List α) × Option (List (List α)) :=
  if hn : n = 0 then ([], some segs)
  else
    match h : recv n segs with
    | none => ([], none)
    | some (chunk, rest) =>
      have : n - chunk.length < n := by
        have hpos := List.length_pos_of_ne_nil (recv_eq_some (Nat.pos_of_ne_zero hn) h).1
        omega
      let tail := recvLoop (n - chunk.length) rest
      (chunk :: tail.1, tail.2)
termination_by n

@[simp] theorem recvLoop_zero (segs : List (List α)) : recvLoop 0 segs = ([], some segs) := by
  rw [recvLoop]
  simp

theorem recvLoop_of_recv_none {n : ℕ} (hn : 0 < n) {segs : List (List α)}
    (h : recv n segs = none) : recvLoop n segs = ([], none) := by
  rw [recvLoop, dif_neg (by omega)]
  split
  · rfl
  · rename_i h'
    rw [h] at h'
    cases h'

theorem recvLoop_of_recv_some {n : ℕ} (hn : 0 < n) {segs rest : List (List α)} {chunk : List α}
    (h : recv n segs = some (chunk, rest)) :
    recvLoop n segs = (chunk :: (recvLoop (n - chunk.length) rest).1,
      (recvLoop (n - chunk.length) rest).2) := by
  rw [recvLoop, dif_neg (by omega)]
  split
  · rename_i h'
    rw [h] at h'
    cases h'
  · rename_i h'
    rw [h] at h'
    obtain ⟨rfl, rfl⟩ := Prod.mk.inj (Option.some.inj h')
    rfl

/-- **Enough bytes.**  The loop delivers the first `n` items of the stream, however it is cut. -/
theorem recvLoop_of_le {n : ℕ} {segs : List (List α)} (h : n ≤ segs.flatten.length) :
    ∃ chunks rest, recvLoop n segs = (chunks, some rest) ∧
      chunks.flatten = segs.flatten.take n ∧ rest.flatten = segs.flatten.drop n := by
  induction n using Nat.strong_induction_on generalizing segs with
  | _ n ih =>
    rcases Nat.eq_zero_or_pos n with rfl | hn
    · exact ⟨[], segs, recvLoop_zero segs, by simp, by simp⟩
    · cases hr : recv n segs with
      | none =>
        rw [recv_eq_none_iff.mp hr, List.length_nil] at h
        omega
      | some p =>
        obtain ⟨chunk, rest⟩ := p
        obtain ⟨hne, hle, hsplit⟩ := recv_eq_some hn hr
        have hpos := List.length_pos_of_ne_nil hne
        have hrest : n - chunk.length ≤ rest.flatten.length := by
          rw [← hsplit, List.length_append] at h
          omega
        obtain ⟨chunks, rest', hloop, htake, hdrop⟩ := ih (n - chunk.length) (by omega) hrest
        refine ⟨chunk :: chunks, rest', ?_, ?_, ?_⟩
        · rw [recvLoop_of_recv_some hn hr, hloop]
        · rw [List.flatten_cons, htake, ← hsplit, List.take_append, List.take_of_length_le hle]
        · rw [hdrop, ← hsplit, List.drop_append, List.drop_of_length_le hle, List.nil_append]

/-- **Too few bytes.**  The loop delivers everything that is left and then sees the end. -/
theorem recvLoop_of_lt {n : ℕ} {segs : List (List α)} (h : segs.flatten.length < n) :
    ∃ chunks, recvLoop n segs = (chunks, none) ∧ chunks.flatten = segs.flatten := by
  induction n using Nat.strong_induction_on generalizing segs with
  | _ n ih =>
    have hn : 0 < n := by omega
    cases hr : recv n segs with
    | none => exact ⟨[], recvLoop_of_recv_none hn hr, (recv_eq_none_iff.mp hr).symm⟩
    | some p =>
      obtain ⟨chunk, rest⟩ := p
      obtain ⟨hne, hle, hsplit⟩ := recv_eq_some hn hr
      have hpos := List.length_pos_of_ne_nil hne
      have hrest : rest.flatten.length < n - chunk.length := by
        rw [← hsplit, List.length_append] at h
        omega
      obtain ⟨chunks, hloop, hflat⟩ := ih (n - chunk.length) (by omega) hrest
      refine ⟨chunk :: chunks, ?_, ?_⟩
      · rw [recvLoop_of_recv_some hn hr, hloop]
      · rw [List.flatten_cons, hflat, hsplit]

/-- The chunks are always the front of the stream, whichever way the loop ends. -/
theorem recvLoop_chunks_flatten (n : ℕ) (segs : List (List α)) :
    (recvLoop n segs).1.flatten = segs.flatten.take n := by
  rcases le_or_gt n segs.flatten.length with h | h
  · obtain ⟨chunks, rest, hloop, htake, -⟩ := recvLoop_of_le h
    rw [hloop, htake]
  · obtain ⟨chunks, hloop, hflat⟩ := recvLoop_of_lt h
    rw [hloop, hflat, List.take_of_length_le h.le]

end Segments
end LsmFork
