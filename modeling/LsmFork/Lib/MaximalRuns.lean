import Mathlib.Tactic

/-!
# Maximal runs of a list with gaps

A list of optional entries is read as a row of cells, some filled and some empty.  A *maximal run*
is a nonempty block of consecutive filled cells with an empty cell, or an end of the row, on either
side.  The scanner below reads the row from left to right and holds the run it is in; a gap closes
it.  `runs` are the closed runs and the one still open at the end.

* `IsRun`: what a maximal run is, by the decomposition of the row around it.
* `mem_runs_iff`: the scanner finds exactly the maximal runs.
* `runs_pairwise`: it finds them in ascending order, with a gap between any two.
* `runs_flatMap_zipIdx`, `runs_flatMap`: together they hold every filled cell once, in order.
* `closedRuns_concat_none`, `lastRun_concat_some` and their companions: the scanner's steps.
-/

namespace LsmFork
namespace MaximalRuns

variable {α : Type*}

/-- What the scanner knows: the runs it has left behind, the run it is in, and its position. -/
structure Scan (α : Type*) where
  /-- The closed runs, each with the position of its first cell. -/
  closed : List (ℕ × List α)
  /-- The entries of the run that reaches the current position. -/
  current : List α
  /-- The number of cells read. -/
  pos : ℕ

/-- The run the scanner is in, as a list of at most one run. -/
def Scan.pending (s : Scan α) : List (ℕ × List α) :=
  if s.current = [] then [] else [(s.pos - s.current.length, s.current)]

/-- Read one cell. -/
def Scan.step (s : Scan α) : Option α → Scan α
  | none => ⟨s.closed ++ s.pending, [], s.pos + 1⟩
  | some x => ⟨s.closed, s.current ++ [x], s.pos + 1⟩

/-- Read a row from its start. -/
def scan (l : List (Option α)) : Scan α := l.foldl Scan.step ⟨[], [], 0⟩

/-- The runs that a gap has closed. -/
def closedRuns (l : List (Option α)) : List (ℕ × List α) := (scan l).closed

/-- The entries of the run that reaches the end of the row, empty when the row ends in a gap. -/
def lastRun (l : List (Option α)) : List α := (scan l).current

/-- All maximal runs, each with the position of its first cell. -/
def runs (l : List (Option α)) : List (ℕ × List α) :=
  closedRuns l ++ if lastRun l = [] then [] else [(l.length - (lastRun l).length, lastRun l)]

/-- The run that is open at the end of the row, with the position of its first cell. -/
def openRuns (l : List (Option α)) : List (ℕ × List α) := (scan l).pending

theorem scan_concat (l : List (Option α)) (c : Option α) :
    scan (l ++ [c]) = (scan l).step c := by
  rw [scan, List.foldl_append]
  rfl

@[simp] theorem scan_pos (l : List (Option α)) : (scan l).pos = l.length := by
  induction l using List.reverseRecOn with
  | nil => rfl
  | append_singleton l c ih => cases c <;> simp [scan_concat, Scan.step, ih]

theorem openRuns_eq (l : List (Option α)) :
    openRuns l = if lastRun l = [] then [] else [(l.length - (lastRun l).length, lastRun l)] := by
  rw [openRuns, Scan.pending, scan_pos]
  rfl

theorem runs_eq (l : List (Option α)) : runs l = closedRuns l ++ openRuns l := by
  rw [runs, openRuns_eq]

/-! ## The scanner's steps -/

@[simp] theorem closedRuns_nil : closedRuns ([] : List (Option α)) = [] := rfl

@[simp] theorem lastRun_nil : lastRun ([] : List (Option α)) = [] := rfl

theorem closedRuns_concat_none (l : List (Option α)) : closedRuns (l ++ [none]) = runs l := by
  rw [closedRuns, scan_concat, runs_eq]
  rfl

theorem closedRuns_concat_some (l : List (Option α)) (x : α) :
    closedRuns (l ++ [some x]) = closedRuns l := by
  rw [closedRuns, scan_concat]
  rfl

theorem lastRun_concat_none (l : List (Option α)) : lastRun (l ++ [none]) = [] := by
  rw [lastRun, scan_concat]
  rfl

theorem lastRun_concat_some (l : List (Option α)) (x : α) :
    lastRun (l ++ [some x]) = lastRun l ++ [x] := by
  rw [lastRun, scan_concat]
  rfl

/-- A gap closes the open run and leaves nothing open. -/
theorem runs_concat_none (l : List (Option α)) : runs (l ++ [none]) = runs l := by
  rw [runs, closedRuns_concat_none, lastRun_concat_none, if_pos rfl, List.append_nil]

/-- A filled cell extends the open run, or opens one. -/
theorem runs_concat_some (l : List (Option α)) (x : α) :
    runs (l ++ [some x]) =
      closedRuns l ++ [(l.length - (lastRun l).length, lastRun l ++ [x])] := by
  rw [runs, closedRuns_concat_some, lastRun_concat_some, if_neg (by simp), List.length_append,
    List.length_append, List.length_singleton, List.length_singleton, Nat.add_sub_add_right]

theorem lastRun_append_gap (l : List (Option α)) {n : ℕ} (hn : 0 < n) :
    lastRun (l ++ List.replicate n none) = [] := by
  obtain ⟨m, rfl⟩ := Nat.exists_eq_add_of_lt hn
  rw [Nat.zero_add, List.replicate_succ', ← List.append_assoc, lastRun_concat_none]

theorem closedRuns_append_gap (l : List (Option α)) {n : ℕ} (hn : 0 < n) :
    closedRuns (l ++ List.replicate n none) = runs l := by
  obtain ⟨m, rfl⟩ := Nat.exists_eq_add_of_lt hn
  rw [Nat.zero_add, List.replicate_succ', ← List.append_assoc, closedRuns_concat_none]
  induction m with
  | zero => rw [List.replicate_zero, List.append_nil]
  | succ m ih =>
    rw [List.replicate_succ', ← List.append_assoc, runs_concat_none]
    exact ih (by omega)

theorem runs_append_gap (l : List (Option α)) {n : ℕ} (hn : 0 < n) :
    runs (l ++ List.replicate n none) = runs l := by
  rw [runs, closedRuns_append_gap _ hn, lastRun_append_gap _ hn, if_pos rfl, List.append_nil]

theorem closedRuns_subset_runs {l : List (Option α)} {r : ℕ × List α} (h : r ∈ closedRuns l) :
    r ∈ runs l := List.mem_append_left _ h

theorem lastRun_mem_runs {l : List (Option α)} (h : lastRun l ≠ []) :
    (l.length - (lastRun l).length, lastRun l) ∈ runs l := by
  rw [runs, if_neg h]
  exact List.mem_append_right _ (List.mem_singleton_self _)

theorem exists_run_concat_some {l : List (Option α)} {r : ℕ × List α} (hr : r ∈ runs l) (x : α) :
    ∃ r' ∈ runs (l ++ [some x]), r.2.length ≤ r'.2.length := by
  rw [runs_concat_some]
  rw [runs] at hr
  rcases List.mem_append.mp hr with hr | hr
  · exact ⟨r, List.mem_append_left _ hr, le_rfl⟩
  · split at hr
    · cases hr
    · rw [List.mem_singleton.mp hr]
      exact ⟨_, List.mem_append_right _ (List.mem_singleton_self _), by simp⟩

/-! ## What a maximal run is -/

/-- A row that is empty or ends in a gap: a run may start right after it. -/
def EndsInGap (l : List (Option α)) : Prop := l = [] ∨ ∃ p, l = p ++ [none]

/-- `r = (i, xs)` is a maximal run of the row: its cells are filled with `xs` from position `i` on,
and on either side is a gap or an end of the row. -/
def IsRun (l : List (Option α)) (r : ℕ × List α) : Prop :=
  r.2 ≠ [] ∧ ∃ before after, l = before ++ r.2.map some ++ after ∧ before.length = r.1 ∧
    EndsInGap before ∧ (after = [] ∨ ∃ rest, after = none :: rest)

/-- A maximal run with a gap after it. -/
def IsClosedRun (l : List (Option α)) (r : ℕ × List α) : Prop :=
  r.2 ≠ [] ∧ ∃ before rest, l = before ++ r.2.map some ++ none :: rest ∧ before.length = r.1 ∧
    EndsInGap before

theorem lastRun_eq_nil_of_endsInGap {l : List (Option α)} (h : EndsInGap l) : lastRun l = [] := by
  rcases h with rfl | ⟨p, rfl⟩
  · rfl
  · exact lastRun_concat_none p

theorem exists_lastRun (l : List (Option α)) :
    ∃ before, l = before ++ (lastRun l).map some ∧ EndsInGap before := by
  induction l using List.reverseRecOn with
  | nil => exact ⟨[], rfl, Or.inl rfl⟩
  | append_singleton l c ih =>
    cases c with
    | none =>
      refine ⟨l ++ [none], ?_, Or.inr ⟨l, rfl⟩⟩
      rw [lastRun_concat_none, List.map_nil, List.append_nil]
    | some x =>
      obtain ⟨before, hl, hgap⟩ := ih
      refine ⟨before, ?_, hgap⟩
      rw [lastRun_concat_some, List.map_append, ← List.append_assoc, ← hl]
      rfl

theorem lastRun_ne_nil {l : List (Option α)} (h : ¬ EndsInGap l) : lastRun l ≠ [] := by
  intro hnil
  obtain ⟨before, hl, hgap⟩ := exists_lastRun l
  rw [hnil, List.map_nil, List.append_nil] at hl
  exact h (hl ▸ hgap)

/-- There is only one way to write a row as a row ending in a gap and filled cells. -/
theorem eq_lastRun {l before : List (Option α)} {xs : List α}
    (hl : l = before ++ xs.map some) (hgap : EndsInGap before) :
    xs = lastRun l ∧ before.length = l.length - (lastRun l).length := by
  induction l using List.reverseRecOn generalizing xs with
  | nil =>
    have hnil := List.append_eq_nil_iff.mp hl.symm
    have hxs : xs = [] := List.map_eq_nil_iff.mp hnil.2
    rw [hxs, hnil.1]
    exact ⟨rfl, rfl⟩
  | append_singleton l c ih =>
    rcases List.eq_nil_or_concat xs with rfl | ⟨ys, y, rfl⟩
    · rw [List.map_nil, List.append_nil] at hl
      subst hl
      rcases hgap with h | ⟨p, h⟩
      · simp at h
      · have hc : c = none := by simpa using (List.append_inj' h rfl).2
        rw [hc, lastRun_concat_none]
        exact ⟨rfl, rfl⟩
    · rw [List.concat_eq_append, List.map_append, ← List.append_assoc] at hl
      obtain ⟨hl', hc⟩ := List.append_inj' hl rfl
      have hcy : c = some y := by simpa using hc
      obtain ⟨hys, hlen⟩ := ih hl'
      rw [hcy, lastRun_concat_some, List.concat_eq_append, hys]
      refine ⟨rfl, ?_⟩
      rw [hlen, List.length_append, List.length_append, List.length_singleton,
        List.length_singleton]
      omega

/-! ## The scanner finds exactly the maximal runs -/

theorem isRun_iff (l : List (Option α)) (r : ℕ × List α) :
    IsRun l r ↔ IsClosedRun l r ∨
      (lastRun l ≠ [] ∧ r = (l.length - (lastRun l).length, lastRun l)) := by
  constructor
  · rintro ⟨hne, before, after, hl, hlen, hgap, rfl | ⟨rest, rfl⟩⟩
    · rw [List.append_nil] at hl
      obtain ⟨hxs, hstart⟩ := eq_lastRun hl hgap
      refine Or.inr ⟨hxs ▸ hne, Prod.ext ?_ hxs⟩
      rw [← hlen, hstart]
    · exact Or.inl ⟨hne, before, rest, hl, hlen, hgap⟩
  · rintro (⟨hne, before, rest, hl, hlen, hgap⟩ | ⟨hne, rfl⟩)
    · exact ⟨hne, before, none :: rest, hl, hlen, hgap, Or.inr ⟨rest, rfl⟩⟩
    · obtain ⟨before, hl, hgap⟩ := exists_lastRun l
      have hstart := (eq_lastRun hl hgap).2
      exact ⟨hne, before, [], by rw [List.append_nil]; exact hl, hstart, hgap, Or.inl rfl⟩

theorem isClosedRun_concat_none (l : List (Option α)) (r : ℕ × List α) :
    IsClosedRun (l ++ [none]) r ↔ IsRun l r := by
  constructor
  · rintro ⟨hne, before, rest, hl, hlen, hgap⟩
    rcases List.eq_nil_or_concat rest with rfl | ⟨rest', c, rfl⟩
    · have hl' := (List.append_inj' hl rfl).1
      exact ⟨hne, before, [], by rw [List.append_nil]; exact hl', hlen, hgap, Or.inl rfl⟩
    · rw [List.concat_eq_append, ← List.cons_append, ← List.append_assoc] at hl
      have hl' := (List.append_inj' hl rfl).1
      exact ⟨hne, before, none :: rest', hl', hlen, hgap, Or.inr ⟨rest', rfl⟩⟩
  · rintro ⟨hne, before, after, hl, hlen, hgap, rfl | ⟨rest, rfl⟩⟩
    · exact ⟨hne, before, [], by rw [hl, List.append_nil], hlen, hgap⟩
    · exact ⟨hne, before, rest ++ [none], by rw [hl]; simp, hlen, hgap⟩

theorem isClosedRun_concat_some (l : List (Option α)) (x : α) (r : ℕ × List α) :
    IsClosedRun (l ++ [some x]) r ↔ IsClosedRun l r := by
  constructor
  · rintro ⟨hne, before, rest, hl, hlen, hgap⟩
    rcases List.eq_nil_or_concat rest with rfl | ⟨rest', c, rfl⟩
    · have := (List.append_inj' hl rfl).2
      simp at this
    · rw [List.concat_eq_append, ← List.cons_append, ← List.append_assoc] at hl
      exact ⟨hne, before, rest', (List.append_inj' hl rfl).1, hlen, hgap⟩
  · rintro ⟨hne, before, rest, hl, hlen, hgap⟩
    exact ⟨hne, before, rest ++ [some x], by rw [hl]; simp, hlen, hgap⟩

theorem mem_closedRuns_iff (l : List (Option α)) (r : ℕ × List α) :
    r ∈ closedRuns l ↔ IsClosedRun l r := by
  induction l using List.reverseRecOn with
  | nil =>
    refine ⟨fun h => absurd h (by simp), ?_⟩
    rintro ⟨-, before, rest, hl, -, -⟩
    simp at hl
  | append_singleton l c ih =>
    cases c with
    | none =>
      rw [closedRuns_concat_none, isClosedRun_concat_none, isRun_iff, runs, List.mem_append, ih]
      refine or_congr_right ?_
      by_cases h : lastRun l = [] <;> simp [h]
    | some x => rw [closedRuns_concat_some, isClosedRun_concat_some, ih]

/-- **The scanner finds exactly the maximal runs.** -/
theorem mem_runs_iff (l : List (Option α)) (r : ℕ × List α) : r ∈ runs l ↔ IsRun l r := by
  rw [← isClosedRun_concat_none, ← mem_closedRuns_iff, closedRuns_concat_none]

/-! ## Order and content -/

theorem lastRun_length_le (l : List (Option α)) : (lastRun l).length ≤ l.length := by
  obtain ⟨before, hl, -⟩ := exists_lastRun l
  have h := congrArg List.length hl
  rw [List.length_append, List.length_map] at h
  omega

/-- A closed run ends before the gap that precedes the open run. -/
theorem closedRuns_end_lt {l : List (Option α)} {r : ℕ × List α} (h : r ∈ closedRuns l) :
    r.1 + r.2.length + (lastRun l).length < l.length := by
  induction l using List.reverseRecOn with
  | nil => simp at h
  | append_singleton l c ih =>
    cases c with
    | none =>
      rw [lastRun_concat_none, List.length_nil, List.length_append, List.length_singleton]
      rw [closedRuns_concat_none, runs, List.mem_append] at h
      rcases h with h | h
      · have := ih h
        omega
      · have hle := lastRun_length_le l
        split at h
        · simp at h
        · rw [List.mem_singleton.mp h]
          dsimp only
          omega
    | some x =>
      rw [closedRuns_concat_some] at h
      have := ih h
      rw [lastRun_concat_some, List.length_append, List.length_append, List.length_singleton,
        List.length_singleton]
      omega

theorem runs_end_le {l : List (Option α)} {r : ℕ × List α} (h : r ∈ runs l) :
    r.1 + r.2.length ≤ l.length := by
  rw [← closedRuns_concat_none] at h
  have hlt := closedRuns_end_lt h
  rw [List.length_append, List.length_singleton] at hlt
  omega

theorem runs_ne_nil {l : List (Option α)} {r : ℕ × List α} (h : r ∈ runs l) : r.2 ≠ [] :=
  ((mem_runs_iff l r).mp h).1

/-- **The runs are found in ascending order**, and between two of them there is a gap. -/
theorem runs_pairwise (l : List (Option α)) :
    (runs l).Pairwise fun r s => r.1 + r.2.length < s.1 := by
  induction l using List.reverseRecOn with
  | nil => simp [runs]
  | append_singleton l c ih =>
    have hclosed : (closedRuns (l ++ [c])).Pairwise fun r s => r.1 + r.2.length < s.1 := by
      cases c with
      | none => rw [closedRuns_concat_none]; exact ih
      | some x =>
        rw [closedRuns_concat_some]
        rw [runs] at ih
        exact (List.pairwise_append.mp ih).1
    rw [runs, List.pairwise_append]
    refine ⟨hclosed, ?_, ?_⟩
    · split <;> simp
    · intro r hr s hs
      have hlt := closedRuns_end_lt hr
      split at hs
      · simp at hs
      · rw [List.mem_singleton.mp hs]
        dsimp only
        omega

/-- The filled cells of a row with their positions. -/
def filled (l : List (Option α)) : List (α × ℕ) :=
  l.zipIdx.filterMap fun c => c.1.map fun x => (x, c.2)

theorem mem_filled {l : List (Option α)} {x : α} {k : ℕ} :
    (x, k) ∈ filled l ↔ l[k]? = some (some x) := by
  rw [filled, List.mem_filterMap, ← List.mk_mem_zipIdx_iff_getElem?]
  constructor
  · rintro ⟨⟨c, j⟩, hmem, hc⟩
    obtain ⟨y, rfl, hy⟩ := Option.map_eq_some_iff.mp hc
    obtain ⟨rfl, rfl⟩ := Prod.mk.inj hy
    exact hmem
  · intro h
    exact ⟨_, h, rfl⟩

theorem filled_concat (l : List (Option α)) (c : Option α) :
    filled (l ++ [c]) = filled l ++ (c.map fun x => (x, l.length)).toList := by
  rw [filled, List.zipIdx_append, List.filterMap_append, filled, Nat.zero_add]
  cases c <;> rfl

theorem nodup_filled (l : List (Option α)) : ((filled l).map Prod.snd).Nodup := by
  induction l using List.reverseRecOn with
  | nil => exact List.nodup_nil
  | append_singleton l c ih =>
    rw [filled_concat, List.map_append, List.nodup_append]
    refine ⟨ih, ?_, ?_⟩
    · cases c <;> simp
    · intro k hk j hj
      obtain ⟨⟨x, _⟩, hx, rfl⟩ := List.mem_map.mp hk
      have hlt : _ < l.length := (List.getElem?_eq_some_iff.mp (mem_filled.mp hx)).1
      have hlast : j = l.length := by
        cases c with
        | none => cases hj
        | some y => simpa using hj
      omega

/-- **The runs hold every filled cell once, in order and at its position.** -/
theorem runs_flatMap_zipIdx (l : List (Option α)) :
    ((runs l).flatMap fun r => r.2.zipIdx r.1) = filled l := by
  induction l using List.reverseRecOn with
  | nil => simp [runs, filled]
  | append_singleton l c ih =>
    rw [filled_concat, ← ih]
    cases c with
    | none => rw [runs_concat_none]; exact (List.append_nil _).symm
    | some x =>
      have hstart : l.length - (lastRun l).length + (lastRun l).length = l.length :=
        Nat.sub_add_cancel (lastRun_length_le l)
      have hopen : ((openRuns l).flatMap fun r => r.2.zipIdx r.1) =
          (lastRun l).zipIdx (l.length - (lastRun l).length) := by
        rw [openRuns_eq]
        split
        · rename_i hnil
          rw [hnil]
          rfl
        · exact List.flatMap_singleton _ _
      rw [runs_concat_some, runs_eq, List.flatMap_append, List.flatMap_append, hopen,
        List.flatMap_singleton, List.zipIdx_append, hstart, List.append_assoc]
      rfl

/-- **The runs hold every filled cell once, in order.** -/
theorem runs_flatMap (l : List (Option α)) : (runs l).flatMap Prod.snd = l.filterMap id := by
  have hfilled : (filled l).map Prod.fst = l.filterMap id := by
    induction l using List.reverseRecOn with
    | nil => rfl
    | append_singleton l c ih =>
      rw [filled_concat, List.map_append, ih, List.filterMap_append]
      cases c <;> rfl
  rw [← hfilled, ← runs_flatMap_zipIdx, List.map_flatMap]
  exact List.flatMap_congr fun r _ => (List.zipIdx_map_fst r.1 r.2).symm

/-- A filled cell that lies before the open run has a gap somewhere after it. -/
theorem lt_lastRun_start_iff (l : List (Option α)) {k : ℕ} {x : α} (hk : l[k]? = some (some x)) :
    k < l.length - (lastRun l).length ↔ ∃ j, k < j ∧ l[j]? = some none := by
  obtain ⟨before, hl, hgap⟩ := exists_lastRun l
  have hstart := (eq_lastRun hl hgap).2
  rw [← hstart]
  constructor
  · intro hlt
    rcases hgap with rfl | ⟨p, rfl⟩
    · simp at hlt
    · refine ⟨p.length, ?_, ?_⟩
      · rw [List.length_append, List.length_singleton] at hlt
        rcases Nat.lt_or_ge k p.length with h | h
        · exact h
        · have hkp : k = p.length := by omega
          rw [hl, hkp] at hk
          simp at hk
      · rw [hl]
        simp
  · rintro ⟨j, hkj, hj⟩
    rcases Nat.lt_or_ge k before.length with h | h
    · exact h
    · rw [hl, List.getElem?_append_right (by omega), List.getElem?_map] at hj
      simp at hj

end MaximalRuns
end LsmFork
