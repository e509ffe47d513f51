import LsmFork.Kernel.Collector

/-!
# What a walk covers

`walk_page_range` visits the range of a mapping in ascending order and without gaps: `pte_entry` for
each page that has a page table, `pte_hole` for each range that has none.  `Covers` says so of a
list of callbacks, in natural numbers, and `slots` is the page table that such a list describes: one
cell for each page, filled where an entry was found.

* `Covers`, `covers_length`: the callbacks account for every page of the range.
* `slots`: the entries of the range, page by page.
* `cells`: the pages that the collector takes of them.
* `SomewhereIn`: a step of a walk with a given property.
* `pageContent`: what a page of the mapping holds for a reader of the dump.
-/

namespace LsmFork

/-- The callbacks visit `[pos, stop)` in ascending order and without gaps.  A hole covers at least
one page. -/
def Covers : ℕ → ℕ → List WalkCallback → Prop
  | pos, stop, [] => pos = stop
  | pos, stop, .pmdEntry a _ :: cbs => a.toNat = pos ∧ Covers pos stop cbs
  | pos, stop, .pteEntry _ a b :: cbs =>
    a.toNat = pos ∧ b.toNat = pos + pageSize ∧ Covers (pos + pageSize) stop cbs
  | pos, stop, .pteHole a b :: cbs =>
    a.toNat = pos ∧ (∃ n, b.toNat = pos + (n + 1) * pageSize) ∧ Covers b.toNat stop cbs

/-- The cells of one callback's range. -/
def callbackSlots : WalkCallback → List (Option Pte)
  | .pmdEntry _ _ => []
  | .pteEntry pte _ _ => [some pte]
  | .pteHole a b => List.replicate ((b.toNat - a.toNat) / pageSize) none

/-- The page table of the range, one cell for each page. -/
def slots (cbs : List WalkCallback) : List (Option Pte) := cbs.flatMap callbackSlots

@[simp] theorem slots_nil : slots [] = [] := rfl

@[simp] theorem slots_cons (cb : WalkCallback) (cbs : List WalkCallback) :
    slots (cb :: cbs) = callbackSlots cb ++ slots cbs := rfl

theorem pageSize_pos : 0 < pageSize := by decide

theorem callbackSlots_hole {a b : UInt64} {pos n : ℕ} (ha : a.toNat = pos)
    (hb : b.toNat = pos + (n + 1) * pageSize) :
    callbackSlots (.pteHole a b) = List.replicate (n + 1) none := by
  rw [callbackSlots, ha, hb, Nat.add_sub_cancel_left, Nat.mul_div_cancel _ pageSize_pos]

/-- One callback of a covering walk moves the position over its cells. -/
theorem Covers.tail {cb : WalkCallback} {cbs : List WalkCallback} {pos stop : ℕ}
    (h : Covers pos stop (cb :: cbs)) :
    Covers (pos + (callbackSlots cb).length * pageSize) stop cbs := by
  cases cb with
  | pmdEntry a b => simpa [callbackSlots] using h.2
  | pteEntry pte a b => simpa [callbackSlots] using h.2.2
  | pteHole a b =>
    obtain ⟨ha, ⟨n, hb⟩, hrest⟩ := h
    rw [callbackSlots_hole ha hb, List.length_replicate, ← hb]
    exact hrest

/-- **The cells account for the whole range.** -/
theorem covers_length {cbs : List WalkCallback} {pos stop : ℕ} (h : Covers pos stop cbs) :
    stop = pos + (slots cbs).length * pageSize := by
  induction cbs generalizing pos with
  | nil =>
    have hstop : pos = stop := h
    rw [slots_nil, List.length_nil, Nat.zero_mul, Nat.add_zero, hstop]
  | cons cb cbs ih =>
    rw [ih h.tail, slots_cons, List.length_append]
    ring

theorem Covers.le {cbs : List WalkCallback} {pos stop : ℕ} (h : Covers pos stop cbs) :
    pos ≤ stop := by
  rw [covers_length h]
  exact Nat.le_add_right _ _

variable (M : PhysMem)

/-- The pages that the collector takes, cell by cell. -/
def cells (cbs : List WalkCallback) : List (Option Pfn) :=
  (slots cbs).map fun slot => slot.bind (collectedPfn M)

@[simp] theorem cells_nil : cells M [] = [] := rfl

theorem cells_cons (cb : WalkCallback) (cbs : List WalkCallback) :
    cells M (cb :: cbs) = cells M [cb] ++ cells M cbs := by
  rw [cells, slots_cons, List.map_append, cells, slots_cons, slots_nil, List.append_nil]
  rfl

theorem cells_pteEntry (pte : Pte) (a b : UInt64) :
    cells M [.pteEntry pte a b] = [collectedPfn M pte] := by
  simp [cells, callbackSlots]

theorem cells_pteHole {a b : UInt64} {pos stop : ℕ} {cbs : List WalkCallback}
    (hcover : Covers pos stop (.pteHole a b :: cbs)) :
    ∃ n > 0, cells M [.pteHole a b] = List.replicate n none := by
  obtain ⟨ha, ⟨n, hb⟩, -⟩ := hcover
  refine ⟨n + 1, Nat.succ_pos n, ?_⟩
  rw [cells, slots_cons, callbackSlots_hole ha hb, slots_nil, List.append_nil, List.map_replicate]
  rfl

/-- The cells of a walk, with the first step's put to those that came before. -/
theorem append_cells_cons (row : List (Option Pfn)) (step : WalkStep) (steps : List WalkStep) :
    row ++ cells M ((step :: steps).map Prod.fst) =
      row ++ cells M [step.1] ++ cells M (steps.map Prod.fst) := by
  rw [List.map_cons, cells_cons, List.append_assoc]

@[simp] theorem cells_length (cbs : List WalkCallback) :
    (cells M cbs).length = (slots cbs).length := List.length_map _

/-- At some step of a walk from the cells `row` on, a property of the cells so far and the step
holds. -/
def SomewhereIn (P : List (Option Pfn) → WalkStep → Prop) (row : List (Option Pfn))
    (steps : List WalkStep) : Prop :=
  ∃ pre step post, steps = pre ++ step :: post ∧ P (row ++ cells M (pre.map Prod.fst)) step

section SomewhereIn

variable {M} {P : List (Option Pfn) → WalkStep → Prop} {row : List (Option Pfn)}

theorem not_somewhereIn_nil : ¬ SomewhereIn M P row [] := by
  rintro ⟨pre, step, post, heq, -⟩
  cases pre <;> cases heq

theorem somewhereIn_cons {step : WalkStep} {steps : List WalkStep} :
    SomewhereIn M P row (step :: steps) ↔
      P row step ∨ SomewhereIn M P (row ++ cells M [step.1]) steps := by
  constructor
  · rintro ⟨pre, found, post, heq, hP⟩
    rcases pre with - | ⟨first, pre⟩
    · obtain ⟨rfl, -⟩ := List.cons.inj heq
      rw [List.map_nil, cells_nil, List.append_nil] at hP
      exact Or.inl hP
    · obtain ⟨rfl, rfl⟩ := List.cons.inj heq
      rw [append_cells_cons] at hP
      exact Or.inr ⟨pre, found, post, rfl, hP⟩
  · rintro (hP | ⟨pre, found, post, rfl, hP⟩)
    · refine ⟨[], step, steps, rfl, ?_⟩
      rw [List.map_nil, cells_nil, List.append_nil]
      exact hP
    · refine ⟨step :: pre, found, post, rfl, ?_⟩
      rw [append_cells_cons]
      exact hP

end SomewhereIn

/-- What the page behind a cell holds: the content of a present page with a valid frame number, and
zeros otherwise. -/
def pageContent (slot : Option Pte) : Chars pageSize :=
  match slot with
  | some pte => if pte.present && M.pfnValid pte.pfn then M.page pte.pfn else zeroChars pageSize
  | none => zeroChars pageSize

/-- The collector takes a page exactly where a page may differ from zeros. -/
theorem pageContent_eq (slot : Option Pte) :
    pageContent M slot =
      match slot.bind (collectedPfn M) with
      | some pfn => M.page pfn
      | none => zeroChars pageSize := by
  cases slot with
  | none => rfl
  | some pte =>
    rw [pageContent, Option.bind_some, collectedPfn]
    cases hpresent : pte.present <;> cases hvalid : M.pfnValid pte.pfn <;>
      cases hzero : M.isZeroPfn pte.pfn <;> simp [M.page_zero, hzero]

end LsmFork
