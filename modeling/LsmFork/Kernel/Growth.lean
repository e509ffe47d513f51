import LsmFork.Kernel.FrameBounds
import LsmFork.Lib.MaximalRuns

/-!
# When the page array has to grow

The array starts with room for `INITIAL_CAPACITY` pages and doubles when a batch outgrows it; it
never shrinks.  So it has to grow exactly when the run that the walk is in has reached a new longest
length, and that length is the initial capacity times a power of two.  This does not depend on the
outcome of any flush, since a flush empties the batch whether or not it sends it.  A growth that
fails lets the walk go on to the next page-table entry and ends it there.

* `AtCapacity`, `ArrayInv.full_iff`: the array is full exactly at such a length.
* `ArrayInv.callback`, `ArrayInv.callback_fails`: one callback, with and without a failed growth.
* `visited`: the callbacks that a walk gets to.
* `ArrayInv.walk`: what a walk leaves in the error flag and in the batch.
* `PagesCall.sendPages_result`, `PagesCall.frames_end_iff`: whether the call waits for a reply, and
  whether it sends an end frame.
-/

namespace LsmFork

open MaximalRuns

variable (M : PhysMem)

/-- The open run of the row is a longest run of it, and fills an array of the initial capacity
doubled some number of times. -/
def AtCapacity (row : List (Option Pfn)) : Prop :=
  (∃ g, (lastRun row).length = initialCapacity * 2 ^ g) ∧
    ∀ r ∈ runs row, r.2.length ≤ (lastRun row).length

instance (row : List (Option Pfn)) : Decidable (AtCapacity row) := by
  refine decidable_of_iff (initialCapacity ∣ (lastRun row).length ∧
    ((lastRun row).length / initialCapacity).isPowerOfTwo ∧
      ∀ r ∈ runs row, r.2.length ≤ (lastRun row).length) ?_
  rw [AtCapacity, ← and_assoc]
  refine and_congr_left fun _ => ⟨?_, ?_⟩
  · rintro ⟨hdvd, g, hg⟩
    exact ⟨g, by rw [← hg, Nat.mul_div_cancel' hdvd]⟩
  · rintro ⟨g, hg⟩
    exact ⟨⟨2 ^ g, hg⟩, g, by rw [hg, Nat.mul_div_cancel_left _ (by decide)]⟩

/-- The page that a callback adds to the batch. -/
def callbackPage : WalkCallback → Option Pfn
  | .pteEntry pte _ _ => collectedPfn M pte
  | _ => none

/-- After the cells `row` the walk comes to a page for which the array has no room, and `kvrealloc`
fails. -/
def GrowthFailsAt (row : List (Option Pfn)) (step : WalkStep) : Prop :=
  (callbackPage M step.1).isSome = true ∧ AtCapacity row ∧ step.2.kvrealloc = false

instance (row : List (Option Pfn)) (step : WalkStep) : Decidable (GrowthFailsAt M row step) :=
  inferInstanceAs (Decidable (_ ∧ _ ∧ _))

/-- Somewhere in a walk from the cells `row` on, a growth fails. -/
def GrowthFailsIn (row : List (Option Pfn)) (steps : List WalkStep) : Prop :=
  ∃ pre step post, steps = pre ++ step :: post ∧
    GrowthFailsAt M (row ++ cells M (pre.map Prod.fst)) step

/-- The callback is for a page-table entry. -/
def WalkCallback.isPteEntry : WalkCallback → Bool
  | .pteEntry _ _ _ => true
  | _ => false

/-- The steps of a walk up to a failed growth, and from there up to the next page-table entry, which
finds the error flag and ends the walk. -/
def visited : List (Option Pfn) → List WalkStep → List WalkStep
  | _, [] => []
  | row, step :: steps =>
    if GrowthFailsAt M row step then step :: steps.takeWhile fun s => !s.1.isPteEntry
    else step :: visited (row ++ cells M [step.1]) steps

/-- After the cells `row`, the batch is their open run, no growth has failed, and the array has been
doubled as often as the longest run so far has needed. -/
structure ArrayInv (row : List (Option Pfn)) (ctx : WalkCtx) : Prop where
  memoryError : ctx.memoryError = false
  pages : ctx.pages = lastRun row
  doubled : ∃ g, ctx.capacity = initialCapacity * 2 ^ g
  fits : ∀ r ∈ runs row, r.2.length ≤ ctx.capacity
  tight : ctx.capacity = initialCapacity ∨ ∃ r ∈ runs row, ctx.capacity < 2 * r.2.length

variable {M} {row : List (Option Pfn)} {ctx : WalkCtx}

theorem ArrayInv.count (h : ArrayInv row ctx) : ctx.count = (lastRun row).length := by
  rw [WalkCtx.count, h.pages]

theorem lastRun_length_le_capacity (h : ArrayInv row ctx) :
    (lastRun row).length ≤ ctx.capacity := by
  by_cases hne : lastRun row = []
  · rw [hne]
    exact Nat.zero_le _
  · exact h.fits _ (lastRun_mem_runs hne)

/-- **The array is full exactly at a new longest run** of a length to which it can have grown. -/
theorem ArrayInv.full_iff (h : ArrayInv row ctx) : ctx.capacity ≤ ctx.count ↔ AtCapacity row := by
  have hle := lastRun_length_le_capacity h
  rw [h.count]
  constructor
  · intro hfull
    have heq : (lastRun row).length = ctx.capacity := Nat.le_antisymm hle hfull
    exact ⟨heq ▸ h.doubled, fun r hr => heq ▸ h.fits r hr⟩
  · rintro ⟨⟨g, hg⟩, hlongest⟩
    rcases h.tight with hinitial | ⟨r, hr, hlt⟩
    · rw [hinitial, hg]
      exact Nat.le_mul_of_pos_right _ (Nat.two_pow_pos g)
    · -- the array has not been doubled beyond the longest run
      obtain ⟨g', hg'⟩ := h.doubled
      have hlong := hlongest r hr
      have hpow : 2 ^ g' < 2 ^ (g + 1) := by
        have hmul : initialCapacity * 2 ^ g' < initialCapacity * 2 ^ (g + 1) := by
          rw [pow_succ, ← Nat.mul_assoc]
          omega
        exact Nat.lt_of_mul_lt_mul_left hmul
      have hexp : g' ≤ g := Nat.lt_succ_iff.mp ((Nat.pow_lt_pow_iff_right (by omega)).mp hpow)
      rw [hg', hg]
      exact Nat.mul_le_mul_left _ (Nat.pow_le_pow_right (by omega) hexp)

theorem ArrayInv.gap (h : ArrayInv row ctx) {n : ℕ} (hn : 0 < n) :
    ArrayInv (row ++ List.replicate n none) { ctx with pages := [] } := by
  refine ⟨h.memoryError, (lastRun_append_gap _ hn).symm, h.doubled, ?_, ?_⟩
  · rw [runs_append_gap _ hn]
    exact h.fits
  · rw [runs_append_gap _ hn]
    exact h.tight

/-- A page joins the batch and the run, in an array with room for it. -/
theorem ArrayInv.store (h : ArrayInv row ctx) (pfn : Pfn) (a : UInt64)
    {capacity : ℕ} (hroom : ctx.count < capacity) (hgrown : ctx.capacity ≤ capacity)
    (hdoubled : ∃ g, capacity = initialCapacity * 2 ^ g)
    (hcapacity : capacity = ctx.capacity ∨ capacity ≤ 2 * ctx.count) :
    ArrayInv (row ++ [some pfn]) (storePage pfn a { ctx with capacity := capacity }).1 := by
  have hcount := h.count
  have hfits : ∀ r ∈ runs (row ++ [some pfn]), r.2.length ≤ capacity := by
    intro r hr
    rw [runs_concat_some] at hr
    rcases List.mem_append.mp hr with hr | hr
    · exact (h.fits r (closedRuns_subset_runs hr)).trans hgrown
    · rw [List.mem_singleton.mp hr, List.length_append, List.length_singleton, ← hcount]
      exact hroom
  -- the run that needed the array to be this large is still there, or has just grown
  have htight : capacity = initialCapacity ∨
      ∃ r ∈ runs (row ++ [some pfn]), capacity < 2 * r.2.length := by
    rcases hcapacity with hsame | hdouble
    · rcases h.tight with hinitial | ⟨r, hr, hlt⟩
      · exact Or.inl (hsame.trans hinitial)
      · obtain ⟨r', hr', hle⟩ := exists_run_concat_some hr pfn
        exact Or.inr ⟨r', hr', by omega⟩
    · refine Or.inr ⟨(row.length - (lastRun row).length, lastRun row ++ [pfn]), ?_, ?_⟩
      · rw [runs_concat_some]
        exact List.mem_append_right _ (List.mem_singleton_self _)
      · rw [List.length_append, List.length_singleton]
        omega
  have hpages : ctx.pages ++ [pfn] = lastRun (row ++ [some pfn]) := by
    rw [lastRun_concat_some, ← h.pages]
  rw [storePage_ctx]
  exact ⟨h.memoryError, hpages, hdoubled, hfits, htight⟩

/-- The error flag is set, and the batch is empty when the cells end in a gap. -/
structure AbortInv (row : List (Option Pfn)) (ctx : WalkCtx) : Prop where
  memoryError : ctx.memoryError = true
  pages : ctx.pages = [] ↔ lastRun row = []

/-- **One callback** at which no growth fails.  The walk goes on. -/
theorem ArrayInv.callback (h : ArrayInv row ctx) {step : WalkStep} {cbs : List WalkCallback}
    {pos stop : ℕ} (hcover : Covers pos stop (step.1 :: cbs)) (hgrowth : ¬ GrowthFailsAt M row step)
    {value : Int32} {ctx' : WalkCtx} {fs : List Frame} (hstep : Callback M step ctx value ctx' fs) :
    value = 0 ∧ ArrayInv (row ++ cells M [step.1]) ctx' := by
  cases hstep with
  | @descend a b o =>
    have hcells : cells M [.pmdEntry a b] = [] := rfl
    rw [hcells, List.append_nil]
    exact ⟨rfl, h⟩
  | @hole a b o =>
    obtain ⟨n, hn, hcells⟩ := cells_pteHole M hcover
    rw [hcells]
    exact ⟨rfl, h.gap hn⟩
  | abort herr =>
    rw [h.memoryError] at herr
    cases herr
  | gap herr hpfn =>
    rw [cells_pteEntry, hpfn]
    exact ⟨rfl, h.gap (n := 1) Nat.one_pos⟩
  | @take pte pfn a b o _ herr hpfn hroom =>
    rw [cells_pteEntry, hpfn]
    exact ⟨rfl, h.store pfn a hroom le_rfl h.doubled (Or.inl rfl)⟩
  | @grow pte pfn a b o _ herr hpfn hfull hok =>
    obtain ⟨g, hg⟩ := h.doubled
    have hpos : 0 < ctx.capacity := by
      rw [hg]
      exact Nat.mul_pos (by decide) (Nat.two_pow_pos g)
    have hle := lastRun_length_le_capacity h
    have hcount := h.count
    rw [cells_pteEntry, hpfn]
    exact ⟨rfl, h.store pfn a (by omega) (by omega) ⟨g + 1, by rw [hg, pow_succ, Nat.mul_assoc]⟩
      (Or.inr (by omega))⟩
  | growFail herr hpfn hfull hfail =>
    exact absurd ⟨by rw [callbackPage, hpfn]; rfl, h.full_iff.mp hfull, hfail⟩ hgrowth

/-- **One callback** at which the growth fails.  The walk goes on, with the error flag set and the
page in the batch all the same. -/
theorem ArrayInv.callback_fails (h : ArrayInv row ctx) {step : WalkStep}
    (hgrowth : GrowthFailsAt M row step) {value : Int32} {ctx' : WalkCtx} {fs : List Frame}
    (hstep : Callback M step ctx value ctx' fs) :
    value = 0 ∧ AbortInv (row ++ cells M [step.1]) ctx' := by
  obtain ⟨hpage, hfull, hfail⟩ := hgrowth
  cases hstep with
  | descend => cases hpage
  | hole => cases hpage
  | abort herr =>
    rw [h.memoryError] at herr
    cases herr
  | gap herr hpfn =>
    rw [callbackPage, hpfn] at hpage
    cases hpage
  | take herr hpfn hroom => exact absurd (h.full_iff.mpr hfull) (Nat.not_le_of_lt hroom)
  | grow herr hpfn _ hok =>
    rw [hok] at hfail
    cases hfail
  | @growFail pte pfn a b o _ herr hpfn _ _ =>
    refine ⟨rfl, ?_⟩
    rw [cells_pteEntry, hpfn, storePage_ctx]
    exact ⟨rfl, by simp [lastRun_concat_some]⟩

/-- **A walk after a failed growth** ends at the next page-table entry; only holes before it can
still empty the batch. -/
theorem AbortInv.walk (h : AbortInv row ctx) {steps : List WalkStep} {pos stop : ℕ}
    (hcover : Covers pos stop (steps.map Prod.fst)) :
    AbortInv (row ++ cells M ((steps.takeWhile fun s => !s.1.isPteEntry).map Prod.fst))
      (walkPageRange M steps ctx).1 := by
  induction steps generalizing row ctx pos with
  | nil =>
    rw [List.takeWhile_nil, List.map_nil, cells_nil, List.append_nil]
    exact h
  | cons step steps ih =>
    obtain ⟨cb, o⟩ := step
    cases cb with
    | pmdEntry a b =>
      have hvalue : (lsmWalkOps M (.pmdEntry a b, o) ctx).1 = 0 := rfl
      rw [walkPageRange_of_eq M hvalue, List.takeWhile_cons_of_pos rfl]
      exact ih h hcover.tail
    | pteEntry pte a b =>
      have hvalue : lsmWalkOps M (.pteEntry pte a b, o) ctx = (eNoMem, ctx, []) := by
        rw [lsmWalkOps]
        exact if_pos h.memoryError
      have hne : (lsmWalkOps M (.pteEntry pte a b, o) ctx).1 ≠ 0 := by
        rw [hvalue]
        exact show eNoMem ≠ 0 by decide
      have hstop : ((WalkCallback.pteEntry pte a b, o) :: steps).takeWhile
          (fun s => !s.1.isPteEntry) = [] := rfl
      rw [walkPageRange_of_ne M hne, hvalue, hstop, List.map_nil, cells_nil, List.append_nil]
      exact h
    | pteHole a b =>
      obtain ⟨n, hn, hcells⟩ := cells_pteHole M hcover
      have hempty : AbortInv (row ++ cells M [.pteHole a b])
          (lsmWalkOps M (.pteHole a b, o) ctx).2.1 := by
        rw [hcells, lsmWalkOps, handleHole]
        simp only [flushAccumulatedPages_ctx]
        exact ⟨h.memoryError, by simp [lastRun_append_gap _ hn]⟩
      have hvalue : (lsmWalkOps M (.pteHole a b, o) ctx).1 = 0 := rfl
      rw [walkPageRange_of_eq M hvalue, List.takeWhile_cons_of_pos rfl, append_cells_cons]
      exact ih hempty hcover.tail

theorem growthFailsIn_cons {step : WalkStep} {steps : List WalkStep} :
    GrowthFailsIn M row (step :: steps) ↔
      GrowthFailsAt M row step ∨ GrowthFailsIn M (row ++ cells M [step.1]) steps :=
  somewhereIn_cons

/-- In a walk where every `kvrealloc` succeeds no growth fails. -/
theorem not_growthFailsIn_of_forall {steps : List WalkStep}
    (h : ∀ step ∈ steps, step.2.kvrealloc = true) : ¬ GrowthFailsIn M row steps := by
  rintro ⟨pre, step, post, rfl, -, -, hfail⟩
  rw [h step (List.mem_append_right _ List.mem_cons_self)] at hfail
  cases hfail

/-- **What a walk leaves.**  The error flag says whether a growth has failed, and the batch is empty
exactly when the cells that the walk got to end in a gap. -/
theorem ArrayInv.walk (h : ArrayInv row ctx) {steps : List WalkStep} {pos stop : ℕ}
    (hcover : Covers pos stop (steps.map Prod.fst)) :
    ((walkPageRange M steps ctx).1.memoryError = true ↔ GrowthFailsIn M row steps) ∧
      ((walkPageRange M steps ctx).1.pages = [] ↔
        lastRun (row ++ cells M ((visited M row steps).map Prod.fst)) = []) := by
  induction steps generalizing row ctx pos with
  | nil =>
    have hno : ¬ GrowthFailsIn M row [] := not_somewhereIn_nil
    rw [visited, List.map_nil, cells_nil, List.append_nil, ← h.pages]
    exact ⟨⟨fun herr => absurd (h.memoryError.symm.trans herr) (by decide),
      fun hf => absurd hf hno⟩, Iff.rfl⟩
  | cons step steps ih =>
    have hstep := (lsmWalkOps_cases M step ctx).1
    by_cases hfails : GrowthFailsAt M row step
    · obtain ⟨hvalue, habort⟩ := h.callback_fails hfails hstep
      have hwalked := habort.walk (M := M) hcover.tail
      rw [walkPageRange_of_eq M hvalue, visited, if_pos hfails, append_cells_cons]
      exact ⟨⟨fun _ => growthFailsIn_cons.mpr (Or.inl hfails), fun _ => hwalked.memoryError⟩,
        hwalked.pages⟩
    · obtain ⟨hvalue, hnext⟩ := h.callback hcover hfails hstep
      obtain ⟨herr, hpages⟩ := ih hnext hcover.tail
      rw [walkPageRange_of_eq M hvalue, visited, if_neg hfails, append_cells_cons,
        growthFailsIn_cons, or_iff_right hfails]
      exact ⟨herr, hpages⟩

/-! ## The call -/

namespace PagesCall

variable (M) in
/-- At some page of the walk the array has to grow, and `kvrealloc` fails. -/
def GrowthFails (c : PagesCall) : Prop := GrowthFailsIn M [] c.walk

variable (M) in
/-- The allocations of the final flush succeed: the copy of the header, and the mapping of the batch
when the cells that the walk got to end in a page. -/
def FinalFlushSends (c : PagesCall) : Prop :=
  c.final.kmalloc = true ∧
    (lastRun (cells M ((visited M [] c.walk).map Prod.fst)) ≠ [] → c.final.vmap = true)

theorem startCtx_arrayInv (c : PagesCall) (vma : Vma) : ArrayInv [] (c.startCtx vma) :=
  ⟨rfl, rfl, ⟨0, rfl⟩, fun r hr => absurd hr (by simp [runs]), Or.inl rfl⟩

/-- **The call waits for a reply** unless a growth has failed. -/
theorem sendPages_result {c : PagesCall} {vma : Vma} (hchecked : c.checked = .ok vma) :
    (c.GrowthFails M → (sendPagesToUserspaceTcp M c).2 = .ret eNoMem) ∧
      (¬ c.GrowthFails M → (sendPagesToUserspaceTcp M c).2 = .awaitReply) := by
  obtain ⟨herr, -⟩ := (c.startCtx_arrayInv vma).walk (M := M) c.walk_covers
  rw [sendPagesToUserspaceTcp, hchecked]
  simp only [flushAccumulatedPages_ctx]
  exact ⟨fun hfails => if_pos (herr.mpr hfails), fun hok => if_neg fun hflag => hok (herr.mp hflag)⟩

/-- The final flush finds the batch that the walk leaves. -/
theorem finalFlush_sends_iff (c : PagesCall) (vma : Vma) :
    FlushSends c.final (markEnd (walkPageRange M c.walk (c.startCtx vma)).1) ↔
      c.FinalFlushSends M := by
  obtain ⟨-, hpages⟩ := (c.startCtx_arrayInv vma).walk (M := M) c.walk_covers
  rw [List.nil_append] at hpages
  have hcount : 0 < (markEnd (walkPageRange M c.walk (c.startCtx vma)).1).count ↔
      lastRun (cells M ((visited M [] c.walk).map Prod.fst)) ≠ [] :=
    List.length_pos_iff.trans (not_congr hpages)
  rw [FlushSends, FinalFlushSends, hcount]
  exact ⟨fun hf => ⟨hf.2.2, hf.2.1⟩, fun hf => ⟨fun _ => show (1 : UInt64) ≠ 0 by decide, hf.2,
    hf.1⟩⟩

/-- **Its end frame**, if the final flush sends one, is its last frame. -/
theorem frames_end_iff {c : PagesCall} {vma : Vma} (hchecked : c.checked = .ok vma) :
    ∃ before, (∀ f ∈ before, ¬ f.IsEnd) ∧
      (c.FinalFlushSends M ∧ (∃ last, last.IsEnd ∧ c.frames M = before ++ [last]) ∨
        ¬ c.FinalFlushSends M ∧ c.frames M = before) := by
  obtain ⟨hopen, -⟩ := c.walk_final_sound (M := M) hchecked
  have hsends := c.finalFlush_sends_iff (M := M) vma
  refine ⟨walkFrames M c.walk (c.startCtx vma), fun f hf => ?_, ?_⟩
  · have hflag : f.header.isEndOfMapping = 0 := (hopen f hf).2.2.2
    rw [Frame.IsEnd, hflag]
    decide
  · by_cases hfinal : c.FinalFlushSends M
    · refine Or.inl ⟨hfinal, batchFrame M (markEnd (walkPageRange M c.walk (c.startCtx vma)).1),
        rfl, ?_⟩
      rw [frames, hchecked]
      simp only
      rw [flushFrames_of M (hsends.mpr hfinal)]
    · refine Or.inr ⟨hfinal, ?_⟩
      rw [frames, hchecked]
      simp only
      rw [flushFrames_of_not M fun hflush => hfinal (hsends.mp hflush), List.append_nil]

end PagesCall

end LsmFork
