import LsmFork.Kernel.Growth
import LsmFork.Kernel.RunFrames

/-!
# Batches that are lost on the way

`flush_accumulated_pages` returns nothing and empties the batch in any case.  When `vmap` or the
`kmalloc` of the header fails, the pages of the batch are gone, and the hook that waits for the
reply afterwards returns the analyzer's verdict on the rest of the mapping.  A growth that fails is
different: it leaves the error flag, and the hook returns an error of its own.

* `Frame.pages`: the pages in a frame, by their numbers in the mapping.
* `FlushFailsIn`, `PagesCall.LosesBatch`: a flush with a batch to send, and a failed allocation.
* `sentRuns`: the runs that get through; `sentRuns_eq_iff`: all of them, unless a flush fails.
* `PagesCall.frames_pages`: the frames of a call carry the pages of these runs.
* `PagesCall.frames_eq_nil_iff`: a call that sends nothing, since every flush fails.
* `answered_sendsEveryPage_iff`: a verdict is about every page exactly when no batch is lost.
-/

namespace LsmFork

open MaximalRuns

variable (M : PhysMem)

/-! ## Pages and frames -/

/-- The pages that a frame carries, each with its number in the mapping. -/
def Frame.pages (f : Frame) : List (List UInt8 × ℕ) :=
  (List.range (f.header.len.toNat / pageSize)).map fun j =>
    ((f.payload.drop (j * pageSize)).take pageSize, f.header.mappedAddr.toNat / pageSize + j)

/-- The pages of a run, with their numbers. -/
def runPages (r : ℕ × List Pfn) : List (List UInt8 × ℕ) :=
  (r.2.zipIdx r.1).map fun p => ((M.page p.1).toList, p.2)

variable {M} {info : MappingInfo} {row : List (Option Pfn)} {ctx : WalkCtx}

theorem pagesData_slice {pages : List Pfn} {j : ℕ} (hj : j < pages.length) :
    ((pagesData M pages).drop (j * pageSize)).take pageSize = (M.page pages[j]).toList := by
  have hsplit : pagesData M pages =
      pagesData M (pages.take j) ++
        ((M.page pages[j]).toList ++ pagesData M (pages.drop (j + 1))) := by
    have hcons : pagesData M (pages.drop j) =
        (M.page pages[j]).toList ++ pagesData M (pages.drop (j + 1)) := by
      rw [List.drop_eq_getElem_cons hj]
      rfl
    rw [← hcons, ← pagesData_append, List.take_append_drop]
  have hbefore : (pagesData M (pages.take j)).length = j * pageSize := by
    rw [pagesData_length, List.length_take_of_le hj.le]
  rw [hsplit, List.drop_left' hbefore, List.take_left' (List.Vector.toList_length _)]

theorem runFrame_pages (info : MappingInfo) {r : ℕ × List Pfn} (hr : r ∈ runs row)
    (hrow : row.length * pageSize < 2 ^ 64) : (runFrame M info r).pages = runPages M r := by
  have hentry := runFrame_entry (M := M) info hr hrow
  rw [runEntry, Prod.mk.injEq, Prod.mk.injEq] at hentry
  obtain ⟨hstart, hlen, hpayload⟩ := hentry
  rw [Frame.pages, hstart, hlen, hpayload, Nat.mul_div_cancel _ pageSize_pos,
    Nat.mul_div_cancel _ pageSize_pos]
  refine List.ext_getElem ?_ fun j hj _ => ?_
  · rw [runPages, List.length_map, List.length_map, List.length_range, List.length_zipIdx]
  · have hj' : j < r.2.length := by simpa using hj
    simp only [runPages, List.getElem_map, List.getElem_range, List.getElem_zipIdx,
      pagesData_slice hj']

theorem lastFrame_pages (info : MappingInfo) (hrow : row.length * pageSize < 2 ^ 64) (m : UInt64) :
    (lastFrame M info row m).pages = (openRuns row).flatMap (runPages M) := by
  rw [lastFrame, openRuns_eq]
  by_cases hrun : lastRun row = []
  · rw [if_pos hrun, if_pos hrun]
    simp [Frame.pages]
  · rw [if_neg hrun, if_neg hrun, List.flatMap_singleton]
    exact runFrame_pages info (lastRun_mem_runs hrun) hrow

/-! ## The flushes that fail -/

variable (M) in
/-- After the cells `row` the callback ends a run, and an allocation that its batch needs fails. -/
def FlushFailsAt (row : List (Option Pfn)) (step : WalkStep) : Prop :=
  closesRun M step.1 = true ∧ lastRun row ≠ [] ∧ step.2.sendsBatch = false

instance (row : List (Option Pfn)) (step : WalkStep) : Decidable (FlushFailsAt M row step) :=
  inferInstanceAs (Decidable (_ ∧ _ ∧ _))

variable (M) in
/-- Somewhere in a walk from the cells `row` on, a flush fails with a batch to send. -/
def FlushFailsIn (row : List (Option Pfn)) (steps : List WalkStep) : Prop :=
  SomewhereIn M (FlushFailsAt M) row steps

variable (M) in
/-- A flush of the walk fails with a batch to send, or the final flush does. -/
def PagesCall.LosesBatch (c : PagesCall) : Prop :=
  FlushFailsIn M [] c.walk ∨ (lastRun (c.row M) ≠ [] ∧ c.final.sendsBatch = false)

variable (M) in
/-- The runs whose flushes succeed. -/
def sentRuns : List (Option Pfn) → List WalkStep → List (ℕ × List Pfn)
  | _, [] => []
  | row, step :: steps =>
    (if closesRun M step.1 && step.2.sendsBatch then openRuns row else []) ++
      sentRuns (row ++ cells M [step.1]) steps

/-- The runs that get through are some of those that are closed, in order. -/
theorem sentRuns_sublist (row : List (Option Pfn)) {steps : List WalkStep} {pos stop : ℕ}
    (hcover : Covers pos stop (steps.map Prod.fst)) :
    (closedRuns row ++ sentRuns M row steps).Sublist
      (closedRuns (row ++ cells M (steps.map Prod.fst))) := by
  induction steps generalizing row pos with
  | nil =>
    rw [List.map_nil, cells_nil, List.append_nil, sentRuns, List.append_nil]
  | cons step steps ih =>
    rw [append_cells_cons, sentRuns, ← List.append_assoc]
    refine List.Sublist.trans (List.Sublist.append_right ?_ _) (ih _ hcover.tail)
    rw [closedRuns_append_cells hcover]
    refine List.Sublist.append_left ?_ _
    cases closesRun M step.1 <;> cases step.2.sendsBatch <;> simp

/-- **All closed runs get through** exactly when no flush fails. -/
theorem sentRuns_eq_iff (row : List (Option Pfn)) {steps : List WalkStep} {pos stop : ℕ}
    (hcover : Covers pos stop (steps.map Prod.fst)) :
    closedRuns row ++ sentRuns M row steps = closedRuns (row ++ cells M (steps.map Prod.fst)) ↔
      ¬ FlushFailsIn M row steps := by
  induction steps generalizing row pos with
  | nil =>
    rw [List.map_nil, cells_nil, List.append_nil, sentRuns, List.append_nil]
    exact iff_of_true rfl not_somewhereIn_nil
  | cons step steps ih =>
    have htail := ih (row ++ cells M [step.1]) hcover.tail
    have hsub := sentRuns_sublist (M := M) (row ++ cells M [step.1]) hcover.tail
    rw [closedRuns_append_cells hcover] at htail hsub
    rw [append_cells_cons, sentRuns, FlushFailsIn, somewhereIn_cons, not_or]
    by_cases hfails : FlushFailsAt M row step
    · -- the run that is closed here is missing, and the later ones do not make up for it
      obtain ⟨hcloses, hrun, hlost⟩ := hfails
      refine iff_of_false (fun heq => ?_) fun h => h.1 ⟨hcloses, hrun, hlost⟩
      have hlen := hsub.length_le
      rw [← heq, hcloses, hlost, openRuns_eq, if_neg hrun] at hlen
      simp at hlen
    · have hsent : (if closesRun M step.1 && step.2.sendsBatch then openRuns row else []) =
          if closesRun M step.1 then openRuns row else [] := by
        cases hcloses : closesRun M step.1 with
        | false => rfl
        | true =>
          cases hsends : step.2.sendsBatch with
          | true => rfl
          | false =>
            have hrun : lastRun row = [] := by
              by_contra hne
              exact hfails ⟨hcloses, hne, hsends⟩
            rw [openRuns_eq, if_pos hrun, ite_self, ite_self]
      rw [hsent, ← List.append_assoc, htail]
      exact ⟨fun h => ⟨hfails, h⟩, fun h => h.2⟩

/-! ## The call -/

/-- **A walk without a failed growth** sends the runs whose flushes succeed. -/
theorem RowInv.walk_sentRuns (h : RowInv info row ctx) (harray : ArrayInv row ctx)
    (hend : info.isEndOfMapping = 0) {steps : List WalkStep} {stop : ℕ}
    (hcover : Covers (info.initAddr.toNat + row.length * pageSize) stop (steps.map Prod.fst))
    (hgrowth : ¬ GrowthFailsIn M row steps) :
    RowInv info (row ++ cells M (steps.map Prod.fst)) (walkPageRange M steps ctx).1 ∧
      walkFrames M steps ctx = (sentRuns M row steps).map (runFrame M info) := by
  induction steps generalizing row ctx with
  | nil =>
    rw [List.map_nil, cells_nil, List.append_nil]
    exact ⟨h, rfl⟩
  | cons step steps ih =>
    rw [growthFailsIn_cons, not_or] at hgrowth
    have hstep := (lsmWalkOps_cases M step ctx).1
    have hgrows : ∀ {pte a b}, step.1 = .pteEntry pte a b → (collectedPfn M pte).isSome = true →
        ctx.capacity ≤ ctx.count → step.2.kvrealloc = true := by
      intro pte a b hcb hpage hfull
      by_contra hfail
      exact hgrowth.1 ⟨by rw [hcb]; exact hpage, harray.full_iff.mp hfull,
        Bool.eq_false_iff.mpr hfail⟩
    obtain ⟨hvalue, hnext, hsent⟩ := h.callback hend hgrows hcover hstep
    have hnextArray := (harray.callback hcover hgrowth.1 hstep).2
    have hpos : info.initAddr.toNat + (row ++ cells M [step.1]).length * pageSize =
        info.initAddr.toNat + row.length * pageSize +
          (callbackSlots step.1).length * pageSize := by
      rw [List.length_append, cells_length, slots_cons, slots_nil, List.append_nil]
      ring
    obtain ⟨hinv, hrest⟩ := ih hnext hnextArray (by rw [hpos]; exact hcover.tail) hgrowth.2
    rw [append_cells_cons, walkPageRange_of_eq M hvalue, walkFrames, if_neg (fun hne => hne hvalue),
      sentRuns, List.map_append, hrest, hsent]
    refine ⟨hinv, ?_⟩
    split <;> rfl

/-- The final flush sends the open run, if there is one and nothing fails. -/
theorem RowInv.finalFlush_pages (h : RowInv info row ctx) (hrow : row.length * pageSize < 2 ^ 64)
    (o : AllocOutcome) :
    (flushFrames M o (markEnd ctx)).flatMap Frame.pages =
      if o.sendsBatch then (openRuns row).flatMap (runPages M) else [] := by
  have hcount : (markEnd ctx).count = (lastRun row).length := h.count
  have hmarked : (markEnd ctx).info.isEndOfMapping ≠ 0 := show (1 : UInt64) ≠ 0 by decide
  rw [AllocOutcome.sendsBatch]
  by_cases hflush : FlushSends o (markEnd ctx)
  · rw [flushFrames_of M hflush, List.flatMap_singleton, h.finalFrame_eq, lastFrame_pages info hrow,
      hflush.2.2, Bool.and_true, openRuns_eq]
    by_cases hrun : lastRun row = []
    · rw [if_pos hrun, List.flatMap_nil, ite_self]
    · rw [hflush.2.1 (hcount ▸ List.length_pos_of_ne_nil hrun), if_pos rfl]
  · rw [flushFrames_of_not M hflush, if_neg]
    · rfl
    · intro hsends
      rw [Bool.and_eq_true] at hsends
      exact hflush ⟨fun _ => hmarked, fun _ => hsends.1, hsends.2⟩

namespace PagesCall

variable (M) in
/-- The runs of the mapping that get through. -/
def sentRuns (c : PagesCall) : List (ℕ × List Pfn) :=
  LsmFork.sentRuns M [] c.walk ++ if c.final.sendsBatch then openRuns (c.row M) else []

/-- **The frames of a call carry the pages of the runs that get through.** -/
theorem frames_pages {c : PagesCall} {vma : Vma} (hchecked : c.checked = .ok vma)
    (hgrowth : ¬ c.GrowthFails M) :
    (c.frames M).flatMap Frame.pages = (c.sentRuns M).flatMap (runPages M) := by
  have hcover : Covers ((c.info vma).initAddr.toNat + ([] : List (Option Pfn)).length * pageSize)
      (c.addr.toNat + c.len.toNat) (c.walk.map Prod.fst) := by
    rw [List.length_nil, Nat.zero_mul]
    exact c.walk_covers
  have hrow : (c.row M).length * pageSize < 2 ^ 64 := by
    rw [c.row_length]
    exact c.len.toNat_lt
  obtain ⟨hinv, hframes⟩ :=
    (RowInv.initial c vma).walk_sentRuns (c.startCtx_arrayInv vma) rfl hcover hgrowth
  rw [List.nil_append] at hinv
  have hsub : (LsmFork.sentRuns M [] c.walk).Sublist (closedRuns (c.row M)) :=
    sentRuns_sublist [] c.walk_covers
  have hruns : ((LsmFork.sentRuns M [] c.walk).map (runFrame M (c.info vma))).flatMap Frame.pages =
      (LsmFork.sentRuns M [] c.walk).flatMap (runPages M) := by
    rw [List.flatMap_map]
    exact List.flatMap_congr fun r hr =>
      runFrame_pages _ (closedRuns_subset_runs (hsub.subset hr)) hrow
  rw [frames, hchecked]
  simp only
  rw [List.flatMap_append, hframes, hruns, hinv.finalFlush_pages hrow, sentRuns,
    List.flatMap_append]
  congr 1
  split <;> rfl

theorem sentRuns_sublist (c : PagesCall) : (c.sentRuns M).Sublist (runs (c.row M)) := by
  rw [sentRuns, runs_eq]
  refine List.Sublist.append (LsmFork.sentRuns_sublist [] c.walk_covers) ?_
  split
  · exact List.Sublist.refl _
  · exact List.nil_sublist _

/-- **All runs get through** exactly when no batch is lost. -/
theorem sentRuns_eq_iff (c : PagesCall) :
    c.sentRuns M = runs (c.row M) ↔ ¬ c.LosesBatch M := by
  have hwalk : LsmFork.sentRuns M [] c.walk = closedRuns (c.row M) ↔ ¬ FlushFailsIn M [] c.walk :=
    LsmFork.sentRuns_eq_iff [] c.walk_covers
  have hsub : (LsmFork.sentRuns M [] c.walk).Sublist (closedRuns (c.row M)) :=
    LsmFork.sentRuns_sublist [] c.walk_covers
  have hfinal : (if c.final.sendsBatch then openRuns (c.row M) else []) = openRuns (c.row M) ↔
      ¬ (lastRun (c.row M) ≠ [] ∧ c.final.sendsBatch = false) := by
    rw [openRuns_eq]
    by_cases hrun : lastRun (c.row M) = [] <;> cases c.final.sendsBatch <;> simp [hrun]
  rw [LosesBatch, not_or, ← hwalk, ← hfinal, sentRuns, runs_eq]
  constructor
  · intro heq
    have hlen := congrArg List.length heq
    have hle : (if c.final.sendsBatch then openRuns (c.row M) else []).length ≤
        (openRuns (c.row M)).length := by
      split
      · exact le_rfl
      · exact Nat.zero_le _
    have hsubLen := hsub.length_le
    rw [List.length_append, List.length_append] at hlen
    exact List.append_inj heq (by omega)
  · rintro ⟨hclosed, hopen⟩
    rw [hopen]
    exact congrArg (· ++ _) hclosed

end PagesCall

/-! ## Calls that send nothing -/

variable (M) in
/-- After the cells `row` the callback ends a run, and its batch gets through. -/
def FlushSendsAt (row : List (Option Pfn)) (step : WalkStep) : Prop :=
  closesRun M step.1 = true ∧ lastRun row ≠ [] ∧ step.2.sendsBatch = true

theorem sentRuns_eq_nil_iff {steps : List WalkStep} :
    sentRuns M row steps = [] ↔ ¬ SomewhereIn M (FlushSendsAt M) row steps := by
  induction steps generalizing row with
  | nil => exact iff_of_true rfl not_somewhereIn_nil
  | cons step steps ih =>
    have hstep : (if closesRun M step.1 && step.2.sendsBatch then openRuns row else []) = [] ↔
        ¬ FlushSendsAt M row step := by
      rw [FlushSendsAt, openRuns_eq]
      by_cases hrun : lastRun row = [] <;>
        cases closesRun M step.1 <;> cases step.2.sendsBatch <;> simp [hrun]
    rw [sentRuns, List.append_eq_nil_iff, hstep, ih, somewhereIn_cons, not_or]

namespace PagesCall

variable (M) in
/-- Every flush of the walk that has a batch fails, and so does the final flush. -/
def SendsNothing (c : PagesCall) : Prop :=
  ¬ SomewhereIn M (FlushSendsAt M) [] c.walk ∧ ¬ c.FinalFlushSends M

/-- **A call that makes room for its pages sends nothing** exactly when all its flushes fail. -/
theorem frames_eq_nil_iff {c : PagesCall} {vma : Vma} (hchecked : c.checked = .ok vma)
    (hgrowth : ¬ c.GrowthFails M) : c.frames M = [] ↔ c.SendsNothing M := by
  have hcover : Covers ((c.info vma).initAddr.toNat + ([] : List (Option Pfn)).length * pageSize)
      (c.addr.toNat + c.len.toNat) (c.walk.map Prod.fst) := by
    rw [List.length_nil, Nat.zero_mul]
    exact c.walk_covers
  obtain ⟨-, hframes⟩ :=
    (RowInv.initial c vma).walk_sentRuns (c.startCtx_arrayInv vma) rfl hcover hgrowth
  have hwalk : walkFrames M c.walk (c.startCtx vma) = [] ↔
      ¬ SomewhereIn M (FlushSendsAt M) [] c.walk := by
    rw [hframes, List.map_eq_nil_iff, sentRuns_eq_nil_iff]
  have hfinal := c.finalFlush_sends_iff (M := M) vma
  rw [frames, hchecked, SendsNothing, ← hwalk, ← hfinal]
  simp only
  rw [List.append_eq_nil_iff, flushFrames]
  split <;> simp_all

variable (M) in
/-- The frames that the call sends contain every page that the collector takes exactly once, at its
number. -/
def SendsEveryPage (c : PagesCall) : Prop :=
  ∀ (k : ℕ) (pfn : Pfn), (c.row M)[k]? = some (some pfn) →
    ((c.frames M).flatMap Frame.pages).count ((M.page pfn).toList, k) = 1

variable (M) in
/-- The call returns the verdict of a reply: it goes on to the reply, and receives four bytes. -/
def Answered (c : PagesCall) (replyLen : ℤ) : Prop :=
  (sendPagesToUserspaceTcp M c).2 = .awaitReply ∧ 4 ≤ replyLen

end PagesCall

/-- Blocks that are left out of a list of nonempty blocks are missed. -/
theorem eq_of_sublist_of_flatMap {α β : Type*} {f : α → List β} {l l' : List α}
    (hsub : l.Sublist l') (hne : ∀ a ∈ l', f a ≠ [])
    (hlen : (l'.flatMap f).length ≤ (l.flatMap f).length) : l = l' := by
  induction hsub with
  | slnil => rfl
  | @cons l l' a hsub ih =>
    -- the block of `a` is left out
    have hle := (hsub.flatMap f).length_le
    have hpos := List.length_pos_of_ne_nil (hne a List.mem_cons_self)
    rw [List.flatMap_cons, List.length_append] at hlen
    omega
  | @cons_cons l l' a _ ih =>
    rw [List.flatMap_cons, List.flatMap_cons, List.length_append, List.length_append] at hlen
    rw [ih (fun b hb => hne b (List.mem_cons_of_mem a hb)) (by omega)]

theorem runs_pages (row : List (Option Pfn)) :
    (runs row).flatMap (runPages M) = (filled row).map fun p => ((M.page p.1).toList, p.2) := by
  rw [← runs_flatMap_zipIdx, List.map_flatMap]
  rfl

/-- **A call that passes its checks** and makes room for its pages sends every page exactly when no
batch is lost. -/
theorem PagesCall.sendsEveryPage_iff {c : PagesCall} {vma : Vma} (hchecked : c.checked = .ok vma)
    (hgrowth : ¬ c.GrowthFails M) : c.SendsEveryPage M ↔ ¬ c.LosesBatch M := by
  have hpages := PagesCall.frames_pages hchecked hgrowth
  rw [← c.sentRuns_eq_iff, SendsEveryPage, hpages]
  constructor
  · intro hevery
    -- every number of a page is among those of the runs sent, so these are as many
    have hsubset : (filled (c.row M)).map Prod.snd ⊆
        ((c.sentRuns M).flatMap (runPages M)).map Prod.snd := by
      intro k hk
      obtain ⟨⟨pfn, _⟩, hmem, rfl⟩ := List.mem_map.mp hk
      have hcount := hevery _ pfn (mem_filled.mp hmem)
      exact List.mem_map_of_mem (f := Prod.snd)
        (List.count_pos_iff.mp (by rw [hcount]; exact Nat.one_pos))
    have hlen := (List.subperm_of_subset (nodup_filled (c.row M)) hsubset).length_le
    refine eq_of_sublist_of_flatMap (f := runPages M) c.sentRuns_sublist (fun r hr h => ?_) ?_
    · have hnil := congrArg List.length h
      rw [runPages, List.length_map, List.length_zipIdx] at hnil
      exact runs_ne_nil hr (List.length_eq_zero_iff.mp hnil)
    · rw [runs_pages, List.length_map]
      rwa [List.length_map, List.length_map] at hlen
  · intro hall k pfn hk
    have hnodup : ((runs (c.row M)).flatMap (runPages M)).Nodup := by
      apply List.Nodup.of_map Prod.snd
      rw [runs_pages, List.map_map]
      exact nodup_filled (c.row M)
    rw [hall]
    refine List.count_eq_one_of_mem hnodup ?_
    rw [runs_pages]
    exact List.mem_map_of_mem (f := fun p : Pfn × ℕ => ((M.page p.1).toList, p.2))
      (mem_filled.mpr hk)

/-! ## The verdict -/

/-- **A verdict on the whole mapping.**  When the call returns the verdict of a reply, its frames
contain every page of the mapping exactly once: for every mapping, every outcome of the allocations
and every reply, unless a batch is lost in a call that gets to the verdict. -/
theorem answered_sendsEveryPage_iff (M : PhysMem) (c : PagesCall) (replyLen : ℤ) :
    (c.Answered M replyLen → c.SendsEveryPage M) ↔
      replyLen < 4 ∨ (∀ vma, c.checked ≠ .ok vma) ∨ c.GrowthFails M ∨ ¬ c.LosesBatch M := by
  cases hchecked : c.checked with
  | error value =>
    have hret : (sendPagesToUserspaceTcp M c).2 = .ret value := by
      rw [sendPagesToUserspaceTcp, hchecked]
    refine iff_of_true (fun h => ?_) (Or.inr (Or.inl fun vma h => by cases h))
    have hawait := h.1
    rw [hret] at hawait
    cases hawait
  | ok vma =>
    obtain ⟨hearly, hlate⟩ := PagesCall.sendPages_result (M := M) hchecked
    have hpassed : ¬ ∀ vma', (Except.ok vma : Except Int32 Vma) ≠ .ok vma' := fun h => h vma rfl
    rw [or_iff_right hpassed]
    by_cases hgrowth : c.GrowthFails M
    · refine iff_of_true (fun h => ?_) (Or.inr (Or.inl hgrowth))
      have hawait := h.1
      rw [hearly hgrowth] at hawait
      cases hawait
    · rw [PagesCall.sendsEveryPage_iff hchecked hgrowth, or_iff_right hgrowth]
      constructor
      · intro h
        rcases lt_or_ge replyLen 4 with hshort | hlong
        · exact Or.inl hshort
        · exact Or.inr (h ⟨hlate hgrowth, hlong⟩)
      · rintro (hshort | hall) hanswered
        · exact absurd hanswered.2 (not_le_of_gt hshort)
        · exact hall

/-- The sample mapping, with a `vmap` that fails for the first page. -/
def lossyCall : PagesCall :=
  { sampleCall with
    walk := [(.pteEntry ⟨true, 1⟩ 4096 8192, .ok), (.pteHole 8192 12288, ⟨true, false, true⟩),
      (.pteEntry ⟨true, 2⟩ 12288 16384, .ok)]
    walk_covers := ⟨rfl, rfl, rfl, ⟨0, rfl⟩, rfl, rfl, rfl⟩ }

/-- **A verdict on a mapping without its first page.**  The batch of the first page is dropped, the
second is sent with the end flag, and the hook returns the verdict on it. -/
theorem lossyCall_answered_without_page : ¬ ∀ (M : PhysMem) (c : PagesCall) (replyLen : ℤ),
    c.Answered M replyLen → c.SendsEveryPage M := by
  intro hall
  have hchecked : lossyCall.checked = .ok ⟨false, none⟩ := rfl
  have hgrowth : ¬ lossyCall.GrowthFails sampleMemory :=
    not_growthFailsIn_of_forall (show ∀ step ∈ lossyCall.walk, step.2.kvrealloc = true by decide)
  have hlost : lossyCall.LosesBatch sampleMemory :=
    Or.inl ⟨[(.pteEntry ⟨true, 1⟩ 4096 8192, .ok)], _, _, rfl, by decide⟩
  exact (PagesCall.sendsEveryPage_iff hchecked hgrowth).mp
    (hall sampleMemory lossyCall 4 ⟨(PagesCall.sendPages_result hchecked).2 hgrowth, le_rfl⟩) hlost

end LsmFork
