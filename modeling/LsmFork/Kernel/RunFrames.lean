import LsmFork.Lib.MaximalRuns
import LsmFork.Kernel.Hook

/-!
# The frames of an undisturbed hook

When no allocation fails, the collector is the scanner of `Lib.MaximalRuns`: its batch is the run
that the walk is in, and a flush sends the run that has just been closed.  So the frames are one for
each maximal run of collected pages, in ascending order, and the last of them, or an empty frame
when the mapping ends in a gap, carries the end flag.

* `RowInv`: the batch is the open run of the cells walked so far.
* `RowInv.callback`, `RowInv.walk`: one callback, and a walk, keep it, and send the closed runs.
* `PagesCall.frames_eq`: the frames of the whole call.
* `sendPages_describes_mapping`: what they say about the mapping.
-/

namespace LsmFork

open MaximalRuns

variable (M : PhysMem)

/-- The frame of a run that starts at cell `r.1`. -/
def runFrame (info : MappingInfo) (r : ℕ × List Pfn) : Frame where
  header := { info with
    mappedAddr := UInt64.ofNat (r.1 * pageSize)
    len := UInt64.ofNat (r.2.length * pageSize) }
  payload := pagesData M r.2

/-- After the cells `row`, the context holds their open run, and the offset of its first page. -/
structure RowInv (info : MappingInfo) (row : List (Option Pfn)) (ctx : WalkCtx) : Prop where
  memoryError : ctx.memoryError = false
  pages : ctx.pages = lastRun row
  same : SameMapping info ctx.info
  start : lastRun row ≠ [] →
    ctx.info.mappedAddr.toNat = (row.length - (lastRun row).length) * pageSize

variable {M} {info : MappingInfo} {row : List (Option Pfn)} {ctx : WalkCtx}

theorem RowInv.count (h : RowInv info row ctx) : ctx.count = (lastRun row).length := by
  rw [WalkCtx.count, h.pages]

/-- The open run, framed, is what a flush would send. -/
theorem RowInv.batchFrame_eq (h : RowInv info row ctx) (hne : lastRun row ≠ []) :
    batchFrame M ctx = runFrame M info (row.length - (lastRun row).length, lastRun row) := by
  have hmapped : UInt64.ofNat ((row.length - (lastRun row).length) * pageSize) =
      ctx.info.mappedAddr := by
    rw [← h.start hne, UInt64.ofNat_toNat]
  rw [batchFrame, runFrame, h.count, h.pages, hmapped]
  exact congrArg (fun i : MappingInfo => (⟨{ i with
    len := UInt64.ofNat ((lastRun row).length * pageSize) }, pagesData M (lastRun row)⟩ : Frame))
    (h.same ctx.info.mappedAddr)

/-- The allocations that a batch needs to be sent succeed. -/
def AllocOutcome.sendsBatch (o : AllocOutcome) : Bool := o.vmap && o.kmalloc

/-- A flush in the middle of the walk sends the open run, if there is one and nothing fails. -/
theorem RowInv.flushFrames_eq (h : RowInv info row ctx) (hend : info.isEndOfMapping = 0)
    (o : AllocOutcome) :
    flushFrames M o ctx = if o.sendsBatch then (openRuns row).map (runFrame M info) else [] := by
  have hctx : ctx.info.isEndOfMapping = 0 := h.same.isEndOfMapping.trans hend
  rw [openRuns_eq]
  by_cases hrun : lastRun row = []
  · have h0 : ctx.count = 0 := by rw [h.count, hrun, List.length_nil]
    rw [if_pos hrun, flushFrames_of_not M (fun hs => hs.1 h0 hctx), List.map_nil, ite_self]
  · have hpos : 0 < ctx.count := by rw [h.count]; exact List.length_pos_of_ne_nil hrun
    have hsends : FlushSends o ctx ↔ o.sendsBatch = true := by
      rw [AllocOutcome.sendsBatch, Bool.and_eq_true]
      exact ⟨fun hs => ⟨hs.2.1 hpos, hs.2.2⟩, fun hs => ⟨fun h0 => by omega, fun _ => hs.1, hs.2⟩⟩
    rw [if_neg hrun, flushFrames, h.batchFrame_eq hrun]
    simp only [hsends]
    rfl

theorem RowInv.store (h : RowInv info row ctx) (pfn : Pfn) {a : UInt64}
    (ha : a.toNat = info.initAddr.toNat + row.length * pageSize) :
    RowInv info (row ++ [some pfn]) (storePage pfn a ctx).1 := by
  have hlen := lastRun_length_le row
  rw [storePage_ctx, h.pages]
  by_cases hrun : lastRun row = []
  · -- the first page of a run fixes its offset
    have hle : ctx.info.initAddr ≤ a := by
      rw [UInt64.le_iff_toNat_le, h.same.initAddr, ha]
      exact Nat.le_add_right _ _
    rw [if_pos hrun]
    refine ⟨h.memoryError, ?_, ?_, fun _ => ?_⟩
    · rw [lastRun_concat_some]
    · exact h.same
    · show (a - ctx.info.initAddr).toNat = _
      rw [UInt64.toNat_sub_of_le _ _ hle, h.same.initAddr, ha, lastRun_concat_some, hrun]
      simp
  · rw [if_neg hrun]
    refine ⟨h.memoryError, ?_, h.same, fun _ => ?_⟩
    · rw [lastRun_concat_some]
    · rw [h.start hrun, lastRun_concat_some, List.length_append, List.length_append,
        List.length_singleton, List.length_singleton]
      congr 1
      omega

theorem RowInv.flush (h : RowInv info row ctx) {cs : List (Option Pfn)}
    (hgap : lastRun (row ++ cs) = []) :
    RowInv info (row ++ cs) { ctx with pages := [] } :=
  ⟨h.memoryError, hgap.symm, h.same, fun hne => absurd hgap hne⟩

theorem RowInv.withCapacity (h : RowInv info row ctx) (n : ℕ) :
    RowInv info row { ctx with capacity := n } := ⟨h.memoryError, h.pages, h.same, h.start⟩

variable (M) in
/-- The callback is for a gap: it ends the run that the walk is in. -/
def closesRun : WalkCallback → Bool
  | .pmdEntry _ _ => false
  | .pteEntry pte _ _ => (collectedPfn M pte).isNone
  | .pteHole _ _ => true

theorem closedRuns_append_cells {cb : WalkCallback} {cbs : List WalkCallback} {pos stop : ℕ}
    (hcover : Covers pos stop (cb :: cbs)) :
    closedRuns (row ++ cells M [cb]) =
      closedRuns row ++ if closesRun M cb then openRuns row else [] := by
  cases cb with
  | pmdEntry a b =>
    have hcells : cells M [.pmdEntry a b] = [] := rfl
    rw [hcells, List.append_nil, closesRun, if_neg (by decide), List.append_nil]
  | pteEntry pte a b =>
    rw [cells_pteEntry, closesRun]
    cases collectedPfn M pte with
    | none => rw [closedRuns_concat_none, runs_eq]; rfl
    | some pfn => rw [closedRuns_concat_some]; exact (List.append_nil _).symm
  | pteHole a b =>
    obtain ⟨n, hn, hcells⟩ := cells_pteHole M hcover
    rw [hcells, closedRuns_append_gap _ hn, runs_eq]
    rfl

/-- **One callback** that finds room for its page or makes it: it goes on, its cells join the row,
and it sends the run that it closes, if the allocations for that succeed. -/
theorem RowInv.callback (h : RowInv info row ctx) (hend : info.isEndOfMapping = 0)
    {step : WalkStep} (hgrows : ∀ {pte a b}, step.1 = .pteEntry pte a b →
      (collectedPfn M pte).isSome = true → ctx.capacity ≤ ctx.count → step.2.kvrealloc = true)
    {cbs : List WalkCallback} {stop : ℕ}
    (hcover : Covers (info.initAddr.toNat + row.length * pageSize) stop (step.1 :: cbs))
    {value : Int32} {ctx' : WalkCtx} {fs : List Frame} (hstep : Callback M step ctx value ctx' fs) :
    value = 0 ∧ RowInv info (row ++ cells M [step.1]) ctx' ∧
      fs = if closesRun M step.1 && step.2.sendsBatch then (openRuns row).map (runFrame M info)
        else [] := by
  cases hstep with
  | descend =>
    have hcells : ∀ a b : UInt64, cells M [.pmdEntry a b] = [] := fun _ _ => rfl
    rw [hcells, List.append_nil]
    exact ⟨rfl, h, rfl⟩
  | @hole a b o =>
    obtain ⟨n, hn, hcells⟩ := cells_pteHole M hcover
    rw [hcells, h.flushFrames_eq hend]
    exact ⟨rfl, h.flush (lastRun_append_gap _ hn), rfl⟩
  | abort herr => rw [h.memoryError] at herr; cases herr
  | @gap pte a b o _ herr hpfn =>
    rw [cells_pteEntry, hpfn, h.flushFrames_eq hend, closesRun, hpfn]
    exact ⟨rfl, h.flush (lastRun_concat_none _), rfl⟩
  | @take pte pfn a b o _ herr hpfn hroom =>
    rw [cells_pteEntry, hpfn, closesRun, hpfn]
    exact ⟨rfl, h.store pfn hcover.1, rfl⟩
  | @grow pte pfn a b o _ herr hpfn hfull hgrown =>
    rw [cells_pteEntry, hpfn, closesRun, hpfn]
    exact ⟨rfl, (h.withCapacity _).store pfn hcover.1, rfl⟩
  | @growFail pte pfn a b o _ herr hpfn hfull hfail =>
    have hgrown := hgrows rfl (by rw [hpfn]; rfl) hfull
    rw [hgrown] at hfail
    cases hfail

/-- **The whole walk.**  Its frames are the runs that a gap has closed. -/
theorem RowInv.walk (h : RowInv info row ctx) (hend : info.isEndOfMapping = 0)
    {steps : List WalkStep} (hok : ∀ step ∈ steps, step.2 = .ok) {stop : ℕ}
    (hcover : Covers (info.initAddr.toNat + row.length * pageSize) stop (steps.map Prod.fst)) :
    RowInv info (row ++ cells M (steps.map Prod.fst)) (walkPageRange M steps ctx).1 ∧
      (closedRuns row).map (runFrame M info) ++ walkFrames M steps ctx =
        (closedRuns (row ++ cells M (steps.map Prod.fst))).map (runFrame M info) := by
  induction steps generalizing row ctx with
  | nil =>
    rw [List.map_nil, cells_nil, List.append_nil, walkFrames, List.append_nil]
    exact ⟨h, rfl⟩
  | cons step steps ih =>
    have hone : step.2 = .ok := hok step (List.mem_cons_self ..)
    obtain ⟨hvalue, hnext, hsent⟩ := h.callback hend (fun _ _ _ => by rw [hone]; rfl) hcover
      (lsmWalkOps_cases M step ctx).1
    have hsends : step.2.sendsBatch = true := by rw [hone]; rfl
    have hframes : (closedRuns row).map (runFrame M info) ++ callbackFrames M step ctx =
        (closedRuns (row ++ cells M [step.1])).map (runFrame M info) := by
      rw [closedRuns_append_cells hcover, hsent, hsends, Bool.and_true, List.map_append]
      split <;> rfl
    have hpos : info.initAddr.toNat + (row ++ cells M [step.1]).length * pageSize =
        info.initAddr.toNat + row.length * pageSize +
          (callbackSlots step.1).length * pageSize := by
      rw [List.length_append, cells_length, slots_cons, slots_nil, List.append_nil]
      ring
    obtain ⟨hinv, hrest⟩ := ih hnext (fun s hs => hok s (List.mem_cons_of_mem step hs))
      (by rw [hpos]; exact hcover.tail)
    rw [append_cells_cons, walkPageRange_of_eq M hvalue, walkFrames, if_neg (fun hne => hne hvalue),
      ← List.append_assoc, hframes]
    exact ⟨hinv, hrest⟩

/-! ## The whole call -/

/-- No allocation of the call fails. -/
def PagesCall.AllocationsSucceed (c : PagesCall) : Prop :=
  (∀ step ∈ c.walk, step.2 = .ok) ∧ c.final = .ok

/-- The frame with its end flag set. -/
def Frame.marked (f : Frame) : Frame := { f with header := { f.header with isEndOfMapping := 1 } }

variable (M) in
/-- The last frame: the open run with the end flag set, or an empty frame, whose offset `m` is
whatever the previous run left. -/
def lastFrame (info : MappingInfo) (row : List (Option Pfn)) (m : UInt64) : Frame :=
  if lastRun row = [] then
    ⟨{ info with mappedAddr := m, len := 0, isEndOfMapping := 1 }, []⟩
  else (runFrame M info (row.length - (lastRun row).length, lastRun row)).marked

theorem RowInv.finalFrame_eq (h : RowInv info row ctx) :
    batchFrame M (markEnd ctx) = lastFrame M info row ctx.info.mappedAddr := by
  have hmark : batchFrame M (markEnd ctx) = (batchFrame M ctx).marked := rfl
  rw [hmark, lastFrame]
  split
  · rename_i hrun
    have hnil : ctx.pages = [] := h.pages.trans hrun
    have h0 : ctx.count = 0 := by rw [WalkCtx.count, hnil, List.length_nil]
    rw [batchFrame, h0, hnil]
    exact congrArg (fun i : MappingInfo => (⟨{ i with len := 0, isEndOfMapping := 1 }, []⟩ : Frame))
      (h.same ctx.info.mappedAddr)
  · rename_i hrun
    rw [h.batchFrame_eq hrun]

theorem RowInv.initial (c : PagesCall) (vma : Vma) : RowInv (c.info vma) [] (c.startCtx vma) :=
  ⟨rfl, rfl, SameMapping.refl _, fun h => absurd rfl h⟩

theorem PagesCall.rowInv_walk {c : PagesCall} (vma : Vma) (hok : c.AllocationsSucceed) :
    RowInv (c.info vma) (c.row M) (walkPageRange M c.walk (c.startCtx vma)).1 ∧
      walkFrames M c.walk (c.startCtx vma) =
        (closedRuns (c.row M)).map (runFrame M (c.info vma)) := by
  have hcover : Covers ((c.info vma).initAddr.toNat + ([] : List (Option Pfn)).length * pageSize)
      (c.addr.toNat + c.len.toNat) (c.walk.map Prod.fst) := by
    rw [List.length_nil, Nat.zero_mul]
    exact c.walk_covers
  exact (RowInv.initial c vma).walk rfl hok.1 hcover

/-- **The frames of an undisturbed call**: the closed runs, and the last frame. -/
theorem PagesCall.frames_eq {c : PagesCall} {vma : Vma} (hchecked : c.checked = .ok vma)
    (hok : c.AllocationsSucceed) :
    ∃ m, c.frames M = (closedRuns (c.row M)).map (runFrame M (c.info vma)) ++
      [lastFrame M (c.info vma) (c.row M) m] := by
  obtain ⟨hinv, hframes⟩ := PagesCall.rowInv_walk (M := M) vma hok
  refine ⟨(walkPageRange M c.walk (c.startCtx vma)).1.info.mappedAddr, ?_⟩
  have hsends : FlushSends c.final (markEnd (walkPageRange M c.walk (c.startCtx vma)).1) := by
    rw [hok.2]
    exact ⟨fun _ => show (1 : UInt64) ≠ 0 by decide, fun _ => rfl, rfl⟩
  rw [PagesCall.frames, hchecked]
  simp only
  rw [hframes, flushFrames_of M hsends, hinv.finalFrame_eq]

theorem PagesCall.row_length (c : PagesCall) : (c.row M).length * pageSize = c.len.toNat := by
  have h := covers_length c.walk_covers
  rw [PagesCall.row, cells_length]
  omega

/-- The frames `fs` describe a mapping whose collected pages are `row`: one data frame for each
maximal run, in ascending order, with the offset and the length of the run and its pages; every page
once; and the end flag on the last frame only, which is empty when the mapping ends in a gap, and
otherwise the data frame of the last run.  No other frame is empty. -/
structure DescribesMapping (M : PhysMem) (row : List (Option Pfn)) (fs : List Frame) : Prop where
  data : ∃ rs : List (ℕ × List Pfn), (∀ r, r ∈ rs ↔ IsRun row r) ∧
    (rs.Pairwise fun r s => r.1 + r.2.length < s.1) ∧
    (fs.filter fun f => f.payload ≠ []).map
        (fun f => (f.header.mappedAddr.toNat, f.header.len.toNat, f.payload)) =
      rs.map fun r => (r.1 * pageSize, r.2.length * pageSize, pagesData M r.2)
  complete : ∀ f ∈ fs, f.Complete
  pages : fs.flatMap Frame.payload = pagesData M (row.filterMap id)
  endFlag : ∃ before last, fs = before ++ [last] ∧ last.IsEnd ∧
    (∀ f ∈ before, f.header.isEndOfMapping = 0 ∧ f.payload ≠ []) ∧
    (EndsInGap row → last.header.len = 0 ∧ last.payload = []) ∧
    (¬ EndsInGap row → last.payload ≠ [])

/-- What a frame says about its run. -/
def runEntry (M : PhysMem) (r : ℕ × List Pfn) : ℕ × ℕ × List UInt8 :=
  (r.1 * pageSize, r.2.length * pageSize, pagesData M r.2)

theorem runFrame_entry (info : MappingInfo) {r : ℕ × List Pfn} (hr : r ∈ runs row)
    (hrow : row.length * pageSize < 2 ^ 64) :
    ((runFrame M info r).header.mappedAddr.toNat, (runFrame M info r).header.len.toNat,
      (runFrame M info r).payload) = runEntry M r := by
  have hend := Nat.mul_le_mul_right pageSize (runs_end_le hr)
  rw [Nat.add_mul] at hend
  have hstart : (UInt64.ofNat (r.1 * pageSize)).toNat = r.1 * pageSize :=
    UInt64.toNat_ofNat_of_lt' (lt_of_le_of_lt (by omega) hrow)
  have hlen : (UInt64.ofNat (r.2.length * pageSize)).toNat = r.2.length * pageSize :=
    UInt64.toNat_ofNat_of_lt' (lt_of_le_of_lt (by omega) hrow)
  rw [runFrame, runEntry, hstart, hlen]

theorem runFrame_complete (info : MappingInfo) {r : ℕ × List Pfn} (hr : r ∈ runs row)
    (hrow : row.length * pageSize < 2 ^ 64) : (runFrame M info r).Complete := by
  have h := congrArg (fun e : ℕ × ℕ × List UInt8 => e.2.1)
    (runFrame_entry (M := M) info hr hrow)
  rw [Frame.Complete]
  exact (pagesData_length M r.2).trans h.symm

theorem pagesData_append (M : PhysMem) (ps qs : List Pfn) :
    pagesData M (ps ++ qs) = pagesData M ps ++ pagesData M qs := List.flatMap_append

theorem pagesData_flatMap (M : PhysMem) (rs : List (ℕ × List Pfn)) :
    rs.flatMap (fun r => pagesData M r.2) = pagesData M (rs.flatMap Prod.snd) := by
  induction rs with
  | nil => rfl
  | cons r rs ih => rw [List.flatMap_cons, List.flatMap_cons, ih, pagesData_append]

theorem filter_runFrames {rs : List (ℕ × List Pfn)} (h : ∀ r ∈ rs, r.2 ≠ []) :
    (rs.map (runFrame M info)).filter (fun f => f.payload ≠ []) = rs.map (runFrame M info) := by
  rw [List.filter_eq_self]
  intro f hf
  obtain ⟨r, hr, rfl⟩ := List.mem_map.mp hf
  simpa [runFrame] using pagesData_ne_nil M (h r hr)

theorem runFrames_entries (info : MappingInfo) (hrow : row.length * pageSize < 2 ^ 64)
    {rs : List (ℕ × List Pfn)} (hrs : ∀ r ∈ rs, r ∈ runs row) :
    (rs.map (runFrame M info)).map
        (fun f => (f.header.mappedAddr.toNat, f.header.len.toNat, f.payload)) =
      rs.map (runEntry M) := by
  rw [List.map_map]
  exact List.map_congr_left fun r hr => runFrame_entry info (hrs r hr) hrow

/-- The last frame is a data frame exactly when there is an open run, and it says what that is. -/
theorem lastFrame_entries (info : MappingInfo) (hrow : row.length * pageSize < 2 ^ 64)
    (m : UInt64) :
    ([lastFrame M info row m].filter fun f => f.payload ≠ []).map
        (fun f => (f.header.mappedAddr.toNat, f.header.len.toNat, f.payload)) =
      (openRuns row).map (runEntry M) := by
  rw [lastFrame]
  by_cases hrun : lastRun row = []
  · rw [openRuns_eq, if_pos hrun, if_pos hrun, List.filter_cons_of_neg (by simp), List.filter_nil]
    rfl
  · rw [openRuns_eq, if_neg hrun, if_neg hrun, List.filter_cons_of_pos, List.filter_nil]
    · exact congrArg (fun e => [e]) (runFrame_entry (M := M) info (lastRun_mem_runs hrun) hrow)
    · simpa [Frame.marked, runFrame] using pagesData_ne_nil M hrun

theorem lastFrame_complete (info : MappingInfo) (hrow : row.length * pageSize < 2 ^ 64)
    (m : UInt64) : (lastFrame M info row m).Complete := by
  rw [lastFrame]
  split
  · rfl
  · rename_i hrun
    exact runFrame_complete (M := M) info (lastRun_mem_runs hrun) hrow

theorem lastFrame_payload (info : MappingInfo) (m : UInt64) :
    (lastFrame M info row m).payload = pagesData M ((openRuns row).flatMap Prod.snd) := by
  rw [lastFrame, openRuns_eq]
  split
  · rfl
  · rw [List.flatMap_singleton]
    rfl

theorem lastFrame_isEnd (info : MappingInfo) (m : UInt64) : (lastFrame M info row m).IsEnd := by
  rw [lastFrame]
  split <;> rfl

theorem describesMapping_runFrames (hrow : row.length * pageSize < 2 ^ 64)
    (hend : info.isEndOfMapping = 0) (m : UInt64) :
    DescribesMapping M row
      ((closedRuns row).map (runFrame M info) ++ [lastFrame M info row m]) := by
  have hclosed : ∀ r ∈ closedRuns row, r.2 ≠ [] := fun r hr =>
    runs_ne_nil (closedRuns_subset_runs hr)
  refine ⟨⟨runs row, mem_runs_iff row, runs_pairwise row, ?_⟩, ?_, ?_, _, _, rfl,
    lastFrame_isEnd info m, ?_, fun hgap => ?_, fun hgap => ?_⟩
  · rw [List.filter_append, filter_runFrames hclosed, List.map_append,
      runFrames_entries info hrow fun r => closedRuns_subset_runs, lastFrame_entries info hrow m,
      runs_eq, List.map_append]
    rfl
  · intro f hf
    rcases List.mem_append.mp hf with hf | hf
    · obtain ⟨r, hr, rfl⟩ := List.mem_map.mp hf
      exact runFrame_complete info (closedRuns_subset_runs hr) hrow
    · rw [List.mem_singleton.mp hf]
      exact lastFrame_complete info hrow m
  · have hpayloads : ((closedRuns row).map (runFrame M info)).flatMap Frame.payload =
        pagesData M ((closedRuns row).flatMap Prod.snd) := by
      rw [← pagesData_flatMap, List.flatMap_map]
      rfl
    rw [List.flatMap_append, hpayloads, List.flatMap_singleton, lastFrame_payload,
      ← pagesData_append, ← List.flatMap_append, ← runs_eq, runs_flatMap]
  · intro f hf
    obtain ⟨r, hr, rfl⟩ := List.mem_map.mp hf
    exact ⟨hend, pagesData_ne_nil M (hclosed r hr)⟩
  · rw [lastFrame, if_pos (lastRun_eq_nil_of_endsInGap hgap)]
    exact ⟨rfl, rfl⟩
  · rw [lastFrame, if_neg (lastRun_ne_nil hgap)]
    exact pagesData_ne_nil M (lastRun_ne_nil hgap)

/-- **The sender's frames describe the mapping exactly**, when no allocation fails. -/
theorem sendPages_describes_mapping (c : PagesCall) {vma : Vma} (hchecked : c.checked = .ok vma)
    (hok : c.AllocationsSucceed) :
    ∃ fs, sends (sendPagesToUserspaceTcp M c).1 = fs.flatMap Frame.chunks ∧
      DescribesMapping M (c.row M) fs := by
  refine ⟨c.frames M, sends_sendPagesToUserspaceTcp M c, ?_⟩
  obtain ⟨m, hframes⟩ := PagesCall.frames_eq (M := M) hchecked hok
  have hrow : (c.row M).length * pageSize < 2 ^ 64 := by
    rw [c.row_length]
    exact c.len.toNat_lt
  rw [hframes]
  exact describesMapping_runFrames hrow rfl m

theorem sampleCall_allocationsSucceed : sampleCall.AllocationsSucceed := by
  refine ⟨fun step hstep => ?_, rfl⟩
  simp only [sampleCall, List.mem_cons, List.not_mem_nil, or_false] at hstep
  rcases hstep with rfl | rfl | rfl <;> rfl

theorem sampleCall_describes_mapping :
    ∃ fs, sends (sendPagesToUserspaceTcp sampleMemory sampleCall).1 = fs.flatMap Frame.chunks ∧
      DescribesMapping sampleMemory [some 1, none, some 2] fs :=
  sampleCall_row ▸ sendPages_describes_mapping sampleCall sampleCall_checked
    sampleCall_allocationsSucceed

end LsmFork
