import LsmFork.Wire.MappingInfo

/-!
# The page collector

`send_pages_to_userspace_tcp` walks the page table of a mapping with three callbacks.  A present
page is added to a batch, anything else flushes the batch to the socket, and a batch that outgrows
its array makes the array grow.  This file is the walk context and these functions, as the kernel
computes them, with every call that can fail taking its outcome from the caller.

An operation returns the context it leaves and the list of what it did, in order: references taken
and dropped, slots of the page array written, buffers handed to the socket.

* `flushAccumulatedPages`, `growPageArray`, `collectPages`, `handleHole`: the source's functions.
* `lsmWalkOps`, `walkPageRange`: the callback table, and the walk that calls it until a callback
  returns a nonzero value.
* `callbackFrames`, `walkFrames`: the frames that a callback, and a walk, send.
* `sends_walkPageRange`: the buffers a walk sends are exactly the chunks of its frames.
* `lsmWalkOps_cases`: all that one callback can do.
-/

namespace LsmFork

/-- `PAGE_SIZE`. -/
def pageSize : ℕ := 4096

/-- `INITIAL_CAPACITY`. -/
def initialCapacity : ℕ := 512

/-- `-ENOMEM`. -/
def eNoMem : Int32 := -12

/-- A page frame number; `pfn_to_page` makes it a `struct page *`, so it stands for both. -/
abbrev Pfn := ℕ

/-- What the collector reads of a page-table entry. -/
structure Pte where
  present : Bool
  pfn : Pfn
  deriving DecidableEq

/-- Physical memory as the collector sees it.  The zero page holds zeros. -/
structure PhysMem where
  isZeroPfn : Pfn → Bool
  pfnValid : Pfn → Bool
  page : Pfn → Chars pageSize
  page_zero : ∀ pfn, isZeroPfn pfn = true → page pfn = zeroChars pageSize

/-- The outcomes of the allocations that one callback, or the final flush, may attempt: it calls
each of them at most once. -/
structure AllocOutcome where
  kvrealloc : Bool
  vmap : Bool
  kmalloc : Bool
  deriving DecidableEq

/-- Every allocation succeeds. -/
def AllocOutcome.ok : AllocOutcome := ⟨true, true, true⟩

/-- What the collector does to the world outside its context. -/
inductive KernelEvent where
  | getPage (page : Pfn)
  | putPage (page : Pfn)
  | storePage (i capacity : ℕ)
  | send (buf : List UInt8)
  deriving DecidableEq

/-- `struct walk_ctx`.  `pages` are the first `count` slots of the page array, the only ones that
are read. -/
structure WalkCtx where
  pages : List Pfn
  capacity : ℕ
  memoryError : Bool
  info : MappingInfo

/-- `ctx->count`. -/
def WalkCtx.count (ctx : WalkCtx) : ℕ := ctx.pages.length

/-- Two headers of the same mapping differ in the offset only: all that the walk writes to
`ctx->info`. -/
def SameMapping (info info' : MappingInfo) : Prop :=
  ∀ m : UInt64, { info' with mappedAddr := m } = { info with mappedAddr := m }

namespace SameMapping

variable {info info' : MappingInfo}

theorem refl (info : MappingInfo) : SameMapping info info := fun _ => rfl

theorem initAddr (h : SameMapping info info') : info'.initAddr = info.initAddr := by
  simpa using congrArg MappingInfo.initAddr (h 0)

theorem mappingLen (h : SameMapping info info') : info'.mappingLen = info.mappingLen := by
  simpa using congrArg MappingInfo.mappingLen (h 0)

theorem isEndOfMapping (h : SameMapping info info') :
    info'.isEndOfMapping = info.isEndOfMapping := by
  simpa using congrArg MappingInfo.isEndOfMapping (h 0)

end SameMapping

variable (M : PhysMem)

/-! ## The functions of the source -/

/-- `lsm_send_to_userspace_tcp`: an empty buffer is refused. -/
def lsmSendToUserspaceTcp (buf : List UInt8) : List KernelEvent :=
  if buf = [] then [] else [.send buf]

/-- The bytes of the given pages, mapped side by side. -/
def pagesData (pages : List Pfn) : List UInt8 := pages.flatMap fun pfn => (M.page pfn).toList

/-- `vmap`: the pages as one area, or a null pointer. -/
def vmap (o : AllocOutcome) (pages : List Pfn) : Option (List UInt8) :=
  if o.vmap then some (pagesData M pages) else none

/-- `flush_accumulated_pages`. -/
def flushAccumulatedPages (o : AllocOutcome) (ctx : WalkCtx) : WalkCtx × List KernelEvent :=
  if ctx.count = 0 ∧ ctx.info.isEndOfMapping = 0 then (ctx, [])
  else
    let dataLen : UInt64 := UInt64.ofNat (ctx.count * pageSize)
    let kaddr : Option (List UInt8) := if 0 < ctx.count then vmap M o ctx.pages else none
    let sent : List KernelEvent :=
      if kaddr.isSome ∨ ctx.count = 0 then
        let info := { ctx.info with len := dataLen }
        if o.kmalloc then
          lsmSendToUserspaceTcp info.toBytes ++
            match kaddr with
            | some data => lsmSendToUserspaceTcp data
            | none => []
        else []
      else []
    ({ ctx with pages := [] }, sent ++ ctx.pages.map .putPage)

/-- `grow_page_array`. -/
def growPageArray (o : AllocOutcome) (ctx : WalkCtx) : Int32 × WalkCtx :=
  if o.kvrealloc then (0, { ctx with capacity := ctx.capacity * 2 })
  else (eNoMem, { ctx with memoryError := true })

/-- The part of `collect_pages` that makes room in the array. -/
def makeRoom (o : AllocOutcome) (ctx : WalkCtx) : WalkCtx × List KernelEvent :=
  if ctx.capacity ≤ ctx.count then
    let grown := growPageArray o ctx
    if grown.1 ≠ 0 then flushAccumulatedPages M o grown.2 else (grown.2, [])
  else (ctx, [])

/-- The part of `collect_pages` that takes the page into the batch. -/
def storePage (pfn : Pfn) (addr : UInt64) (ctx : WalkCtx) : WalkCtx × List KernelEvent :=
  let stored := { ctx with pages := ctx.pages ++ [pfn] }
  (if stored.count = 1 then
      { stored with info := { ctx.info with mappedAddr := addr - ctx.info.initAddr } }
    else stored,
    [.getPage pfn, .storePage ctx.count ctx.capacity])

/-- `collect_pages`, the callback for one page-table entry. -/
def collectPages (o : AllocOutcome) (ptent : Pte) (addr : UInt64) (ctx : WalkCtx) :
    Int32 × WalkCtx × List KernelEvent :=
  if ctx.memoryError then (eNoMem, ctx, [])
  else if !ptent.present || M.isZeroPfn ptent.pfn then (0, flushAccumulatedPages M o ctx)
  else if !M.pfnValid ptent.pfn then (0, flushAccumulatedPages M o ctx)
  else
    let room := makeRoom M o ctx
    let stored := storePage ptent.pfn addr room.1
    (0, stored.1, room.2 ++ stored.2)

/-- `handle_hole`, the callback for a range without page tables. -/
def handleHole (o : AllocOutcome) (ctx : WalkCtx) : Int32 × WalkCtx × List KernelEvent :=
  (0, flushAccumulatedPages M o ctx)

/-- One call that `walk_page_range` makes, with the range `[addr, next)` it is about. -/
inductive WalkCallback where
  | pmdEntry (addr next : UInt64)
  | pteEntry (pte : Pte) (addr next : UInt64)
  | pteHole (addr next : UInt64)
  deriving DecidableEq

/-- A callback with the outcomes of its allocations. -/
abbrev WalkStep := WalkCallback × AllocOutcome

/-- `lsm_walk_ops`.  `collect_pmd` only descends. -/
def lsmWalkOps (step : WalkStep) (ctx : WalkCtx) : Int32 × WalkCtx × List KernelEvent :=
  match step.1 with
  | .pmdEntry _ _ => (0, ctx, [])
  | .pteEntry pte addr _ => collectPages M step.2 pte addr ctx
  | .pteHole _ _ => handleHole M step.2 ctx

/-- `walk_page_range`: the callbacks in order, until one returns a nonzero value. -/
def walkPageRange : List WalkStep → WalkCtx → WalkCtx × List KernelEvent
  | [], ctx => (ctx, [])
  | step :: steps, ctx =>
    let done := lsmWalkOps M step ctx
    if done.1 ≠ 0 then done.2
    else
      let rest := walkPageRange steps done.2.1
      (rest.1, done.2.2 ++ rest.2)

/-! ## What reaches the socket -/

/-- The buffers handed to the socket, in order. -/
def sends (evs : List KernelEvent) : List (List UInt8) :=
  evs.filterMap fun
    | .send buf => some buf
    | _ => none

@[simp] theorem sends_nil : sends [] = [] := rfl

@[simp] theorem sends_append (evs evs' : List KernelEvent) :
    sends (evs ++ evs') = sends evs ++ sends evs' := List.filterMap_append

@[simp] theorem sends_putPages (pages : List Pfn) : sends (pages.map .putPage) = [] := by
  induction pages with
  | nil => rfl
  | cons p ps ih => rw [List.map_cons, sends, List.filterMap_cons]; exact ih

@[simp] theorem sends_storePage (pfn : Pfn) (addr : UInt64) (ctx : WalkCtx) :
    sends (storePage pfn addr ctx).2 = [] := rfl

/-- The buffers a frame is sent as: its header, and its payload if there is one. -/
def Frame.chunks (f : Frame) : List (List UInt8) :=
  f.header.toBytes :: if f.payload = [] then [] else [f.payload]

theorem Frame.chunks_flatten (f : Frame) : f.chunks.flatten = f.toBytes := by
  rw [chunks, toBytes]
  by_cases h : f.payload = [] <;> simp [h]

theorem Frame.flatMap_chunks_flatten (fs : List Frame) :
    (fs.flatMap Frame.chunks).flatten = fs.flatMap Frame.toBytes := by
  induction fs with
  | nil => rfl
  | cons f fs ih =>
    rw [List.flatMap_cons, List.flatten_append, ih, Frame.chunks_flatten, List.flatMap_cons]

/-- The frame that a flush of the context would send. -/
def batchFrame (ctx : WalkCtx) : Frame where
  header := { ctx.info with len := UInt64.ofNat (ctx.count * pageSize) }
  payload := pagesData M ctx.pages

/-- A flush sends its frame: there is a batch or the mapping ends, and nothing fails. -/
def FlushSends (o : AllocOutcome) (ctx : WalkCtx) : Prop :=
  (ctx.count = 0 → ctx.info.isEndOfMapping ≠ 0) ∧ (0 < ctx.count → o.vmap = true) ∧
    o.kmalloc = true

instance (o : AllocOutcome) (ctx : WalkCtx) : Decidable (FlushSends o ctx) :=
  inferInstanceAs (Decidable (_ ∧ _ ∧ _))

/-- The frames, one or none, that a flush sends. -/
def flushFrames (o : AllocOutcome) (ctx : WalkCtx) : List Frame :=
  if FlushSends o ctx then [batchFrame M ctx] else []

theorem flushFrames_of {o : AllocOutcome} {ctx : WalkCtx} (h : FlushSends o ctx) :
    flushFrames M o ctx = [batchFrame M ctx] := if_pos h

theorem flushFrames_of_not {o : AllocOutcome} {ctx : WalkCtx} (h : ¬ FlushSends o ctx) :
    flushFrames M o ctx = [] := if_neg h

theorem pagesData_length (pages : List Pfn) :
    (pagesData M pages).length = pages.length * pageSize := by
  induction pages with
  | nil => simp [pagesData]
  | cons p ps ih =>
    have hcons : pagesData M (p :: ps) = (M.page p).toList ++ pagesData M ps := rfl
    rw [hcons, List.length_append, ih, List.Vector.toList_length, List.length_cons]
    ring

theorem pagesData_ne_nil {pages : List Pfn} (h : pages ≠ []) : pagesData M pages ≠ [] := by
  have hpos := List.length_pos_of_ne_nil h
  apply List.ne_nil_of_length_pos
  rw [pagesData_length]
  exact Nat.mul_pos hpos (by decide)

theorem toBytes_ne_nil (info : MappingInfo) : info.toBytes ≠ [] := by
  apply List.ne_nil_of_length_pos
  rw [MappingInfo.toBytes_length]
  decide

/-- **A flush empties the batch**, whatever fails in it. -/
@[simp] theorem flushAccumulatedPages_ctx (o : AllocOutcome) (ctx : WalkCtx) :
    (flushAccumulatedPages M o ctx).1 = { ctx with pages := [] } := by
  rw [flushAccumulatedPages]
  split
  · rename_i h
    have hnil : ctx.pages = [] := List.length_eq_zero_iff.mp h.1
    rw [← hnil]
  · rfl

/-- **A flush sends its frame or nothing.** -/
@[simp] theorem sends_flushAccumulatedPages (o : AllocOutcome) (ctx : WalkCtx) :
    sends (flushAccumulatedPages M o ctx).2 = (flushFrames M o ctx).flatMap Frame.chunks := by
  have hsend : ∀ buf : List UInt8, buf ≠ [] → sends (lsmSendToUserspaceTcp buf) = [buf] := by
    intro buf h
    rw [lsmSendToUserspaceTcp, if_neg h]
    rfl
  rw [flushAccumulatedPages]
  rcases Nat.eq_zero_or_pos ctx.count with h0 | hpos
  · -- nothing collected: only the end of the mapping is worth a frame
    have hnil : ctx.pages = [] := List.length_eq_zero_iff.mp h0
    have hdata : pagesData M ctx.pages = [] := by rw [hnil]; rfl
    by_cases hend : ctx.info.isEndOfMapping = 0
    · rw [if_pos ⟨h0, hend⟩, flushFrames_of_not M (fun h => h.1 h0 hend)]
      rfl
    · rw [if_neg (fun h => hend h.2)]
      by_cases hk : o.kmalloc = true
      · rw [flushFrames_of M ⟨fun _ => hend, fun h => by omega, hk⟩]
        simp [h0, hk, hsend _ (toBytes_ne_nil _), Frame.chunks, batchFrame, hdata]
      · rw [flushFrames_of_not M (fun h => hk h.2.2)]
        simp [hk]
  · -- a batch: it is mapped first, and without the mapping nothing is sent
    have hne : ctx.pages ≠ [] := List.ne_nil_of_length_pos hpos
    have h0 : ctx.count ≠ 0 := by omega
    rw [if_neg (fun h => h0 h.1)]
    by_cases hv : o.vmap = true
    · by_cases hk : o.kmalloc = true
      · rw [flushFrames_of M ⟨fun h => absurd h h0, fun _ => hv, hk⟩]
        simp [hpos, hv, hk, vmap, hsend _ (toBytes_ne_nil _), hsend _ (pagesData_ne_nil M hne),
          Frame.chunks, batchFrame, pagesData_ne_nil M hne]
      · rw [flushFrames_of_not M (fun h => hk h.2.2)]
        simp [hk]
    · rw [flushFrames_of_not M (fun h => hv (h.2.1 hpos))]
      simp [hpos, hv, h0, vmap]

/-- **What storing a page does to the context**: it joins the batch, and the first one of a batch
sets the offset. -/
theorem storePage_ctx (pfn : Pfn) (addr : UInt64) (ctx : WalkCtx) :
    (storePage pfn addr ctx).1 =
      { ctx with
        pages := ctx.pages ++ [pfn]
        info := if ctx.pages = [] then
            { ctx.info with mappedAddr := addr - ctx.info.initAddr }
          else ctx.info } := by
  have hcount : ({ ctx with pages := ctx.pages ++ [pfn] } : WalkCtx).count = ctx.count + 1 := by
    simp [WalkCtx.count]
  rw [storePage]
  simp only [hcount]
  by_cases hpages : ctx.pages = []
  · rw [if_pos hpages, if_pos (by rw [WalkCtx.count, hpages, List.length_nil])]
  · have hpos : 0 < ctx.count := List.length_pos_of_ne_nil hpages
    rw [if_neg hpages, if_neg (by omega)]

/-! ## One callback -/

/-- The page that a page-table entry contributes: present, not the zero page, with a valid frame
number. -/
def collectedPfn (ptent : Pte) : Option Pfn :=
  if ptent.present && !M.isZeroPfn ptent.pfn && M.pfnValid ptent.pfn then some ptent.pfn else none

/-- The frames that one callback sends. -/
def callbackFrames (step : WalkStep) (ctx : WalkCtx) : List Frame :=
  match step.1 with
  | .pmdEntry _ _ => []
  | .pteHole _ _ => flushFrames M step.2 ctx
  | .pteEntry pte _ _ =>
    if ctx.memoryError then []
    else
      match collectedPfn M pte with
      | none => flushFrames M step.2 ctx
      | some _ =>
        if ctx.capacity ≤ ctx.count ∧ step.2.kvrealloc = false then flushFrames M step.2 ctx
        else []

/-- **All that one callback can do**: its return value, the context it leaves, and the frames it
sends.  The last case is the failed growth, which flushes the batch, takes the page all the same,
and leaves the error flag for the next entry to find. -/
inductive Callback : WalkStep → WalkCtx → Int32 → WalkCtx → List Frame → Prop where
  | descend {a b : UInt64} {o : AllocOutcome} {ctx : WalkCtx} :
      Callback (.pmdEntry a b, o) ctx 0 ctx []
  | hole {a b : UInt64} {o : AllocOutcome} {ctx : WalkCtx} :
      Callback (.pteHole a b, o) ctx 0 { ctx with pages := [] } (flushFrames M o ctx)
  | abort {pte : Pte} {a b : UInt64} {o : AllocOutcome} {ctx : WalkCtx}
      (herr : ctx.memoryError = true) : Callback (.pteEntry pte a b, o) ctx eNoMem ctx []
  | gap {pte : Pte} {a b : UInt64} {o : AllocOutcome} {ctx : WalkCtx}
      (herr : ctx.memoryError = false) (hpfn : collectedPfn M pte = none) :
      Callback (.pteEntry pte a b, o) ctx 0 { ctx with pages := [] } (flushFrames M o ctx)
  | take {pte : Pte} {pfn : Pfn} {a b : UInt64} {o : AllocOutcome} {ctx : WalkCtx}
      (herr : ctx.memoryError = false) (hpfn : collectedPfn M pte = some pfn)
      (hroom : ctx.count < ctx.capacity) :
      Callback (.pteEntry pte a b, o) ctx 0 (storePage pfn a ctx).1 []
  | grow {pte : Pte} {pfn : Pfn} {a b : UInt64} {o : AllocOutcome} {ctx : WalkCtx}
      (herr : ctx.memoryError = false) (hpfn : collectedPfn M pte = some pfn)
      (hfull : ctx.capacity ≤ ctx.count) (hok : o.kvrealloc = true) :
      Callback (.pteEntry pte a b, o) ctx 0
        (storePage pfn a { ctx with capacity := ctx.capacity * 2 }).1 []
  | growFail {pte : Pte} {pfn : Pfn} {a b : UInt64} {o : AllocOutcome} {ctx : WalkCtx}
      (herr : ctx.memoryError = false) (hpfn : collectedPfn M pte = some pfn)
      (hfull : ctx.capacity ≤ ctx.count) (hfail : o.kvrealloc = false) :
      Callback (.pteEntry pte a b, o) ctx 0
        (storePage pfn a { ctx with memoryError := true, pages := [] }).1 (flushFrames M o ctx)

/-- An entry that contributes no page is flushed, by whichever of the two tests finds it. -/
theorem collectPages_gap {o : AllocOutcome} {pte : Pte} {a : UInt64} {ctx : WalkCtx}
    (herr : ctx.memoryError = false) (hpfn : collectedPfn M pte = none) :
    collectPages M o pte a ctx = (0, flushAccumulatedPages M o ctx) := by
  rw [collectedPfn] at hpfn
  rw [collectPages, if_neg (by simp [herr])]
  split
  · rfl
  · rename_i hskip
    rw [if_pos]
    by_contra hvalid
    simp only [Bool.or_eq_true, not_or, Bool.not_eq_true] at hskip hvalid
    simp_all

theorem collectPages_page {o : AllocOutcome} {pte : Pte} {pfn : Pfn} {a : UInt64} {ctx : WalkCtx}
    (herr : ctx.memoryError = false) (hpfn : collectedPfn M pte = some pfn) :
    collectPages M o pte a ctx = (0, (storePage pfn a (makeRoom M o ctx).1).1,
      (makeRoom M o ctx).2 ++ (storePage pfn a (makeRoom M o ctx).1).2) := by
  rw [collectedPfn] at hpfn
  split at hpfn
  · rename_i htake
    simp only [Bool.and_eq_true, Bool.not_eq_true'] at htake
    have hp : pte.pfn = pfn := Option.some.inj hpfn
    rw [collectPages, if_neg (by simp [herr]), if_neg (by simp [htake]), if_neg (by simp [htake]),
      hp]
  · cases hpfn

theorem makeRoom_of_lt {o : AllocOutcome} {ctx : WalkCtx} (h : ctx.count < ctx.capacity) :
    makeRoom M o ctx = (ctx, []) := if_neg (by omega)

theorem makeRoom_grow {o : AllocOutcome} {ctx : WalkCtx} (h : ctx.capacity ≤ ctx.count)
    (hok : o.kvrealloc = true) :
    makeRoom M o ctx = ({ ctx with capacity := ctx.capacity * 2 }, []) := by
  rw [makeRoom, if_pos h, growPageArray, if_pos hok]
  exact if_neg (by simp)

theorem makeRoom_growFail {o : AllocOutcome} {ctx : WalkCtx} (h : ctx.capacity ≤ ctx.count)
    (hfail : o.kvrealloc = false) :
    makeRoom M o ctx = flushAccumulatedPages M o { ctx with memoryError := true } := by
  have hno : ¬ o.kvrealloc = true := by simp [hfail]
  rw [makeRoom, if_pos h, growPageArray, if_neg hno]
  exact if_pos (show eNoMem ≠ 0 by decide)

/-- **The callback table does what `Callback` says**, and hands its frames to the socket. -/
theorem lsmWalkOps_cases (step : WalkStep) (ctx : WalkCtx) :
    Callback M step ctx (lsmWalkOps M step ctx).1 (lsmWalkOps M step ctx).2.1
        (callbackFrames M step ctx) ∧
      sends (lsmWalkOps M step ctx).2.2 = (callbackFrames M step ctx).flatMap Frame.chunks := by
  obtain ⟨cb, o⟩ := step
  cases cb with
  | pmdEntry a b => exact ⟨.descend, rfl⟩
  | pteHole a b =>
    simp only [lsmWalkOps, handleHole, callbackFrames, flushAccumulatedPages_ctx,
      sends_flushAccumulatedPages]
    exact ⟨.hole, trivial⟩
  | pteEntry pte a b =>
    simp only [lsmWalkOps, callbackFrames]
    cases herr : ctx.memoryError with
    | true =>
      have habort : collectPages M o pte a ctx = (eNoMem, ctx, []) := if_pos herr
      rw [habort, if_pos rfl]
      exact ⟨.abort herr, rfl⟩
    | false =>
      rw [if_neg (by simp)]
      cases hpfn : collectedPfn M pte with
      | none =>
        rw [collectPages_gap M herr hpfn]
        simp only [flushAccumulatedPages_ctx, sends_flushAccumulatedPages]
        exact ⟨.gap herr hpfn, trivial⟩
      | some pfn =>
        rw [collectPages_page M herr hpfn]
        rcases Nat.lt_or_ge ctx.count ctx.capacity with hroom | hfull
        · rw [makeRoom_of_lt M hroom, if_neg (fun h => by omega)]
          exact ⟨.take herr hpfn hroom, rfl⟩
        · cases hok : o.kvrealloc with
          | true =>
            rw [makeRoom_grow M hfull hok, if_neg (fun h => by simp at h)]
            exact ⟨.grow herr hpfn hfull hok, rfl⟩
          | false =>
            rw [makeRoom_growFail M hfull hok, if_pos ⟨hfull, rfl⟩]
            simp only [flushAccumulatedPages_ctx, sends_append, sends_flushAccumulatedPages,
              sends_storePage, List.append_nil]
            exact ⟨.growFail herr hpfn hfull hok, rfl⟩

/-! ## The walk -/

/-- The frames that a walk sends. -/
def walkFrames : List WalkStep → WalkCtx → List Frame
  | [], _ => []
  | step :: steps, ctx =>
    if (lsmWalkOps M step ctx).1 ≠ 0 then callbackFrames M step ctx
    else callbackFrames M step ctx ++ walkFrames steps (lsmWalkOps M step ctx).2.1

theorem walkPageRange_of_ne {step : WalkStep} {steps : List WalkStep} {ctx : WalkCtx}
    (h : (lsmWalkOps M step ctx).1 ≠ 0) :
    walkPageRange M (step :: steps) ctx = (lsmWalkOps M step ctx).2 := by
  rw [walkPageRange]
  exact if_pos h

theorem walkPageRange_of_eq {step : WalkStep} {steps : List WalkStep} {ctx : WalkCtx}
    (h : (lsmWalkOps M step ctx).1 = 0) :
    walkPageRange M (step :: steps) ctx =
      ((walkPageRange M steps (lsmWalkOps M step ctx).2.1).1,
        (lsmWalkOps M step ctx).2.2 ++ (walkPageRange M steps (lsmWalkOps M step ctx).2.1).2) := by
  rw [walkPageRange]
  exact if_neg (fun hne => hne h)

/-- **The buffers a walk sends are exactly the chunks of its frames.** -/
theorem sends_walkPageRange (steps : List WalkStep) (ctx : WalkCtx) :
    sends (walkPageRange M steps ctx).2 = (walkFrames M steps ctx).flatMap Frame.chunks := by
  induction steps generalizing ctx with
  | nil => rfl
  | cons step steps ih =>
    rw [walkFrames]
    by_cases h : (lsmWalkOps M step ctx).1 = 0
    · rw [walkPageRange_of_eq M h, if_neg (fun hne => hne h), sends_append, ih,
        (lsmWalkOps_cases M step ctx).2, List.flatMap_append]
    · rw [walkPageRange_of_ne M h, if_pos h, (lsmWalkOps_cases M step ctx).2]

end LsmFork
