import LsmFork.Kernel.Hook
import LsmFork.Lib.References

/-!
# Page references

`collect_pages` takes a reference to every page that it puts into the batch, and writes the page
into the next slot of the array.  The references are dropped elsewhere, by
`flush_accumulated_pages`, which runs at moments that depend on the pages: at a gap, at a hole, at
the end, and when the array cannot grow.  In that last case `collect_pages` still takes the page,
into the batch that the flush has left empty, and only the next entry ends the walk.

What carries the argument is that the batch is the references held: every callback leads from the
references of the batch that it finds to those of the batch that it leaves.  The sizes are natural
numbers: `kvrealloc` refuses an array of more than `INT_MAX` bytes, so that neither the capacity nor
the `int` that counts the pages being put can wrap.

* `KernelEvent.pageRef`, `PagesAccounted`: references taken and dropped, and slots in the array.
* `sendPagesWalking`: the call of `send_pages_to_userspace_tcp`, over any walk.
* `Accounts`: one part of the call, from one context to another.
* `Accounts.callback`, `Accounts.walk`: one callback, and the walk.
* `pages_accounted`: the whole call.
-/

namespace LsmFork

open References

/-- What an event does to the references of the pages. -/
def KernelEvent.pageRef : KernelEvent → RefOp Pfn
  | .getPage page => .take page
  | .putPage page => .drop page
  | .storePage _ _ => .other
  | .send _ => .other

/-- **The account of a call.**  Every slot that is written is one of the array, no page is put
before it is taken, and every page has been put as often as it was taken. -/
structure PagesAccounted (evs : List KernelEvent) : Prop where
  inArray : ∀ i capacity, .storePage i capacity ∈ evs → i < capacity
  neverAhead : ∀ pre, pre <+: evs → ∀ page, pre.count (.putPage page) ≤ pre.count (.getPage page)
  released : ∀ page, evs.count (.putPage page) = evs.count (.getPage page)

variable (M : PhysMem)

/-- `send_pages_to_userspace_tcp` up to the reply, over any walk: what its checks come to, with the
header that the walk starts with, the callbacks, and the allocations of the final flush. -/
def sendPagesWalking (checked : Except Int32 MappingInfo) (steps : List WalkStep)
    (final : AllocOutcome) : List KernelEvent × HookResult :=
  match checked with
  | .error value => ([], .ret value)
  | .ok info =>
    let walked := walkPageRange M steps ⟨[], initialCapacity, false, info⟩
    let flushed := flushAccumulatedPages M final (markEnd walked.1)
    (walked.2 ++ flushed.2, if flushed.1.memoryError then .ret eNoMem else .awaitReply)

theorem sendPagesToUserspaceTcp_eq (c : PagesCall) :
    sendPagesToUserspaceTcp M c = sendPagesWalking M (c.checked.map c.info) c.walk c.final := by
  unfold sendPagesToUserspaceTcp
  cases c.checked with
  | error value => rfl
  | ok vma => rfl

/-! ## The references of the batch -/

/-- The slot that an event writes is one of the array. -/
def KernelEvent.InArray : KernelEvent → Prop
  | .storePage i capacity => i < capacity
  | _ => True

/-- The array has a slot for every page of the batch, and at least one. -/
def WalkCtx.Roomy (ctx : WalkCtx) : Prop := 0 < ctx.capacity ∧ ctx.count ≤ ctx.capacity

/-- The events lead from one context to another: the references held are those of the batch, before
and after, and the array is large enough. -/
structure Accounts (ctx : WalkCtx) (evs : List KernelEvent) (ctx' : WalkCtx) : Prop where
  moves : Moves KernelEvent.pageRef (ctx.pages : Multiset Pfn) evs ctx'.pages
  inArray : ∀ e ∈ evs, e.InArray
  roomy : ctx'.Roomy

namespace Accounts

variable {M} {ctx ctx' ctx'' : WalkCtx} {evs evs' : List KernelEvent} {o : AllocOutcome}

theorem nil (h : ctx.Roomy) : Accounts ctx [] ctx :=
  ⟨Runs.Passes.nil _, fun _ he => absurd he List.not_mem_nil, h⟩

theorem append (h : Accounts ctx evs ctx') (h' : Accounts ctx' evs' ctx'') :
    Accounts ctx (evs ++ evs') ctx'' where
  moves := h.moves.append h'.moves
  inArray e he := (List.mem_append.mp he).elim (h.inArray e) (h'.inArray e)
  roomy := h'.roomy

theorem mem_lsmSend {buf : List UInt8} {e : KernelEvent} (h : e ∈ lsmSendToUserspaceTcp buf) :
    e = .send buf := by
  unfold lsmSendToUserspaceTcp at h
  split at h
  · cases h
  · exact List.mem_singleton.mp h

/-- **What a flush does**: buffers may go out, and then all pages of the batch are put. -/
theorem flush_events (o : AllocOutcome) (ctx : WalkCtx) :
    ∃ sent : List KernelEvent, (∀ e ∈ sent, ∃ buf, e = .send buf) ∧
      (flushAccumulatedPages M o ctx).2 = sent ++ ctx.pages.map .putPage := by
  unfold flushAccumulatedPages
  split
  · rename_i h
    have hnil : ctx.pages = [] := List.length_eq_zero_iff.mp h.1
    exact ⟨[], fun e he => absurd he List.not_mem_nil, by rw [hnil]; rfl⟩
  · refine ⟨_, fun e he => ?_, rfl⟩
    by_cases hmapped : (if 0 < ctx.count then vmap M o ctx.pages else none).isSome ∨ ctx.count = 0
    · rw [if_pos hmapped] at he
      cases hk : o.kmalloc with
      | false =>
        rw [hk] at he
        cases he
      | true =>
        rw [hk, if_pos rfl] at he
        rcases List.mem_append.mp he with he | he
        · exact ⟨_, mem_lsmSend he⟩
        · split at he
          · exact ⟨_, mem_lsmSend he⟩
          · cases he
    · rw [if_neg hmapped] at he
      cases he

/-- **A flush** drops the references of the batch. -/
theorem flush (h : ctx.Roomy) : Accounts ctx (flushAccumulatedPages M o ctx).2
    (flushAccumulatedPages M o ctx).1 := by
  obtain ⟨sent, hsent, hevents⟩ := flush_events (M := M) o ctx
  rw [hevents, flushAccumulatedPages_ctx]
  refine ⟨?_, ?_, h.1, Nat.zero_le _⟩
  · have hsends : Moves KernelEvent.pageRef (ctx.pages : Multiset Pfn) sent ctx.pages := by
      refine moves_others (fun e he => ?_) _
      obtain ⟨buf, rfl⟩ := hsent e he
      rfl
    have hputs : Moves KernelEvent.pageRef (↑(ctx.pages.map id) + 0) (ctx.pages.map .putPage) 0 :=
      moves_drops KernelEvent.putPage id (fun _ => rfl) ctx.pages 0
    rw [List.map_id, add_zero] at hputs
    exact hsends.append hputs
  · intro e he
    rcases List.mem_append.mp he with he | he
    · obtain ⟨buf, rfl⟩ := hsent e he
      trivial
    · obtain ⟨page, -, rfl⟩ := List.mem_map.mp he
      trivial

/-- **Storing a page** takes the reference that the batch gains. -/
theorem store (hroom : ctx.count < ctx.capacity) (pfn : Pfn) (addr : UInt64) :
    Accounts ctx (storePage pfn addr ctx).2 (storePage pfn addr ctx).1 := by
  rw [storePage_ctx]
  refine ⟨?_, ?_, Nat.zero_lt_of_lt hroom, ?_⟩
  · have hheld : ((ctx.pages ++ [pfn] : List Pfn) : Multiset Pfn) = pfn ::ₘ ↑ctx.pages := by
      rw [Multiset.cons_coe, Multiset.coe_eq_coe]
      exact List.perm_append_singleton pfn ctx.pages
    rw [hheld]
    exact Moves.take rfl (Moves.other rfl (Runs.Passes.nil _))
  · intro e he
    rcases List.mem_pair.mp he with rfl | rfl
    · trivial
    · exact hroom
  · rw [WalkCtx.count, List.length_append, List.length_singleton]
    exact hroom

/-- **Making room.**  The array grows, or the batch is flushed; both leave a free slot. -/
theorem room (h : ctx.Roomy) :
    Accounts ctx (makeRoom M o ctx).2 (makeRoom M o ctx).1 ∧
      (makeRoom M o ctx).1.count < (makeRoom M o ctx).1.capacity := by
  have hpos := h.1
  have hfits := h.2
  by_cases hfull : ctx.capacity ≤ ctx.count
  · cases hgrow : o.kvrealloc with
    | true =>
      rw [makeRoom_grow M hfull hgrow]
      have hgrown : ctx.count < ctx.capacity * 2 := by omega
      have hroomy : WalkCtx.Roomy { ctx with capacity := ctx.capacity * 2 } :=
        ⟨Nat.zero_lt_of_lt hgrown, hgrown.le⟩
      exact ⟨⟨Runs.Passes.nil _, fun _ he => absurd he List.not_mem_nil, hroomy⟩, hgrown⟩
    | false =>
      rw [makeRoom_growFail M hfull hgrow]
      have hflag : WalkCtx.Roomy { ctx with memoryError := true } := h
      have hflushed := flush (M := M) (o := o) hflag
      refine ⟨⟨hflushed.moves, hflushed.inArray, hflushed.roomy⟩, ?_⟩
      rw [flushAccumulatedPages_ctx]
      exact hpos
  · rw [makeRoom, if_neg hfull]
    exact ⟨nil h, Nat.lt_of_not_le hfull⟩

/-- **One callback** leads from the references of the batch that it finds to those of the batch
that it leaves, whatever it returns. -/
theorem callback (h : ctx.Roomy) (step : WalkStep) :
    Accounts ctx (lsmWalkOps M step ctx).2.2 (lsmWalkOps M step ctx).2.1 := by
  obtain ⟨cb, o⟩ := step
  cases cb with
  | pmdEntry a b => exact nil h
  | pteHole a b => exact flush h
  | pteEntry pte a b =>
    have hentry : lsmWalkOps M (.pteEntry pte a b, o) ctx = collectPages M o pte a ctx := rfl
    rw [hentry]
    by_cases herr : ctx.memoryError = true
    · have habort : collectPages M o pte a ctx = (eNoMem, ctx, []) := if_pos herr
      rw [habort]
      exact nil h
    · rw [Bool.not_eq_true] at herr
      cases hpfn : collectedPfn M pte with
      | none =>
        rw [collectPages_gap M herr hpfn]
        exact flush h
      | some pfn =>
        -- the page is taken, also after a failed growth
        obtain ⟨hroom, hfree⟩ := room (M := M) (o := o) h
        rw [collectPages_page M herr hpfn]
        exact hroom.append (store hfree pfn a)

theorem walk (h : ctx.Roomy) (steps : List WalkStep) :
    Accounts ctx (walkPageRange M steps ctx).2 (walkPageRange M steps ctx).1 := by
  induction steps generalizing ctx with
  | nil => exact nil h
  | cons step steps ih =>
    have hstep := callback (M := M) h step
    by_cases hvalue : (lsmWalkOps M step ctx).1 = 0
    · rw [walkPageRange_of_eq M hvalue]
      exact hstep.append (ih hstep.roomy)
    · rw [walkPageRange_of_ne M hvalue]
      exact hstep

theorem accounted (h : Accounts ctx evs ctx') (hstart : ctx.pages = []) (hend : ctx'.pages = []) :
    PagesAccounted evs := by
  have hbalanced : Balanced KernelEvent.pageRef evs := by
    have hmoves := h.moves
    rw [hstart, hend] at hmoves
    exact hmoves
  have htaken : ∀ (l : List KernelEvent) page,
      taken KernelEvent.pageRef page l = l.count (.getPage page) := by
    intro l page
    refine List.countP_congr fun e _ => ?_
    cases e <;> simp [KernelEvent.pageRef]
  have hdropped : ∀ (l : List KernelEvent) page,
      dropped KernelEvent.pageRef page l = l.count (.putPage page) := by
    intro l page
    refine List.countP_congr fun e _ => ?_
    cases e <;> simp [KernelEvent.pageRef]
  refine ⟨fun i capacity hmem => h.inArray _ hmem, ?_, ?_⟩
  · rintro pre ⟨post, rfl⟩ page
    rw [← htaken, ← hdropped]
    exact hbalanced.dropped_le_taken page
  · intro page
    rw [← htaken, ← hdropped]
    exact (hbalanced.taken_eq_dropped page).symm

end Accounts

/-! ## The call -/

/-- **The call accounts for its pages**, over any walk. -/
theorem sendPagesWalking_accounted (checked : Except Int32 MappingInfo) (steps : List WalkStep)
    (final : AllocOutcome) : PagesAccounted (sendPagesWalking M checked steps final).1 := by
  cases checked with
  | error value =>
    exact ⟨fun _ _ h => absurd h List.not_mem_nil, fun pre h _ => by
      rw [List.prefix_nil.mp h]; exact le_rfl, fun _ => rfl⟩
  | ok info =>
    have hstart : WalkCtx.Roomy ⟨[], initialCapacity, false, info⟩ :=
      ⟨Nat.succ_pos 511, Nat.zero_le _⟩
    have hwalked := Accounts.walk (M := M) hstart steps
    -- the end mark is in the header, which has no part in the account
    have hmarked : Accounts ⟨[], initialCapacity, false, info⟩
        (walkPageRange M steps ⟨[], initialCapacity, false, info⟩).2
        (markEnd (walkPageRange M steps ⟨[], initialCapacity, false, info⟩).1) :=
      ⟨hwalked.moves, hwalked.inArray, hwalked.roomy⟩
    have hflushed := Accounts.flush (M := M) (o := final) hmarked.roomy
    refine (hmarked.append hflushed).accounted rfl ?_
    rw [flushAccumulatedPages_ctx]

/-- **Page references are balanced and the array stays in bounds.**  In every call of
`send_pages_to_userspace_tcp`, whatever callbacks the walk makes and whatever allocations fail,
every slot that is written is one of the array at that moment, and every page has been put exactly
as often as it was taken when the call returns. -/
theorem pages_accounted :
    (∀ checked steps final, PagesAccounted (sendPagesWalking M checked steps final).1) ∧
      ∀ c : PagesCall, PagesAccounted (sendPagesToUserspaceTcp M c).1 := by
  refine ⟨sendPagesWalking_accounted M, fun c => ?_⟩
  rw [sendPagesToUserspaceTcp_eq]
  exact sendPagesWalking_accounted M _ _ _

end LsmFork
