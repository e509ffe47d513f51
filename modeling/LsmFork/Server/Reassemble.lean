import LsmFork.Lib.Overlay
import LsmFork.Server.Session

/-!
# A receiver that keeps its buffer

The headers are made for a receiver that lays the frames of a mapping into one buffer until the end
flag comes.  The server drops its buffer after every frame, which `session_exact_iff` is about.
Here is the receiver that it is meant to be, and the frames lose nothing on the way to it: whatever
the page tables look like, the contents of all mappings and programs come out, in order.

* `Receiver`, `Receiver.take`, `reassemble`: the receiver.
* `foldl_take_runFrames`: the runs of a mapping, laid into its buffer.
* `foldl_take_hook`: the frames of one hook.
* `reassemble_session`: the frames of any hooks.
-/

namespace LsmFork

open MaximalRuns

/-- The buffer of the mapping that is under way, and the mappings that are complete. -/
structure Receiver where
  buf : Option (List UInt8)
  done : List (MappingInfo × List UInt8)

/-- A frame goes into the buffer, which is a new one for the first frame of a mapping and is handed
over at the end flag. -/
def Receiver.take (s : Receiver) (f : Frame) : Receiver :=
  let buf := overwrite (s.buf.getD (List.replicate f.header.mappingLen.toNat 0))
    f.header.mappedAddr.toNat f.payload
  if f.IsEnd then ⟨none, s.done ++ [(f.header, buf)]⟩ else ⟨some buf, s.done⟩

/-- What the receiver has after some frames. -/
def reassemble (fs : List Frame) : Receiver := fs.foldl Receiver.take ⟨none, []⟩

variable {M : PhysMem} {info : MappingInfo} {row : List (Option Pfn)}

/-! ## One mapping -/

variable (M) in
/-- A run, as what its frame lays into the buffer. -/
def runPiece (r : ℕ × List Pfn) : ℕ × List UInt8 :=
  piece pageSize (fun pfn => (M.page pfn).toList) r

theorem cellContent_eq (c : Option Pfn) :
    cellContent M c = cell pageSize 0 (fun pfn => (M.page pfn).toList) c := by
  cases c <;> rfl

variable (info) in
theorem runFrame_offset {r : ℕ × List Pfn} (hr : r ∈ runs row)
    (hrow : row.length * pageSize < 2 ^ 64) :
    (runFrame M info r).header.mappedAddr.toNat = r.1 * pageSize :=
  congrArg Prod.fst (runFrame_entry (M := M) info hr hrow)

/-- **The frames of some runs** lay the runs into the buffer, which is a new one if there is none
yet. -/
theorem foldl_take_runFrames (hend : info.isEndOfMapping = 0)
    (hrow : row.length * pageSize < 2 ^ 64) {rs : List (ℕ × List Pfn)}
    (hrs : ∀ r ∈ rs, r ∈ runs row) (s : Receiver) :
    let zeros := List.replicate info.mappingLen.toNat 0
    let after := (rs.map (runFrame M info)).foldl Receiver.take s
    after.done = s.done ∧
      after.buf.getD zeros = overlay (s.buf.getD zeros) (rs.map (runPiece M)) := by
  induction rs generalizing s with
  | nil => exact ⟨rfl, rfl⟩
  | cons r rs ih =>
    obtain ⟨hr, hrs⟩ := List.forall_mem_cons.mp hrs
    have hopen : ¬ (runFrame M info r).IsEnd := by
      show ¬ info.isEndOfMapping = 1
      rw [hend]
      decide
    have htake : s.take (runFrame M info r) = ⟨some (overwrite
        (s.buf.getD (List.replicate info.mappingLen.toNat 0)) (r.1 * pageSize)
          (pagesData M r.2)), s.done⟩ := by
      rw [Receiver.take, if_neg hopen, runFrame_offset info hr hrow]
      rfl
    rw [List.map_cons, List.map_cons, List.foldl_cons, htake]
    exact ih hrs _

/-- The last frame of a mapping completes it, with the open run laid over the rest. -/
theorem take_lastFrame (hrow : row.length * pageSize < 2 ^ 64) (m : UInt64) (s : Receiver) :
    s.take (lastFrame M info row m) = ⟨none, s.done ++ [((lastFrame M info row m).header,
      overlay (s.buf.getD (List.replicate info.mappingLen.toNat 0))
        ((openRuns row).map (runPiece M)))]⟩ := by
  rw [Receiver.take, if_pos (lastFrame_isEnd info m), openRuns_eq, lastFrame]
  split
  · rw [List.map_nil, overlay_nil, overwrite_nil]
  · rename_i hrun
    have hoffset := runFrame_offset (M := M) info (lastRun_mem_runs hrun) hrow
    rw [List.map_singleton, overlay_cons, overlay_nil, runPiece, piece, ← hoffset]
    rfl

/-! ## Hooks -/

/-- **The frames of one hook** without failures complete its mapping, if it has one. -/
theorem foldl_take_hook {h : TcpHook} (hok : h.AllocationsSucceed)
    (done : List (MappingInfo × List UInt8)) :
    ∃ dumped, (h.frames M).foldl Receiver.take ⟨none, done⟩ = ⟨none, done ++ dumped⟩ ∧
      List.Forall₂ (fun m d => SameSource { m.1 with isEndOfMapping := 1 } d.1 ∧ d.2 = m.2)
        (h.mapping M).toList dumped := by
  cases h with
  | pages c =>
    cases hchecked : c.checked with
    | error value =>
      rw [TcpHook.frames, PagesCall.frames, TcpHook.mapping, hchecked]
      exact ⟨[], by rw [List.append_nil]; rfl, .nil⟩
    | ok vma =>
      obtain ⟨m, hframes⟩ := PagesCall.frames_eq (M := M) hchecked hok
      have hrow : (c.row M).length * pageSize < 2 ^ 64 := by
        rw [c.row_length]
        exact c.len.toNat_lt
      have hzeros : List.replicate (c.info vma).mappingLen.toNat 0 =
          List.replicate ((c.row M).length * pageSize) (0 : UInt8) ++ [] := by
        rw [c.row_length, List.append_nil]
        rfl
      obtain ⟨hdone, hbuf⟩ := foldl_take_runFrames (M := M)
        (show (c.info vma).isEndOfMapping = 0 from rfl) hrow (fun r => closedRuns_subset_runs)
        ⟨none, done⟩
      have himage : overlay (List.replicate (c.info vma).mappingLen.toNat 0)
          ((runs (c.row M)).map (runPiece M)) = c.image M := by
        rw [hzeros, c.image_eq, List.flatMap_congr fun cell _ => cellContent_eq cell]
        exact (overlay_runs (fun pfn => List.Vector.toList_length _) (c.row M) []).trans
          (List.append_nil _)
      rw [TcpHook.frames, TcpHook.mapping, hchecked, hframes, List.foldl_append]
      refine ⟨[((lastFrame M (c.info vma) (c.row M) m).header, c.image M)], ?_, ?_⟩
      · rw [List.foldl_cons, List.foldl_nil, take_lastFrame hrow, hdone, hbuf, ← himage, runs_eq,
          List.map_append, overlay_append]
        rfl
      · refine .cons ⟨?_, rfl⟩ .nil
        rw [lastFrame]
        split
        · exact ⟨m, 0, rfl⟩
        · exact ⟨_, _, rfl⟩
  | bpf c =>
    rw [TcpHook.frames, BpfCall.frames, TcpHook.mapping]
    cases hchecked : c.checked with
    | error value => exact ⟨[], by rw [List.append_nil]; rfl, .nil⟩
    | ok image =>
      refine ⟨[(c.info, image)], ?_, .cons ⟨⟨0, c.info.len, rfl⟩, rfl⟩ .nil⟩
      have hdumped : (⟨c.info, image⟩ : Frame).dumped = image := BpfCall.dumped_eq hchecked
      rw [List.foldl_cons, List.foldl_nil, Receiver.take,
        if_pos (show (⟨c.info, image⟩ : Frame).IsEnd from rfl)]
      exact congrArg (fun buf => (⟨none, done ++ [(c.info, buf)]⟩ : Receiver)) hdumped

/-- **Nothing is lost on the way to a receiver that keeps its buffer.**  Hooks run on a connection
without failures, whatever their mappings look like: the receiver has the content of every mapping
and program, hook by hook, under a header of its own, and no mapping is left unfinished. -/
theorem reassemble_session (M : PhysMem) {hooks : List TcpHook}
    (hok : ∀ h ∈ hooks, h.AllocationsSucceed) :
    (reassemble (hooks.flatMap (TcpHook.frames M))).buf = none ∧
      List.Forall₂ (fun m d => SameSource { m.1 with isEndOfMapping := 1 } d.1 ∧ d.2 = m.2)
        (hooks.filterMap (TcpHook.mapping M))
        (reassemble (hooks.flatMap (TcpHook.frames M))).done := by
  have hrun : ∀ done, ∃ dumped,
      (hooks.flatMap (TcpHook.frames M)).foldl Receiver.take ⟨none, done⟩ =
          ⟨none, done ++ dumped⟩ ∧
        List.Forall₂ (fun m d => SameSource { m.1 with isEndOfMapping := 1 } d.1 ∧ d.2 = m.2)
          (hooks.filterMap (TcpHook.mapping M)) dumped := by
    induction hooks with
    | nil => exact fun done => ⟨[], by rw [List.append_nil]; rfl, .nil⟩
    | cons h hooks ih =>
      intro done
      obtain ⟨hfirst, hrest⟩ := List.forall_mem_cons.mp hok
      obtain ⟨own, hown, hsame⟩ := foldl_take_hook (M := M) hfirst done
      obtain ⟨others, hothers, hall⟩ := ih hrest (done ++ own)
      refine ⟨own ++ others, ?_, ?_⟩
      · rw [List.flatMap_cons, List.foldl_append, hown, hothers, List.append_assoc]
      · rw [List.filterMap_eq_flatMap_toList, List.flatMap_cons,
          ← List.filterMap_eq_flatMap_toList]
        exact List.rel_append hsame hall
  obtain ⟨dumped, hdumped, hall⟩ := hrun []
  rw [reassemble, hdumped]
  exact ⟨rfl, hall⟩

/-- A mapping whose first page the server loses, and a program. -/
theorem reassemble_session_of_sample :
    (reassemble (sampleHooks.flatMap (TcpHook.frames sampleMemory))).buf = none ∧
      List.Forall₂ (fun m d => SameSource { m.1 with isEndOfMapping := 1 } d.1 ∧ d.2 = m.2)
        (sampleHooks.filterMap (TcpHook.mapping sampleMemory))
        (reassemble (sampleHooks.flatMap (TcpHook.frames sampleMemory))).done :=
  reassemble_session sampleMemory sampleHooks_allocationsSucceed

end LsmFork
