import LsmFork.Kernel.RunFrames
import LsmFork.Server.Accept

/-!
# What the server reconstructs

The kernel sends a sparse mapping run by run, and the offsets and the end flag in its headers let a
receiver lay the runs into one buffer.  The server unmaps its buffer after every frame, so what it
dumps at the end is a fresh buffer with the last frame in it: zeros up to the run that reaches the
end of the mapping, and that run.  This file computes the dump and says exactly when it is the
mapping all the same.

* `PagesCall.image`: the content of the mapping, page by page.
* `dumps_run`: what a server that receives the frames of one mapping dumps.
* `lastFrame_dumped`: the buffer it dumps.
* `server_reconstructs_iff`: the dump is the image of the mapping exactly when every page that the
  kernel sends before the last frame holds zeros.
-/

namespace LsmFork

open MaximalRuns

variable (M : PhysMem)

/-- The content of the mapping: each present page with a valid frame number, and zeros for the
others. -/
def PagesCall.image (c : PagesCall) : List UInt8 :=
  c.pageTable.flatMap fun slot => (pageContent M slot).toList

/-- The server has dumped one buffer for the mapping, of the length of the mapping, with the content
of each page at its offset. -/
def Reconstructed (c : PagesCall) (evs : List ServerEvent) : Prop :=
  ∃ info buf, dumps evs = [(info, buf)] ∧ info.mappingLen = c.len ∧
    buf.length = c.len.toNat ∧ buf = c.image M

/-- Every page that has a gap somewhere after it holds zeros: the pages that are not in the last
frame. -/
def EarlierPagesZero (row : List (Option Pfn)) : Prop :=
  ∀ (k : ℕ) (pfn : Pfn), row[k]? = some (some pfn) → (∃ j, k < j ∧ row[j]? = some none) →
    M.page pfn = zeroChars pageSize

/-! ## The dump of one mapping -/

theorem iteration_of_end {env : ServerEnv} {s : LoopHead} (hs : s.rootBuf = none)
    (hinput : s.input.flatten = []) :
    iteration env s = ([.disconnect .endOfStream], none) := by
  rw [iteration, receiveInfo_of_nil hinput, hs]
  rfl

theorem iteration_of_mmap_fails {env : ServerEnv} {s : LoopHead} (hs : s.rootBuf = none)
    {info : MappingInfo} {bytes : List UInt8} (hinput : s.input.flatten = info.toBytes ++ bytes)
    (hlen : info.mappingLen ≠ 0) (hfails : env.mmap s.round info.mappingLen = false) :
    iteration env s = ([.mmap info.mappingLen false, .disconnect .mmapFailed], none) := by
  obtain ⟨input, hinfo, -⟩ := receiveInfo_of_header hinput
  simp [iteration, hinfo, allocate, hs, hlen, hfails, clientDisconnected]

/-- A round in which the server gets no buffer is the last one, and nothing is dumped. -/
theorem dumps_of_mmap_fails {env : ServerEnv} {s : LoopHead} (hs : s.rootBuf = none) {f : Frame}
    {rest : List UInt8} (haccepted : f.Accepted) (hinput : s.input.flatten = f.toBytes ++ rest)
    (hmmap : env.mmap s.round f.header.mappingLen = false) :
    dumps ((receiveLoop env).run s) = [] := by
  rw [Frame.toBytes, List.append_assoc] at hinput
  rw [(receiveLoop env).run_of_none (iteration_of_mmap_fails hs hinput haccepted.1 hmmap)]
  rfl

/-- A frame that does not end its mapping leaves no trace: the dumps are those of what follows. -/
theorem dumps_of_open {env : ServerEnv} {s : LoopHead} (hs : s.rootBuf = none) {f : Frame}
    {rest : List UInt8} (hcomplete : f.Complete) (haccepted : f.Accepted) (hopen : ¬ f.IsEnd)
    (hinput : s.input.flatten = f.toBytes ++ rest)
    (hmmap : env.mmap s.round f.header.mappingLen = true) :
    ∃ input', input'.flatten = rest ∧ dumps ((receiveLoop env).run s) =
      dumps ((receiveLoop env).run ⟨none, 0, input', s.round + 1⟩) := by
  obtain ⟨evs, input', hstep, hrest, hshows⟩ :=
    iteration_of_accepted hs hcomplete haccepted hinput hmmap
  have hdumps := hshows.dumps
  rw [if_neg hopen] at hdumps
  rw [if_neg (fun h => hopen h.1)] at hstep
  refine ⟨input', hrest, ?_⟩
  rw [(receiveLoop env).run_of_some hstep, dumps, List.filterMap_append]
  exact (congrArg (· ++ _) hdumps).trans (List.nil_append _)

/-- The frame that ends its mapping is dumped, whatever the reply, and nothing follows it. -/
theorem dumps_of_last {env : ServerEnv} {s : LoopHead} (hs : s.rootBuf = none) {last : Frame}
    (hcomplete : last.Complete) (haccepted : last.Accepted) (hend : last.IsEnd)
    (hinput : s.input.flatten = last.toBytes)
    (hmmap : env.mmap s.round last.header.mappingLen = true) :
    dumps ((receiveLoop env).run s) = [(last.header, last.dumped)] := by
  obtain ⟨evs, input', hstep, hrest, hshows⟩ := iteration_of_accepted hs hcomplete haccepted
    (hinput.trans (List.append_nil _).symm) hmmap
  have hdumps := hshows.dumps
  rw [if_pos hend] at hdumps
  -- the reply decides whether the loop goes on, and there is nothing left to read if it does
  by_cases hreply : last.IsEnd ∧ env.reply s.round = false
  · rw [if_pos hreply] at hstep
    rw [(receiveLoop env).run_of_none hstep, hdumps]
  · rw [if_neg hreply] at hstep
    have hstop : (receiveLoop env).run ⟨none, 0, input', s.round + 1⟩ =
        [.disconnect .endOfStream] :=
      (receiveLoop env).run_of_none (iteration_of_end rfl hrest)
    rw [(receiveLoop env).run_of_some hstep, hstop, dumps, List.filterMap_append]
    exact (congrArg (· ++ []) hdumps).trans (List.append_nil _)

theorem forall_rounds_succ {P : ℕ → Prop} (first n : ℕ) :
    (∀ r ≤ n + 1, P (first + r)) ↔ P first ∧ ∀ r ≤ n, P (first + 1 + r) := by
  constructor
  · intro h
    refine ⟨h 0 (Nat.zero_le _), fun r hr => ?_⟩
    rw [Nat.add_assoc, Nat.add_comm 1 r]
    exact h (r + 1) (Nat.succ_le_succ hr)
  · rintro ⟨hfirst, hrest⟩ r hr
    cases r with
    | zero => exact hfirst
    | succ r =>
      rw [Nat.add_comm r 1, ← Nat.add_assoc]
      exact hrest r (Nat.le_of_succ_le_succ hr)

/-- **What the server dumps** of the frames of one mapping: the last of them, alone in a fresh
buffer, provided that the server gets a buffer in each round. -/
theorem dumps_run {before : List Frame} {last : Frame} {len : UInt64}
    {s : LoopHead} (hs : s.rootBuf = none)
    (hsound : ∀ f ∈ before ++ [last], f.Complete ∧ f.Accepted ∧ f.header.mappingLen = len)
    (hopen : ∀ f ∈ before, ¬ f.IsEnd) (hend : last.IsEnd)
    (hinput : s.input.flatten = (before ++ [last]).flatMap Frame.toBytes) (env : ServerEnv) :
    dumps ((receiveLoop env).run s) =
      if ∀ r ≤ before.length, env.mmap (s.round + r) len = true then [(last.header, last.dumped)]
      else [] := by
  induction before generalizing s with
  | nil =>
    obtain ⟨hcomplete, haccepted, hlen⟩ := hsound last (List.mem_singleton_self last)
    have hlast : s.input.flatten = last.toBytes :=
      hinput.trans (List.flatMap_singleton Frame.toBytes last)
    have hround : (∀ r ≤ ([] : List Frame).length, env.mmap (s.round + r) len = true) ↔
        env.mmap s.round last.header.mappingLen = true := by
      rw [hlen, List.length_nil]
      simp only [Nat.le_zero, forall_eq, Nat.add_zero]
    cases hmmap : env.mmap s.round last.header.mappingLen with
    | false =>
      rw [if_neg (by rw [hround, hmmap]; decide)]
      exact dumps_of_mmap_fails hs haccepted (hlast.trans (List.append_nil _).symm) hmmap
    | true =>
      rw [if_pos (hround.mpr hmmap)]
      exact dumps_of_last hs hcomplete haccepted hend hlast hmmap
  | cons f before ih =>
    obtain ⟨hcomplete, haccepted, hlen⟩ := hsound f (List.mem_cons_self ..)
    rw [List.cons_append, List.flatMap_cons] at hinput
    simp only [List.length_cons, forall_rounds_succ (P := fun r => env.mmap r len = true)]
    cases hmmap : env.mmap s.round len with
    | false =>
      rw [if_neg (fun h => Bool.noConfusion h.1)]
      exact dumps_of_mmap_fails hs haccepted hinput (hlen ▸ hmmap)
    | true =>
      obtain ⟨input', hrest, hdumps⟩ := dumps_of_open hs hcomplete haccepted
        (hopen f (List.mem_cons_self ..)) hinput (hlen ▸ hmmap)
      rw [hdumps, ih rfl (fun g hg => hsound g (List.mem_cons_of_mem f hg))
        (fun g hg => hopen g (List.mem_cons_of_mem f hg)) hrest]
      simp only [true_and]

/-! ## The image of the mapping -/

/-- What a cell contributes to the image. -/
def cellContent (cell : Option Pfn) : List UInt8 :=
  match cell with
  | some pfn => (M.page pfn).toList
  | none => List.replicate pageSize 0

theorem cellContent_length (cell : Option Pfn) : (cellContent M cell).length = pageSize := by
  cases cell with
  | none => exact List.length_replicate
  | some pfn => exact List.Vector.toList_length _

theorem cellContent_some_eq_zeros_iff (pfn : Pfn) :
    cellContent M (some pfn) = List.replicate pageSize 0 ↔ M.page pfn = zeroChars pageSize := by
  constructor
  · intro h
    exact Subtype.ext h
  · intro h
    rw [cellContent, h]
    rfl

variable {M}

theorem PagesCall.image_eq (c : PagesCall) : c.image M = (c.row M).flatMap (cellContent M) := by
  rw [image, row, cells, List.flatMap_map, pageTable]
  refine List.flatMap_congr fun slot _ => ?_
  rw [pageContent_eq]
  cases slot.bind (collectedPfn M) with
  | none => rfl
  | some pfn => rfl

theorem PagesCall.image_length (c : PagesCall) : (c.image M).length = c.len.toNat := by
  rw [image_eq, List.length_flatMap, List.map_congr_left fun cell _ => cellContent_length M cell,
    List.map_const', List.sum_replicate, smul_eq_mul, c.row_length]

/-- The image is that of the cells before the open run, and the open run. -/
theorem image_split (row : List (Option Pfn)) :
    ∃ before, row = before ++ (lastRun row).map some ∧
      before.length = row.length - (lastRun row).length ∧
      row.flatMap (cellContent M) =
        before.flatMap (cellContent M) ++ pagesData M (lastRun row) := by
  obtain ⟨before, hrow, hgap⟩ := exists_lastRun row
  refine ⟨before, hrow, (eq_lastRun hrow hgap).2, ?_⟩
  have hrun : ((lastRun row).map some).flatMap (cellContent M) = pagesData M (lastRun row) := by
    rw [List.flatMap_map]
    rfl
  rw [← hrun, ← List.flatMap_append, ← hrow]

/-- **What the server dumps after the last frame**: zeros, and the run that ends the mapping. -/
theorem lastFrame_dumped {info : MappingInfo} {row : List (Option Pfn)}
    (hlen : row.length * pageSize = info.mappingLen.toNat) (m : UInt64) :
    (lastFrame M info row m).dumped =
      List.replicate ((row.length - (lastRun row).length) * pageSize) 0 ++
        pagesData M (lastRun row) := by
  have hle := Nat.mul_le_mul_right pageSize (lastRun_length_le row)
  have hmapping : info.mappingLen.toNat < 2 ^ 64 := info.mappingLen.toNat_lt
  rw [lastFrame]
  split
  · rename_i hrun
    show overwrite (List.replicate info.mappingLen.toNat 0) m.toNat [] = _
    rw [overwrite_nil, hrun, List.length_nil, Nat.sub_zero, hlen]
    exact (List.append_nil _).symm
  · have hstart : (UInt64.ofNat ((row.length - (lastRun row).length) * pageSize)).toNat =
        (row.length - (lastRun row).length) * pageSize := by
      apply UInt64.toNat_ofNat_of_lt'
      rw [Nat.sub_mul]
      exact lt_of_le_of_lt (Nat.sub_le _ _) (hlen ▸ hmapping)
    have hsize : info.mappingLen.toNat = (row.length - (lastRun row).length) * pageSize +
        (pagesData M (lastRun row)).length := by
      rw [pagesData_length, ← hlen, Nat.sub_mul, Nat.sub_add_cancel hle]
    show overwrite (List.replicate info.mappingLen.toNat 0)
      (UInt64.ofNat ((row.length - (lastRun row).length) * pageSize)).toNat
        (pagesData M (lastRun row)) = _
    rw [hstart, hsize, overwrite_replicate]

/-- The dump is the image exactly when the pages of the earlier frames hold zeros. -/
theorem dumped_eq_image_iff {c : PagesCall} {vma : Vma} (m : UInt64) :
    (lastFrame M (c.info vma) (c.row M) m).dumped = c.image M ↔ EarlierPagesZero M (c.row M) := by
  obtain ⟨before, hrow, hlength, himage⟩ := image_split (M := M) (c.row M)
  have hmem : (∀ cell ∈ before, cellContent M cell = List.replicate pageSize 0) ↔
      EarlierPagesZero M (c.row M) := by
    constructor
    · intro h k pfn hk hgap
      rw [← lt_lastRun_start_iff _ hk, ← hlength] at hgap
      rw [hrow, List.getElem?_append_left hgap] at hk
      exact (cellContent_some_eq_zeros_iff M pfn).mp (h _ (List.mem_of_getElem? hk))
    · intro h cell hcell
      cases cell with
      | none => rfl
      | some pfn =>
        obtain ⟨k, hk, hget⟩ := List.getElem_of_mem hcell
        have hk' : (c.row M)[k]? = some (some pfn) := by
          rw [hrow, List.getElem?_append_left hk, List.getElem?_eq_getElem hk, hget]
        rw [cellContent_some_eq_zeros_iff]
        exact h k pfn hk' ((lt_lastRun_start_iff _ hk').mp (hlength ▸ hk))
  rw [lastFrame_dumped (c.row_length), c.image_eq, himage, List.append_cancel_right_eq, ← hlength,
    ← hmem]
  exact eq_comm.trans (flatMap_eq_replicate_iff _ 0 (cellContent_length M) before)

/-! ## End to end -/

/-- The frames of an undisturbed call, as the server sees them. -/
theorem frames_split {c : PagesCall} {vma : Vma} (hchecked : c.checked = .ok vma)
    (hok : c.AllocationsSucceed) :
    ∃ before last, c.frames M = before ++ [last] ∧
      before.length = (closedRuns (c.row M)).length ∧ (∀ f ∈ before, ¬ f.IsEnd) ∧ last.IsEnd ∧
      (∀ f ∈ before ++ [last], f.header.mappingLen = c.len) ∧
      (last.dumped = c.image M ↔ EarlierPagesZero M (c.row M)) := by
  obtain ⟨m, hframes⟩ := PagesCall.frames_eq (M := M) hchecked hok
  have hlast : (lastFrame M (c.info vma) (c.row M) m).header.mappingLen = c.len := by
    rw [lastFrame]
    split <;> rfl
  refine ⟨_, _, hframes, List.length_map _, ?_, lastFrame_isEnd _ m, ?_, dumped_eq_image_iff m⟩
  · intro f hf
    obtain ⟨r, -, rfl⟩ := List.mem_map.mp hf
    exact show (0 : UInt64) ≠ 1 by decide
  · intro f hf
    rcases List.mem_append.mp hf with hf | hf
    · obtain ⟨r, -, rfl⟩ := List.mem_map.mp hf
      rfl
    · rw [List.mem_singleton.mp hf]
      exact hlast

/-- The dump of an undisturbed call: one buffer, unless the server is refused one in some round. -/
theorem dumps_of_call {c : PagesCall} {vma : Vma} (hchecked : c.checked = .ok vma)
    (hok : c.AllocationsSucceed) (env : ServerEnv) {segments : List (List UInt8)}
    (hsegments : segments.flatten = (TcpHook.pages c).bytes M) :
    ∃ info buf, info.mappingLen = c.len ∧ (buf = c.image M ↔ EarlierPagesZero M (c.row M)) ∧
      dumps ((receiveLoop env).run (.start segments)) =
        if ∀ r ≤ (closedRuns (c.row M)).length, env.mmap r c.len = true then [(info, buf)]
        else [] := by
  obtain ⟨before, last, hframes, hcount, hopen, hend, hlen, himage⟩ :=
    frames_split (M := M) hchecked hok
  have hsound : ∀ f ∈ before ++ [last], f.Complete ∧ f.Accepted ∧ f.header.mappingLen = c.len := by
    intro f hf
    obtain ⟨hcomplete, haccepted⟩ := c.frames_sound (M := M) f (hframes ▸ hf)
    exact ⟨hcomplete, haccepted, hlen f hf⟩
  have hinput : (LoopHead.start segments).input.flatten =
      (before ++ [last]).flatMap Frame.toBytes := by
    rw [← hframes]
    exact hsegments.trans (TcpHook.bytes_eq M (.pages c))
  have hdumps := dumps_run (s := .start segments) (show _ = none from rfl) hsound hopen hend hinput
    env
  have hround : ∀ r, (LoopHead.start segments).round + r = r := Nat.zero_add
  simp only [hround, hcount] at hdumps
  exact ⟨last.header, last.dumped, hlen last (by simp), himage, hdumps⟩

/-- **What the server reconstructs.**  When one hook runs alone and nothing fails in it, the buffer
that the server dumps is the mapping exactly when the server gets a buffer in each round and every
page that has a gap somewhere after it holds zeros. -/
theorem server_reconstructs_iff (c : PagesCall) {vma : Vma} (hchecked : c.checked = .ok vma)
    (hok : c.AllocationsSucceed) (env : ServerEnv) (segments : List (List UInt8))
    (hsegments : segments.flatten = (TcpHook.pages c).bytes M) :
    Reconstructed M c ((receiveLoop env).run (.start segments)) ↔
      (∀ r ≤ (closedRuns (c.row M)).length, env.mmap r c.len = true) ∧
        EarlierPagesZero M (c.row M) := by
  obtain ⟨info, buf, hlen, himage, hdumps⟩ := dumps_of_call hchecked hok env hsegments
  rw [Reconstructed, hdumps, ← himage]
  by_cases hmmap : ∀ r ≤ (closedRuns (c.row M)).length, env.mmap r c.len = true
  · rw [if_pos hmmap]
    constructor
    · rintro ⟨info', buf', hdump, -, -, hbuf⟩
      obtain ⟨-, rfl⟩ := Prod.mk.inj (List.singleton_inj.mp hdump)
      exact ⟨hmmap, hbuf⟩
    · rintro ⟨-, hbuf⟩
      exact ⟨info, buf, rfl, hlen, by rw [hbuf, c.image_length], hbuf⟩
  · rw [if_neg hmmap]
    constructor
    · rintro ⟨info', buf', hdump, -⟩
      cases hdump
    · rintro ⟨h, -⟩
      exact absurd h hmmap

theorem server_reconstructs_sample_iff :
    Reconstructed sampleMemory sampleCall ((receiveLoop ⟨fun _ _ => true, fun _ => true⟩).run
        (.start [(TcpHook.pages sampleCall).bytes sampleMemory])) ↔
      (∀ r ≤ (closedRuns (sampleCall.row sampleMemory)).length, true = true) ∧
        EarlierPagesZero sampleMemory (sampleCall.row sampleMemory) :=
  server_reconstructs_iff sampleCall sampleCall_checked sampleCall_allocationsSucceed
    ⟨fun _ _ => true, fun _ => true⟩ _ (by simp)

/-- The first page of the sample mapping is lost: there is a hole behind it. -/
theorem server_loses_first_page :
    ¬ Reconstructed sampleMemory sampleCall ((receiveLoop ⟨fun _ _ => true, fun _ => true⟩).run
        (.start [(TcpHook.pages sampleCall).bytes sampleMemory])) := by
  have hsegments : [(TcpHook.pages sampleCall).bytes sampleMemory].flatten =
      (TcpHook.pages sampleCall).bytes sampleMemory := List.append_nil _
  obtain ⟨info, buf, -, himage, hdumps⟩ :=
    dumps_of_call (M := sampleMemory) sampleCall_checked sampleCall_allocationsSucceed
      ⟨fun _ _ => true, fun _ => true⟩ hsegments
  rw [if_pos (fun _ _ => rfl)] at hdumps
  rintro ⟨info', buf', hdump, -, -, hbuf⟩
  rw [hdumps] at hdump
  obtain ⟨-, rfl⟩ := Prod.mk.inj (List.singleton_inj.mp hdump)
  have hzero := himage.mp hbuf
  rw [sampleCall_row] at hzero
  have hpage : sampleMemory.page 1 = zeroChars pageSize := hzero 0 1 rfl ⟨1, by decide, rfl⟩
  have hbytes : List.replicate pageSize (1 : UInt8) = List.replicate pageSize 0 :=
    congrArg Subtype.val hpage
  rw [List.replicate_inj] at hbytes
  exact absurd hbytes (by decide)

end LsmFork
