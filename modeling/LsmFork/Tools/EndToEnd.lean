import LsmFork.Protocol.ClosedLoop
import LsmFork.Tools.DumpTree

/-!
# From the mappings to the report

`ClosedLoop` ends with the dumps of the server, and `DumpTree` starts with the calls that make them.
Put together, the report of `match_yara.py` is about the mappings and programs themselves: whatever
the order in which the hooks and the server go on, and in whatever order the scanner walks, the
numbers in it are those of the memory that the hooks were called for.

* `dumpCall`, `data_dumpCall`: a dump of the server as a call of `dump_mapping`.
* `plain_of_dumped`: the names of the dumps, in terms of the mappings.
* `report_counts_mappings`: the report.
-/

namespace LsmFork
namespace EndToEnd

open ClosedLoop DumpTree Runs

/-- The call of `dump_mapping` for a dump.  Its `popen` succeeds. -/
def dumpCall (d : MappingInfo × List UInt8) : DumpCall := ⟨d.1, d.2, true⟩

/-- The calls for some dumps.  Nothing behind them fails. -/
def dumpCalls (dumps : List (MappingInfo × List UInt8)) : List (DumpCall × DiskOutcome) :=
  dumps.map fun d => (dumpCall d, .ok)

theorem plain_of_sameSource {info info' : MappingInfo}
    (h : SameSource { info with isEndOfMapping := 1 } info') (hplain : info.Plain) :
    info'.Plain := by
  obtain ⟨m, l, rfl⟩ := h
  exact ⟨hplain.name, hplain.args, hplain.anonName, hplain.nameDots, hplain.argsDots⟩

theorem data_dumpCall {d : MappingInfo × List UInt8} (h : d.2.length = d.1.mappingLen.toNat) :
    (dumpCall d).data = d.2 := by
  show d.2.take d.1.mappingLen.toNat = d.2
  rw [← h, List.take_length]

section Records

variable {M : PhysMem} {hooks : List TcpHook}

theorem exists_recordOf_of_dumped {d : MappingInfo × List UInt8}
    (hd : d ∈ frameDumps (hooks.flatMap (TcpHook.frames M))) :
    ∃ h ∈ hooks, ∃ info image, RecordOf M h d info image := by
  obtain ⟨f, hf, rfl⟩ := List.mem_map.mp hd
  obtain ⟨hmem, hend⟩ := List.mem_filter.mp hf
  obtain ⟨h, hh, hframe⟩ := List.mem_flatMap.mp hmem
  exact ⟨h, hh, RecordOf.of_mem (mem_endFrames.mpr ⟨hframe, of_decide_eq_true hend⟩)⟩

theorem plain_of_dumped (hplain : ∀ h ∈ hooks, ∀ m ∈ h.mapping M, m.1.Plain) :
    ∀ x ∈ dumpCalls (frameDumps (hooks.flatMap (TcpHook.frames M))), x.1.info.Plain := by
  intro x hx
  obtain ⟨d, hd, rfl⟩ := List.mem_map.mp hx
  obtain ⟨h, hh, info, image, hrecord⟩ := exists_recordOf_of_dumped hd
  exact plain_of_sameSource hrecord.header (hplain h hh (info, image) hrecord.mapping)

/-- What a scanner can read of the files is the content of the dumps. -/
theorem map_readable_dumpCalls (gzip : List UInt8 → List UInt8)
    (gunzip : List UInt8 → Option (List UInt8)) {before : Tree}
    (hclear : Clear before ((frameDumps (hooks.flatMap (TcpHook.frames M))).map Prod.fst)) :
    (saved gzip 0 (dumpCalls (frameDumps (hooks.flatMap (TcpHook.frames M)))) before).map
        (SavedDump.readable gunzip) =
      (frameDumps (hooks.flatMap (TcpHook.frames M))).map fun d => some d.2 := by
  have hworks : ∀ x ∈ dumpCalls (frameDumps (hooks.flatMap (TcpHook.frames M))), x.2.Works := by
    intro x hx
    obtain ⟨d, -, rfl⟩ := List.mem_map.mp hx
    exact DiskOutcome.ok_works
  have hinfos : ∀ x ∈ dumpCalls (frameDumps (hooks.flatMap (TcpHook.frames M))),
      x.1.info ∈ (frameDumps (hooks.flatMap (TcpHook.frames M))).map Prod.fst := by
    intro x hx
    obtain ⟨d, hd, rfl⟩ := List.mem_map.mp hx
    exact List.mem_map.mpr ⟨d, hd, rfl⟩
  have hcalls : written ((dumpCalls (frameDumps (hooks.flatMap (TcpHook.frames M)))).map Prod.fst) =
      (frameDumps (hooks.flatMap (TcpHook.frames M))).map dumpCall := by
    rw [dumpCalls, List.map_map]
    exact List.filter_eq_self.mpr fun c hc => by
      obtain ⟨d, -, rfl⟩ := List.mem_map.mp hc
      rfl
  have hsaved :
      (saved gzip 0 (dumpCalls (frameDumps (hooks.flatMap (TcpHook.frames M)))) before).map
        (fun x => (x.call, x.readable gunzip)) = _ := saved_of_works hworks hinfos hclear
  have hread := congrArg (List.map Prod.snd) hsaved
  rw [List.map_map, List.map_map, hcalls, List.map_map] at hread
  refine hread.trans (List.map_congr_left fun d hd => ?_)
  obtain ⟨h, -, info, image, hrecord⟩ := exists_recordOf_of_dumped hd
  exact congrArg some (data_dumpCall hrecord.length)

end Records

/-- **The report counts the mappings.**  The allocations inside the hooks and the calls of the
server succeed, those that dump included, the names of the mappings are plain, and before the last
run of each mapping its pages hold zeros; and the server's directory has no older dumps in it and
nothing in the way of new ones.  The hooks and the server go on in any order until nobody can; then
the server has made its dumps, the scanner walks over them in any order, and its report counts the
contents of the mappings and programs that the hooks were about. -/
theorem report_counts_mappings (M : PhysMem) {hooks : List TcpHook}
    (hok : ∀ h ∈ hooks, h.AllocationsSucceed) (hzeros : ∀ h ∈ hooks, h.EarlierPagesZero M)
    (hplain : ∀ h ∈ hooks, ∀ m ∈ h.mapping M, m.1.Plain) (hfew : hooks.length < 2 ^ 64)
    (env : ServerEnv) (hmmap : ∀ round len, env.mmap round len = true)
    (hreply : ∀ round, env.reply round = true) (acts : List ClosedLoop.Act)
    (hstuck : Stuck M env (acts.foldl (next M env) (start hooks)))
    (gzip : List UInt8 → List UInt8) (gunzip : List UInt8 → Option (List UInt8))
    (hgunzip : ∀ data, gunzip (gzip data) = some data)
    (rules : List UInt8 → List String) (failedRules : List (String × String)) (before : Tree)
    (hbefore : ∀ path content, before (components path) = some (.file content) →
      ¬ dumpSuffix <:+ path)
    (hclear : Clear before ((acts.foldl (next M env) (start hooks)).dumped.map Prod.fst)) :
    ∃ after, saveAll gzip 0 (dumpCalls (acts.foldl (next M env) (start hooks)).dumped) before =
        some after ∧
      ∀ walk, Walks after walk →
        CountsContents rules ((hooks.filterMap (TcpHook.mapping M)).map fun m => some m.2)
          (MatchYara.main failedRules walk (scanTree gunzip rules after)) := by
  obtain ⟨done, unread, pending, h⟩ := exists_inv_foldl M hooks hmmap hreply acts
  obtain ⟨-, -, -, hdumped⟩ := h.completes
    (fun g hg => TcpHook.takesOwnReply_of_ok (hok g hg)) hstuck
  have hcontents := (map_snd_frameDumps_eq_iff (M := M) hok).mpr hzeros
  rw [hdumped] at hclear ⊢
  -- there are no more dumps than hooks
  have hnotMany :
      ((dumpCalls (frameDumps (hooks.flatMap (TcpHook.frames M)))).map Prod.fst).length <
        2 ^ 64 := by
    have hlength := congrArg List.length hcontents
    rw [List.length_map, List.length_map] at hlength
    rw [List.length_map, dumpCalls, List.length_map, hlength]
    exact (List.length_filterMap_le _ _).trans_lt hfew
  obtain ⟨after, hafter, hholds⟩ :=
    saveAll_spec gzip (plain_of_dumped hplain) (counters_nodup hnotMany) before
  refine ⟨after, hafter, fun walk hwalk => ?_⟩
  have hreadable : (frameDumps (hooks.flatMap (TcpHook.frames M))).map (fun d => some d.2) =
      (hooks.filterMap (TcpHook.mapping M)).map fun m => some m.2 := by
    have hsome := congrArg (List.map some) hcontents
    rwa [List.map_map, List.map_map] at hsome
  rw [← hreadable, ← map_readable_dumpCalls gzip gunzip hclear]
  exact hholds.countsContents hgunzip rules failedRules hbefore hwalk

/-- A mapping of three pages, of which the first is not there. -/
def lateCall : PagesCall :=
  { sampleCall with
    walk := [(.pteHole 4096 8192, .ok), (.pteEntry ⟨true, 1⟩ 8192 12288, .ok),
      (.pteEntry ⟨true, 2⟩ 12288 16384, .ok)]
    walk_covers := ⟨rfl, ⟨0, rfl⟩, rfl, rfl, rfl, rfl, rfl⟩ }

theorem lateCall_allocationsSucceed : (TcpHook.pages lateCall).AllocationsSucceed :=
  ⟨by decide, rfl⟩

/-- A mapping whose first page is not there, and a program. -/
def lateHooks : List TcpHook := [.pages lateCall, .bpf sampleBpf]

theorem lateHooks_allocationsSucceed : ∀ h ∈ lateHooks, h.AllocationsSucceed :=
  List.forall_mem_cons.mpr ⟨lateCall_allocationsSucceed, List.forall_mem_singleton.mpr trivial⟩

theorem lateHooks_earlierPagesZero : ∀ h ∈ lateHooks, h.EarlierPagesZero sampleMemory := by
  refine List.forall_mem_cons.mpr ⟨?_, List.forall_mem_singleton.mpr trivial⟩
  rintro vma - k pfn - ⟨j, hlt, hhole⟩
  obtain ⟨i, rfl⟩ := Nat.exists_eq_add_of_lt hlt
  have hrow : lateCall.row sampleMemory = [none, some 1, some 2] := rfl
  rw [hrow, show k + i + 1 = (k + i) + 1 from rfl, List.getElem?_cons_succ] at hhole
  have hmem := List.mem_of_getElem? hhole
  simp at hmem

theorem lateHooks_plain : ∀ h ∈ lateHooks, ∀ m ∈ h.mapping sampleMemory, m.1.Plain := by
  have hdots : ¬ IsDots sampleComm.toList := by unfold IsDots; decide
  refine List.forall_mem_cons.mpr ⟨?_, List.forall_mem_singleton.mpr ?_⟩
  · rintro m ⟨rfl⟩
    exact plain_of_name (by decide) hdots rfl rfl
  · rintro m ⟨rfl⟩
    exact plain_of_name (by decide) hdots rfl rfl

theorem report_counts_mappings_of_sample : ∃ (acts : List ClosedLoop.Act) (after : Tree),
    saveAll id 0 (dumpCalls (acts.foldl (next sampleMemory willingEnv) (start lateHooks)).dumped)
        (fun _ => none) = some after ∧
      ∀ walk, Walks after walk →
        CountsContents (fun _ => ["any"])
          ((lateHooks.filterMap (TcpHook.mapping sampleMemory)).map fun m => some m.2)
          (MatchYara.main [] walk (scanTree some (fun _ => ["any"]) after)) := by
  obtain ⟨acts, hstuck⟩ := exists_stuck sampleMemory willingEnv (start lateHooks)
  exact ⟨acts, report_counts_mappings sampleMemory lateHooks_allocationsSucceed
    lateHooks_earlierPagesZero lateHooks_plain (by decide) willingEnv (fun _ _ => rfl)
    (fun _ => rfl) acts hstuck id some (fun _ => rfl) (fun _ => ["any"]) [] (fun _ => none)
    (fun _ _ => nofun) (clear_empty _)⟩

end EndToEnd
end LsmFork
