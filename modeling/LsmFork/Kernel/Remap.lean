import LsmFork.Kernel.HookRuns

/-!
# The pages that the mprotect hook shows

The mprotect hook pins the pages of the range and maps them into the analyzer one by one, a page at
a time, and the rest of the length with the last.  The last is the last of the pinned pages, and the
rest is what the requested length leaves.  When all pages of the range have been pinned the rest is
at most a page.  When `get_user_pages` has stopped before that, the rest is longer, and the call
maps the frames that follow the last pinned page, whatever they hold.

* `remapCalls`, `RemapCall.frames`: the calls of a hook, and the frames that a call makes visible.
* `ShowsPinned`: only pinned pages are shown, and as much of them as the length asks for.
* `remapPages_sizes`, `remapPages_sizes_fails`: the sizes of the calls, with and without a failure.
* `mprotectHook_showsPinned_iff`: the hook shows only pinned pages exactly when all are pinned.
-/

namespace LsmFork

/-- The calls of `remap_pfn_range` among the events. -/
def remapCalls (evs : List HookEvent) : List RemapCall :=
  evs.filterMap fun
    | .remapPfnRange call => some call
    | _ => none

/-- The frames that a call makes visible: `size` is rounded up to whole pages. -/
def RemapCall.frames (call : RemapCall) : List Pfn :=
  List.range' call.pfn ((call.size.toNat + (pageSize - 1)) / pageSize)

/-- `len` in pages, rounded up. -/
def pageCount (len : UInt64) : ℕ := (len.toNat + (pageSize - 1)) / pageSize

/-- **Only pinned pages are shown.**  Every call maps at most a page, from the frame of a pinned
page, so that no other frame is visible, and the sizes add up to the length, or to the pinned pages
when these are shorter. -/
structure ShowsPinned (len : UInt64) (pages : List Pfn) (calls : List RemapCall) : Prop where
  small : ∀ call ∈ calls, call.size.toNat ≤ pageSize
  pinned : ∀ call ∈ calls, call.pfn ∈ pages
  visible : ∀ call ∈ calls, ∀ frame ∈ call.frames, frame ∈ pages
  total : (calls.map fun call => call.size.toNat).sum = min len.toNat (pages.length * pageSize)

theorem pageCount_le_iff {len : UInt64} {n : ℕ} : pageCount len ≤ n ↔ len.toNat ≤ n * pageSize := by
  have hpage : pageSize = 4096 := rfl
  rw [pageCount, hpage]
  omega

/-! ## The calls of the loop -/

section Loop

variable {len address : UInt64} {pinnedPages i : ℕ} {remapPfnRange : ℕ → Int32} {pages : List Pfn}

theorem remapPages_pfn_mem :
    ∀ call ∈ (remapPages len address pinnedPages remapPfnRange i pages).1, call.pfn ∈ pages := by
  induction pages generalizing i with
  | nil => exact fun call hcall => absurd hcall List.not_mem_nil
  | cons page pages ih =>
    intro call hcall
    rw [remapPages] at hcall
    split at hcall
    · rw [List.mem_singleton.mp hcall]
      exact List.mem_cons_self
    · rcases List.mem_cons.mp hcall with rfl | hcall
      · exact List.mem_cons_self
      · exact List.mem_cons_of_mem _ (ih call hcall)

/-- **The sizes of the calls**, when none but the last can fail: whole pages, and the rest of the
length with the last. -/
theorem remapPages_sizes (hlast : i + pages.length = pinnedPages) (hne : pages ≠ [])
    (hok : ∀ j, i ≤ j → j + 1 < pinnedPages → remapPfnRange j = 0) :
    (remapPages len address pinnedPages remapPfnRange i pages).1.map RemapCall.size =
      List.replicate (pages.length - 1) (UInt64.ofNat pageSize) ++
        [len - UInt64.ofNat (pinnedPages - 1) * UInt64.ofNat pageSize] := by
  induction pages generalizing i with
  | nil => exact absurd rfl hne
  | cons page pages ih =>
    rw [List.length_cons] at hlast
    cases pages with
    | nil =>
      have hi : i = pinnedPages - 1 := by
        rw [List.length_nil] at hlast
        omega
      rw [remapPages, if_pos hi, ← hi]
      split <;> rfl
    | cons page' pages =>
      rw [List.length_cons] at hlast
      have hi : i ≠ pinnedPages - 1 := by omega
      have hzero : remapPfnRange i = 0 := hok i le_rfl (by omega)
      have hrest := ih (i := i + 1) (by rw [List.length_cons]; omega) (List.cons_ne_nil _ _)
        fun j hj hjlast => hok j (by omega) hjlast
      rw [remapPages, if_neg (fun hfails => hfails hzero), if_neg hi]
      simp only [List.map_cons, hrest]
      rfl

/-- **The sizes of the calls**, when one before the last fails: whole pages, and not all of
them. -/
theorem remapPages_sizes_fails (hlast : i + pages.length = pinnedPages)
    (hfails : ∃ j, i ≤ j ∧ j + 1 < pinnedPages ∧ remapPfnRange j ≠ 0) :
    ∃ n, n < pages.length ∧
      (remapPages len address pinnedPages remapPfnRange i pages).1.map RemapCall.size =
        List.replicate n (UInt64.ofNat pageSize) := by
  induction pages generalizing i with
  | nil =>
    obtain ⟨j, hj, hjlast, -⟩ := hfails
    rw [List.length_nil] at hlast
    omega
  | cons page pages ih =>
    obtain ⟨j, hj, hjlast, hne⟩ := hfails
    rw [List.length_cons] at hlast
    have hi : i ≠ pinnedPages - 1 := by omega
    rw [remapPages, if_neg hi]
    by_cases hzero : remapPfnRange i = 0
    · have hnext : i + 1 ≤ j := by
        rcases Nat.lt_or_eq_of_le hj with hlt | rfl
        · exact hlt
        · exact absurd hzero hne
      obtain ⟨n, hn, hsizes⟩ := ih (by omega) ⟨j, hnext, hjlast, hne⟩
      refine ⟨n + 1, by rw [List.length_cons]; omega, ?_⟩
      rw [if_neg (fun h => h hzero)]
      simp only [List.map_cons, hsizes]
      rfl
    · refine ⟨1, by rw [List.length_cons]; omega, ?_⟩
      rw [if_pos hzero]
      rfl

/-! ## What the calls show -/

/-- The rest of the length, for the last of at most as many pages as the range has. -/
theorem toNat_rest (hne : pages ≠ []) (hpinned : pages.length ≤ pageCount len) :
    (pages.length - 1) * pageSize < len.toNat ∧
      (len - UInt64.ofNat (pages.length - 1) * UInt64.ofNat pageSize).toNat =
        len.toNat - (pages.length - 1) * pageSize := by
  have hpos := List.length_pos_of_ne_nil hne
  have hlen : len.toNat < 2 ^ 64 := len.toNat_lt
  have hlt : (pages.length - 1) * pageSize < len.toNat := by
    refine Nat.lt_of_not_le fun hle => ?_
    have hcount := pageCount_le_iff.mpr hle
    omega
  have hoffset : (UInt64.ofNat (pages.length - 1) * UInt64.ofNat pageSize).toNat =
      (pages.length - 1) * pageSize := by
    rw [← UInt64.ofNat_mul, UInt64.toNat_ofNat_of_lt' (hlt.trans hlen)]
  refine ⟨hlt, ?_⟩
  rw [UInt64.toNat_sub_of_le, hoffset]
  rw [UInt64.le_iff_toNat_le, hoffset]
  exact hlt.le

/-- A call of at most a page makes no frame visible but its own. -/
theorem RemapCall.frames_subset {call : RemapCall} (h : call.size.toNat ≤ pageSize) :
    ∀ frame ∈ call.frames, frame = call.pfn := by
  intro frame hframe
  have hpage : pageSize = 4096 := rfl
  obtain ⟨k, hk, rfl⟩ := List.mem_range'.mp hframe
  have hzero : k = 0 := by
    rw [hpage] at h hk
    omega
  rw [hzero]
  rfl

theorem sum_sizes (calls : List RemapCall) : (calls.map fun call => call.size.toNat).sum =
    ((calls.map RemapCall.size).map UInt64.toNat).sum := by
  rw [List.map_map]
  rfl

/-- **The loop shows only pinned pages** exactly when there are none, or all pages of the range are
pinned and no call before the last fails. -/
theorem remapPages_showsPinned_iff (hpinned : pages.length ≤ pageCount len) :
    ShowsPinned len pages (remapPages len address pages.length remapPfnRange 0 pages).1 ↔
      pages = [] ∨ pages.length = pageCount len ∧
        ∀ i, i + 1 < pages.length → remapPfnRange i = 0 := by
  have hofNat : (UInt64.ofNat pageSize).toNat = pageSize := rfl
  by_cases hne : pages = []
  · refine iff_of_true ?_ (Or.inl hne)
    rw [hne]
    exact ⟨fun _ h => absurd h List.not_mem_nil, fun _ h => absurd h List.not_mem_nil,
      fun _ h => absurd h List.not_mem_nil, by simp [remapPages]⟩
  obtain ⟨hlt, hrest⟩ := toNat_rest hne hpinned
  have hlast : (pages.length - 1) * pageSize + pageSize = pages.length * pageSize := by
    rw [← Nat.succ_mul, Nat.succ_eq_add_one, Nat.sub_add_cancel (List.length_pos_of_ne_nil hne)]
  rw [or_iff_right hne]
  by_cases hok : ∀ i, i + 1 < pages.length → remapPfnRange i = 0
  · -- the loop gets to its last page, and the sizes come to the whole length in any case
    have hsizes : (remapPages len address pages.length remapPfnRange 0 pages).1.map RemapCall.size =
        List.replicate (pages.length - 1) (UInt64.ofNat pageSize) ++
          [len - UInt64.ofNat (pages.length - 1) * UInt64.ofNat pageSize] :=
      remapPages_sizes (Nat.zero_add _) hne fun j _ hj => hok j hj
    have hsum : ((remapPages len address pages.length remapPfnRange 0 pages).1.map
        fun call => call.size.toNat).sum = len.toNat := by
      rw [sum_sizes, hsizes, List.map_append, List.sum_append, List.map_replicate,
        List.sum_replicate, List.map_singleton, List.sum_singleton, hrest, hofNat, smul_eq_mul]
      omega
    constructor
    · intro hshows
      have htotal := hshows.total
      have hlen : len.toNat ≤ pages.length * pageSize := by omega
      exact ⟨Nat.le_antisymm hpinned (pageCount_le_iff.mpr hlen), hok⟩
    · rintro ⟨hall, -⟩
      have hlen : len.toNat ≤ pages.length * pageSize := pageCount_le_iff.mp hall.ge
      have hsmall : ∀ call ∈ (remapPages len address pages.length remapPfnRange 0 pages).1,
          call.size.toNat ≤ pageSize := by
        intro call hcall
        have hsize := List.mem_map_of_mem (f := RemapCall.size) hcall
        rw [hsizes] at hsize
        rcases List.mem_append.mp hsize with hsize | hsize
        · rw [(List.mem_replicate.mp hsize).2, hofNat]
        · rw [List.mem_singleton.mp hsize, hrest]
          omega
      refine ⟨hsmall, remapPages_pfn_mem, fun call hcall frame hframe => ?_, ?_⟩
      · rw [RemapCall.frames_subset (hsmall call hcall) frame hframe]
        exact remapPages_pfn_mem call hcall
      · rw [hsum, Nat.min_eq_left hlen]
  · -- the loop stops before its last page
    refine iff_of_false (fun hshows => ?_) fun h => hok h.2
    push Not at hok
    obtain ⟨j, hj, hfails⟩ := hok
    obtain ⟨n, hn, hsizes⟩ : ∃ n, n < pages.length ∧
        (remapPages len address pages.length remapPfnRange 0 pages).1.map RemapCall.size =
          List.replicate n (UInt64.ofNat pageSize) :=
      remapPages_sizes_fails (Nat.zero_add _) ⟨j, Nat.zero_le j, hj, hfails⟩
    have htotal := hshows.total
    rw [sum_sizes, hsizes, List.map_replicate, List.sum_replicate, hofNat, smul_eq_mul] at htotal
    have hle : n * pageSize ≤ (pages.length - 1) * pageSize :=
      Nat.mul_le_mul_right pageSize (Nat.le_sub_one_of_lt hn)
    have hpage : 0 < pageSize := by decide
    omega

end Loop

/-! ## The hook -/

theorem remapCalls_append (evs evs' : List HookEvent) :
    remapCalls (evs ++ evs') = remapCalls evs ++ remapCalls evs' := List.filterMap_append

theorem remapCalls_map (calls : List RemapCall) :
    remapCalls (calls.map .remapPfnRange) = calls := by
  rw [remapCalls, List.filterMap_map]
  exact List.filterMap_some

theorem remapCalls_eq_nil {evs : List HookEvent} (h : ∀ call, .remapPfnRange call ∉ evs) :
    remapCalls evs = [] := by
  rw [remapCalls, List.filterMap_eq_nil_iff]
  intro e he
  cases e with
  | remapPfnRange call => exact absurd he (h call)
  | _ => rfl

section Hook

variable {analyzerTask : Option Task} {reply : Option UInt32} {c : MprotectCall}

theorem remapCalls_awaitAnalysis {info : MappingInfo} {release : List HookEvent}
    (h : ∀ call, .remapPfnRange call ∉ release) :
    remapCalls (awaitAnalysis info reply release).events = [] := by
  refine remapCalls_eq_nil fun call => ?_
  cases reply with
  | none => simp [awaitAnalysis]
  | some analyzerResponse => simp [awaitAnalysis, h call]

/-- After the pinning there are no calls but those of the loop. -/
theorem remapCalls_afterPinning (haddr : c.map.address ≠ 0)
    (hvma : ∃ vma, c.analyzerVma = some vma ∧ vma.vmFile = false) :
    remapCalls (c.afterPinning reply).events = c.remapped.1 := by
  obtain ⟨vma, hvma, hfile⟩ := hvma
  have hrelease : ∀ call, HookEvent.remapPfnRange call ∉ ([.kthreadStop, .mmput] ++
      c.pages.map .putPage ++ [.kfreePages, .kfreeData] : List HookEvent) := by simp
  have hlock : remapCalls [.mmapWriteLock] = [] := rfl
  have hunlock : remapCalls [.mmapWriteUnlock] = [] := rfl
  rw [MprotectCall.afterPinning, if_neg haddr, hvma]
  simp only [hfile, Bool.false_eq_true, if_false]
  rw [HookRun.after_events, remapCalls_append, remapCalls_append, remapCalls_append, remapCalls_map,
    hlock, hunlock, List.nil_append, List.append_nil]
  split
  · rw [remapCalls_awaitAnalysis hrelease, List.append_nil]
  · rw [remapCalls_eq_nil hrelease, List.append_nil]

/-- **The calls of a hook that gets to its loop** are those of the loop. -/
theorem remapCalls_mprotectHook (hreach : c.ReachesLoop analyzerTask) :
    remapCalls (mcheckCustomMprotectHook analyzerTask reply c).events = c.remapped.1 := by
  obtain ⟨htask, hprot, hanalyzer⟩ := hreach.reachesMm
  have hstart : remapCalls [.getTaskMm, .kmallocData, .kthreadRun] = [] := rfl
  have hpin : remapCalls (.kmallocPages :: c.pages.map .getUserPage) = [] :=
    remapCalls_eq_nil (by simp)
  rw [mcheckCustomMprotectHook, if_neg (Bool.eq_false_iff.mp htask), if_neg hprot,
    if_neg (Bool.eq_false_iff.mp hanalyzer), startThread, if_neg (by simp [hreach.getTaskMm]),
    if_neg (by simp [hreach.kmalloc]), if_neg (by simp [hreach.kthreadRun]), HookRun.after_events,
    remapCalls_append, hstart, List.nil_append, MprotectCall.pinPages,
    if_neg (by simp [hreach.pageArray]), if_neg hreach.pinned, HookRun.after_events,
    remapCalls_append, hpin, List.nil_append]
  exact remapCalls_afterPinning hreach.address hreach.analyzerVma

end Hook

/-- **The mprotect hook shows the analyzer only pinned pages** exactly when `get_user_pages` has
pinned none, or all of the range, and no call before the last fails. -/
theorem mprotectHook_showsPinned_iff (c : MprotectCall) (analyzerTask : Option Task)
    (reply : Option UInt32) (hreach : c.ReachesLoop analyzerTask)
    (hpinned : c.pages.length ≤ pageCount c.len) :
    ShowsPinned c.len c.pages (remapCalls (mcheckCustomMprotectHook analyzerTask reply c).events) ↔
      c.pages = [] ∨ c.pages.length = pageCount c.len ∧
        ∀ i, i + 1 < c.pages.length → c.remapPfnRange i = 0 := by
  rw [remapCalls_mprotectHook hreach]
  exact remapPages_showsPinned_iff hpinned

/-- A call for two pages, of which some have been pinned. -/
def sampleMprotect (pinnedPages : Int32) (pages : List Pfn)
    (h : pages.length = pinnedPages.toInt.toNat) : MprotectCall where
  comm := sampleComm
  addr := 4096
  len := 8192
  prot := protExec
  inAnalyzer := false
  map := ⟨true, true, true, 65536⟩
  pageArray := true
  pinnedPages := pinnedPages
  pages := pages
  analyzerVma := some ⟨false, none⟩
  remapPfnRange _ := 0
  stack := zeroInfo
  pages_length := h

/-- Both pages are pinned. -/
theorem sampleMprotect_showsPinned_iff :
    ShowsPinned 8192 [7, 3] (remapCalls (mcheckCustomMprotectHook (some 0) (some 0)
        (sampleMprotect 2 [7, 3] rfl)).events) ↔
      ([7, 3] : List Pfn) = [] ∨ [7, 3].length = pageCount 8192 ∧
        ∀ i, i + 1 < [7, 3].length → (0 : Int32) = 0 :=
  mprotectHook_showsPinned_iff (sampleMprotect 2 [7, 3] rfl) (some 0) (some 0)
    ⟨⟨rfl, by decide, rfl⟩, rfl, rfl, rfl, rfl, by decide, by decide, ⟨_, rfl, rfl⟩⟩ (by decide)

/-- One of the two pages is pinned, and the call for it maps the frame after it as well. -/
theorem partialPin_shows_foreign_frame :
    remapCalls (mcheckCustomMprotectHook (some 0) (some 0) (sampleMprotect 1 [7] rfl)).events =
        [⟨65536, 7, 8192⟩] ∧
      RemapCall.frames ⟨65536, 7, 8192⟩ = [7, 8] ∧
      ¬ ShowsPinned 8192 [7] (remapCalls (mcheckCustomMprotectHook (some 0) (some 0)
        (sampleMprotect 1 [7] rfl)).events) := by
  have hcalls : remapCalls (mcheckCustomMprotectHook (some 0) (some 0)
      (sampleMprotect 1 [7] rfl)).events = [⟨65536, 7, 8192⟩] := rfl
  refine ⟨hcalls, rfl, fun h => ?_⟩
  have hsmall := h.small ⟨65536, 7, 8192⟩ (by rw [hcalls]; exact List.mem_singleton_self _)
  revert hsmall
  decide

end LsmFork
