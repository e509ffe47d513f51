import LsmFork.Lib.Double
import LsmFork.Lib.GroupBy
import LsmFork.Tools.ExtractPid
import Mathlib.Data.String.Basic

/-!
# The report of `match_yara.py`

The script walks over the dumps and counts them and the labels in their names, then scans each dump
and gathers, for every rule that matches, the dumps and the labels that it matched in.  The report
sets the second numbers against the first.  The numbers are of two passes, and a dump that cannot be
read is in the first only; still the gathered sets are inside the counted ones.

* `gather`, `scanFile`, `scanAll`: the two passes.
* `report`, `main`: the numbers that are written.
* `gather_labelsOf`: the two collections of the first pass agree.
* `scanAll_eq_joinAll`: the second pass joins each dump to the entries of the rules it returned.
* `countsMatches`: what the report counts.
-/

namespace LsmFork
namespace MatchYara

open CString Double GroupBy

/-! ## The first pass -/

/-- A dump to scan: `full_path` and `pid`. -/
structure DumpFile where
  path : List UInt8
  pid : List UInt8
  deriving DecidableEq

/-- `os.path.join(root, file)`. -/
def joinPath (root file : List UInt8) : List UInt8 :=
  if file.head? = some slash then file
  else if root = [] ∨ root.getLast? = some slash then root ++ file
  else root ++ [slash] ++ file

/-- `if pid != "UNKNOWN": pids.add(pid)`. -/
def addPid (pids : Finset (List UInt8)) (pid : List UInt8) : Finset (List UInt8) :=
  if pid ≠ unknownPid then insert pid pids else pids

/-- One file of the walk; the state is `dump_files` and `all_pids`. -/
def gatherFile (root : List UInt8) (s : List DumpFile × Finset (List UInt8)) (file : List UInt8) :
    List DumpFile × Finset (List UInt8) :=
  if ascii ".dump.gz" <:+ file then
    (s.1 ++ [⟨joinPath root file, extractPid file⟩], addPid s.2 (extractPid file))
  else s

/-- The gathering loops, over the folders of the walk and the files in them. -/
def gather (walk : List (List UInt8 × List (List UInt8))) :
    List DumpFile × Finset (List UInt8) :=
  walk.foldl (fun s folder => folder.2.foldl (gatherFile folder.1) s) ([], ∅)

/-! ## The second pass -/

/-- The outcome of a scan: the names of the rules that match, or an exception. -/
abbrev Outcome := Option (List String)

/-- The entry of a rule: the sets of `dumps` and of `pids`. -/
abbrev Entry := Finset (List UInt8) × Finset (List UInt8)

/-- `dumps`. -/
def Entry.dumps (e : Entry) : Finset (List UInt8) := e.1

/-- `pids`. -/
def Entry.pids (e : Entry) : Finset (List UInt8) := e.2

/-- `stats`: a rule without an entry has two empty sets. -/
abbrev Stats := Table String Entry

/-- One match of a dump. -/
def scanMatch (file : DumpFile) (stats : Stats) (ruleName : String) : Stats :=
  stats.insert ruleName (insert file.path (Entry.dumps (valueAt stats ruleName)),
    addPid (Entry.pids (valueAt stats ruleName)) file.pid)

/-- One dump.  An exception is logged. -/
def scanFile (stats : Stats) (file : DumpFile × Outcome) : Stats :=
  match file.2 with
  | some rules => rules.foldl (scanMatch file.1) stats
  | none => stats

/-- The scanning loop. -/
def scanAll (files : List (DumpFile × Outcome)) : Stats := files.foldl scanFile ∅

/-! ## The report -/

/-- What the report says of a rule. -/
structure Row where
  ruleName : String
  matchedDumpsCount : ℕ
  matchedPidsCount : ℕ
  dumpPct : ℚ
  pidPct : ℚ

/-- The numbers of the report, and the rules that did not compile. -/
structure Report where
  totalDumps : ℕ
  totalPids : ℕ
  failedRules : List (String × String)
  rows : List Row

/-- `(matched / total) * 100`, in double precision. -/
def percent (matched total : ℕ) : ℚ := toDouble (toDouble (matched / total) * 100)

/-- The lines of a rule. -/
def row (totalDumps totalPids : ℕ) (stats : Stats) (ruleName : String) : Row where
  ruleName := ruleName
  matchedDumpsCount := (Entry.dumps (valueAt stats ruleName)).card
  matchedPidsCount := (Entry.pids (valueAt stats ruleName)).card
  dumpPct := percent (Entry.dumps (valueAt stats ruleName)).card totalDumps
  pidPct :=
    if totalPids > 0 then percent (Entry.pids (valueAt stats ruleName)).card totalPids else 0

/-- The report, unless there is nothing to scan. -/
def report (failedRules : List (String × String)) (allPids : Finset (List UInt8))
    (files : List (DumpFile × Outcome)) : Option Report :=
  if files.length = 0 then none
  else some {
    totalDumps := files.length
    totalPids := allPids.card
    failedRules := failedRules
    rows := ((scanAll files).keys.sort (· ≤ ·)).map
      (row files.length allPids.card (scanAll files)) }

/-- `main`, behind the compilation of the rules. -/
def main (failedRules : List (String × String)) (walk : List (List UInt8 × List (List UInt8)))
    (scan : DumpFile → Outcome) : Option Report :=
  report failedRules (gather walk).2 ((gather walk).1.map fun file => (file, scan file))

/-! ## The counts -/

/-- The labels of a list of dumps. -/
def allPids (files : List DumpFile) : Finset (List UInt8) :=
  files.foldl (fun pids file => addPid pids file.pid) ∅

/-- The scan of a dump returned a rule. -/
def Returned (file : DumpFile × Outcome) (rule : String) : Prop :=
  ∃ rules, file.2 = some rules ∧ rule ∈ rules

/-- A row of the report counts what matched its rule, out of what there is. -/
structure Counts (files : List (DumpFile × Outcome)) (r : Report) (row : Row) : Prop where
  dumps : row.matchedDumpsCount = (Entry.dumps (valueAt (scanAll files) row.ruleName)).card
  pids : row.matchedPidsCount = (Entry.pids (valueAt (scanAll files) row.ruleName)).card
  dumps_pos : 0 < row.matchedDumpsCount
  dumps_le : row.matchedDumpsCount ≤ r.totalDumps
  pids_le : row.matchedPidsCount ≤ r.totalPids
  dumpPct : 0 ≤ row.dumpPct ∧ row.dumpPct ≤ 100
  pidPct : 0 ≤ row.pidPct ∧ row.pidPct ≤ 100

/-- **The report counts what matched**, in whichever order the dumps come, and is written unless
there are none. -/
structure CountsMatches (failedRules : List (String × String))
    (files : List (DumpFile × Outcome)) : Prop where
  dumps : ∀ rule path, path ∈ Entry.dumps (valueAt (scanAll files) rule) ↔
    ∃ file ∈ files, Returned file rule ∧ file.1.path = path
  pids : ∀ rule pid, pid ∈ Entry.pids (valueAt (scanAll files) rule) ↔
    ∃ file ∈ files, Returned file rule ∧ file.1.pid = pid ∧ pid ≠ unknownPid
  raised : scanAll (files.filter fun file => file.2.isSome) = scanAll files
  written : report failedRules (allPids (files.map Prod.fst)) files = none ↔ files = []
  rows : ∀ r, report failedRules (allPids (files.map Prod.fst)) files = some r →
    0 < r.totalDumps ∧ r.totalDumps = files.length ∧
      r.totalPids = (allPids (files.map Prod.fst)).card ∧
      (∀ row ∈ r.rows, Counts files r row) ∧
      ∀ rule, (∃ row ∈ r.rows, row.ruleName = rule) ↔ ∃ file ∈ files, Returned file rule
  order : ∀ files', files.Perm files' →
    report failedRules (allPids (files'.map Prod.fst)) files' =
      report failedRules (allPids (files.map Prod.fst)) files

/-! ## The first pass counts the labels -/

theorem mem_addPid {pids : Finset (List UInt8)} {p q : List UInt8} :
    q ∈ addPid pids p ↔ q ∈ pids ∨ (p = q ∧ q ≠ unknownPid) := by
  rw [addPid]
  split_ifs with hp
  · rw [Finset.mem_insert]
    constructor
    · rintro (rfl | hq)
      · exact Or.inr ⟨rfl, hp⟩
      · exact Or.inl hq
    · rintro (hq | ⟨rfl, -⟩)
      · exact Or.inr hq
      · exact Or.inl rfl
  · refine ⟨Or.inl, ?_⟩
    rintro (hq | ⟨rfl, hne⟩)
    · exact hq
    · exact absurd hne hp

theorem allPids_append (files : List DumpFile) (file : DumpFile) :
    allPids (files ++ [file]) = addPid (allPids files) file.pid := by
  rw [allPids, List.foldl_append, ← allPids, List.foldl_cons, List.foldl_nil]

theorem mem_allPids {files : List DumpFile} {q : List UInt8} :
    q ∈ allPids files ↔ ∃ file ∈ files, file.pid = q ∧ q ≠ unknownPid := by
  induction files using List.reverseRecOn with
  | nil => simp [allPids]
  | append_singleton files file ih =>
    rw [allPids_append, mem_addPid, ih]
    simp only [List.mem_append, List.mem_singleton, or_and_right, exists_or, exists_eq_left]

/-- The set that was gathered is that of the labels of the list. -/
def LabelsOf (s : List DumpFile × Finset (List UInt8)) : Prop := s.2 = allPids s.1

theorem gatherFile_labelsOf (root file : List UInt8) {s : List DumpFile × Finset (List UInt8)}
    (h : LabelsOf s) : LabelsOf (gatherFile root s file) := by
  unfold LabelsOf gatherFile at *
  split_ifs
  · rw [allPids_append, ← h]
  · exact h

/-- **The two gathered collections agree.** -/
theorem gather_labelsOf (walk : List (List UInt8 × List (List UInt8))) :
    LabelsOf (gather walk) := by
  refine List.foldlRecOn walk _ (motive := LabelsOf) rfl fun s hs folder _ => ?_
  exact List.foldlRecOn folder.2 _ (motive := LabelsOf) hs fun s hs file _ =>
    gatherFile_labelsOf folder.1 file hs

theorem main_eq (failedRules : List (String × String))
    (walk : List (List UInt8 × List (List UInt8))) (scan : DumpFile → Outcome) :
    main failedRules walk scan =
      report failedRules (allPids (((gather walk).1.map fun file => (file, scan file)).map
        Prod.fst)) ((gather walk).1.map fun file => (file, scan file)) := by
  have hfst : ((gather walk).1.map fun file => (file, scan file)).map Prod.fst =
      (gather walk).1 := by
    rw [List.map_map]
    exact List.map_id _
  rw [main, hfst, gather_labelsOf walk]

/-! ## The second pass joins entries -/

/-- What a match adds to the entry of its rule. -/
def entryOf (file : DumpFile) : Entry := ({file.path}, addPid ∅ file.pid)

/-- What a dump adds to the table. -/
def joined (file : DumpFile × Outcome) : List (String × Entry) :=
  (file.2.getD []).map fun rule => (rule, entryOf file.1)

theorem scanMatch_eq_joinAt (file : DumpFile) (stats : Stats) (rule : String) :
    scanMatch file stats rule = joinAt stats (rule, entryOf file) := by
  have hdumps : insert file.path (Entry.dumps (valueAt stats rule)) =
      (valueAt stats rule).1 ∪ {file.path} := by
    rw [Finset.insert_eq, Finset.union_comm]
    rfl
  have hpids : addPid (Entry.pids (valueAt stats rule)) file.pid =
      (valueAt stats rule).2 ∪ addPid ∅ file.pid := by
    ext q
    rw [mem_addPid, Finset.mem_union, mem_addPid]
    simp [Entry.pids]
  rw [scanMatch, hdumps, hpids]
  rfl

theorem scanFile_eq_joinAll (stats : Stats) (file : DumpFile × Outcome) :
    scanFile stats file = joinAll stats (joined file) := by
  obtain ⟨file, outcome⟩ := file
  cases outcome with
  | none => rfl
  | some rules =>
    have hstep : scanMatch file = fun stats rule => joinAt stats (rule, entryOf file) := by
      ext stats rule : 2
      exact scanMatch_eq_joinAt file stats rule
    rw [scanFile, joinAll, joined, hstep]
    exact List.foldl_map.symm

theorem scanAll_eq_joinAll (files : List (DumpFile × Outcome)) :
    scanAll files = joinAll ∅ (files.flatMap joined) := by
  have hstep : scanFile = fun stats file => (joined file).foldl joinAt stats := by
    ext stats file : 2
    exact scanFile_eq_joinAll stats file
  rw [scanAll, hstep, joinAll, List.foldl_flatMap]

theorem flatMap_joined_filter (files : List (DumpFile × Outcome)) :
    (files.filter fun file => file.2.isSome).flatMap joined = files.flatMap joined := by
  induction files with
  | nil => rfl
  | cons file files ih =>
    obtain ⟨file, outcome⟩ := file
    cases outcome with
    | none =>
      rw [List.filter_cons_of_neg (by simp), ih, List.flatMap_cons]
      rfl
    | some rules => rw [List.filter_cons_of_pos (by simp), List.flatMap_cons, List.flatMap_cons, ih]

/-- The values that came for a rule are those of the dumps that returned it. -/
theorem exists_joined {files : List (DumpFile × Outcome)} {rule : String} {P : Entry → Prop} :
    (∃ e ∈ files.flatMap joined, e.1 = rule ∧ P e.2) ↔
      ∃ file ∈ files, Returned file rule ∧ P (entryOf file.1) := by
  constructor
  · rintro ⟨e, he, rfl, hP⟩
    obtain ⟨⟨file, outcome⟩, hfile, hjoined⟩ := List.mem_flatMap.mp he
    obtain ⟨rule, hrule, rfl⟩ := List.mem_map.mp hjoined
    cases outcome with
    | none => cases hrule
    | some rules => exact ⟨(file, some rules), hfile, ⟨rules, rfl, hrule⟩, hP⟩
  · rintro ⟨⟨file, outcome⟩, hfile, ⟨rules, rfl, hrule⟩, hP⟩
    exact ⟨(rule, entryOf file), List.mem_flatMap.mpr ⟨(file, some rules), hfile,
      List.mem_map.mpr ⟨rule, hrule, rfl⟩⟩, rfl, hP⟩

section Counted

variable {files : List (DumpFile × Outcome)} {rule : String}

theorem mem_scanAll : rule ∈ scanAll files ↔ ∃ file ∈ files, Returned file rule := by
  have hjoined : (∃ e ∈ files.flatMap joined, e.1 = rule ∧ True) ↔
      ∃ file ∈ files, Returned file rule ∧ True := exists_joined (P := fun _ => True)
  simp only [and_true] at hjoined
  rw [scanAll_eq_joinAll, mem_joinAll, hjoined, or_iff_right Finmap.notMem_empty]

theorem entry_iff {P : Entry → Prop} (hP : Additive P) : P (valueAt (scanAll files) rule) ↔
    ∃ file ∈ files, Returned file rule ∧ P (entryOf file.1) := by
  rw [scanAll_eq_joinAll, hP.valueAt_joinAll, valueAt_empty, or_iff_right hP.bot, exists_joined]

theorem mem_dumps {path : List UInt8} : path ∈ Entry.dumps (valueAt (scanAll files) rule) ↔
    ∃ file ∈ files, Returned file rule ∧ file.1.path = path := by
  have hadditive : Additive fun e : Entry => path ∈ Entry.dumps e :=
    ⟨Finset.notMem_empty path, fun a b => Finset.mem_union⟩
  rw [entry_iff hadditive]
  simp only [entryOf, Entry.dumps, Finset.mem_singleton, eq_comm]

theorem mem_pids {pid : List UInt8} : pid ∈ Entry.pids (valueAt (scanAll files) rule) ↔
    ∃ file ∈ files, Returned file rule ∧ file.1.pid = pid ∧ pid ≠ unknownPid := by
  have hadditive : Additive fun e : Entry => pid ∈ Entry.pids e :=
    ⟨Finset.notMem_empty pid, fun a b => Finset.mem_union⟩
  rw [entry_iff hadditive]
  simp only [entryOf, Entry.pids, mem_addPid, Finset.notMem_empty, false_or]

theorem card_dumps_le : (Entry.dumps (valueAt (scanAll files) rule)).card ≤ files.length := by
  have hsub : Entry.dumps (valueAt (scanAll files) rule) ⊆
      (files.map fun file => file.1.path).toFinset := by
    intro path hpath
    obtain ⟨file, hfile, -, rfl⟩ := mem_dumps.mp hpath
    exact List.mem_toFinset.mpr (List.mem_map.mpr ⟨file, hfile, rfl⟩)
  calc (Entry.dumps (valueAt (scanAll files) rule)).card
      ≤ (files.map fun file => file.1.path).toFinset.card := Finset.card_le_card hsub
    _ ≤ (files.map fun file => file.1.path).length := List.toFinset_card_le _
    _ = files.length := List.length_map _

theorem card_pids_le : (Entry.pids (valueAt (scanAll files) rule)).card ≤
    (allPids (files.map Prod.fst)).card := by
  refine Finset.card_le_card fun pid hpid => ?_
  obtain ⟨file, hfile, -, hlabel⟩ := mem_pids.mp hpid
  exact mem_allPids.mpr ⟨file.1, List.mem_map.mpr ⟨file, hfile, rfl⟩, hlabel⟩

theorem card_dumps_pos (h : rule ∈ scanAll files) :
    0 < (Entry.dumps (valueAt (scanAll files) rule)).card := by
  obtain ⟨file, hfile, hreturned⟩ := mem_scanAll.mp h
  exact Finset.card_pos.mpr ⟨file.1.path, mem_dumps.mpr ⟨file, hfile, hreturned, rfl⟩⟩

end Counted

/-! ## The percentages -/

theorem percent_nonneg (matched total : ℕ) : 0 ≤ percent matched total := by
  have hratio : 0 ≤ toDouble ((matched : ℚ) / total) := toDouble_nonneg (by positivity)
  exact toDouble_nonneg (by positivity)

/-- Neither of the two roundings leads out of the range. -/
theorem percent_le {matched total : ℕ} (h : matched ≤ total) : percent matched total ≤ 100 := by
  have hone : toDouble 1 = 1 := by exact_mod_cast toDouble_natCast (n := 1) (by norm_num)
  have hhundred : toDouble 100 = 100 := by
    exact_mod_cast toDouble_natCast (n := 100) (by norm_num)
  have hratio : toDouble ((matched : ℚ) / total) ≤ 1 :=
    calc toDouble ((matched : ℚ) / total) ≤ toDouble 1 :=
          toDouble_mono (by positivity) (div_le_one_of_le₀ (by exact_mod_cast h) (by positivity))
      _ = 1 := hone
  have hnonneg : 0 ≤ toDouble ((matched : ℚ) / total) := toDouble_nonneg (by positivity)
  calc percent matched total ≤ toDouble 100 := toDouble_mono (by positivity) (by linarith)
    _ = 100 := hhundred

/-! ## The numbers of the report -/

theorem counts_row {files : List (DumpFile × Outcome)} {rule : String} {r : Report}
    (hdumps : r.totalDumps = files.length)
    (hpids : r.totalPids = (allPids (files.map Prod.fst)).card) (h : rule ∈ scanAll files) :
    Counts files r (row r.totalDumps r.totalPids (scanAll files) rule) where
  dumps := rfl
  pids := rfl
  dumps_pos := card_dumps_pos h
  dumps_le := hdumps ▸ card_dumps_le
  pids_le := hpids ▸ card_pids_le
  dumpPct := ⟨percent_nonneg _ _, percent_le (hdumps ▸ card_dumps_le)⟩
  pidPct := by
    unfold row
    dsimp only
    split_ifs
    · exact ⟨percent_nonneg _ _, percent_le (hpids ▸ card_pids_le)⟩
    · exact ⟨le_refl 0, by norm_num⟩

/-- The table does not depend on the order of the dumps. -/
theorem scanAll_perm {files files' : List (DumpFile × Outcome)} (h : files.Perm files') :
    scanAll files' = scanAll files := by
  rw [scanAll_eq_joinAll, scanAll_eq_joinAll]
  exact (joinAll_perm (h.flatMap_right joined) ∅).symm

theorem allPids_perm {files files' : List DumpFile} (h : files.Perm files') :
    allPids files' = allPids files := by
  ext q
  rw [mem_allPids, mem_allPids]
  exact exists_congr fun file => by rw [h.mem_iff]

/-- **What the report counts.** -/
theorem countsMatches (failedRules : List (String × String))
    (files : List (DumpFile × Outcome)) : CountsMatches failedRules files where
  dumps _ _ := mem_dumps
  pids _ _ := mem_pids
  raised := by rw [scanAll_eq_joinAll, scanAll_eq_joinAll, flatMap_joined_filter]
  written := by
    unfold report
    split_ifs with hnone
    · exact iff_of_true rfl (List.length_eq_zero_iff.mp hnone)
    · exact iff_of_false nofun fun hnil => hnone (hnil ▸ rfl)
  rows r h := by
    unfold report at h
    split_ifs at h with hnone
    obtain rfl := Option.some.inj h
    have hkey : ∀ rule, rule ∈ (scanAll files).keys.sort (· ≤ ·) ↔ rule ∈ scanAll files := by
      intro rule
      rw [Finset.mem_sort, Finmap.mem_keys]
    refine ⟨Nat.pos_of_ne_zero hnone, rfl, rfl, fun row hrow => ?_, fun rule => ?_⟩
    · obtain ⟨rule, hrule, rfl⟩ := List.mem_map.mp hrow
      exact counts_row rfl rfl ((hkey rule).mp hrule)
    · rw [← mem_scanAll, ← hkey]
      constructor
      · rintro ⟨row, hrow, rfl⟩
        obtain ⟨rule, hrule, rfl⟩ := List.mem_map.mp hrow
        exact hrule
      · intro hrule
        exact ⟨_, List.mem_map.mpr ⟨rule, hrule, rfl⟩, rfl⟩
  order files' h := by
    rw [report, report, scanAll_perm h, allPids_perm (h.map Prod.fst), h.length_eq]

end MatchYara
end LsmFork
