import LsmFork.Lib.FileTree
import LsmFork.Server.DumpNames
import LsmFork.Tools.MatchYara

/-!
# From the dumps to the report

The server makes directories for each dump and hands it to a shell, which runs `gzip -9` into a file
below the server's working directory, and `match_yara.py` walks over that directory, reads the files
whose names end in `.dump.gz`, and reports how many of them each rule matches in.  Any of this may
fail: a directory may not be made, because a file stands in its place, say; then the shell cannot
open the file, and there is no dump; `gzip` may leave something else than the dump, and the scanner
may not be able to read it.  The numbers of the report are about the files all the same: each dump
whose file was opened is counted once, under a path of its own, and nothing else is.

Names with a quote or of dots are left out here; what they do is the subject of `DumpPath`.  A call
of `mkdir` or of the shell that fails for its own reasons is one of the outcomes of a call.

* `DiskOutcome`, `runEvents`, `saveAll`: the files that the calls of `dump_mapping` leave.
* `SavedDump`, `saved`: the dumps that go to files; `HoldsDumps`: what the files are.
* `Clear`, `saved_of_works`: when these are all whose `popen` succeeds.
* `scanTree`, `Walks`: a scan that reads the files, and a walk over them.
* `found_perm`: the dumps that the walk finds.
* `CountsContents`: a report on some contents.
* `report_counts_dumps`: the files, and the numbers of the report, in terms of the dumps.
-/

namespace LsmFork

open CString Shell Runs

/-- The bytes that a call writes into the pipe. -/
def DumpCall.data (c : DumpCall) : List UInt8 := c.buf.take c.info.mappingLen.toNat

/-- The strings of a header have no quotes, and neither directory is a dot or two dots. -/
structure MappingInfo.Plain (info : MappingInfo) : Prop where
  name : quote ∉ fieldString info.name.toList
  args : quote ∉ fieldString info.args.toList
  anonName : quote ∉ fieldString info.anonName.toList
  nameDots : ¬ IsDots info.name.toList
  argsDots : ¬ IsDots info.args.toList

namespace DumpTree

open FileTree

/-! ## The files of the server -/

/-- The server's working directory. -/
abbrev Tree := FileTree.Tree (List UInt8)

/-- A path of the server, by its components. -/
def components (path : List UInt8) : List (List UInt8) := path.splitOn slash

/-- What comes of the calls behind a dump: whether the file system lets a directory be made and the
shell open the file, and what the file holds when `gzip` fails. -/
structure DiskOutcome where
  mkdirOk : List UInt8 → Bool
  openOk : Bool
  leftover : Option (List UInt8)

/-- None of these calls fails. -/
structure DiskOutcome.Works (o : DiskOutcome) : Prop where
  mkdirOk : ∀ path, o.mkdirOk path = true
  openOk : o.openOk = true
  gzip : o.leftover = none

/-- The outcome when nothing fails. -/
def DiskOutcome.ok : DiskOutcome := ⟨fun _ => true, true, none⟩

theorem DiskOutcome.ok_works : DiskOutcome.ok.Works := ⟨fun _ => rfl, rfl, rfl⟩

/-- `mkdir`, whose result the server does not look at. -/
def makeDir (o : DiskOutcome) (path : List UInt8) (tree : Tree) : Tree :=
  mkdir (o.mkdirOk path) (components path) tree

/-- The shell can open a file for a command to write to. -/
def Opens (o : DiskOutcome) (path : List UInt8) (tree : Tree) : Prop :=
  o.openOk = true ∧ CanWrite tree (components path)

instance (o : DiskOutcome) (path : List UInt8) (tree : Tree) : Decidable (Opens o path tree) :=
  inferInstanceAs (Decidable (_ ∧ _))

section Save

variable (gzip : List UInt8 → List UInt8)

/-- The shell runs a command on some data.  Only `gzip -9` into a file is known here; it is not
started when the file cannot be opened. -/
def runCommand (o : DiskOutcome) (command data : List UInt8) (tree : Tree) : Option Tree :=
  match tokens false none command with
  | some [.word program, .word level, .redirect, .word path] =>
    if program = ascii "gzip" ∧ level = ascii "-9" then
      some (if Opens o path tree then
        write (components path) (o.leftover.getD (gzip data)) tree else tree)
    else none
  | _ => none

/-- What `dump_mapping` does to the files.  A `popen` with nothing behind it has failed. -/
def runEvents (o : DiskOutcome) : List DumpEvent → Tree → Option Tree
  | [], tree => some tree
  | .mkdir path :: events, tree => runEvents o events (makeDir o path tree)
  | .popen command :: .write data :: events, tree =>
    (runCommand gzip o command data tree).bind (runEvents o events)
  | _ :: events, tree => runEvents o events tree

/-- The files after the calls of `dump_mapping` that a server makes: a broken pipe, behind a command
that has ended early, may kill it, and then there are no more calls. -/
def saveAll (counter : UInt64) : List (DumpCall × DiskOutcome) → Tree → Option Tree
  | [], tree => some tree
  | (c, o) :: calls, tree =>
    (runEvents gzip o (dumpMapping counter c.popenOk c.info c.buf).1 tree).bind
      (saveAll (dumpNext counter c) calls)

end Save

/-! ## The dumps that go to files -/

/-- A dump that goes to a file, with the number in its name. -/
structure SavedDump where
  counter : UInt64
  call : DumpCall
  outcome : DiskOutcome

namespace SavedDump

/-- The path of the file. -/
def path (x : SavedDump) : List UInt8 := dumpPath x.counter x.call.info

/-- What the file holds. -/
def content (gzip : List UInt8 → List UInt8) (x : SavedDump) : List UInt8 :=
  x.outcome.leftover.getD (gzip x.call.data)

/-- What a scanner can read of it: the dump, or what `gunzip` makes of the rest of one. -/
def readable (gunzip : List UInt8 → Option (List UInt8)) (x : SavedDump) : Option (List UInt8) :=
  match x.outcome.leftover with
  | none => some x.call.data
  | some leftover => gunzip leftover

theorem readable_of_works {gunzip : List UInt8 → Option (List UInt8)} {x : SavedDump}
    (h : x.outcome.Works) : x.readable gunzip = some x.call.data := by rw [readable, h.gzip]

theorem gunzip_content {gzip : List UInt8 → List UInt8} {gunzip : List UInt8 → Option (List UInt8)}
    (hgunzip : ∀ data, gunzip (gzip data) = some data) (x : SavedDump) :
    gunzip (x.content gzip) = x.readable gunzip := by
  rw [content, readable]
  cases x.outcome.leftover with
  | none => exact hgunzip x.call.data
  | some leftover => rfl

end SavedDump

section Saved

variable (gzip : List UInt8 → List UInt8)

/-- The directories of a dump. -/
def makeDirs (o : DiskOutcome) (info : MappingInfo) (tree : Tree) : Tree :=
  makeDir o (nestedDir info) (makeDir o (level1Dir info) (makeDir o (ascii "dumps") tree))

/-- The dump of a call goes to a file. -/
def Saves (counter : UInt64) (c : DumpCall) (o : DiskOutcome) (tree : Tree) : Prop :=
  c.popenOk = true ∧ Opens o (dumpPath counter c.info) (makeDirs o c.info tree)

instance (counter : UInt64) (c : DumpCall) (o : DiskOutcome) (tree : Tree) :
    Decidable (Saves counter c o tree) := inferInstanceAs (Decidable (_ ∧ _))

/-- The files after one call. -/
def saveOne (counter : UInt64) (c : DumpCall) (o : DiskOutcome) (tree : Tree) : Tree :=
  if Saves counter c o tree then
    write (components (dumpPath counter c.info)) (SavedDump.content gzip ⟨counter, c, o⟩)
      (makeDirs o c.info tree)
  else makeDirs o c.info tree

/-- The dumps of a run that go to files. -/
def saved (counter : UInt64) : List (DumpCall × DiskOutcome) → Tree → List SavedDump
  | [], _ => []
  | (c, o) :: calls, tree =>
    (if Saves counter c o tree then [⟨counter, c, o⟩] else []) ++
      saved (dumpNext counter c) calls (saveOne gzip counter c o tree)

/-- **The files of some dumps**: each dump has a file of its own, which holds what was written, and
all other files are as they were. -/
structure HoldsDumps (dumps : List SavedDump) (before after : Tree) : Prop where
  distinct : (dumps.map SavedDump.path).Nodup
  content : ∀ x ∈ dumps, after (components x.path) = some (.file (x.content gzip))
  others : ∀ path, (∀ x ∈ dumps, path ≠ components x.path) → ∀ content,
    after path = some (.file content) ↔ before path = some (.file content)

variable {gzip} {counter : UInt64} {c : DumpCall} {o : DiskOutcome} {tree : Tree}

theorem components_injective {path path' : List UInt8} (h : components path = components path') :
    path = path' := by
  have hjoin : ∀ p : List UInt8, [slash].intercalate (components p) = p := fun _ =>
    List.intercalate_splitOn slash
  rw [← hjoin path, ← hjoin path', h]

theorem makeDirs_eq_file_iff (o : DiskOutcome) (info : MappingInfo) (tree : Tree)
    (path : List (List UInt8)) (content : List UInt8) :
    makeDirs o info tree path = some (.file content) ↔ tree path = some (.file content) := by
  unfold makeDirs makeDir
  rw [mkdir_eq_file_iff, mkdir_eq_file_iff, mkdir_eq_file_iff]

theorem runEvents_dumpMapping (counter : UInt64) (o : DiskOutcome) (tree : Tree)
    (hplain : c.info.Plain) :
    runEvents gzip o (dumpMapping counter c.popenOk c.info c.buf).1 tree =
      some (saveOne gzip counter c o tree) := by
  have hquote : quote ∉ dumpPath counter c.info := by
    rw [quote_mem_dumpPath_iff, not_or, not_or]
    exact ⟨hplain.name, hplain.args, hplain.anonName⟩
  have htokens := ((redirectsTo_quoted_iff _).mpr hquote).1
  rw [← dumpCommand_eq] at htokens
  have hcommand : runCommand gzip o (dumpCommand counter c.info) c.data (makeDirs o c.info tree) =
      some (if Opens o (dumpPath counter c.info) (makeDirs o c.info tree) then
        write (components (dumpPath counter c.info)) (o.leftover.getD (gzip c.data))
          (makeDirs o c.info tree)
        else makeDirs o c.info tree) := by
    rw [runCommand, htokens]
    exact if_pos ⟨rfl, rfl⟩
  rw [dumpMapping, saveOne]
  cases hok : c.popenOk with
  | false =>
    have hnot : ¬ Saves counter c o tree := fun h => by
      rw [Saves, hok] at h
      cases h.1
    rw [if_neg hnot]
    rfl
  | true =>
    have hsaves : Saves counter c o tree ↔
        Opens o (dumpPath counter c.info) (makeDirs o c.info tree) := by
      rw [Saves, hok, eq_self, true_and]
    show (runCommand gzip o (dumpCommand counter c.info) c.data (makeDirs o c.info tree)).bind
      (runEvents gzip o []) = _
    rw [hcommand]
    exact congrArg some (if_congr hsaves rfl rfl).symm

/-- The path of a dump determines its counter. -/
theorem dumpPath_counter_injective {counter counter' : UInt64} {info info' : MappingInfo}
    (h : dumpPath counter info = dumpPath counter' info') : counter = counter' := by
  have hsplit := congrArg (List.splitOn slash) h
  rw [dumpPath_components, dumpPath_components] at hsplit
  simp only [List.cons.injEq] at hsplit
  exact dumpName_counter_injective hsplit.2.2.2.1

theorem saveOne_eq_file_iff {path : List (List UInt8)}
    (h : Saves counter c o tree → path ≠ components (dumpPath counter c.info))
    (content : List UInt8) :
    saveOne gzip counter c o tree path = some (.file content) ↔
      tree path = some (.file content) := by
  unfold saveOne
  split
  · rename_i hsaves
    rw [write_of_ne (h hsaves), makeDirs_eq_file_iff]
  · exact makeDirs_eq_file_iff ..

variable (gzip) in
theorem map_counter_saved (counter : UInt64) (calls : List (DumpCall × DiskOutcome)) (tree : Tree) :
    ((saved gzip counter calls tree).map SavedDump.counter).Sublist
      ((trace dumpNext counter (calls.map Prod.fst)).map Prod.fst) := by
  induction calls generalizing counter tree with
  | nil => exact List.Sublist.refl []
  | cons x calls ih =>
    obtain ⟨c, o⟩ := x
    have hrest := ih (dumpNext counter c) (saveOne gzip counter c o tree)
    rw [saved, List.map_cons, trace, List.map_cons, List.map_append]
    split
    · exact hrest.cons_cons counter
    · exact hrest.cons counter

theorem nodup_path_saved {calls : List (DumpCall × DiskOutcome)}
    (hnodup : ((trace dumpNext counter (calls.map Prod.fst)).map Prod.fst).Nodup) (tree : Tree) :
    ((saved gzip counter calls tree).map SavedDump.path).Nodup := by
  have hcounters := hnodup.sublist (map_counter_saved gzip counter calls tree)
  refine List.pairwise_map.mpr ((List.pairwise_map.mp hcounters).imp fun {x y} hne hpath => ?_)
  exact hne (dumpPath_counter_injective hpath)

variable (gzip) in
/-- **The files after some calls** of plain names. -/
theorem saveAll_spec {calls : List (DumpCall × DiskOutcome)} (hplain : ∀ x ∈ calls, x.1.info.Plain)
    {counter : UInt64}
    (hnodup : ((trace dumpNext counter (calls.map Prod.fst)).map Prod.fst).Nodup) (tree : Tree) :
    ∃ after, saveAll gzip counter calls tree = some after ∧
      HoldsDumps gzip (saved gzip counter calls tree) tree after := by
  induction calls generalizing counter tree with
  | nil =>
    exact ⟨tree, rfl, List.nodup_nil, fun x hx => absurd hx List.not_mem_nil,
      fun path _ _ => Iff.rfl⟩
  | cons x calls ih =>
    obtain ⟨c, o⟩ := x
    obtain ⟨hc, hcalls⟩ := List.forall_mem_cons.mp hplain
    have hdistinct : ((saved gzip counter ((c, o) :: calls) tree).map SavedDump.path).Nodup :=
      nodup_path_saved hnodup tree
    rw [List.map_cons, trace, List.map_cons, List.nodup_cons] at hnodup
    obtain ⟨hfresh, hrest⟩ := hnodup
    rw [saveAll, runEvents_dumpMapping counter o tree hc, Option.bind_some]
    obtain ⟨after, hafter, hholds⟩ := ih hcalls hrest (saveOne gzip counter c o tree)
    -- no later dump has the path of this one
    have hlater : ∀ x ∈ saved gzip (dumpNext counter c) calls (saveOne gzip counter c o tree),
        components (dumpPath counter c.info) ≠ components x.path := by
      intro x hx hpath
      refine hfresh ((map_counter_saved gzip _ calls _).subset (List.mem_map.mpr ⟨x, hx, ?_⟩))
      exact (dumpPath_counter_injective (components_injective hpath)).symm
    refine ⟨after, hafter, hdistinct, fun x hx => ?_, fun path hpath content => ?_⟩
    · rw [saved, List.mem_append] at hx
      rcases hx with hx | hx
      · by_cases hsaves : Saves counter c o tree
        · rw [if_pos hsaves] at hx
          obtain rfl := List.mem_singleton.mp hx
          rw [SavedDump.path, hholds.others _ hlater, saveOne, if_pos hsaves]
          exact write_self _
        · rw [if_neg hsaves] at hx
          exact absurd hx List.not_mem_nil
      · exact hholds.content x hx
    · rw [saved, List.forall_mem_append] at hpath
      rw [hholds.others path hpath.2]
      refine saveOne_eq_file_iff (fun hsaves => ?_) content
      rw [if_pos hsaves] at hpath
      exact hpath.1 ⟨counter, c, o⟩ (List.mem_singleton_self _)

end Saved

/-! ## When nothing is in the way -/

/-- The directories that a dump needs. -/
def dumpDirs (info : MappingInfo) : List (List UInt8) :=
  [ascii "dumps", level1Dir info, nestedDir info]

/-- No file stands in the place of a directory of some dumps, and no directory in that of a dump. -/
structure Clear (tree : Tree) (infos : List MappingInfo) : Prop where
  dirs : ∀ info ∈ infos, ∀ dir ∈ dumpDirs info, ∀ content,
    tree (components dir) ≠ some (.file content)
  files : ∀ info ∈ infos, ∀ counter, tree (components (dumpPath counter info)) ≠ some .dir

theorem clear_empty (infos : List MappingInfo) : Clear (fun _ => none) infos :=
  ⟨fun _ _ _ _ _ => nofun, fun _ _ _ => nofun⟩

/-- The calls whose `popen` succeeds. -/
def written (calls : List DumpCall) : List DumpCall := calls.filter fun c => c.popenOk

section Clear

variable {gzip : List UInt8 → List UInt8} {gunzip : List UInt8 → Option (List UInt8)}
  {counter : UInt64} {c : DumpCall} {o : DiskOutcome} {tree : Tree} {infos : List MappingInfo}

theorem components_dumps : components (ascii "dumps") = [ascii "dumps"] := by decide

theorem components_level1Dir (info : MappingInfo) :
    components (level1Dir info) = [ascii "dumps", safeName info] := by
  have hjoin : level1Dir info = [slash].intercalate [ascii "dumps", safeName info] := by
    rw [(untruncated 0 info).level1, show ascii "dumps/" = ascii "dumps" ++ [slash] by decide]
    simp [List.intercalate]
  rw [hjoin]
  apply List.splitOn_intercalate slash
  · simp only [List.forall_mem_cons, List.not_mem_nil, false_implies, implies_true, and_true]
    exact ⟨by decide, slash_notMem_safeName info⟩
  · simp

theorem components_nestedDir (info : MappingInfo) :
    components (nestedDir info) = [ascii "dumps", safeName info, safeArgs info] := by
  have hjoin : nestedDir info =
      [slash].intercalate [ascii "dumps", safeName info, safeArgs info] := by
    rw [(untruncated 0 info).nested, show ascii "dumps/" = ascii "dumps" ++ [slash] by decide]
    simp [List.intercalate]
  rw [hjoin]
  apply List.splitOn_intercalate slash
  · simp only [List.forall_mem_cons, List.not_mem_nil, false_implies, implies_true, and_true]
    exact ⟨by decide, slash_notMem_safeName info, slash_notMem_safeArgs info⟩
  · simp

theorem components_dumpPath (counter : UInt64) (info : MappingInfo) :
    components (dumpPath counter info) =
      [ascii "dumps", safeName info, safeArgs info, dumpName counter info] :=
  dumpPath_components counter info

/-- A directory of one dump is not the file of another, which is deeper. -/
theorem components_dir_ne {info info' : MappingInfo} {dir : List UInt8} (hdir : dir ∈ dumpDirs info)
    (counter : UInt64) : components dir ≠ components (dumpPath counter info') := by
  rw [components_dumpPath]
  simp only [dumpDirs, List.mem_cons, List.not_mem_nil, or_false] at hdir
  rcases hdir with rfl | rfl | rfl
  · rw [components_dumps]
    simp
  · rw [components_level1Dir]
    simp
  · rw [components_nestedDir]
    simp

theorem makeDirs_dumpPath (o : DiskOutcome) (info : MappingInfo) (tree : Tree) (counter : UInt64)
    (info' : MappingInfo) : makeDirs o info tree (components (dumpPath counter info')) =
      tree (components (dumpPath counter info')) := by
  have hne : ∀ dir ∈ dumpDirs info, components (dumpPath counter info') ≠ components dir :=
    fun dir hdir => (components_dir_ne hdir counter).symm
  unfold makeDirs makeDir
  rw [mkdir_of_ne (hne _ (by simp [dumpDirs])), mkdir_of_ne (hne _ (by simp [dumpDirs])),
    mkdir_of_ne (hne _ (by simp [dumpDirs]))]

/-- **The three directories lead to the dump**, when no file is in the place of one. -/
theorem reaches_dumpPath (hworks : o.Works) {info : MappingInfo}
    (hdirs : ∀ dir ∈ dumpDirs info, ∀ content, tree (components dir) ≠ some (.file content))
    (counter : UInt64) : Reaches (makeDirs o info tree) (components (dumpPath counter info)) := by
  have hdumps := hdirs (ascii "dumps") (by simp [dumpDirs])
  have hlevel1 := hdirs (level1Dir info) (by simp [dumpDirs])
  have hnested := hdirs (nestedDir info) (by simp [dumpDirs])
  rw [components_dumps] at hdumps
  rw [components_level1Dir] at hlevel1
  rw [components_nestedDir] at hnested
  have hstart : Reaches tree [ascii "dumps"] := fun n hn hpos => by
    rw [List.length_singleton] at hn
    omega
  have hname := reaches_mkdir hstart hdumps (safeName info)
  have hargs := reaches_mkdir hname (fun content => mkdir_eq_file_iff.not.mpr (hlevel1 content))
    (safeArgs info)
  have hfile := reaches_mkdir hargs (fun content => mkdir_eq_file_iff.not.mpr
    (mkdir_eq_file_iff.not.mpr (hnested content))) (dumpName counter info)
  unfold makeDirs makeDir
  rw [hworks.mkdirOk, hworks.mkdirOk, hworks.mkdirOk, components_dumps, components_level1Dir,
    components_nestedDir, components_dumpPath]
  exact hfile

/-- Then the dump goes to its file as soon as `popen` succeeds. -/
theorem Clear.saves_iff (h : Clear tree infos) (hmem : c.info ∈ infos) (hworks : o.Works)
    (counter : UInt64) : Saves counter c o tree ↔ c.popenOk = true := by
  refine and_iff_left ⟨hworks.openOk, ?_, reaches_dumpPath hworks (h.dirs c.info hmem) counter⟩
  rw [makeDirs_dumpPath]
  exact h.files c.info hmem counter

/-- One call puts nothing in the way of another. -/
theorem Clear.saveOne (h : Clear tree infos) (counter : UInt64) (c : DumpCall) (o : DiskOutcome) :
    Clear (saveOne gzip counter c o tree) infos where
  dirs info hinfo dir hdir content := by
    have hne : components dir ≠ components (dumpPath counter c.info) :=
      components_dir_ne hdir counter
    rw [Ne, saveOne_eq_file_iff fun _ => hne]
    exact h.dirs info hinfo dir hdir content
  files info hinfo counter' := by
    have hdirs : makeDirs o c.info tree (components (dumpPath counter' info)) ≠ some .dir := by
      rw [makeDirs_dumpPath]
      exact h.files info hinfo counter'
    unfold DumpTree.saveOne
    split
    · by_cases hpath : components (dumpPath counter' info) = components (dumpPath counter c.info)
      · rw [hpath, write_self]
        exact nofun
      · rw [write_of_ne hpath]
        exact hdirs
    · exact hdirs

/-- **All dumps whose `popen` succeeds** go to files and can be read, when the directories, the
shell and `gzip` work, and nothing is in the way. -/
theorem saved_of_works {calls : List (DumpCall × DiskOutcome)} (hworks : ∀ x ∈ calls, x.2.Works)
    (hinfos : ∀ x ∈ calls, x.1.info ∈ infos) (h : Clear tree infos) :
    (saved gzip counter calls tree).map (fun x => (x.call, x.readable gunzip)) =
      (written (calls.map Prod.fst)).map fun c => (c, some c.data) := by
  induction calls generalizing counter tree with
  | nil => rfl
  | cons x calls ih =>
    obtain ⟨c, o⟩ := x
    obtain ⟨ho, hworks⟩ := List.forall_mem_cons.mp hworks
    obtain ⟨hc, hinfos⟩ := List.forall_mem_cons.mp hinfos
    rw [saved, List.map_append, ih hworks hinfos (h.saveOne counter c o), written, written,
      List.map_cons, List.filter_cons]
    by_cases hpopen : c.popenOk = true
    · rw [if_pos ((h.saves_iff hc ho counter).mpr hpopen), if_pos hpopen, List.map_singleton,
        SavedDump.readable_of_works ho]
      rfl
    · rw [if_neg (mt (h.saves_iff hc ho counter).mp hpopen), if_neg hpopen]
      rfl

end Clear

/-! ## The walk of the scanner -/

/-- `DUMPS_DIR`, where the server runs. -/
def dumpsDir : List UInt8 := ascii "test-app/tcp-server/"

/-- The ending of the names that the scanner looks for. -/
def dumpSuffix : List UInt8 := ascii ".dump.gz"

/-- The paths that a walk yields. -/
def paths (walk : List (List UInt8 × List (List UInt8))) : List (List UInt8) :=
  walk.flatMap fun folder => folder.2.map (MatchYara.joinPath folder.1)

/-- `os.walk` yields every file once, in the folder that has it. -/
structure Walks (tree : Tree) (walk : List (List UInt8 × List (List UInt8))) : Prop where
  name : ∀ folder ∈ walk, ∀ file ∈ folder.2, slash ∉ file
  nodup : (paths walk).Nodup
  mem : ∀ p, p ∈ paths walk ↔
    ∃ path content, p = dumpsDir ++ path ∧ tree (components path) = some (.file content)

/-- `gzip.open`, `read` and `rules.match` on the files of a tree. -/
def scanTree (gunzip : List UInt8 → Option (List UInt8)) (rules : List UInt8 → List String)
    (tree : Tree) (file : MatchYara.DumpFile) : MatchYara.Outcome :=
  ((read tree (components (file.path.drop dumpsDir.length))).bind gunzip).map rules

theorem suffix_append_iff {ending front last : List UInt8} (hslash : slash ∉ ending)
    (hfront : front = [] ∨ front.getLast? = some slash) :
    ending <:+ front ++ last ↔ ending <:+ last := by
  constructor
  · intro h
    rcases List.suffix_or_suffix_of_suffix h (List.suffix_append front last) with h' | ⟨u, rfl⟩
    · exact h'
    · -- a longer ending would have the slash in it
      obtain ⟨v, rfl⟩ := List.suffix_append_self_iff.mp h
      rcases hfront with hnil | hlast
      · rw [(List.append_eq_nil_iff.mp hnil).2]
        exact List.suffix_refl last
      · rcases List.eq_nil_or_concat u with rfl | ⟨u, c, rfl⟩
        · exact List.suffix_refl last
        · rw [List.concat_eq_append, ← List.append_assoc, List.getLast?_concat] at hlast
          refine absurd (List.mem_append_left last ?_) hslash
          rw [Option.some.inj hlast]
          simp
  · exact fun h => h.trans (List.suffix_append front last)

theorem exists_joinPath (root : List UInt8) {file : List UInt8} (h : slash ∉ file) :
    ∃ front, MatchYara.joinPath root file = front ++ file ∧
      (front = [] ∨ front.getLast? = some slash) := by
  have hrelative : file.head? ≠ some slash := fun hhead => h (List.mem_of_mem_head? hhead)
  rw [MatchYara.joinPath, if_neg hrelative]
  split
  · rename_i hroot
    exact ⟨root, rfl, hroot⟩
  · exact ⟨root ++ [slash], rfl, Or.inr (by simp)⟩

theorem map_path_gatherFile {root : List UInt8} {files : List (List UInt8)}
    (hname : ∀ file ∈ files, slash ∉ file) (s : List MatchYara.DumpFile × Finset (List UInt8)) :
    (files.foldl (MatchYara.gatherFile root) s).1.map MatchYara.DumpFile.path =
      s.1.map MatchYara.DumpFile.path ++
        (files.map (MatchYara.joinPath root)).filter fun p => dumpSuffix <:+ p := by
  induction files generalizing s with
  | nil => simp
  | cons file files ih =>
    obtain ⟨hslash, hname⟩ := List.forall_mem_cons.mp hname
    obtain ⟨front, hjoin, hfront⟩ := exists_joinPath root hslash
    have hends : dumpSuffix <:+ MatchYara.joinPath root file ↔ dumpSuffix <:+ file := by
      rw [hjoin]
      exact suffix_append_iff (by decide) hfront
    rw [List.foldl_cons, ih hname, List.map_cons, List.filter_cons, MatchYara.gatherFile]
    by_cases hsuffix : dumpSuffix <:+ file
    · rw [if_pos (show ascii ".dump.gz" <:+ file from hsuffix),
        if_pos (decide_eq_true (hends.mpr hsuffix))]
      simp
    · rw [if_neg (show ¬ ascii ".dump.gz" <:+ file from hsuffix),
        if_neg (by simpa using mt hends.mp hsuffix)]

/-- **The dumps that a walk finds**, by their paths. -/
theorem map_path_gather {walk : List (List UInt8 × List (List UInt8))}
    (hname : ∀ folder ∈ walk, ∀ file ∈ folder.2, slash ∉ file) :
    (MatchYara.gather walk).1.map MatchYara.DumpFile.path =
      (paths walk).filter fun p => dumpSuffix <:+ p := by
  have hfolders : ∀ s : List MatchYara.DumpFile × Finset (List UInt8),
      (walk.foldl (fun s folder => folder.2.foldl (MatchYara.gatherFile folder.1) s) s).1.map
          MatchYara.DumpFile.path =
        s.1.map MatchYara.DumpFile.path ++ (paths walk).filter fun p => dumpSuffix <:+ p := by
    induction walk with
    | nil => simp [paths]
    | cons folder walk ih =>
      intro s
      obtain ⟨hfiles, hname⟩ := List.forall_mem_cons.mp hname
      have hpaths : paths (folder :: walk) =
          folder.2.map (MatchYara.joinPath folder.1) ++ paths walk := List.flatMap_cons ..
      rw [List.foldl_cons, ih hname, map_path_gatherFile hfiles, hpaths, List.filter_append,
        List.append_assoc]
  exact hfolders ([], ∅)

/-! ## The report -/

/-- Where the scanner has a dump. -/
def dumpedAt (x : SavedDump) : List UInt8 := dumpsDir ++ x.path

theorem dumpSuffix_path (x : SavedDump) : dumpSuffix <:+ x.path := by
  rw [SavedDump.path, dumpPath_eq, dumpName]
  exact (List.suffix_append _ _).trans (List.suffix_append _ _)

/-- The rules that match something readable. -/
def matchesOf (rules : List UInt8 → List String) (content : Option (List UInt8)) : List String :=
  (content.map rules).getD []

/-- **A report counts some contents**, which may be unreadable: their number is the total, each rule
has the number of those that it matches, and there is no report without any. -/
def CountsContents (rules : List UInt8 → List String) (contents : List (Option (List UInt8))) :
    Option MatchYara.Report → Prop
  | none => contents = []
  | some r => contents ≠ [] ∧ r.totalDumps = contents.length ∧
      (∀ row ∈ r.rows, row.matchedDumpsCount =
        (contents.filter fun content => row.ruleName ∈ matchesOf rules content).length) ∧
      ∀ rule, (∃ row ∈ r.rows, row.ruleName = rule) ↔
        ∃ content ∈ contents, rule ∈ matchesOf rules content

section Report

variable {gzip : List UInt8 → List UInt8} {gunzip : List UInt8 → Option (List UInt8)}
  {before after : Tree} {dumps : List SavedDump}

theorem HoldsDumps.nodup_dumpedAt (h : HoldsDumps gzip dumps before after) :
    (dumps.map dumpedAt).Nodup := by
  refine List.pairwise_map.mpr ((List.pairwise_map.mp h.distinct).imp fun {x y} hne hpath => ?_)
  exact hne (List.append_cancel_left hpath)

/-- **The walk finds the dumps**, and no other file. -/
theorem found_perm (h : HoldsDumps gzip dumps before after)
    (hbefore : ∀ path content, before (components path) = some (.file content) →
      ¬ dumpSuffix <:+ path)
    {walk : List (List UInt8 × List (List UInt8))} (hwalk : Walks after walk) :
    ((MatchYara.gather walk).1.map MatchYara.DumpFile.path).Perm (dumps.map dumpedAt) := by
  rw [map_path_gather hwalk.name]
  refine (List.perm_ext_iff_of_nodup (hwalk.nodup.filter _) h.nodup_dumpedAt).mpr fun p => ?_
  rw [List.mem_filter, hwalk.mem, decide_eq_true_iff, List.mem_map]
  constructor
  · rintro ⟨⟨path, content, rfl, hpath⟩, hsuffix⟩
    have hends : dumpSuffix <:+ path :=
      (suffix_append_iff (by decide) (Or.inr (by decide))).mp hsuffix
    by_contra hnone
    refine hbefore path content ?_ hends
    rw [← h.others (components path) fun x hx heq => ?_]
    · exact hpath
    · exact hnone ⟨x, hx, by rw [dumpedAt, components_injective heq]⟩
  · rintro ⟨x, hx, rfl⟩
    exact ⟨⟨x.path, _, rfl, h.content x hx⟩, (dumpSuffix_path x).trans (List.suffix_append _ _)⟩

theorem scanTree_dumpedAt (hgunzip : ∀ data, gunzip (gzip data) = some data)
    (rules : List UInt8 → List String) (h : HoldsDumps gzip dumps before after) {x : SavedDump}
    (hx : x ∈ dumps) {file : MatchYara.DumpFile} (hpath : file.path = dumpedAt x) :
    scanTree gunzip rules after file = (x.readable gunzip).map rules := by
  have hread : read after (components x.path) = some (x.content gzip) :=
    read_eq_some_iff.mpr (h.content x hx)
  rw [scanTree, hpath, dumpedAt, List.drop_left, hread, Option.bind_some,
    SavedDump.gunzip_content hgunzip]

theorem dumps_eq_toFinset (hgunzip : ∀ data, gunzip (gzip data) = some data)
    (rules : List UInt8 → List String) (h : HoldsDumps gzip dumps before after)
    {files : List MatchYara.DumpFile}
    (hperm : (files.map MatchYara.DumpFile.path).Perm (dumps.map dumpedAt)) (rule : String) :
    MatchYara.Entry.dumps (GroupBy.valueAt (MatchYara.scanAll
        (files.map fun file => (file, scanTree gunzip rules after file))) rule) =
      ((dumps.filter fun x => rule ∈ matchesOf rules (x.readable gunzip)).map
        dumpedAt).toFinset := by
  have hreturned : ∀ {x : SavedDump}, x ∈ dumps → ∀ {file : MatchYara.DumpFile},
      file.path = dumpedAt x →
        (MatchYara.Returned (file, scanTree gunzip rules after file) rule ↔
          rule ∈ matchesOf rules (x.readable gunzip)) := by
    intro x hx file hpath
    rw [MatchYara.Returned, scanTree_dumpedAt hgunzip rules h hx hpath, matchesOf]
    cases x.readable gunzip with
    | none => simp
    | some data => simp
  ext p
  rw [MatchYara.mem_dumps, List.mem_toFinset, List.mem_map]
  constructor
  · rintro ⟨found, hfound, hscan, rfl⟩
    obtain ⟨file, hfile, rfl⟩ := List.mem_map.mp hfound
    obtain ⟨x, hx, hpath⟩ := List.mem_map.mp
      (hperm.mem_iff.mp (List.mem_map.mpr ⟨file, hfile, rfl⟩))
    exact ⟨x, List.mem_filter.mpr ⟨hx, decide_eq_true ((hreturned hx hpath.symm).mp hscan)⟩, hpath⟩
  · rintro ⟨x, hx, rfl⟩
    obtain ⟨hx, hrule⟩ := List.mem_filter.mp hx
    obtain ⟨file, hfile, hpath⟩ := List.mem_map.mp
      (hperm.mem_iff.mpr (List.mem_map.mpr ⟨x, hx, rfl⟩))
    exact ⟨_, List.mem_map.mpr ⟨file, hfile, rfl⟩,
      (hreturned hx hpath).mpr (of_decide_eq_true hrule), hpath⟩

theorem card_dumps_eq (hgunzip : ∀ data, gunzip (gzip data) = some data)
    (rules : List UInt8 → List String) (h : HoldsDumps gzip dumps before after)
    {files : List MatchYara.DumpFile}
    (hperm : (files.map MatchYara.DumpFile.path).Perm (dumps.map dumpedAt)) (rule : String) :
    (MatchYara.Entry.dumps (GroupBy.valueAt (MatchYara.scanAll
        (files.map fun file => (file, scanTree gunzip rules after file))) rule)).card =
      ((dumps.map (SavedDump.readable gunzip)).filter fun content =>
        rule ∈ matchesOf rules content).length := by
  have hdistinct : ((dumps.filter fun x => rule ∈ matchesOf rules (x.readable gunzip)).map
      dumpedAt).Nodup := h.nodup_dumpedAt.sublist (List.filter_sublist.map dumpedAt)
  rw [dumps_eq_toFinset hgunzip rules h hperm, List.toFinset_card_of_nodup hdistinct,
    List.length_map, List.filter_map, List.length_map]
  rfl

/-- The report of dumps whose numbers are those of some contents. -/
theorem countsContents_report {rules : List UInt8 → List String}
    {contents : List (Option (List UInt8))}
    {found : List (MatchYara.DumpFile × MatchYara.Outcome)}
    (hlength : found.length = contents.length)
    (hcard : ∀ rule, (MatchYara.Entry.dumps (GroupBy.valueAt (MatchYara.scanAll found) rule)).card =
      (contents.filter fun content => rule ∈ matchesOf rules content).length)
    (failedRules : List (String × String)) (allPids : Finset (List UInt8)) :
    CountsContents rules contents (MatchYara.report failedRules allPids found) := by
  have hmem : ∀ rule, rule ∈ MatchYara.scanAll found ↔
      ∃ content ∈ contents, rule ∈ matchesOf rules content := by
    intro rule
    constructor
    · intro hrule
      have hpos := MatchYara.card_dumps_pos hrule
      rw [hcard] at hpos
      obtain ⟨content, hcontent⟩ := List.exists_mem_of_length_pos hpos
      obtain ⟨hmem, hmatch⟩ := List.mem_filter.mp hcontent
      exact ⟨content, hmem, of_decide_eq_true hmatch⟩
    · rintro ⟨content, hmem, hmatch⟩
      have hpos : 0 < (contents.filter fun content => rule ∈ matchesOf rules content).length :=
        List.length_pos_of_mem (List.mem_filter.mpr ⟨hmem, decide_eq_true hmatch⟩)
      rw [← hcard] at hpos
      obtain ⟨p, hp⟩ := Finset.card_pos.mp hpos
      obtain ⟨file, hfile, hreturned, -⟩ := MatchYara.mem_dumps.mp hp
      exact MatchYara.mem_scanAll.mpr ⟨file, hfile, hreturned⟩
  have hkey : ∀ rule, rule ∈ (MatchYara.scanAll found).keys.sort (· ≤ ·) ↔
      rule ∈ MatchYara.scanAll found := fun rule => by rw [Finset.mem_sort, Finmap.mem_keys]
  unfold MatchYara.report
  split
  · rename_i hnone
    exact List.length_eq_zero_iff.mp (hlength ▸ hnone)
  · rename_i hsome
    refine ⟨fun hnil => hsome (by rw [hlength, hnil]; rfl), hlength, fun row hrow => ?_,
      fun rule => ?_⟩
    · obtain ⟨rule, -, rfl⟩ := List.mem_map.mp hrow
      exact hcard rule
    · rw [← hmem, ← hkey]
      constructor
      · rintro ⟨row, hrow, rfl⟩
        obtain ⟨rule, hrule, rfl⟩ := List.mem_map.mp hrow
        exact hrule
      · intro hrule
        exact ⟨_, List.mem_map.mpr ⟨rule, hrule, rfl⟩, rfl⟩

/-- **From the files to the report.** -/
theorem HoldsDumps.countsContents (h : HoldsDumps gzip dumps before after)
    (hgunzip : ∀ data, gunzip (gzip data) = some data) (rules : List UInt8 → List String)
    (failedRules : List (String × String))
    (hbefore : ∀ path content, before (components path) = some (.file content) →
      ¬ dumpSuffix <:+ path)
    {walk : List (List UInt8 × List (List UInt8))} (hwalk : Walks after walk) :
    CountsContents rules (dumps.map (SavedDump.readable gunzip))
      (MatchYara.main failedRules walk (scanTree gunzip rules after)) := by
  have hperm := found_perm h hbefore hwalk
  refine countsContents_report ?_ (fun rule => ?_) failedRules _
  · have hfound := hperm.length_eq
    rw [List.length_map, List.length_map] at hfound
    rw [List.length_map, List.length_map, hfound]
  · exact card_dumps_eq hgunzip rules h hperm rule

end Report

/-- **The report counts the dumps.**  The server makes any dumps whose names are plain, with any
outcomes of the calls behind them, in a directory without older dumps.  Then each dump whose file
the shell can open has a file of its own, with what `gzip` left, and all other files are as they
were; the scanner may walk over them in any order, and its report counts what it can read of these
dumps.  They are the dumps whose `popen` succeeds, whole, as long as directories, the shell and
`gzip` work and no file or directory is in the way. -/
theorem report_counts_dumps (gzip : List UInt8 → List UInt8)
    (gunzip : List UInt8 → Option (List UInt8)) (hgunzip : ∀ data, gunzip (gzip data) = some data)
    (rules : List UInt8 → List String) (failedRules : List (String × String))
    {calls : List (DumpCall × DiskOutcome)} (hplain : ∀ x ∈ calls, x.1.info.Plain)
    (hfew : calls.length < 2 ^ 64) (before : Tree)
    (hbefore : ∀ path content, before (components path) = some (.file content) →
      ¬ dumpSuffix <:+ path) :
    ∃ after, saveAll gzip 0 calls before = some after ∧
      HoldsDumps gzip (saved gzip 0 calls before) before after ∧
      (∀ walk, Walks after walk →
        CountsContents rules ((saved gzip 0 calls before).map (SavedDump.readable gunzip))
          (MatchYara.main failedRules walk (scanTree gunzip rules after))) ∧
      ((∀ x ∈ calls, x.2.Works) → Clear before (calls.map fun x => x.1.info) →
        (saved gzip 0 calls before).map (fun x => (x.call, x.readable gunzip)) =
          (written (calls.map Prod.fst)).map fun c => (c, some c.data)) := by
  have hnodup : ((trace dumpNext 0 (calls.map Prod.fst)).map Prod.fst).Nodup :=
    counters_nodup (by rw [List.length_map]; exact hfew)
  obtain ⟨after, hafter, hholds⟩ := saveAll_spec gzip hplain hnodup before
  refine ⟨after, hafter, hholds, fun walk hwalk => ?_, fun hworks hclear => ?_⟩
  · exact hholds.countsContents hgunzip rules failedRules hbefore hwalk
  · exact saved_of_works hworks (fun x hx => List.mem_map.mpr ⟨x, hx, rfl⟩) hclear

/-- A process named `sh`. -/
def plainInfo : MappingInfo where
  name := ⟨[0x73, 0x68, 0, 0, 0, 0, 0, 0, 0, 0, 0, 0, 0, 0, 0, 0], rfl⟩
  args := zeroChars maxArgLen
  anonName := zeroChars maxAnonName
  initAddr := 4096
  mappedAddr := 0
  mappingLen := 1
  len := 0
  prot := 7
  isEndOfMapping := 1

/-- A dump that is written, one whose `popen` fails, one whose file cannot be opened, and one that
`gzip` leaves empty. -/
def sampleDumps : List (DumpCall × DiskOutcome) :=
  [(⟨plainInfo, [1], true⟩, .ok), (⟨plainInfo, [2], false⟩, .ok),
    (⟨plainInfo, [3], true⟩, { DiskOutcome.ok with openOk := false }),
    (⟨plainInfo, [4], true⟩, { DiskOutcome.ok with leftover := some [] })]

/-- A process with a plain name, without an argument, and an unnamed mapping of it. -/
theorem plain_of_name {info : MappingInfo} (hquote : quote ∉ fieldString info.name.toList)
    (hdots : ¬ IsDots info.name.toList) (hargs : info.args = zeroChars maxArgLen)
    (hanon : info.anonName = zeroChars maxAnonName) : info.Plain := by
  refine ⟨hquote, ?_, ?_, hdots, ?_⟩
  · rw [hargs]
    decide +kernel
  · rw [hanon]
    decide +kernel
  · rw [hargs]
    unfold IsDots
    decide +kernel

theorem plainInfo_plain : plainInfo.Plain :=
  plain_of_name (by decide) (by unfold IsDots; decide) rfl rfl

theorem sampleDumps_plain : ∀ x ∈ sampleDumps, x.1.info.Plain := by
  simp only [sampleDumps, List.forall_mem_cons]
  exact ⟨plainInfo_plain, plainInfo_plain, plainInfo_plain, plainInfo_plain,
    fun c hc => absurd hc List.not_mem_nil⟩

theorem readable_sampleDumps :
    (saved id 0 sampleDumps fun _ => none).map (SavedDump.readable some) = [some [1], some []] := by
  decide +kernel

/-- The report on them, below an empty directory. -/
theorem report_counts_dumps_of_sample :
    ∃ after, saveAll id 0 sampleDumps (fun _ => none) = some after ∧
      HoldsDumps id (saved id 0 sampleDumps fun _ => none) (fun _ => none) after ∧
      ∀ walk, Walks after walk →
        CountsContents (fun _ => ["any"]) [some [1], some []]
          (MatchYara.main [] walk (scanTree some (fun _ => ["any"]) after)) := by
  obtain ⟨after, hafter, hholds, hreport, -⟩ :=
    report_counts_dumps id some (fun _ => rfl) (fun _ => ["any"]) [] sampleDumps_plain (by decide)
      (fun _ => none) (fun _ _ => nofun)
  rw [readable_sampleDumps] at hreport
  exact ⟨after, hafter, hholds, hreport⟩

end DumpTree
end LsmFork
