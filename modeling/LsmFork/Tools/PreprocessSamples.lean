import LsmFork.Lib.FirstFree
import LsmFork.Lib.Printf
import LsmFork.Lib.Runs
import Mathlib.Data.Finmap

/-!
# The samples of `preprocess_samples.py`

`process_files` walks over a folder, wraps every `.js` file into a function that the engine compiles
at once, and writes it to `test-app/malware_dataset`, where a name that is taken gets a number.  The
output directory is a finite map from file names to contents here, and the walk is a list of files:
names may repeat, and may look like the numbered names of other samples.

* `splitext`, `numbered`, `outputName`: the name of a sample.
* `processFile`, `processFiles`: one file of the walk, and the whole walk.
* `outputName_notMem`, `outputName_tried`: the name is free, and it is found.
* `lookup_processFile`: one file leaves the others alone.
* `processFiles_keepsSamples`: nothing is lost or overwritten in a run.
-/

namespace LsmFork
namespace Preprocess

open CString Runs

/-! ## The script -/

/-- A file name, as the bytes that the system has for it; there is no `/` in it. -/
abbrev FileName := List UInt8

/-- The output directory: the contents of its files by name. -/
abbrev Dir := Finmap fun _ : FileName => List Char

/-- A file that `os.walk` finds, with its text as it is read: bytes that are not UTF-8 are left
out. -/
structure Found where
  file : FileName
  originalCode : List Char

/-- `wrapper_start`. -/
def wrapperStart : List Char :=
  ("setJitCompilerOption(\"baseline.warmup.trigger\", 0);\n" ++
    "setJitCompilerOption(\"ion.warmup.trigger\", 0);\n" ++
    "function target()\x7b\n").toList

/-- `wrapper_end`. -/
def wrapperEnd : List Char := "\n\x7d\ntarget()".toList

/-- `new_content`. -/
def newContent (originalCode : List Char) : List Char := wrapperStart ++ originalCode ++ wrapperEnd

/-- `.`. -/
def dot : UInt8 := 0x2e

/-- `os.path.splitext` of a name without `/`: the extension starts at the last dot, unless there
are only dots before it. -/
def splitext (p : FileName) : FileName × FileName :=
  let afterDot := (p.reverse.takeWhile (· ≠ dot)).reverse
  let root := p.take (p.length - afterDot.length - 1)
  if dot ∈ p ∧ ∃ c ∈ root, c ≠ dot then (root, dot :: afterDot) else (p, [])

example : splitext (ascii ".js") = (ascii ".js", []) := by decide

/-- The names `<base_name>_<counter><ext>`. -/
def numbered (baseName ext : FileName) : Numbering FileName where
  name counter := baseName ++ ascii "_" ++ digits 10 counter ++ ext
  injective _ _ h :=
    digits_ten_injective (List.append_cancel_left (List.append_cancel_right h))

/-- The name under which a sample is written: its own, or the first free one of the numbered names,
from 1 on. -/
def outputName (outputDir : Dir) (file : FileName) : FileName :=
  (numbered (splitext file).1 (splitext file).2).firstFree outputDir.keys file 1

/-- `file.endswith(".js")`. -/
def IsSample (f : Found) : Prop := ascii ".js" <:+ f.file

instance (f : Found) : Decidable (IsSample f) := inferInstanceAs (Decidable (_ <:+ _))

/-- One file of the walk; the state is the output directory and `processed_count`. -/
def processFile (s : Dir × ℕ) (f : Found) : Dir × ℕ :=
  if IsSample f then
    (s.1.insert (outputName s.1 f.file) (newContent f.originalCode), s.2 + 1)
  else s

/-- `process_files`: the output directory and `processed_count` at the end. -/
def processFiles (outputDir : Dir) (walk : List Found) : Dir × ℕ :=
  walk.foldl processFile (outputDir, 0)

/-! ## One file -/

/-- **The name of a sample is free**, whatever is in the directory. -/
theorem outputName_notMem (outputDir : Dir) (file : FileName) :
    outputName outputDir file ∉ outputDir := fun h =>
  Numbering.firstFree_notMem _ _ _ _ (Finmap.mem_keys.mpr h)

/-- The names that are tried for a file, in their order. -/
def triedNames (file : FileName) : ℕ → FileName :=
  (numbered (splitext file).1 (splitext file).2).tried file 1

/-- **The renaming loop ends**, after at most one turn more than there are files: it takes the first
of the names that it tries which is free. -/
theorem outputName_tried (outputDir : Dir) (file : FileName) :
    ∃ k ≤ outputDir.keys.card + 1, outputName outputDir file = triedNames file k ∧
      ∀ i < k, triedNames file i ∈ outputDir := by
  obtain ⟨k, hk, heq, hused⟩ := Numbering.firstFree_tried
    (numbered (splitext file).1 (splitext file).2) outputDir.keys file 1
  exact ⟨k, hk, heq, fun i hi => Finmap.mem_keys.mp (hused i hi)⟩

theorem keys_insert_card {outputDir : Dir} {name : FileName} (h : name ∉ outputDir)
    (content : List Char) :
    (outputDir.insert name content).keys.card = outputDir.keys.card + 1 := by
  have hkeys : (outputDir.insert name content).keys = insert name outputDir.keys := by
    ext other
    rw [Finmap.mem_keys, Finmap.mem_insert, Finset.mem_insert, Finmap.mem_keys]
  rw [hkeys, Finset.card_insert_of_notMem fun hmem => h (Finmap.mem_keys.mp hmem)]

section File

variable (s : Dir × ℕ) (f : Found)

/-- One file of the walk leaves all files of the directory as they are. -/
theorem lookup_processFile {name : FileName} (h : name ∈ s.1) :
    (processFile s f).1.lookup name = s.1.lookup name := by
  unfold processFile
  split
  · exact Finmap.lookup_insert_of_ne _ fun heq => outputName_notMem s.1 f.file (heq ▸ h)
  · rfl

theorem mem_processFile {name : FileName} (h : name ∈ s.1) : name ∈ (processFile s f).1 := by
  rw [← Finmap.lookup_isSome, lookup_processFile s f h, Finmap.lookup_isSome]
  exact h

theorem lookup_outputName (hf : IsSample f) :
    (processFile s f).1.lookup (outputName s.1 f.file) = some (newContent f.originalCode) := by
  unfold processFile
  rw [if_pos hf]
  exact Finmap.lookup_insert _

theorem card_processFile :
    (processFile s f).1.keys.card + s.2 = s.1.keys.card + (processFile s f).2 := by
  unfold processFile
  split
  · rw [keys_insert_card (outputName_notMem s.1 f.file)]
    omega
  · rfl

end File

/-! ## The walk -/

variable (s : Dir × ℕ) (walk : List Found)

/-- **All files stay as they are** along a walk. -/
theorem lookup_walk {name : FileName} (h : name ∈ s.1) :
    (walk.foldl processFile s).1.lookup name = s.1.lookup name := by
  induction walk generalizing s with
  | nil => rfl
  | cons f walk ih =>
    rw [List.foldl_cons, ih (processFile s f) (mem_processFile s f h), lookup_processFile s f h]

theorem card_walk : (walk.foldl processFile s).1.keys.card + s.2 =
    s.1.keys.card + (walk.foldl processFile s).2 := by
  induction walk generalizing s with
  | nil => rfl
  | cons f walk ih =>
    have hone := card_processFile s f
    have hrest := ih (processFile s f)
    rw [List.foldl_cons]
    omega

/-- What a sample has been written to still holds it at the end of the walk. -/
theorem lookup_sample {x : (Dir × ℕ) × Found} (hx : x ∈ trace processFile s walk)
    (hf : IsSample x.2) : (walk.foldl processFile s).1.lookup (outputName x.1.1 x.2.file) =
      some (newContent x.2.originalCode) := by
  induction walk generalizing s with
  | nil => exact absurd hx List.not_mem_nil
  | cons f walk ih =>
    rcases List.mem_cons.mp hx with rfl | hx
    · have hwritten := lookup_outputName s f hf
      rw [List.foldl_cons, lookup_walk, hwritten]
      exact Finmap.mem_iff.mpr ⟨_, hwritten⟩
    · exact ih (processFile s f) hx

theorem processedCount_eq :
    (walk.foldl processFile s).2 = s.2 + walk.countP fun f => decide (IsSample f) := by
  induction walk generalizing s with
  | nil => rfl
  | cons f walk ih =>
    rw [List.foldl_cons, ih, List.countP_cons]
    unfold processFile
    by_cases hf : IsSample f
    · simp only [hf, if_true, decide_true]
      omega
    · simp [hf]

/-- **No sample is lost or overwritten.**  For every output directory and every walk: the renaming
loop ends for each sample, at a name that is not in use; what is in the directory at any point of
the walk is there unchanged at the end; the code of each sample is there at the end, in its wrapper;
and there are `processed_count` files more than before, one for each sample. -/
structure KeepsSamples (outputDir : Dir) (walk : List Found) : Prop where
  terminates : ∀ x ∈ trace processFile (outputDir, 0) walk, IsSample x.2 →
    ∃ k ≤ x.1.1.keys.card + 1, outputName x.1.1 x.2.file = triedNames x.2.file k ∧
      ∀ i < k, triedNames x.2.file i ∈ x.1.1
  fresh : ∀ x ∈ trace processFile (outputDir, 0) walk, IsSample x.2 →
    outputName x.1.1 x.2.file ∉ x.1.1
  unchanged : ∀ before after, walk = before ++ after →
    ∀ name ∈ (processFiles outputDir before).1,
      (processFiles outputDir walk).1.lookup name =
        (processFiles outputDir before).1.lookup name
  written : ∀ x ∈ trace processFile (outputDir, 0) walk, IsSample x.2 →
    (processFiles outputDir walk).1.lookup (outputName x.1.1 x.2.file) =
      some (wrapperStart ++ x.2.originalCode ++ wrapperEnd)
  grows : (processFiles outputDir walk).1.keys.card =
    outputDir.keys.card + (processFiles outputDir walk).2
  counts : (processFiles outputDir walk).2 = walk.countP fun f => decide (IsSample f)

/-- **`process_files`** keeps all samples and all files. -/
theorem processFiles_keepsSamples (outputDir : Dir) (walk : List Found) :
    KeepsSamples outputDir walk where
  terminates x _ _ := outputName_tried x.1.1 x.2.file
  fresh x _ _ := outputName_notMem x.1.1 x.2.file
  unchanged before after hwalk name hname := by
    rw [processFiles, hwalk, List.foldl_append]
    exact lookup_walk _ after hname
  written x hx hf := lookup_sample _ walk hx hf
  grows := card_walk (outputDir, 0) walk
  counts := (processedCount_eq (outputDir, 0) walk).trans (Nat.zero_add _)

end Preprocess
end LsmFork
