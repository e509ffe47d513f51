import Mathlib.Logic.Function.Basic
import Mathlib.Data.List.Basic

/-!
# Directories and files

A file tree says what stands at each path: nothing, a directory, or a file with a content.  A path
is the list of its components, and the empty one is the directory that paths start from.  `mkdir`
makes a directory where nothing stands, and a file can be written where no directory stands; both
need all the directories that lead there, and both may be refused for other reasons.

* `Reaches`: the directories that lead to a path are there.
* `mkdir`, `write`: the two operations; `mkdir_eq_file_iff`: no file comes or goes with `mkdir`.
* `reaches_mkdir`: a directory that is there, or can be made, leads one component further.
* `read`: the content of a file.
-/

namespace LsmFork
namespace FileTree

variable {ν : Type*}

/-- What stands at a path. -/
inductive Node where
  | dir
  | file (content : List UInt8)
  deriving DecidableEq

/-- What stands at each path, if anything. -/
abbrev Tree (ν : Type*) := List ν → Option Node

/-- The directories that lead to the path are there. -/
def Reaches (tree : Tree ν) (path : List ν) : Prop :=
  ∀ n < path.length, 0 < n → tree (path.take n) = some .dir

instance (tree : Tree ν) (path : List ν) : Decidable (Reaches tree path) :=
  inferInstanceAs (Decidable (∀ n < _, _))

/-- A file can be written at the path. -/
def CanWrite (tree : Tree ν) (path : List ν) : Prop := tree path ≠ some .dir ∧ Reaches tree path

instance (tree : Tree ν) (path : List ν) : Decidable (CanWrite tree path) :=
  inferInstanceAs (Decidable (_ ∧ _))

/-- The content of the file at a path. -/
def read (tree : Tree ν) (path : List ν) : Option (List UInt8) :=
  match tree path with
  | some (.file content) => some content
  | _ => none

theorem read_eq_some_iff {tree : Tree ν} {path : List ν} {content : List UInt8} :
    read tree path = some content ↔ tree path = some (.file content) := by
  unfold read
  split
  · rename_i other hfile
    rw [hfile, Option.some.injEq, Option.some.injEq, Node.file.injEq]
  · rename_i hnot
    exact iff_of_false nofun (hnot content)

variable [DecidableEq ν] {tree : Tree ν} {path dir : List ν}

/-- Make a directory, unless that is refused. -/
def mkdir (allowed : Bool) (path : List ν) (tree : Tree ν) : Tree ν :=
  if allowed = true ∧ tree path = none ∧ Reaches tree path then
    Function.update tree path (some .dir)
  else tree

/-- A file with a content, in the place of what it held before. -/
def write (path : List ν) (content : List UInt8) (tree : Tree ν) : Tree ν :=
  Function.update tree path (some (.file content))

theorem mkdir_of_ne {allowed : Bool} (h : path ≠ dir) :
    mkdir allowed dir tree path = tree path := by
  unfold mkdir
  split
  · exact Function.update_of_ne h _ _
  · rfl

/-- **No file comes or goes** when a directory is made. -/
theorem mkdir_eq_file_iff {allowed : Bool} {content : List UInt8} :
    mkdir allowed dir tree path = some (.file content) ↔ tree path = some (.file content) := by
  unfold mkdir
  split
  · rename_i hmade
    by_cases h : path = dir
    · rw [h, Function.update_self, hmade.2.1]
      exact iff_of_false nofun nofun
    · rw [Function.update_of_ne h]
  · exact Iff.rfl

theorem mkdir_eq_dir_of {allowed : Bool} (h : tree path = some .dir) :
    mkdir allowed dir tree path = some .dir := by
  unfold mkdir
  split
  · by_cases hpath : path = dir
    · rw [hpath, Function.update_self]
    · rw [Function.update_of_ne hpath, h]
  · exact h

/-- A directory that can be made is there afterwards, or was there before. -/
theorem mkdir_self (hreaches : Reaches tree dir)
    (hfile : ∀ content, tree dir ≠ some (.file content)) : mkdir true dir tree dir = some .dir := by
  unfold mkdir
  cases h : tree dir with
  | none => rw [if_pos ⟨rfl, rfl, hreaches⟩, Function.update_self]
  | some node =>
    rw [if_neg fun hmade => by cases hmade.2.1]
    cases node with
    | dir => exact h
    | file content => exact absurd h (hfile content)

theorem reaches_mkdir (hreaches : Reaches tree dir)
    (hfile : ∀ content, tree dir ≠ some (.file content)) (name : ν) :
    Reaches (mkdir true dir tree) (dir ++ [name]) := by
  intro n hn hpos
  rw [List.length_append, List.length_singleton] at hn
  rw [List.take_append_of_le_length (Nat.le_of_lt_succ hn)]
  rcases Nat.lt_or_eq_of_le (Nat.le_of_lt_succ hn) with hlt | rfl
  · exact mkdir_eq_dir_of (hreaches n hlt hpos)
  · rw [List.take_length]
    exact mkdir_self hreaches hfile

theorem write_self (content : List UInt8) : write path content tree path = some (.file content) :=
  Function.update_self ..

theorem write_of_ne {other : List ν} (h : other ≠ path) (content : List UInt8) :
    write path content tree other = tree other := Function.update_of_ne h _ _

end FileTree
end LsmFork
