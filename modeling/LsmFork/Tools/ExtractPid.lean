import LsmFork.Lib.MarkerSearch
import LsmFork.Server.DumpPath

/-!
# The label of a dump

`match_yara.py` takes the label of a dump out of its file name: what stands between `_pid_` and the
next underscore.  The names that the server writes have no such marker of their own.  A marker comes
from the name of the process or of the mapping, and then the label is free text; only when the name
of the process is `pid`, or ends in `_pid`, does the underscore that the format writes close the
marker, and the label is the address of the mapping, in hexadecimal.

* `pidMatch`, `extractPid`: the regular expression, and the function.
* `ReadsLabel`: a label is found, and not in the free text.
* `dumpName_eq_intercalate`: the fields of a name.
* `readsLabel_iff`: the names for which it is so.

The regular expression has no other characters than ASCII ones in it, and no byte of a longer
character of UTF-8 is one, so that it matches the bytes of a name as it matches its characters.
-/

namespace LsmFork

open CString Marker

/-- `pid`. -/
def pidKey : List UInt8 := ascii "pid"

/-- The label of a name without one. -/
def unknownPid : List UInt8 := ascii "UNKNOWN"

/-- `re.search(r'_pid_([^_]+)_', filename)`: where the group starts, and the group. -/
def pidMatch (filename : List UInt8) : Option (ℕ × List UInt8) :=
  search underscore pidKey filename 0

/-- `extract_pid`. -/
def extractPid (filename : List UInt8) : List UInt8 :=
  match pidMatch filename with
  | some found => found.2
  | none => unknownPid

example : extractPid (ascii "x_pid__pid_12_y") = ascii "12" := by decide

/-! ## The free text of a name -/

section Name

variable (counter : UInt64) (info : MappingInfo)

/-- Where the process name starts in the name of a dump. -/
def nameStart : ℕ := (numeral 10 counter).length + 1 + (numeral 16 info.mappingLen).length + 1

/-- Where the mapping name starts. -/
def anonStart : ℕ := nameStart counter info + (safeName info).length + 1 +
  (numeral 16 info.initAddr).length + 1 + (protToLetters info.prot).length + 1

/-- A group of `n` characters from `k` on has a character in common with the text of `len`
characters from `start` on. -/
def Overlaps (k n start len : ℕ) : Prop := k < start + len ∧ start < k + n

/-- **A label is read** from the name of a dump, and not out of the process name or the mapping
name. -/
structure ReadsLabel : Prop where
  found : extractPid (dumpName counter info) ≠ unknownPid
  notFree : ∀ k group, pidMatch (dumpName counter info) = some (k, group) →
    ¬ Overlaps k group.length (nameStart counter info) (safeName info).length ∧
      ¬ Overlaps k group.length (anonStart counter info) (safeAnon info).length

/-- The pieces of the client's name, without its `@`, between `_` and `/`. -/
def namePieces : List (List UInt8) :=
  ((fieldString info.name.toList).filter (· ≠ atSign)).splitOnP
    fun c => c == underscore || c == slash

/-- The last piece of the client's name is `pid`, and no other one that is `pid` has a piece right
behind it that is not empty. -/
def EndsInMarker : Prop :=
  (namePieces info).getLast? = some pidKey ∧ ¬ CompleteIn pidKey (namePieces info)

/-! ## The fields of a name -/

/-- The fields of the process name. -/
def nameFields : List (List UInt8) := (safeName info).splitOn underscore

/-- The fields of the mapping name, with the ending of the file name behind the last. -/
def anonFields : List (List UInt8) :=
  ((safeAnon info).splitOn underscore).dropLast ++
    [((safeAnon info).splitOn underscore).getLast (List.splitOn_ne_nil _ _) ++ ascii ".dump.gz"]

theorem intercalate_anonFields :
    [underscore].intercalate (anonFields info) = safeAnon info ++ ascii ".dump.gz" := by
  rw [anonFields, intercalate_concat, List.dropLast_append_getLast, List.intercalate_splitOn]

theorem intercalate_nameFields : [underscore].intercalate (nameFields info) = safeName info :=
  List.intercalate_splitOn underscore

theorem nameFields_ne_nil : nameFields info ≠ [] := List.splitOn_ne_nil _ _

theorem anonFields_ne_nil : anonFields info ≠ [] := by simp [anonFields]

omit counter info in
/-- The filter writes `_` for `/`, so that its pieces are those between the two. -/
theorem splitOn_sanitized (s : List UInt8) : (sanitized s).splitOn underscore =
    (s.filter (· ≠ atSign)).splitOnP fun c => c == underscore || c == slash := by
  rw [sanitized]
  induction s.filter (· ≠ atSign) with
  | nil => rfl
  | cons c s ih =>
    rw [List.map_cons, List.splitOn_cons_eq_if_modifyHead, ih, List.splitOnP_cons_eq_if_modifyHead]
    by_cases hslash : c = slash
    · rw [if_pos hslash, hslash]
      rfl
    · simp only [if_neg hslash, beq_eq_false_iff_ne.mpr hslash, Bool.or_false]

/-- The fields of the process name are the pieces of the client's, unless there is nothing left of
that. -/
theorem nameFields_eq : nameFields info = namePieces info ∨
    nameFields info = [ascii "unknown", ascii "name"] ∧ namePieces info = [[]] := by
  rw [nameFields, namePieces, ← splitOn_sanitized, safeName, safeField_eq (by simp) (by decide)]
  split
  · rename_i hnil
    rw [hnil]
    exact Or.inr ⟨by decide, by decide⟩
  · exact Or.inl rfl

theorem endsInMarker_iff : EndsInMarker info ↔
    (nameFields info).getLast (nameFields_ne_nil info) = pidKey ∧
      ¬ CompleteIn pidKey (nameFields info) := by
  rw [EndsInMarker, ← Option.some_inj (a := List.getLast _ _), ← List.getLast?_eq_some_getLast]
  rcases nameFields_eq info with heq | ⟨heq, hpieces⟩
  · rw [heq]
  · rw [heq, hpieces]
    exact iff_of_false (fun h => absurd h.1 (by decide)) (fun h => absurd h.1 (by decide))

theorem dumpName_eq_intercalate : dumpName counter info =
    [underscore].intercalate (numeral 10 counter :: numeral 16 info.mappingLen ::
      (nameFields info ++ numeral 16 info.initAddr :: protToLetters info.prot ::
        anonFields info)) := by
  have hname := nameFields_ne_nil info
  have hanon := anonFields_ne_nil info
  rw [List.intercalate_cons_cons, List.intercalate_cons_of_ne_nil (by simp [hname]),
    intercalate_append hname (List.cons_ne_nil _ _), intercalate_nameFields,
    List.intercalate_cons_cons, List.intercalate_cons_of_ne_nil hanon, intercalate_anonFields]
  simp [dumpName]

theorem underscore_notMem_numeral {b : ℕ} (hbase : 1 < b) (hle : b ≤ 16) (n : UInt64) :
    underscore ∉ numeral b n := notMem_numeral hbase hle (by decide) n

theorem underscore_notMem_fields : ∀ f ∈ numeral 10 counter :: numeral 16 info.mappingLen ::
    (nameFields info ++ numeral 16 info.initAddr :: protToLetters info.prot :: anonFields info),
    underscore ∉ f := by
  have hanon : ∀ f ∈ anonFields info, underscore ∉ f := by
    intro f hf
    have hall : ∀ g ∈ (safeAnon info).splitOn underscore, underscore ∉ g := notMem_of_mem_splitOn
    rcases List.mem_append.mp hf with hf | hf
    · exact hall f (List.mem_of_mem_dropLast hf)
    · rw [List.mem_singleton.mp hf, List.mem_append, not_or]
      exact ⟨hall _ (List.getLast_mem _), by decide⟩
  rw [List.forall_mem_cons, List.forall_mem_cons, List.forall_mem_append, List.forall_mem_cons,
    List.forall_mem_cons]
  exact ⟨underscore_notMem_numeral (by decide) (by decide) counter,
    underscore_notMem_numeral (by decide) (by decide) info.mappingLen, notMem_of_mem_splitOn,
    underscore_notMem_numeral (by decide) (by decide) info.initAddr,
    notMem_protToLetters (by decide) info.prot, hanon⟩

/-- A field without a `p` is not the key. -/
theorem ne_pidKey {f : List UInt8} (h : (0x70 : UInt8) ∉ f) : f ≠ pidKey := by
  rintro rfl
  exact h (by decide)

theorem numeral_ne_pidKey {b : ℕ} (hbase : 1 < b) (hle : b ≤ 16) (n : UInt64) :
    numeral b n ≠ pidKey := ne_pidKey (notMem_numeral hbase hle (by decide) n)

theorem numeral_ne_nil (b : ℕ) (n : UInt64) : numeral b n ≠ [] := by
  rw [numeral, ne_eq, List.map_eq_nil_iff]
  exact Nat.toDigits_ne_nil

theorem pidMatch_dumpName : pidMatch (dumpName counter info) =
    searchFields pidKey (numeral 16 info.mappingLen :: (nameFields info ++
      numeral 16 info.initAddr :: protToLetters info.prot :: anonFields info))
      ((numeral 10 counter).length + 1) := by
  have hnone : ∀ fs, fieldMatch pidKey (numeral 16 info.mappingLen :: fs) = none := by
    intro fs
    match fs with
    | [] | [_] => rfl
    | _ :: _ :: _ => exact if_neg fun hm => numeral_ne_pidKey (by decide) (by decide) _ hm.1
  rw [pidMatch, dumpName_eq_intercalate,
    search_intercalate (by decide) (underscore_notMem_fields counter info),
    searchFields_of_none _ (hnone _), Nat.zero_add]

/-! ## The label -/

/-- The group is in the process name when that has a complete marker in it. -/
theorem pidMatch_complete (h : CompleteIn pidKey (nameFields info)) :
    ∃ k group, pidMatch (dumpName counter info) = some (k, group) ∧
      Overlaps k group.length (nameStart counter info) (safeName info).length := by
  obtain ⟨k, group, heq, hne, hstart, hend⟩ :=
    searchFields_complete underscore (p := protToLetters info.prot) h (numeral 16 info.mappingLen)
      ((numeral 10 counter).length + 1)
  rw [intercalate_nameFields] at hend
  have hpos : 0 < group.length := List.length_pos_iff.mpr hne
  refine ⟨k, group, (pidMatch_dumpName counter info).trans heq, ?_, ?_⟩
  · unfold nameStart
    omega
  · unfold nameStart
    omega

theorem pidMatch_append (h : ¬ CompleteIn pidKey (nameFields info)) :
    pidMatch (dumpName counter info) =
      if (nameFields info).getLast (nameFields_ne_nil info) = pidKey then
        some (nameStart counter info + (safeName info).length + 1, numeral 16 info.initAddr)
      else
        searchFields pidKey (protToLetters info.prot :: anonFields info)
          (nameStart counter info + (safeName info).length + 1 +
            (numeral 16 info.initAddr).length + 1) := by
  have hprot : protToLetters info.prot ≠ pidKey :=
    ne_pidKey (notMem_protToLetters (by decide) info.prot)
  have haddr : numeral 16 info.initAddr ≠ pidKey :=
    numeral_ne_pidKey (by decide) (by decide) info.initAddr
  rw [pidMatch_dumpName, searchFields_append underscore (nameFields_ne_nil info) h
    (numeral_ne_nil 16 info.initAddr) haddr hprot, intercalate_nameFields]
  rfl

theorem anonFields_getLast_length :
    8 ≤ ((anonFields info).getLast (anonFields_ne_nil info)).length := by
  have hsuffix : (ascii ".dump.gz").length = 8 := by decide
  have hlast : (anonFields info).getLast (anonFields_ne_nil info) =
      ((safeAnon info).splitOn underscore).getLast (List.splitOn_ne_nil _ _) ++
        ascii ".dump.gz" := by
    simp [anonFields]
  rw [hlast, List.length_append, hsuffix]
  omega

theorem pidMatch_anon {k : ℕ} {group : List UInt8}
    (hmatch : searchFields pidKey (protToLetters info.prot :: anonFields info)
      (nameStart counter info + (safeName info).length + 1 +
        (numeral 16 info.initAddr).length + 1) = some (k, group)) :
    Overlaps k group.length (anonStart counter info) (safeAnon info).length := by
  have hanon := anonFields_ne_nil info
  have hlast := anonFields_getLast_length info
  have hsuffix : (ascii ".dump.gz").length = 8 := by decide
  obtain ⟨hne, hstart, hend⟩ := searchFields_span underscore hmatch
  rw [List.getLast_cons hanon, intercalate_length _ hanon, intercalate_anonFields,
    List.length_append, hsuffix] at hend
  have hpos : 0 < group.length := List.length_pos_iff.mpr hne
  unfold Overlaps anonStart
  omega

/-- The label is the address of the mapping when the client's name ends in the marker. -/
theorem readsLabel_of_endsInMarker (h : EndsInMarker info) : ReadsLabel counter info := by
  obtain ⟨hlast, hcomplete⟩ := (endsInMarker_iff info).mp h
  have happend := pidMatch_append counter info hcomplete
  rw [if_pos hlast] at happend
  constructor
  · -- no digit is a `U`
    have hu : (0x55 : UInt8) ∉ numeral 16 info.initAddr :=
      notMem_numeral (by decide) (by decide) (by decide) info.initAddr
    rw [extractPid, happend]
    intro heq
    rw [show numeral 16 info.initAddr = unknownPid from heq] at hu
    exact hu (by decide)
  · intro k group hmatch
    obtain ⟨rfl, rfl⟩ := Prod.mk.inj (Option.some.inj (happend.symm.trans hmatch))
    unfold Overlaps anonStart
    omega

/-- Else there is no label, or it is in the process name, or in the mapping name. -/
theorem not_readsLabel (h : ¬ EndsInMarker info) : ¬ ReadsLabel counter info := by
  intro hreads
  rw [endsInMarker_iff] at h
  by_cases hcomplete : CompleteIn pidKey (nameFields info)
  · obtain ⟨k, group, hmatch, hoverlaps⟩ := pidMatch_complete counter info hcomplete
    exact (hreads.notFree k group hmatch).1 hoverlaps
  · have happend := pidMatch_append counter info hcomplete
    rw [if_neg (fun hlast => h ⟨hlast, hcomplete⟩)] at happend
    cases hmatch : pidMatch (dumpName counter info) with
    | none => exact hreads.found (by rw [extractPid, hmatch])
    | some found =>
      exact (hreads.notFree found.1 found.2 hmatch).2
        (pidMatch_anon counter info (happend.symm.trans hmatch))

/-- **The label** is read out of the numbers of the name exactly when the client's name ends in the
marker. -/
theorem readsLabel_iff : ReadsLabel counter info ↔ EndsInMarker info :=
  ⟨fun h => not_not.mp fun hnot => not_readsLabel counter info hnot h,
    readsLabel_of_endsInMarker counter info⟩

end Name

/-- A client of the name `bash` with a heap. -/
def heapInfo : MappingInfo where
  name := ⟨[0x62, 0x61, 0x73, 0x68, 0, 0, 0, 0, 0, 0, 0, 0, 0, 0, 0, 0], rfl⟩
  args := zeroChars maxArgLen
  anonName := zeroChars maxAnonName
  initAddr := 4096
  mappedAddr := 0
  mappingLen := 4096
  len := 0
  prot := 3
  isEndOfMapping := 1

theorem heap_label_unknown : ¬ ∀ counter info, ReadsLabel counter info := by
  intro h
  have hmarker : ¬ EndsInMarker heapInfo := fun hm => absurd hm.1 (by decide)
  exact not_readsLabel 0 heapInfo hmarker (h 0 heapInfo)

end LsmFork
