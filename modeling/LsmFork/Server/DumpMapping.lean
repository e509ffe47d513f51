import LsmFork.Lib.Printf
import LsmFork.Wire.MappingInfo

/-!
# The dump of a mapping

`dump_mapping` makes a directory for the process name and one for its argument, builds the path of
the dump file out of the fields of the header, and pipes the buffer into a shell command that
compresses it to that path.  The three strings of the header come from the client; each is cut,
terminated, cleaned of `/` and `@` in place, and replaced when nothing is left of it.

* `sanitizeFilename`: the in-place filter; `sanitizeFilename_spec`: what it leaves.
* `safeField`: the treatment of one field; `safeField_eq`: the string that comes out of it.
* `dumpPath`, `dumpCommand`, `dumpMapping`: the path, the command, and the whole function.
* `dumpPath_eq`, `dumpCommand_eq`: nothing is truncated.
-/

namespace LsmFork

open CString

/-- `/`. -/
def slash : UInt8 := 0x2f

/-- `_`. -/
def underscore : UInt8 := 0x5f

/-- `@`. -/
def atSign : UInt8 := 0x40

/-! ## The functions of the source -/

/-- `prot_to_letters`. -/
def protToLetters (prot : UInt64) : List UInt8 :=
  [if prot &&& 1 ≠ 0 then 0x52 else 0x2d, if prot &&& 2 ≠ 0 then 0x57 else 0x2d,
    if prot &&& 4 ≠ 0 then 0x58 else 0x2d]

/-- The loop of `sanitize_filename`, with the indices it reads and writes at. -/
def sanitizeLoop (maxLen : ℕ) (str : List UInt8) (i j : ℕ) : List UInt8 × ℕ :=
  if i < maxLen ∧ str.getD i 0 ≠ 0 then
    if str.getD i 0 = slash then sanitizeLoop maxLen (str.set j underscore) (i + 1) (j + 1)
    else if str.getD i 0 ≠ atSign then
      sanitizeLoop maxLen (str.set j (str.getD i 0)) (i + 1) (j + 1)
    else sanitizeLoop maxLen str (i + 1) j
  else (str, j)
termination_by maxLen - i

/-- `sanitize_filename`. -/
def sanitizeFilename (str : List UInt8) (maxLen : ℕ) : List UInt8 :=
  let done := sanitizeLoop maxLen str 0 0
  done.1.set done.2 0

/-- One of the three fields: copied, terminated, sanitized, and replaced when it is empty.  The copy
is as long as the field and `strncpy` writes all of it, so nothing of its old contents survives. -/
def safeField (field fallback : List UInt8) : List UInt8 :=
  let copied := (strncpy (List.replicate field.length 0) field field.length).set
    (field.length - 1) 0
  let safe := sanitizeFilename copied field.length
  if (cstr safe).length = 0 then cstr (strcpy safe fallback) else cstr safe

/-- `safe_name`. -/
def safeName (info : MappingInfo) : List UInt8 := safeField info.name.toList (ascii "unknown_name")

/-- `safe_args`. -/
def safeArgs (info : MappingInfo) : List UInt8 := safeField info.args.toList (ascii "unknown_args")

/-- `safe_anon`. -/
def safeAnon (info : MappingInfo) : List UInt8 := safeField info.anonName.toList (ascii "noname")

/-- `level1_dir`. -/
def level1Dir (info : MappingInfo) : List UInt8 := snprintf 256 (ascii "dumps/" ++ safeName info)

/-- `nested_dir`. -/
def nestedDir (info : MappingInfo) : List UInt8 :=
  snprintf 512 (ascii "dumps/" ++ safeName info ++ [slash] ++ safeArgs info)

/-- The last component of the path: `%llu_%lx_%s_%lx_%s_%s.dump.gz`. -/
def dumpName (counter : UInt64) (info : MappingInfo) : List UInt8 :=
  numeral 10 counter ++ [underscore] ++ numeral 16 info.mappingLen ++ [underscore] ++
    safeName info ++ [underscore] ++ numeral 16 info.initAddr ++ [underscore] ++
    protToLetters info.prot ++ [underscore] ++ safeAnon info ++ ascii ".dump.gz"

/-- `filepath`. -/
def dumpPath (counter : UInt64) (info : MappingInfo) : List UInt8 :=
  snprintf 1024 (ascii "dumps/" ++ safeName info ++ [slash] ++ safeArgs info ++ [slash] ++
    dumpName counter info)

/-- `command`. -/
def dumpCommand (counter : UInt64) (info : MappingInfo) : List UInt8 :=
  snprintf 2048 (ascii "gzip -9 > '" ++ dumpPath counter info ++ ascii "'")

/-- What `dump_mapping` does. -/
inductive DumpEvent where
  | mkdir (path : List UInt8)
  | popen (command : List UInt8)
  | write (data : List UInt8)
  deriving DecidableEq

/-- `dump_mapping`, with the outcome of `popen`; it leaves the counter. -/
def dumpMapping (counter : UInt64) (popenOk : Bool) (info : MappingInfo) (buf : List UInt8) :
    List DumpEvent × UInt64 :=
  ([.mkdir (ascii "dumps"), .mkdir (level1Dir info), .mkdir (nestedDir info),
      .popen (dumpCommand counter info)] ++
      if popenOk then [.write (buf.take info.mappingLen.toNat)] else [],
    counter + 1)

/-! ## The filter -/

/-- What the filter makes of a string. -/
def sanitized (s : List UInt8) : List UInt8 :=
  (s.filter (· ≠ atSign)).map fun c => if c = slash then underscore else c

theorem sanitized_cons (c : UInt8) (s : List UInt8) :
    sanitized (c :: s) = (if c = slash then [underscore] else if c ≠ atSign then [c] else []) ++
      sanitized s := by
  by_cases hslash : c = slash
  · rw [if_pos hslash, hslash]
    rfl
  · rw [if_neg hslash]
    by_cases hat : c = atSign
    · rw [if_neg (fun h => h hat), hat]
      rfl
    · rw [if_pos hat, sanitized, List.filter_cons_of_pos (by simpa using hat), List.map_cons,
        if_neg hslash]
      rfl

theorem sanitized_length_le (s : List UInt8) : (sanitized s).length ≤ s.length := by
  rw [sanitized, List.length_map]
  exact List.length_filter_le _ _

theorem mem_sanitized {s : List UInt8} {c : UInt8} (h : c ∈ sanitized s) :
    c = underscore ∨ (c ∈ s ∧ c ≠ slash ∧ c ≠ atSign) := by
  obtain ⟨b, hb, rfl⟩ := List.mem_map.mp h
  obtain ⟨hmem, hat⟩ := List.mem_filter.mp hb
  by_cases hslash : b = slash
  · rw [if_pos hslash]
    exact Or.inl rfl
  · rw [if_neg hslash]
    exact Or.inr ⟨hmem, hslash, by simpa using hat⟩

theorem mem_sanitized_iff {s : List UInt8} {c : UInt8} (hunderscore : c ≠ underscore)
    (hslash : c ≠ slash) (hat : c ≠ atSign) : c ∈ sanitized s ↔ c ∈ s := by
  constructor
  · intro h
    exact ((mem_sanitized h).resolve_left hunderscore).1
  · intro h
    exact List.mem_map.mpr ⟨c, List.mem_filter.mpr ⟨h, by simpa using hat⟩, if_neg hslash⟩

theorem slash_notMem_sanitized (s : List UInt8) : slash ∉ sanitized s := by
  intro h
  rcases mem_sanitized h with heq | ⟨-, hne, -⟩
  · exact absurd heq (by decide)
  · exact hne rfl

theorem getD_of_drop {str rest : List UInt8} {i : ℕ} {c : UInt8} (h : str.drop i = c :: rest) :
    str.getD i 0 = c := by
  rw [List.getD_eq_getElem?_getD, ← List.head?_drop, h]
  rfl

/-- The loop has written `written` in front of its final index, behind the first `j` characters of
the buffer, and has left the buffer as long as it was. -/
structure Writes (str : List UInt8) (j : ℕ) (written : List UInt8) (out : List UInt8 × ℕ) :
    Prop where
  count : out.2 = j + written.length
  front : out.1.take (j + written.length) = str.take j ++ written
  length : out.1.length = str.length

/-- One character written at `j`, and the rest from `j + 1` on. -/
theorem Writes.cons {str written : List UInt8} {j : ℕ} {b : UInt8} {out : List UInt8 × ℕ}
    (hj : j < str.length) (h : Writes (str.set j b) (j + 1) written out) :
    Writes str j (b :: written) out := by
  have hcount : j + (b :: written).length = j + 1 + written.length := by
    rw [List.length_cons]
    omega
  have htake : (str.set j b).take (j + 1) = str.take j ++ [b] := by
    rw [List.take_add_one, List.take_set_of_le (le_refl _), List.getElem?_set_self hj]
    rfl
  refine ⟨hcount ▸ h.count, ?_, h.length.trans (List.length_set ..)⟩
  rw [hcount, h.front, htake, List.append_assoc, List.singleton_append]

/-- **The loop** over a string that ends inside the buffer: what it writes in front of the index it
started from is what the filter makes of the string.  It writes no further than it has read, so the
rest of the string is still there. -/
theorem sanitizeLoop_spec {maxLen : ℕ} {s str rest : List UInt8} {i j : ℕ}
    (hdrop : str.drop i = s ++ 0 :: rest) (hzero : (0 : UInt8) ∉ s) (hij : j ≤ i)
    (hmax : i + s.length < maxLen) :
    Writes str j (sanitized s) (sanitizeLoop maxLen str i j) := by
  induction s generalizing str i j with
  | nil =>
    have hstop : str.getD i 0 = 0 := getD_of_drop hdrop
    rw [sanitizeLoop, if_neg (fun h => h.2 hstop)]
    exact ⟨rfl, (List.append_nil _).symm, rfl⟩
  | cons c s ih =>
    rw [List.mem_cons, not_or] at hzero
    rw [List.length_cons] at hmax
    have hc : str.getD i 0 = c := getD_of_drop hdrop
    have hi : i < str.length := by
      by_contra hge
      rw [List.drop_of_length_le (by omega)] at hdrop
      cases hdrop
    have hnext : str.drop (i + 1) = s ++ 0 :: rest := by
      rw [← List.drop_drop, hdrop]
      rfl
    have hgo : i < maxLen ∧ str.getD i 0 ≠ 0 := ⟨by omega, by rw [hc]; exact Ne.symm hzero.1⟩
    have hwrite : ∀ b : UInt8, Writes str j (b :: sanitized s)
        (sanitizeLoop maxLen (str.set j b) (i + 1) (j + 1)) := by
      intro b
      have hset : (str.set j b).drop (i + 1) = s ++ 0 :: rest := by
        rw [List.drop_set_of_lt (by omega), hnext]
      exact .cons (by omega) (ih hset hzero.2 (by omega) (by omega))
    rw [sanitizeLoop, if_pos hgo, hc, sanitized_cons]
    by_cases hslash : c = slash
    · rw [if_pos hslash, if_pos hslash]
      exact hwrite underscore
    · rw [if_neg hslash, if_neg hslash]
      by_cases hat : c ≠ atSign
      · rw [if_pos hat, if_pos hat]
        exact hwrite c
      · rw [if_neg hat, if_neg hat, List.nil_append]
        exact ih hnext hzero.2 (by omega) (by omega)

/-- **The filter** leaves the string without its `@`, and with `_` for `/`. -/
theorem sanitizeFilename_spec {str : List UInt8} {maxLen : ℕ}
    (hend : (cstr str).length < maxLen) (hbuf : (cstr str).length < str.length) :
    cstr (sanitizeFilename str maxLen) = sanitized (cstr str) := by
  obtain ⟨rest, hrest⟩ := exists_eq_cstr_append hbuf
  have hdrop : str.drop 0 = cstr str ++ 0 :: rest := hrest
  obtain ⟨hcount, hfront, hlength⟩ := sanitizeLoop_spec hdrop (zero_notMem_cstr str)
    (le_refl 0) (show 0 + (cstr str).length < maxLen by omega)
  rw [Nat.zero_add] at hcount hfront
  rw [List.take_zero, List.nil_append] at hfront
  have hle := sanitized_length_le (cstr str)
  rw [sanitizeFilename]
  simp only [hcount]
  refine cstr_set_zero (by omega) hfront fun hmem => ?_
  rcases mem_sanitized hmem with heq | ⟨hin, -, -⟩
  · exact absurd heq (by decide)
  · exact zero_notMem_cstr str hin

/-! ## One field -/

/-- The part of a field that the dump uses: its string, cut to leave room for a terminator. -/
def fieldString (field : List UInt8) : List UInt8 := (cstr field).take (field.length - 1)

/-- **One field**: its string without `@` and with `_` for `/`, or the fallback. -/
theorem safeField_eq {field fallback : List UInt8} (hfield : 0 < field.length)
    (hfallback : (0 : UInt8) ∉ fallback) :
    safeField field fallback =
      if sanitized (fieldString field) = [] then fallback else sanitized (fieldString field) := by
  have hdst : (List.replicate field.length (0 : UInt8)).length = field.length :=
    List.length_replicate
  have hcopied : cstr ((strncpy (List.replicate field.length 0) field field.length).set
      (field.length - 1) 0) = fieldString field :=
    cstr_terminated _ field (Nat.sub_le _ _) hdst.ge (by omega)
  have hbuf : ((strncpy (List.replicate field.length 0) field field.length).set
      (field.length - 1) 0).length = field.length := by
    rw [List.length_set, strncpy_length field hdst.ge, hdst]
  have hshort : (fieldString field).length < field.length := by
    rw [fieldString, List.length_take]
    omega
  have hend : (cstr ((strncpy (List.replicate field.length 0) field field.length).set
      (field.length - 1) 0)).length < field.length := by
    rw [hcopied]
    exact hshort
  have hsafe := sanitizeFilename_spec hend (by rw [hbuf]; exact hend)
  rw [hcopied] at hsafe
  rw [safeField]
  simp only [hsafe, List.length_eq_zero_iff]
  split
  · exact cstr_append_zero hfallback _
  · rfl

section Field

variable {field fallback : List UInt8} (hfield : 0 < field.length)
  (hzero : (0 : UInt8) ∉ fallback)

include hfield hzero

theorem safeField_ne_nil (hfallback : fallback ≠ []) : safeField field fallback ≠ [] := by
  rw [safeField_eq hfield hzero]
  split
  · exact hfallback
  · assumption

theorem safeField_length_le {n : ℕ} (hfallback : fallback.length ≤ n)
    (hn : field.length ≤ n + 1) : (safeField field fallback).length ≤ n := by
  have hle := sanitized_length_le (fieldString field)
  have hcut : (fieldString field).length ≤ field.length - 1 := List.length_take_le _ _
  rw [safeField_eq hfield hzero]
  split <;> omega

theorem slash_notMem_safeField (hfallback : slash ∉ fallback) :
    slash ∉ safeField field fallback := by
  rw [safeField_eq hfield hzero]
  split
  · exact hfallback
  · exact slash_notMem_sanitized _

/-- A character that the filter does not touch gets through, from the field and from nowhere
else. -/
theorem mem_safeField_iff {c : UInt8} (hfallback : c ∉ fallback) (hunderscore : c ≠ underscore)
    (hslash : c ≠ slash) (hat : c ≠ atSign) :
    c ∈ safeField field fallback ↔ c ∈ fieldString field := by
  rw [safeField_eq hfield hzero,
    ← mem_sanitized_iff (s := fieldString field) hunderscore hslash hat]
  split
  · rename_i hnil
    rw [hnil]
    exact iff_of_false hfallback (by simp)
  · exact Iff.rfl

/-- A field becomes a string without `/` and `_` exactly when that is what is left of it without
`@`. -/
theorem safeField_eq_iff {d : List UInt8} (hd : d ≠ []) (hdfallback : d ≠ fallback)
    (hunderscore : underscore ∉ d) (hslash : slash ∉ d) :
    safeField field fallback = d ↔ (fieldString field).filter (· ≠ atSign) = d := by
  have hmap : ∀ l : List UInt8, slash ∉ l →
      (l.map fun c => if c = slash then underscore else c) = l := by
    intro l hl
    refine (List.map_congr_left fun c hc => ?_).trans (List.map_id l)
    exact if_neg fun h : c = slash => hl (h ▸ hc)
  have hsanitized : sanitized (fieldString field) = d ↔
      (fieldString field).filter (· ≠ atSign) = d := by
    constructor
    · intro h
      have hnone : slash ∉ (fieldString field).filter (· ≠ atSign) := by
        intro hin
        apply hunderscore
        rw [← h]
        exact List.mem_map.mpr ⟨slash, hin, if_pos rfl⟩
      rw [sanitized, hmap _ hnone] at h
      exact h
    · intro h
      rw [sanitized, h, hmap d hslash]
  rw [safeField_eq hfield hzero, ← hsanitized]
  split
  · rename_i hnil
    rw [hnil]
    exact iff_of_false (Ne.symm hdfallback) (Ne.symm hd)
  · exact Iff.rfl

end Field

/-! ## The path -/

theorem safeName_length_le (info : MappingInfo) : (safeName info).length ≤ 15 :=
  safeField_length_le (by simp) (by decide) (by decide) (by simp)

theorem safeArgs_length_le (info : MappingInfo) : (safeArgs info).length ≤ 127 :=
  safeField_length_le (by simp) (by decide) (by decide) (by simp)

theorem safeAnon_length_le (info : MappingInfo) : (safeAnon info).length ≤ 79 :=
  safeField_length_le (by simp) (by decide) (by decide) (by simp)

theorem dumpName_length_le (counter : UInt64) (info : MappingInfo) :
    (dumpName counter info).length ≤ 162 := by
  have hcounter := numeral_length_le (b := 10) (k := 20) (by decide) (by decide) counter
  have hlen := numeral_length_le (b := 16) (k := 16) (by decide) (by decide) info.mappingLen
  have haddr := numeral_length_le (b := 16) (k := 16) (by decide) (by decide) info.initAddr
  have hname := safeName_length_le info
  have hanon := safeAnon_length_le info
  have hsuffix : (ascii ".dump.gz").length = 8 := by decide
  simp only [dumpName, List.length_append, protToLetters, List.length_cons, List.length_nil,
    hsuffix]
  omega

/-- **The path is not truncated.** -/
theorem dumpPath_eq (counter : UInt64) (info : MappingInfo) :
    dumpPath counter info = ascii "dumps/" ++ safeName info ++ [slash] ++ safeArgs info ++
      [slash] ++ dumpName counter info := by
  have hname := safeName_length_le info
  have hargs := safeArgs_length_le info
  have hfile := dumpName_length_le counter info
  have hprefix : (ascii "dumps/").length = 6 := by decide
  apply List.take_of_length_le
  simp only [List.length_append, List.length_singleton, hprefix]
  omega

/-- **The command is not truncated.** -/
theorem dumpCommand_eq (counter : UInt64) (info : MappingInfo) :
    dumpCommand counter info = ascii "gzip -9 > '" ++ dumpPath counter info ++ ascii "'" := by
  have hprefix : (ascii "gzip -9 > '").length = 11 := by decide
  have hquote : (ascii "'").length = 1 := by decide
  have hpath : (dumpPath counter info).length ≤ 1023 := List.length_take_le _ _
  apply List.take_of_length_le
  simp only [List.length_append, hprefix, hquote]
  omega

end LsmFork
