import LsmFork.Lib.ShellTokens
import LsmFork.Server.DumpMapping

/-!
# The path and the command of a dump

The filter takes `/` and `@` out of the client's strings, so the path of a dump always has the four
components that the format writes.  It leaves quotes and dots alone: a quote in a field ends the
quoted part of the command early, and a name or an argument of dots only is a component that leads
out of `dumps/`.

* `redirectsTo_iff`: the command is `gzip -9` redirected to the path exactly when no field has a
  single quote.
* `dumpPath_components`: the components of the path; `insideDumps_iff`: they name a file two levels
  below `dumps/` exactly when neither the name nor the argument is a dot or two dots.
-/

namespace LsmFork

open CString Shell

/-! ## The command -/

/-- The shell takes the command for `gzip -9` with its output redirected to the file `path`, and the
quote that opens before the path is closed by the last character. -/
def RedirectsTo (command path : List UInt8) : Prop :=
  tokens false none command =
      some [.word (ascii "gzip"), .word (ascii "-9"), .redirect, .word path] ∧
    closingQuote command + 1 = command.length

/-- The command with any path in the place of `filepath`. -/
theorem redirectsTo_quoted_iff (path : List UInt8) :
    RedirectsTo (ascii "gzip -9 > '" ++ path ++ ascii "'") path ↔ quote ∉ path := by
  have hsplit : ascii "gzip -9 > '" ++ path ++ ascii "'" =
      ascii "gzip -9 > " ++ quote :: (path ++ [quote]) := by
    rw [List.append_assoc]
    rfl
  rw [RedirectsTo, hsplit, closingQuote_iff (by decide)]
  constructor
  · exact And.right
  · intro hpath
    refine ⟨?_, hpath⟩
    -- the command is read word by word
    show tokens false none (0x67 :: ([0x7a, 0x69, 0x70] ++ 0x20 :: 0x2d :: ([0x39] ++
      0x20 :: 0x3e :: 0x20 :: quote :: (path ++ [quote])))) = _
    rw [tokens_none _ (by decide), tokens_plain _ rfl, tokens_blank _ (by decide) (by decide),
      tokens_none _ (by decide), tokens_plain _ rfl, tokens_blank _ (by decide) (by decide),
      tokens_redirect, tokens_blank _ (by decide) (by decide), tokens_openQuote,
      tokens_quoted [] hpath]
    rfl

theorem slash_notMem_numeral {b : ℕ} (hbase : 1 < b) (hle : b ≤ 16) (n : UInt64) :
    slash ∉ numeral b n := notMem_numeral hbase hle (by decide) n

theorem quote_notMem_numeral {b : ℕ} (hbase : 1 < b) (hle : b ≤ 16) (n : UInt64) :
    quote ∉ numeral b n := notMem_numeral hbase hle (by decide) n

theorem notMem_protToLetters {c : UInt8} (hc : c ∉ [0x52, 0x57, 0x58, (0x2d : UInt8)])
    (prot : UInt64) : c ∉ protToLetters prot := by
  simp only [List.mem_cons, List.not_mem_nil, or_false, not_or] at hc
  obtain ⟨hr, hw, hx, hdash⟩ := hc
  simp only [protToLetters, List.mem_cons, List.not_mem_nil, or_false, not_or]
  refine ⟨?_, ?_, ?_⟩ <;> split <;> assumption

theorem quote_mem_safeName_iff (info : MappingInfo) :
    quote ∈ safeName info ↔ quote ∈ fieldString info.name.toList :=
  mem_safeField_iff (by simp) (by decide) (by decide) (by decide) (by decide) (by decide)

theorem quote_mem_safeArgs_iff (info : MappingInfo) :
    quote ∈ safeArgs info ↔ quote ∈ fieldString info.args.toList :=
  mem_safeField_iff (by simp) (by decide) (by decide) (by decide) (by decide) (by decide)

theorem quote_mem_safeAnon_iff (info : MappingInfo) :
    quote ∈ safeAnon info ↔ quote ∈ fieldString info.anonName.toList :=
  mem_safeField_iff (by simp) (by decide) (by decide) (by decide) (by decide) (by decide)

/-- The quotes in the path of a dump are those of the client's strings. -/
theorem quote_mem_dumpPath_iff (counter : UInt64) (info : MappingInfo) :
    quote ∈ dumpPath counter info ↔ quote ∈ fieldString info.name.toList ∨
      quote ∈ fieldString info.args.toList ∨ quote ∈ fieldString info.anonName.toList := by
  have hdir : quote ∉ ascii "dumps/" := by decide
  have hslash : quote ∉ [slash] := by decide
  have hunderscore : quote ∉ [underscore] := by decide
  have hsuffix : quote ∉ ascii ".dump.gz" := by decide
  have hcounter := quote_notMem_numeral (b := 10) (by decide) (by decide) counter
  have hlen := quote_notMem_numeral (b := 16) (by decide) (by decide) info.mappingLen
  have haddr := quote_notMem_numeral (b := 16) (by decide) (by decide) info.initAddr
  have hprot := notMem_protToLetters (c := quote) (by decide) info.prot
  rw [dumpPath_eq, dumpName]
  simp only [List.mem_append, hdir, hslash, hunderscore, hsuffix, hcounter, hlen, haddr, hprot,
    quote_mem_safeName_iff, quote_mem_safeArgs_iff, quote_mem_safeAnon_iff, false_or, or_false]
  tauto

/-- **What the shell makes of the command.**  It is `gzip -9` redirected to the path of the dump
exactly when there is no single quote in the part of any field that the dump uses. -/
theorem redirectsTo_iff (counter : UInt64) (info : MappingInfo) :
    RedirectsTo (dumpCommand counter info) (dumpPath counter info) ↔
      quote ∉ fieldString info.name.toList ∧ quote ∉ fieldString info.args.toList ∧
        quote ∉ fieldString info.anonName.toList := by
  rw [dumpCommand_eq, redirectsTo_quoted_iff, quote_mem_dumpPath_iff, not_or, not_or]

/-- A client whose name is `';id;'`. -/
def quotingInfo : MappingInfo where
  name := ⟨[0x27, 0x3b, 0x69, 0x64, 0x3b, 0x27, 0, 0, 0, 0, 0, 0, 0, 0, 0, 0], rfl⟩
  args := zeroChars maxArgLen
  anonName := zeroChars maxAnonName
  initAddr := 4096
  mappedAddr := 0
  mappingLen := 4096
  len := 0
  prot := 3
  isEndOfMapping := 1

theorem quoting_name_ends_path :
    ¬ RedirectsTo (dumpCommand 0 quotingInfo) (dumpPath 0 quotingInfo) := by
  rw [dumpCommand_eq, redirectsTo_quoted_iff, quote_mem_dumpPath_iff]
  exact fun h => h (Or.inl (by decide))

/-! ## The path -/

/-- The path has four components, the first is `dumps`, and no component is empty, a dot or two
dots. -/
def InsideDumps (path : List UInt8) : Prop :=
  (path.splitOn slash).length = 4 ∧ (path.splitOn slash).head? = some (ascii "dumps") ∧
    ∀ component ∈ path.splitOn slash,
      component ≠ [] ∧ component ≠ ascii "." ∧ component ≠ ascii ".."

/-- A field that becomes a dot or two dots. -/
def IsDots (field : List UInt8) : Prop :=
  (fieldString field).filter (· ≠ atSign) = ascii "." ∨
    (fieldString field).filter (· ≠ atSign) = ascii ".."

theorem slash_notMem_safeName (info : MappingInfo) : slash ∉ safeName info :=
  slash_notMem_safeField (by simp) (by decide) (by decide)

theorem slash_notMem_safeArgs (info : MappingInfo) : slash ∉ safeArgs info :=
  slash_notMem_safeField (by simp) (by decide) (by decide)

theorem slash_notMem_safeAnon (info : MappingInfo) : slash ∉ safeAnon info :=
  slash_notMem_safeField (by simp) (by decide) (by decide)

theorem slash_notMem_dumpName (counter : UInt64) (info : MappingInfo) :
    slash ∉ dumpName counter info := by
  have hunderscore : slash ≠ underscore := by decide
  have hsuffix : slash ∉ ascii ".dump.gz" := by decide
  have hcounter := slash_notMem_numeral (b := 10) (by decide) (by decide) counter
  have hlen := slash_notMem_numeral (b := 16) (by decide) (by decide) info.mappingLen
  have haddr := slash_notMem_numeral (b := 16) (by decide) (by decide) info.initAddr
  have hprot := notMem_protToLetters (c := slash) (by decide) info.prot
  simp [dumpName, hunderscore, hsuffix, hcounter, hlen, haddr, hprot, slash_notMem_safeName,
    slash_notMem_safeAnon]

/-- **The components of a dump's path** are those that the format writes. -/
theorem dumpPath_components (counter : UInt64) (info : MappingInfo) :
    (dumpPath counter info).splitOn slash =
      [ascii "dumps", safeName info, safeArgs info, dumpName counter info] := by
  have hdir : ascii "dumps/" = ascii "dumps" ++ [slash] := by decide
  have hjoin : dumpPath counter info =
      [slash].intercalate [ascii "dumps", safeName info, safeArgs info, dumpName counter info] := by
    rw [dumpPath_eq, hdir]
    simp [List.intercalate]
  rw [hjoin]
  apply List.splitOn_intercalate slash
  · simp only [List.forall_mem_cons, List.not_mem_nil, false_implies, implies_true, and_true]
    exact ⟨by decide, slash_notMem_safeName info, slash_notMem_safeArgs info,
      slash_notMem_dumpName counter info⟩
  · simp

/-- The last component ends in `.dump.gz`, so it is never short. -/
theorem two_lt_dumpName_length (counter : UInt64) (info : MappingInfo) :
    2 < (dumpName counter info).length := by
  have hsuffix : (ascii ".dump.gz").length = 8 := by decide
  rw [dumpName, List.length_append, hsuffix]
  omega

theorem safeName_isDots_iff (info : MappingInfo) :
    safeName info = ascii "." ∨ safeName info = ascii ".." ↔ IsDots info.name.toList := by
  have hfield : 0 < info.name.toList.length := by simp
  rw [IsDots, safeName, safeField_eq_iff hfield (by decide) (by decide) (by decide) (by decide)
    (by decide), safeField_eq_iff hfield (by decide) (by decide) (by decide) (by decide)
    (by decide)]

theorem safeArgs_isDots_iff (info : MappingInfo) :
    safeArgs info = ascii "." ∨ safeArgs info = ascii ".." ↔ IsDots info.args.toList := by
  have hfield : 0 < info.args.toList.length := by simp
  rw [IsDots, safeArgs, safeField_eq_iff hfield (by decide) (by decide) (by decide) (by decide)
    (by decide), safeField_eq_iff hfield (by decide) (by decide) (by decide) (by decide)
    (by decide)]

/-- The path of a dump is inside `dumps/` when its two directories are names. -/
theorem insideDumps_dumpPath (counter : UInt64) (info : MappingInfo) :
    InsideDumps (dumpPath counter info) ↔
      ¬ (safeName info = ascii "." ∨ safeName info = ascii "..") ∧
        ¬ (safeArgs info = ascii "." ∨ safeArgs info = ascii "..") := by
  have hname : safeName info ≠ [] := safeField_ne_nil (by simp) (by decide) (by decide)
  have hargs : safeArgs info ≠ [] := safeField_ne_nil (by simp) (by decide) (by decide)
  have hlong := two_lt_dumpName_length counter info
  have hfile : ∀ s : List UInt8, s.length ≤ 2 → dumpName counter info ≠ s := by
    rintro s hs rfl
    omega
  rw [InsideDumps, dumpPath_components]
  simp only [List.forall_mem_cons, List.not_mem_nil, false_implies, implies_true, and_true]
  constructor
  · rintro ⟨-, -, -, ⟨-, hdot, hdots⟩, ⟨-, hdot', hdots'⟩, -⟩
    exact ⟨not_or.mpr ⟨hdot, hdots⟩, not_or.mpr ⟨hdot', hdots'⟩⟩
  · rintro ⟨hn, ha⟩
    exact ⟨rfl, rfl, by decide, ⟨hname, not_or.mp hn⟩, ⟨hargs, not_or.mp ha⟩,
      hfile _ (by decide), hfile _ (by decide), hfile _ (by decide)⟩

/-- **Where a dump goes.**  The path stays two directories below `dumps/` exactly when neither the
name nor the argument is a dot or two dots once every `@` is taken out. -/
theorem insideDumps_iff (counter : UInt64) (info : MappingInfo) :
    InsideDumps (dumpPath counter info) ↔
      ¬ IsDots info.name.toList ∧ ¬ IsDots info.args.toList := by
  rw [insideDumps_dumpPath, safeName_isDots_iff, safeArgs_isDots_iff]

/-- A client whose name is `.@.`. -/
def dottingInfo : MappingInfo where
  name := ⟨[0x2e, 0x40, 0x2e, 0, 0, 0, 0, 0, 0, 0, 0, 0, 0, 0, 0, 0], rfl⟩
  args := zeroChars maxArgLen
  anonName := zeroChars maxAnonName
  initAddr := 4096
  mappedAddr := 0
  mappingLen := 4096
  len := 0
  prot := 3
  isEndOfMapping := 1

theorem dotting_name_leaves_dumps : ¬ InsideDumps (dumpPath 0 dottingInfo) := by
  rw [insideDumps_dumpPath, safeName_isDots_iff]
  exact fun h => h.1 (Or.inr (by decide))

end LsmFork
