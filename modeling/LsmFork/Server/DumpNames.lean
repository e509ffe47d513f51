import LsmFork.Lib.MarkerSearch
import LsmFork.Lib.Runs
import LsmFork.Server.DumpPath

/-!
# The names of the dumps

The number in front of a dump's name is `counter`, which every call of `dump_mapping` leaves one
higher.  No digit is an underscore, so the number can be read off the name whatever the strings
behind it are, and the dumps of one server never have a name in common.

* `DumpCall`, `dumpNext`: the calls of `dump_mapping`, and what they do to `counter`.
* `Untruncated`: every text that a call formats fits into its buffer.
* `counters_nodup`: fewer than `2 ^ 64` calls find different counters.
* `dumpName_counter_injective`: the name determines the counter.
* `dumps_distinct`: no text is cut, and no two names are the same.
-/

namespace LsmFork

open CString Runs

/-- A call of `dump_mapping`, with the outcome of `popen`. -/
structure DumpCall where
  info : MappingInfo
  buf : List UInt8
  popenOk : Bool

/-- `counter` after a call. -/
def dumpNext (counter : UInt64) (c : DumpCall) : UInt64 :=
  (dumpMapping counter c.popenOk c.info c.buf).2

/-- The last component of the path of a dump. -/
def fileName (counter : UInt64) (info : MappingInfo) : Option (List UInt8) :=
  ((dumpPath counter info).splitOn slash).getLast?

/-- None of the four texts is cut. -/
structure Untruncated (counter : UInt64) (info : MappingInfo) : Prop where
  level1 : level1Dir info = ascii "dumps/" ++ safeName info
  nested : nestedDir info = ascii "dumps/" ++ safeName info ++ [slash] ++ safeArgs info
  path : dumpPath counter info = ascii "dumps/" ++ safeName info ++ [slash] ++ safeArgs info ++
    [slash] ++ dumpName counter info
  command : dumpCommand counter info = ascii "gzip -9 > '" ++ dumpPath counter info ++ ascii "'"

/-- **No text is cut**, whatever the fields are. -/
theorem untruncated (counter : UInt64) (info : MappingInfo) : Untruncated counter info where
  level1 := by
    have hname := safeName_length_le info
    have hprefix : (ascii "dumps/").length = 6 := by decide
    apply List.take_of_length_le
    rw [List.length_append, hprefix]
    omega
  nested := by
    have hname := safeName_length_le info
    have hargs := safeArgs_length_le info
    have hprefix : (ascii "dumps/").length = 6 := by decide
    apply List.take_of_length_le
    simp only [List.length_append, List.length_singleton, hprefix]
    omega
  path := dumpPath_eq counter info
  command := dumpCommand_eq counter info

/-! ## The counter -/

theorem counters_eq (counter : UInt64) (calls : List DumpCall) :
    (trace dumpNext counter calls).map Prod.fst =
      (List.range calls.length).map fun i => counter + UInt64.ofNat i := by
  induction calls generalizing counter with
  | nil => rfl
  | cons c calls ih =>
    rw [trace, List.map_cons, ih, List.length_cons, List.range_succ_eq_map, List.map_cons,
      List.map_map]
    refine congrArg₂ List.cons ?_ (List.map_congr_left fun i _ => ?_)
    · exact (UInt64.add_zero counter).symm
    · show counter + 1 + UInt64.ofNat i = counter + UInt64.ofNat (i + 1)
      rw [UInt64.ofNat_add, UInt64.add_assoc, UInt64.add_comm (UInt64.ofNat i)]
      rfl

/-- **The counter comes back** only after `2 ^ 64` calls. -/
theorem counters_nodup {calls : List DumpCall} (hfew : calls.length < 2 ^ 64) :
    ((trace dumpNext 0 calls).map Prod.fst).Nodup := by
  rw [counters_eq]
  refine List.Nodup.map_on (fun i hi j hj heq => ?_) List.nodup_range
  rw [List.mem_range] at hi hj
  have hnat := congrArg UInt64.toNat heq
  simp only [UInt64.zero_add, UInt64.toNat_ofNat'] at hnat
  omega

/-! ## The names -/

theorem exists_dumpName_eq (counter : UInt64) (info : MappingInfo) :
    underscore ∉ numeral 10 counter ∧
      ∃ rest, dumpName counter info = numeral 10 counter ++ underscore :: rest := by
  refine ⟨notMem_numeral (by decide) (by decide) (by decide) counter,
    numeral 16 info.mappingLen ++ [underscore] ++ safeName info ++ [underscore] ++
      numeral 16 info.initAddr ++ [underscore] ++ protToLetters info.prot ++ [underscore] ++
      safeAnon info ++ ascii ".dump.gz", ?_⟩
  simp [dumpName]

/-- **A name determines the counter**, whatever the fields are. -/
theorem dumpName_counter_injective {counter counter' : UInt64} {info info' : MappingInfo}
    (h : dumpName counter info = dumpName counter' info') : counter = counter' := by
  obtain ⟨hdigits, rest, hname⟩ := exists_dumpName_eq counter info
  obtain ⟨hdigits', rest', hname'⟩ := exists_dumpName_eq counter' info'
  rw [hname, hname'] at h
  exact numeral_ten_injective (Marker.append_cons_inj hdigits hdigits' h).1

theorem fileName_eq (counter : UInt64) (info : MappingInfo) :
    fileName counter info = some (dumpName counter info) := by
  rw [fileName, dumpPath_components]
  rfl

/-- **Dumps never overwrite each other.**  In every run of fewer than `2 ^ 64` dumps no text is cut,
and the last components of any two paths differ. -/
theorem dumps_distinct {calls : List DumpCall} (hfew : calls.length < 2 ^ 64) :
    (∀ x ∈ trace dumpNext 0 calls, Untruncated x.1 x.2.info) ∧
      (trace dumpNext 0 calls).Pairwise fun x y =>
        fileName x.1 x.2.info ≠ fileName y.1 y.2.info := by
  refine ⟨fun x _ => untruncated x.1 x.2.info, ?_⟩
  refine (List.pairwise_map.mp (counters_nodup hfew)).imp fun {x y} hne hname => ?_
  rw [fileName_eq, fileName_eq] at hname
  exact hne (dumpName_counter_injective (Option.some.inj hname))

/-- Two dumps of the same header. -/
theorem two_dumps_distinct :
    (∀ x ∈ trace dumpNext 0 [⟨dottingInfo, [], true⟩, ⟨dottingInfo, [], false⟩],
        Untruncated x.1 x.2.info) ∧
      (trace dumpNext 0 [⟨dottingInfo, [], true⟩, ⟨dottingInfo, [], false⟩]).Pairwise fun x y =>
        fileName x.1 x.2.info ≠ fileName y.1 y.2.info :=
  dumps_distinct (by decide)

end LsmFork
