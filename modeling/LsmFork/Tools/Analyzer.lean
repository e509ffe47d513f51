import LsmFork.Kernel.Netlink
import LsmFork.Lib.Printf
import Mathlib.Logic.Function.Basic

/-!
# The netlink analyzer

`analyzer.c` registers itself with the kernel and then answers one NOTIFY after another: it parses
the attributes, writes the memory that the kernel has mapped into it to a file, and replies with 0
or with the `errno` of the call that failed.  The file is named after the attributes, so a later
dump of the same name replaces an earlier one.

* `nlaParse`, `messageHandler`: from the attributes of a message to the arguments of `analyze`.
* `protFlagsToRwxp`, `memdumpName`: the name of a dump; `memdumpName_spec`: what it tells.
* `analyzeDump`: the dump, with the outcome of everything that can fail.
* `Served`, `serveAll`: the notifications that a process answers, and its files after them.
* `serveAll_refines`: the files are a store under the keys that the names tell apart.
* `dumps_kept_iff`: when every dump survives.
* `verdict_iff_accepted`: what the analyzed process sees of a dump.
-/

namespace LsmFork
namespace Analyzer

open CString

/-! ## The message -/

/-- The arguments of `analyze`. -/
structure Args where
  pid : UInt64
  initAddr : UInt64
  mappedAddr : UInt64
  len : UInt64
  prot : UInt64
  isFileBacked : UInt64
  deriving DecidableEq

/-- `nla_parse`: the attribute of each type, the last one if there are several. -/
def nlaParse (attrs : List (LsmAttr × UInt64)) (type : LsmAttr) : Option UInt64 :=
  (attrs.reverse.find? fun a => a.1 = type).map Prod.snd

/-- `nla_get_u64`, which reads a missing attribute as 0. -/
def nlaGetU64 (attr : Option UInt64) : UInt64 := attr.getD 0

/-- `message_handler`, up to the call of `analyze`: a message without an address or a length is
skipped. -/
def messageHandler (attrs : List (LsmAttr × UInt64)) : Option Args :=
  let tb := nlaParse attrs
  if (tb .address).isNone then none
  else if (tb .length).isNone then none
  else
    some
      { pid := nlaGetU64 (tb .pid)
        initAddr := nlaGetU64 (tb .initAddress)
        mappedAddr := nlaGetU64 (tb .address)
        len := nlaGetU64 (tb .length)
        prot := nlaGetU64 (tb .prot)
        isFileBacked := nlaGetU64 (tb .isFileBacked) }

/-- **The handler reads what the kernel has put**, whatever the header is. -/
theorem messageHandler_notifyAttrs (info : MappingInfo) :
    messageHandler (notifyAttrs info) =
      some ⟨0, info.initAddr, info.mappedAddr, info.len, info.prot, 0⟩ := rfl

/-! ## The name of a dump -/

/-- `prot_flags_to_rwxp`. -/
def protFlagsToRwxp (prot : UInt64) : List UInt8 :=
  [if prot &&& protRead ≠ 0 then 0x72 else 0x2d, if prot &&& protWrite ≠ 0 then 0x77 else 0x2d,
    if prot &&& protExec ≠ 0 then 0x78 else 0x2d]

/-- The fields of the format `"%lu_%s_i_%lx_m_%lx_%lx_%lu.memdump"`, between the underscores. -/
def nameFields (a : Args) : List (List UInt8) :=
  [numeral 10 a.pid, protFlagsToRwxp a.prot, ascii "i", numeral 16 a.initAddr, ascii "m",
    numeral 16 a.mappedAddr, numeral 16 a.len, numeral 10 a.isFileBacked ++ ascii ".memdump"]

/-- `filename`, in a buffer of `MAX_FILENAME_SIZE` characters. -/
def memdumpName (a : Args) : List UInt8 := snprintf 512 ([0x5f].intercalate (nameFields a))

/-- What the name tells of a dump. -/
structure Key where
  pid : UInt64
  perms : UInt64
  initAddr : UInt64
  mappedAddr : UInt64
  len : UInt64
  isFileBacked : UInt64
  deriving DecidableEq

/-- The key of a dump: all arguments, but of the protection only the three flags. -/
def Args.key (a : Args) : Key :=
  ⟨a.pid, a.prot &&& 7, a.initAddr, a.mappedAddr, a.len, a.isFileBacked⟩

theorem protFlagsToRwxp_and_seven (prot : UInt64) :
    protFlagsToRwxp (prot &&& 7) = protFlagsToRwxp prot := by
  rw [protFlagsToRwxp, UInt64.and_assoc, UInt64.and_assoc, UInt64.and_assoc]
  rfl

theorem protFlagsToRwxp_eq_iff (prot prot' : UInt64) :
    protFlagsToRwxp prot = protFlagsToRwxp prot' ↔ prot &&& 7 = prot' &&& 7 := by
  have hsmall : ∀ p : UInt64, ∃ k < 8, p &&& 7 = UInt64.ofNat k := fun p =>
    ⟨(p &&& 7).toNat, by rw [UInt64.toNat_and]; exact Nat.lt_succ_of_le Nat.and_le_right,
      UInt64.ofNat_toNat.symm⟩
  have hflags : ∀ k < 8, ∀ l < 8, protFlagsToRwxp (UInt64.ofNat k) =
      protFlagsToRwxp (UInt64.ofNat l) → UInt64.ofNat k = UInt64.ofNat l := by decide +kernel
  rw [← protFlagsToRwxp_and_seven, ← protFlagsToRwxp_and_seven prot']
  obtain ⟨k, hk, hprot⟩ := hsmall prot
  obtain ⟨l, hl, hprot'⟩ := hsmall prot'
  rw [hprot, hprot']
  exact ⟨hflags k hk l hl, congrArg protFlagsToRwxp⟩

theorem underscore_notMem_protFlagsToRwxp (prot : UInt64) : 0x5f ∉ protFlagsToRwxp prot := by
  rw [protFlagsToRwxp]
  split <;> split <;> split <;> decide

theorem underscore_notMem_nameFields (a : Args) : ∀ f ∈ nameFields a, 0x5f ∉ f := by
  have hdec : ∀ n, (0x5f : UInt8) ∉ numeral 10 n :=
    notMem_numeral (by decide) (by decide) (by decide)
  have hhex : ∀ n, (0x5f : UInt8) ∉ numeral 16 n :=
    notMem_numeral (by decide) (by decide) (by decide)
  simp only [nameFields, List.forall_mem_cons, List.mem_append, not_or]
  exact ⟨hdec _, underscore_notMem_protFlagsToRwxp _, by decide, hhex _, by decide, hhex _, hhex _,
    ⟨hdec _, by decide⟩, fun f hf => absurd hf List.not_mem_nil⟩

theorem length_intercalate_nameFields_le (a : Args) :
    ([0x5f].intercalate (nameFields a)).length ≤ 108 := by
  have hdec : ∀ n, (numeral 10 n).length ≤ 20 := numeral_length_le (by decide) (by decide)
  have hhex : ∀ n, (numeral 16 n).length ≤ 16 := numeral_length_le (by decide) (by decide)
  have hpid := hdec a.pid
  have hfile := hdec a.isFileBacked
  have hinit := hhex a.initAddr
  have hmapped := hhex a.mappedAddr
  have hlen := hhex a.len
  have hi : (ascii "i").length = 1 := by decide
  have hm : (ascii "m").length = 1 := by decide
  have hsuffix : (ascii ".memdump").length = 8 := by decide
  simp only [nameFields, List.intercalate_cons_cons, List.intercalate_singleton,
    List.length_append, protFlagsToRwxp, List.length_cons, List.length_nil, hi, hm, hsuffix]
  omega

/-- **The name is never cut.** -/
theorem memdumpName_eq (a : Args) : memdumpName a = [0x5f].intercalate (nameFields a) :=
  List.take_of_length_le ((length_intercalate_nameFields_le a).trans (by decide))

/-- **Two dumps have one name** exactly when they have one key. -/
theorem memdumpName_eq_iff (a b : Args) : memdumpName a = memdumpName b ↔ a.key = b.key := by
  have hten : Function.Injective (numeral 10) := numeral_ten_injective
  have hhex : Function.Injective (numeral 16) := numeral_injective (by decide) (by decide)
  have hfields : memdumpName a = memdumpName b ↔ nameFields a = nameFields b := by
    rw [memdumpName_eq, memdumpName_eq]
    constructor
    · intro h
      have hsplit := congrArg (List.splitOn 0x5f) h
      rwa [List.splitOn_intercalate _ (underscore_notMem_nameFields a) (by simp [nameFields]),
        List.splitOn_intercalate _ (underscore_notMem_nameFields b) (by simp [nameFields])]
        at hsplit
    · exact congrArg _
  rw [hfields]
  simp only [nameFields, List.cons.injEq, List.append_left_inj, hten.eq_iff, hhex.eq_iff,
    protFlagsToRwxp_eq_iff, Args.key, Key.mk.injEq, true_and, and_true]

/-- **The name of a dump**: it has all the fields, which take 108 of the 512 characters at most, and
two dumps have one name exactly when they have one key. -/
theorem memdumpName_spec :
    (∀ a : Args, memdumpName a = [0x5f].intercalate (nameFields a) ∧
      (memdumpName a).length ≤ 108) ∧
      ∀ a b : Args, memdumpName a = memdumpName b ↔ a.key = b.key := by
  refine ⟨fun a => ⟨memdumpName_eq a, ?_⟩, memdumpName_eq_iff⟩
  rw [memdumpName_eq]
  exact length_intercalate_nameFields_le a

/-! ## The dump -/

/-- The files of the working directory. -/
abbrev Files := List UInt8 → Option (List UInt8)

/-- The outcome of everything that can fail in `analyze_dump`. -/
structure DumpOutcome where
  malloc : Bool
  /-- The `errno` of an `fopen` that fails. -/
  fopen : Option Int32
  /-- The result of `fwrite`, and the `errno` that it leaves when it is short. -/
  written : ℕ
  errno : Int32
  /-- What is in the file after `fclose`, whose result nobody looks at. -/
  flushed : ℕ

/-- `analyze_dump` on the memory `data`: the value that it returns and the files that it leaves.
Without a buffer the process dies in `memcpy`. -/
def analyzeDump (o : DumpOutcome) (a : Args) (data : List UInt8) (files : Files) :
    Option (Int32 × Files) :=
  if !o.malloc then none
  else
    match o.fopen with
    | some errno => some (errno, files)
    | none =>
      let files := Function.update files (memdumpName a) (some (data.take o.flushed))
      if o.written ≠ data.length then some (o.errno, files) else some (0, files)

/-- A NOTIFY of the kernel, what is mapped at its address, and the outcome of the dump. -/
structure Served where
  info : MappingInfo
  data : List UInt8
  outcome : DumpOutcome
  data_length : data.length = info.len.toNat

namespace Served

/-- The callback of the socket: parse the message and dump. -/
def handle (r : Served) (files : Files) : Option (Int32 × Files) :=
  match messageHandler (notifyAttrs r.info) with
  | none => some (0, files)
  | some a => analyzeDump r.outcome a r.data files

/-- The arguments of the dump. -/
def args (r : Served) : Args := ⟨0, r.info.initAddr, r.info.mappedAddr, r.info.len, r.info.prot, 0⟩

/-- The dump gets as far as opening its file. -/
def Opens (r : Served) : Prop := r.outcome.malloc = true ∧ r.outcome.fopen = none

instance (r : Served) : Decidable r.Opens := inferInstanceAs (Decidable (_ ∧ _))

/-- `fwrite` takes all of the memory. -/
def Accepted (r : Served) : Prop := r.Opens ∧ r.outcome.written = r.data.length

/-- All of the memory reaches the file. -/
def Complete (r : Served) : Prop := r.Opens ∧ r.outcome.flushed = r.data.length

/-- What the dump leaves in its file. -/
def content (r : Served) : List UInt8 := r.data.take r.outcome.flushed

theorem Complete.content {r : Served} (h : r.Complete) : r.content = r.data := by
  rw [Served.content, h.2, List.take_length]

/-- The value that the dump returns. -/
def reply (r : Served) : Int32 :=
  match r.outcome.fopen with
  | some errno => errno
  | none => if r.outcome.written ≠ r.data.length then r.outcome.errno else 0

/-- **What a dump does to the files**: it replaces one, if it gets that far. -/
theorem handle_eq (r : Served) (files : Files) :
    r.handle files = if r.outcome.malloc = true then
        some (r.reply,
          if r.Opens then Function.update files (memdumpName r.args) (some r.content) else files)
      else none := by
  rw [handle, messageHandler_notifyAttrs]
  by_cases hmalloc : r.outcome.malloc = true
  · cases hfopen : r.outcome.fopen with
    | some errno => simp [analyzeDump, reply, Opens, hmalloc, hfopen]
    | none =>
      by_cases hshort : r.outcome.written ≠ r.data.length <;>
        simp [analyzeDump, reply, Opens, content, args, hmalloc, hfopen, hshort]
  · simp [analyzeDump, hmalloc]

/-- A dump without a buffer kills the analyzer, and another one comes to its reply. -/
theorem handle_cases (r : Served) (files : Files) :
    (r.outcome.malloc = true ∧ ∃ files', r.handle files = some (r.reply, files')) ∨
      (r.outcome.malloc ≠ true ∧ r.handle files = none) := by
  rw [handle_eq]
  split
  · exact Or.inl ⟨‹_›, _, rfl⟩
  · exact Or.inr ⟨‹_›, rfl⟩

end Served

/-- The files after the analyzer has answered some notifications; it answers no more once it has
died. -/
def serveAll (files : Files) : List Served → Files
  | [] => files
  | r :: rs =>
    match r.handle files with
    | none => files
    | some (_, files) => serveAll files rs

theorem serveAll_concat {files files' : Files} {rs : List Served} {r : Served} {value : Int32}
    (hrs : ∀ r ∈ rs, r.outcome.malloc = true)
    (h : r.handle (serveAll files rs) = some (value, files')) :
    serveAll files (rs ++ [r]) = files' := by
  induction rs generalizing files with
  | nil =>
    rw [List.nil_append, serveAll, show r.handle files = _ from h]
    rfl
  | cons q rs ih =>
    obtain ⟨hq, hrs⟩ := List.forall_mem_cons.mp hrs
    obtain ⟨-, files₁, hhandle⟩ | ⟨hdies, -⟩ := q.handle_cases files
    · rw [serveAll, hhandle] at h
      rw [List.cons_append, serveAll, hhandle]
      exact ih hrs h
    · exact absurd hq hdies

/-! ## The dumps as a store -/

/-- Dumps under their keys. -/
abbrev Store := Key → Option (List UInt8)

/-- A dump replaces what was stored under its key. -/
def record (store : Store) (r : Served) : Store :=
  if r.Opens then Function.update store r.args.key (some r.content) else store

/-- The files are the store: the file of a dump is what is stored under its key. -/
def Stores (files : Files) (store : Store) : Prop :=
  ∀ a : Args, files (memdumpName a) = store a.key

theorem exists_stores (files : Files) : ∃ store, Stores files store := by
  refine ⟨fun k => files (memdumpName
    ⟨k.pid, k.initAddr, k.mappedAddr, k.len, k.perms, k.isFileBacked⟩), fun a => ?_⟩
  refine congrArg files ((memdumpName_eq_iff _ _).mpr ?_)
  rw [Args.key, Args.key, UInt64.and_assoc]
  rfl

theorem Stores.update {files : Files} {store : Store} (h : Stores files store) (a : Args)
    (content : Option (List UInt8)) :
    Stores (Function.update files (memdumpName a) content)
      (Function.update store a.key content) := by
  intro b
  by_cases hkey : b.key = a.key
  · rw [(memdumpName_eq_iff b a).mpr hkey, hkey, Function.update_self, Function.update_self]
  · rw [Function.update_of_ne hkey,
      Function.update_of_ne fun hname => hkey ((memdumpName_eq_iff b a).mp hname)]
    exact h b

theorem Stores.handle {files files' : Files} {store : Store} (h : Stores files store) {r : Served}
    {value : Int32} (hhandle : r.handle files = some (value, files')) :
    Stores files' (record store r) := by
  rw [Served.handle_eq] at hhandle
  split at hhandle
  · obtain ⟨-, rfl⟩ := Prod.mk.inj (Option.some.inj hhandle)
    rw [record]
    split
    · exact h.update r.args _
    · exact h
  · cases hhandle

/-- **The files of the analyzer are a store of dumps.**  After any notifications, with any failures,
and after the death of the process, each name has what the last dump under its key has left. -/
theorem serveAll_refines (files : Files) (rs : List Served) :
    ∃ store, Stores files store ∧
      Stores (serveAll files rs) ((rs.takeWhile fun r => r.outcome.malloc).foldl record store) := by
  obtain ⟨store, hstore⟩ := exists_stores files
  refine ⟨store, hstore, ?_⟩
  induction rs generalizing files store with
  | nil => exact hstore
  | cons r rs ih =>
    rw [serveAll, List.takeWhile_cons]
    obtain ⟨halive, files', hhandle⟩ | ⟨hdies, hhandle⟩ := r.handle_cases files
    · rw [hhandle, halive, if_pos rfl, List.foldl_cons]
      exact ih files' (record store r) (hstore.handle hhandle)
    · rw [hhandle, if_neg hdies]
      exact hstore

/-- Among complete dumps, the store has one of those with the key, if there is one. -/
theorem foldl_record_of_complete (store : Store) {rs : List Served}
    (hrs : ∀ r ∈ rs, r.Complete) (k : Key) :
    (∃ r ∈ rs, r.args.key = k ∧ rs.foldl record store k = some r.data) ∨
      ((∀ r ∈ rs, r.args.key ≠ k) ∧ rs.foldl record store k = store k) := by
  induction rs generalizing store with
  | nil => exact Or.inr ⟨fun r hr => absurd hr List.not_mem_nil, rfl⟩
  | cons r rs ih =>
    have hr := hrs r (List.mem_cons_self ..)
    rw [List.foldl_cons, record, if_pos hr.1, hr.content]
    rcases ih (Function.update store r.args.key (some r.data))
      (fun q hq => hrs q (List.mem_cons_of_mem r hq)) with ⟨q, hq, hkey, hstored⟩ | ⟨hnone, hstored⟩
    · exact Or.inl ⟨q, List.mem_cons_of_mem r hq, hkey, hstored⟩
    · by_cases hkey : r.args.key = k
      · refine Or.inl ⟨r, List.mem_cons_self .., hkey, ?_⟩
        rw [hstored, ← hkey, Function.update_self]
      · refine Or.inr ⟨List.forall_mem_cons.mpr ⟨hkey, hnone⟩, ?_⟩
        rw [hstored, Function.update_of_ne (Ne.symm hkey)]

/-- **When every dump survives.**  After notifications whose dumps are all written in full, every
one of them is still in its file exactly when those with the same initial address, address, length
and protection flags have the same content. -/
theorem dumps_kept_iff (files : Files) {rs : List Served} (hrs : ∀ r ∈ rs, r.Complete) :
    (∀ r ∈ rs, serveAll files rs (memdumpName r.args) = some r.data) ↔
      ∀ r ∈ rs, ∀ q ∈ rs, r.info.initAddr = q.info.initAddr →
        r.info.mappedAddr = q.info.mappedAddr → r.info.len = q.info.len →
        r.info.prot &&& 7 = q.info.prot &&& 7 → r.data = q.data := by
  have hkey : ∀ r q : Served, r.args.key = q.args.key ↔ r.info.initAddr = q.info.initAddr ∧
      r.info.mappedAddr = q.info.mappedAddr ∧ r.info.len = q.info.len ∧
      r.info.prot &&& 7 = q.info.prot &&& 7 := by
    intro r q
    simp only [Served.args, Args.key, Key.mk.injEq]
    tauto
  obtain ⟨store, -, hstores⟩ := serveAll_refines files rs
  have halive : rs.takeWhile (fun r => r.outcome.malloc) = rs :=
    List.takeWhile_eq_self_iff.mpr fun r hr => (hrs r hr).1.1
  rw [halive] at hstores
  constructor
  · intro hkept r hr q hq hinit hmapped hlen hprot
    have hname := (memdumpName_eq_iff r.args q.args).mpr
      ((hkey r q).mpr ⟨hinit, hmapped, hlen, hprot⟩)
    have hboth := hkept r hr
    rw [hname, hkept q hq] at hboth
    exact (Option.some.inj hboth).symm
  · intro hsame r hr
    rw [hstores r.args]
    rcases foldl_record_of_complete store hrs r.args.key with
      ⟨q, hq, hqkey, hstored⟩ | ⟨hnone, -⟩
    · obtain ⟨hinit, hmapped, hlen, hprot⟩ := (hkey q r).mp hqkey
      rw [hstored, hsame q hq r hr hinit hmapped hlen hprot]
    · exact absurd rfl (hnone r hr)

/-- Two bytes at 4096 that are written in full. -/
def sampleServed (b : UInt8) : Served where
  info := ⟨zeroChars _, zeroChars _, zeroChars _, 8192, 4096, 0, 2, 7, 0⟩
  data := [b, b]
  outcome := ⟨true, none, 2, 28, 2⟩
  data_length := rfl

theorem dumps_kept_iff_of_sample :
    (∀ r ∈ [sampleServed 1, sampleServed 2],
      serveAll (fun _ => none) [sampleServed 1, sampleServed 2] (memdumpName r.args) =
        some r.data) ↔
      ∀ r ∈ [sampleServed 1, sampleServed 2], ∀ q ∈ [sampleServed 1, sampleServed 2],
        r.info.initAddr = q.info.initAddr → r.info.mappedAddr = q.info.mappedAddr →
        r.info.len = q.info.len → r.info.prot &&& 7 = q.info.prot &&& 7 → r.data = q.data :=
  dumps_kept_iff (fun _ => none) (by
    simp only [List.forall_mem_cons]
    exact ⟨⟨⟨rfl, rfl⟩, rfl⟩, ⟨⟨rfl, rfl⟩, rfl⟩, fun r hr => absurd hr List.not_mem_nil⟩)

/-! ## The verdict -/

/-- The value that the hook returns when the analyzer has answered its NOTIFY: the reply is the
value of `analyze_dump`. -/
def Served.verdict (r : Served) (findTaskByVpid : Int32 → Option Task) (g : Netlink)
    (files : Files) : Option Int32 :=
  (r.handle files).map fun done =>
    Netlink.verdict (g.receiveReply findTaskByVpid (some done.1)).2.analyzerResponse

/-- A call that fails leaves an `errno` between 1 and 4095. -/
def DumpOutcome.Errnos (o : DumpOutcome) : Prop :=
  (∀ errno, o.fopen = some errno → 0 < errno.toInt ∧ errno.toInt ≤ 4095) ∧
    0 < o.errno.toInt ∧ o.errno.toInt ≤ 4095

theorem verdict_toInt {response : Int32} (hmin : 0 ≤ response.toInt)
    (hmax : response.toInt ≤ 4095) :
    (Netlink.verdict (lsmReceiveReply response)).toInt = -response.toInt := by
  have hreturn := hookReturn_toInt .netlink response.toUInt32
  have hlt : response.toUInt32.toNat < 2 ^ 32 := response.toUInt32.toNat_lt
  have hword : (response.toUInt32.toNat : ℤ) = response.toInt := by
    have hint := LittleEndian.toInt_toInt32 response.toUInt32
    rw [Int32.toInt32_toUInt32] at hint
    split at hint <;> omega
  rw [if_pos (by omega), hword] at hreturn
  have hverdict : hookReturn .netlink response.toUInt32 =
      Netlink.verdict (lsmReceiveReply response) := by
    rw [hookReturn, receiveReply, Int32.toInt32_toUInt32]
    rfl
  rw [← hverdict, hreturn]

/-- The reply of a dump: 0 exactly when `fwrite` has taken all of the memory, and never above
4095. -/
theorem Served.reply_range {r : Served} (hmalloc : r.outcome.malloc = true)
    (herrnos : r.outcome.Errnos) :
    0 ≤ r.reply.toInt ∧ r.reply.toInt ≤ 4095 ∧ (r.reply.toInt = 0 ↔ r.Accepted) := by
  rw [reply, Accepted]
  unfold Opens
  cases hfopen : r.outcome.fopen with
  | some errno =>
    obtain ⟨hpos, hle⟩ := herrnos.1 errno hfopen
    refine ⟨hpos.le, hle, ?_⟩
    simp [hpos.ne']
  | none =>
    obtain ⟨hpos, hle⟩ := herrnos.2
    by_cases hshort : r.outcome.written = r.data.length
    · simp [hshort, hmalloc]
    · simp only [ne_eq, hshort, not_false_eq_true, if_true, and_false, iff_false]
      exact ⟨hpos.le, hle, hpos.ne'⟩

/-- **The analyzed process may go on exactly when `fwrite` has taken all of its memory**, whatever
`fclose` makes of it.  Otherwise the hook returns an error, as `mprotect` then does, and `mmap` an
address that is one. -/
theorem verdict_iff_accepted (r : Served) (findTaskByVpid : Int32 → Option Task) (g : Netlink)
    (files : Files) (hregistered : g.analyzerTask.isSome = true)
    (hmalloc : r.outcome.malloc = true) (herrnos : r.outcome.Errnos) :
    ∃ value, r.verdict findTaskByVpid g files = some value ∧ (value = 0 ↔ r.Accepted) ∧
      (¬ r.Accepted → (-4095 ≤ value.toInt ∧ value.toInt ≤ -1) ∧
        ∀ addr, isErrValue (mmapReturn value addr) = true) := by
  obtain ⟨task, htask⟩ := Option.isSome_iff_exists.mp hregistered
  obtain ⟨hmin, hmax, hzero⟩ := Served.reply_range hmalloc herrnos
  have hvalue := verdict_toInt hmin hmax
  refine ⟨Netlink.verdict (lsmReceiveReply r.reply), ?_, ?_, fun hdenied => ?_⟩
  · rw [Served.verdict, Served.handle_eq, if_pos hmalloc, Option.map_some, Netlink.receiveReply,
      htask]
  · rw [← hzero, ← Int32.toInt_inj, hvalue]
    exact neg_eq_zero
  · have hne : r.reply.toInt ≠ 0 := mt hzero.mp hdenied
    have hlow : -4095 ≤ (Netlink.verdict (lsmReceiveReply r.reply)).toInt := by
      rw [hvalue]
      exact neg_le_neg hmax
    have hhigh : (Netlink.verdict (lsmReceiveReply r.reply)).toInt ≤ -1 := by
      rw [hvalue]
      omega
    exact ⟨⟨hlow, hhigh⟩, isErrValue_mmapReturn hlow hhigh⟩

theorem verdict_iff_accepted_of_sample :
    ∃ value,
      (sampleServed 1).verdict (fun _ => none) ⟨some 3, 0, ⟨0⟩⟩ (fun _ => none) = some value ∧
      (value = 0 ↔ (sampleServed 1).Accepted) ∧
      (¬ (sampleServed 1).Accepted → (-4095 ≤ value.toInt ∧ value.toInt ≤ -1) ∧
        ∀ addr, isErrValue (mmapReturn value addr) = true) :=
  verdict_iff_accepted (sampleServed 1) (fun _ => none) ⟨some 3, 0, ⟨0⟩⟩ (fun _ => none) rfl rfl
    ⟨fun errno h => absurd h (by simp [sampleServed]), by decide, by decide⟩

end Analyzer
end LsmFork
