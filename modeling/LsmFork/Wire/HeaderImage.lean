import LsmFork.Lib.CStruct
import LsmFork.Wire.MappingInfo

/-!
# The header in memory

The kernel fills a `struct mapping_info` on an uninitialised stack slot, member by member and with
functions that copy, clear or cut.  A flush copies the struct twice more, into a local and into a
heap buffer, before it is sent; the server receives the bytes over a struct of its own declaration.
Here all of this is done on memory: each object starts with arbitrary bytes, and a store changes the
bytes it is for.  The result is the record that the collector's model sends, so every byte on the
wire has been written on the way, and the server finds each member where the kernel put it.

* `kernelStruct`, `serverStruct`: the two declarations.
* `Holds`: a memory holds a record, member by member; `Holds.store`, `Holds.copy`, `Holds.image`.
* `setMappingInfoMem`, `setMappingInfoMem_holds`: the kernel function, store by store.
* `HeaderInput`, `Batch`, `flushBytes`, `bpfBytes`: what the kernel puts on the wire.
* `serverInfo`, `recvInto`: what the server makes of it.
* `header_survives_wire`: the header is read back, and nothing else is on the wire.
-/

namespace LsmFork

open CStruct LittleEndian CString

/-! ## The declarations -/

/-- The members of `struct mapping_info`. -/
inductive InfoField where
  | name
  | args
  | anonName
  | initAddr
  | mappedAddr
  | mappingLen
  | len
  | prot
  | isEndOfMapping
  deriving DecidableEq

/-- `struct mapping_info` of the kernel. -/
def kernelStruct : Decl InfoField :=
  [(.name, .chars taskCommLen), (.args, .chars maxArgLen), (.anonName, .chars maxAnonName),
    (.initAddr, .ulong), (.mappedAddr, .ulong), (.mappingLen, .ulong), (.len, .ulong),
    (.prot, .ulong), (.isEndOfMapping, .ulong)]

/-- `struct mapping_info` of the server, with the server's own `TASK_COMM_LEN`, `MAX_ARG_LEN` and
`MAX_ANON_NAME`. -/
def serverStruct : Decl InfoField :=
  [(.name, .chars 16), (.args, .chars 128), (.anonName, .chars 80), (.initAddr, .ulong),
    (.mappedAddr, .ulong), (.mappingLen, .ulong), (.len, .ulong), (.prot, .ulong),
    (.isEndOfMapping, .ulong)]

/-- **The two declarations agree**, so each member has one offset and one size on both sides. -/
theorem serverStruct_eq : serverStruct = kernelStruct := rfl

theorem sizeof_kernelStruct : sizeof kernelStruct = MappingInfo.size := by decide

/-- **There is no padding** in the struct. -/
theorem noPadding_kernelStruct : NoPadding kernelStruct := by decide

theorem distinct_kernelStruct : Distinct kernelStruct := by decide

theorem mem_kernelStruct (f : InfoField) : f ∈ kernelStruct.map Prod.fst := by
  cases f <;> decide

/-! ## Records in memory -/

/-- The bytes of a member of a record. -/
def MappingInfo.member (info : MappingInfo) : InfoField → List UInt8
  | .name => info.name.toList
  | .args => info.args.toList
  | .anonName => info.anonName.toList
  | .initAddr => le64 info.initAddr
  | .mappedAddr => le64 info.mappedAddr
  | .mappingLen => le64 info.mappingLen
  | .len => le64 info.len
  | .prot => le64 info.prot
  | .isEndOfMapping => le64 info.isEndOfMapping

theorem member_length (info : MappingInfo) (f : InfoField) :
    (info.member f).length = fieldSize kernelStruct f := by
  cases f <;> simp [MappingInfo.member, fieldSize, kernelStruct, placeFrom, CType.size]

theorem toBytes_eq_flatMap (info : MappingInfo) :
    info.toBytes = kernelStruct.flatMap fun m => info.member m.1 := by
  simp [MappingInfo.toBytes, kernelStruct, MappingInfo.member]

/-- Each member of the memory is that of the record. -/
def Holds (mem : Mem) (info : MappingInfo) : Prop :=
  ∀ f, readField kernelStruct mem f = info.member f

section Holds

variable {mem : Mem} {info : MappingInfo}

theorem Holds.image (h : Holds mem info) : read mem 0 (sizeof kernelStruct) = info.toBytes := by
  rw [read_eq_flatMap mem distinct_kernelStruct noPadding_kernelStruct, toBytes_eq_flatMap]
  exact List.flatMap_congr fun m _ => h m.1

/-- **A store to one member** makes the record one that differs there alone. -/
theorem Holds.store (h : Holds mem info) (info' : MappingInfo) (f : InfoField)
    (hothers : ∀ g, g ≠ f → info'.member g = info.member g) :
    Holds (writeField kernelStruct mem f (info'.member f)) info' := by
  intro g
  rw [readField_writeField_eq mem (mem_kernelStruct f) (mem_kernelStruct g) (member_length info' f)]
  split
  · rename_i hgf
    rw [hgf]
  · rename_i hne
    rw [h g, hothers g hne]

theorem holds_writeFields (mem : Mem) (info : MappingInfo) {fs : List InfoField}
    (hall : ∀ f, f ∈ fs) : Holds (writeFields kernelStruct info.member mem fs) info := by
  intro f
  rw [readField_writeFields (member_length info) (fun f _ => mem_kernelStruct f)
    (mem_kernelStruct f), if_pos (hall f)]

/-- **A copy** holds what the original holds, whatever was there before. -/
theorem Holds.copy (h : Holds mem info) (old : Mem) :
    Holds (CStruct.copy old mem (sizeof kernelStruct)) info := by
  intro f
  rw [← h f]
  exact readField_copy old mem (mem_kernelStruct f)

end Holds

/-! ## The kernel functions on memory -/

/-- What `strncpy(dst, src, n)` stores. -/
def strncpyBytes (src : List UInt8) (n : ℕ) : List UInt8 := strncpy [] src n

/-- The `anon_name` block of `set_mapping_info`. -/
def setAnonNameMem (mem : Mem) (anonName : Option (List UInt8)) : Mem :=
  match anonName with
  | some s =>
    let copied := write mem (offset kernelStruct .anonName) (strncpyBytes s (maxAnonName - 1))
    write copied (offset kernelStruct .anonName + (maxAnonName - 1)) [0]
  | none => writeField kernelStruct mem .anonName (List.replicate maxAnonName 0)

/-- `set_mapping_info`, store by store. -/
def setMappingInfoMem (mem : Mem) (name : Option (Chars taskCommLen))
    (args : Option (Chars maxArgLen)) (anonName : Option (List UInt8))
    (initAddr mappedAddr mappingLen len prot isEndOfMapping : UInt64) : Mem :=
  let mem := writeField kernelStruct mem .initAddr (le64 initAddr)
  let mem := writeField kernelStruct mem .mappedAddr (le64 mappedAddr)
  let mem := writeField kernelStruct mem .mappingLen (le64 mappingLen)
  let mem := writeField kernelStruct mem .len (le64 len)
  let mem := writeField kernelStruct mem .prot (le64 prot)
  let mem := writeField kernelStruct mem .isEndOfMapping (le64 isEndOfMapping)
  let mem := match name with
    | some name => writeField kernelStruct mem .name name.toList
    | none => writeField kernelStruct mem .name (List.replicate taskCommLen 0)
  let mem := match args with
    | some args => writeField kernelStruct mem .args args.toList
    | none => writeField kernelStruct mem .args (List.replicate maxArgLen 0)
  setAnonNameMem mem anonName

/-- The `anon_name` member that belongs to a name: its first 79 bytes, and zeros from there on. -/
def anonField (anonName : Option (List UInt8)) : Chars maxAnonName :=
  match anonName with
  | some s => ⟨(cstr s).take (maxAnonName - 1) ++
      List.replicate (maxAnonName - ((cstr s).take (maxAnonName - 1)).length) 0, by
    have hle := List.length_take_le (maxAnonName - 1) (cstr s)
    rw [List.length_append, List.length_replicate]
    have : maxAnonName = 80 := rfl
    omega⟩
  | none => zeroChars maxAnonName

/-- **The name is cut to 79 bytes**, and a NUL ends it. -/
theorem cstr_anonField (s : List UInt8) :
    cstr (anonField (some s)).toList = (cstr s).take (maxAnonName - 1) := by
  have hle := List.length_take_le (maxAnonName - 1) (cstr s)
  have hmax : maxAnonName = 80 := rfl
  obtain ⟨k, hk⟩ : ∃ k, maxAnonName - ((cstr s).take (maxAnonName - 1)).length = k + 1 :=
    ⟨79 - ((cstr s).take (maxAnonName - 1)).length, by omega⟩
  show cstr ((cstr s).take (maxAnonName - 1) ++
    List.replicate (maxAnonName - ((cstr s).take (maxAnonName - 1)).length) 0) = _
  rw [hk, List.replicate_succ]
  exact cstr_append_zero (fun h => zero_notMem_cstr s (List.mem_of_mem_take h)) _

/-- What `strncpy` and the terminator store. -/
theorem strncpyBytes_append_zero (s : List UInt8) :
    strncpyBytes s (maxAnonName - 1) ++ [0] = (anonField (some s)).toList := by
  have hmax : maxAnonName = 80 := rfl
  have hzeros : maxAnonName - ((cstr s).take (maxAnonName - 1)).length =
      maxAnonName - 1 - (cstr s).length + 1 := by
    rw [List.length_take]
    omega
  show strncpy [] s (maxAnonName - 1) ++ [0] = (cstr s).take (maxAnonName - 1) ++
    List.replicate (maxAnonName - ((cstr s).take (maxAnonName - 1)).length) 0
  rw [hzeros, strncpy, List.drop_nil, List.append_nil, List.append_assoc, List.replicate_succ']

theorem strncpyBytes_length (s : List UInt8) :
    (strncpyBytes s (maxAnonName - 1)).length = maxAnonName - 1 := by
  have hall := congrArg List.length (strncpyBytes_append_zero s)
  rw [List.length_append, List.Vector.toList_length] at hall
  exact Nat.succ.inj hall

/-- The two stores of a name, or the one that clears the member, are one store. -/
theorem setAnonNameMem_eq (mem : Mem) (anonName : Option (List UInt8)) :
    setAnonNameMem mem anonName =
      writeField kernelStruct mem .anonName (anonField anonName).toList := by
  cases anonName with
  | none => rfl
  | some s =>
    have hone := write_append mem (offset kernelStruct .anonName)
      (strncpyBytes s (maxAnonName - 1)) [0]
    rw [strncpyBytes_length, strncpyBytes_append_zero] at hone
    exact hone

/-- The collector's record has the same member, on top of any old one. -/
theorem setAnonName_eq (old : Chars maxAnonName) (s : List UInt8) :
    setAnonName old s = anonField (some s) := by
  apply Subtype.ext
  show (strncpy old.toList s (maxAnonName - 1)).set (maxAnonName - 1) 0 =
    (anonField (some s)).toList
  obtain ⟨b, hb⟩ : ∃ b, old.toList.drop (maxAnonName - 1) = [b] := by
    apply List.length_eq_one_iff.mp
    rw [List.length_drop, List.Vector.toList_length]
    rfl
  have hsplit : strncpy old.toList s (maxAnonName - 1) =
      strncpyBytes s (maxAnonName - 1) ++ [b] := by
    rw [strncpyBytes, strncpy, strncpy, List.drop_nil, List.append_nil, hb]
  have hlen := strncpyBytes_length s
  rw [hsplit, ← strncpyBytes_append_zero, List.set_append_right _ _ hlen.le, hlen, Nat.sub_self]
  rfl

/-- **The record that `set_mapping_info` leaves** has nothing of the old one. -/
theorem setMappingInfo_eq (info : MappingInfo) (name : Option (Chars taskCommLen))
    (args : Option (Chars maxArgLen)) (anonName : Option (List UInt8))
    (initAddr mappedAddr mappingLen len prot isEndOfMapping : UInt64) :
    setMappingInfo info name args anonName initAddr mappedAddr mappingLen len prot isEndOfMapping =
      { name := name.getD (zeroChars taskCommLen)
        args := args.getD (zeroChars maxArgLen)
        anonName := anonField anonName
        initAddr, mappedAddr, mappingLen, len, prot, isEndOfMapping } := by
  cases anonName with
  | none => rfl
  | some s =>
    rw [setMappingInfo, setAnonName_eq]

/-- **The memory that `set_mapping_info` leaves** holds that record, whatever was there before. -/
theorem setMappingInfoMem_holds (mem : Mem) (info : MappingInfo) (name : Option (Chars taskCommLen))
    (args : Option (Chars maxArgLen)) (anonName : Option (List UInt8))
    (initAddr mappedAddr mappingLen len prot isEndOfMapping : UInt64) :
    Holds
      (setMappingInfoMem mem name args anonName initAddr mappedAddr mappingLen len prot
        isEndOfMapping)
      (setMappingInfo info name args anonName initAddr mappedAddr mappingLen len prot
        isEndOfMapping) := by
  rw [setMappingInfo_eq]
  generalize hrecord : ({
    name := name.getD (zeroChars taskCommLen)
    args := args.getD (zeroChars maxArgLen)
    anonName := anonField anonName
    initAddr, mappedAddr, mappingLen, len, prot, isEndOfMapping } : MappingInfo) = record
  -- the stores in the order of the source
  have hstores : setMappingInfoMem mem name args anonName initAddr mappedAddr mappingLen len prot
      isEndOfMapping = writeFields kernelStruct record.member mem
        [.initAddr, .mappedAddr, .mappingLen, .len, .prot, .isEndOfMapping, .name, .args,
          .anonName] := by
    subst hrecord
    cases name <;> cases args <;> exact setAnonNameMem_eq _ anonName
  rw [hstores]
  exact holds_writeFields mem record fun f => by cases f <;> decide

/-! ## What the kernel puts on the wire -/

/-- The arguments of `set_mapping_info`. -/
structure HeaderInput where
  name : Option (Chars taskCommLen)
  args : Option (Chars maxArgLen)
  anonName : Option (List UInt8)
  initAddr : UInt64
  mappedAddr : UInt64
  mappingLen : UInt64
  len : UInt64
  prot : UInt64
  isEndOfMapping : UInt64

namespace HeaderInput

/-- The stack slot `info` after `set_mapping_info`. -/
def fill (i : HeaderInput) (stack : Mem) : Mem :=
  setMappingInfoMem stack i.name i.args i.anonName i.initAddr i.mappedAddr i.mappingLen i.len i.prot
    i.isEndOfMapping

/-- The record that is meant. -/
def header (i : HeaderInput) : MappingInfo where
  name := i.name.getD (zeroChars taskCommLen)
  args := i.args.getD (zeroChars maxArgLen)
  anonName := anonField i.anonName
  initAddr := i.initAddr
  mappedAddr := i.mappedAddr
  mappingLen := i.mappingLen
  len := i.len
  prot := i.prot
  isEndOfMapping := i.isEndOfMapping

theorem fill_holds (i : HeaderInput) (stack : Mem) : Holds (i.fill stack) i.header := by
  have hholds := setMappingInfoMem_holds stack i.header i.name i.args i.anonName i.initAddr
    i.mappedAddr i.mappingLen i.len i.prot i.isEndOfMapping
  rw [setMappingInfo_eq] at hholds
  exact hholds

end HeaderInput

/-- What the walk has done to `*ctx->info`, and how much it has collected, when a flush comes. -/
structure Batch where
  /-- What `collect_pages` has stored in `mapped_addr`, in order. -/
  offsets : List UInt64
  /-- The walk is over, and `is_end_of_mapping` has been set. -/
  ended : Bool
  dataLen : UInt64

namespace Batch

/-- The stores to `*ctx->info` before the flush. -/
def stores (b : Batch) (info : Mem) : Mem :=
  let info := b.offsets.foldl
    (fun info m => writeField kernelStruct info .mappedAddr (le64 m)) info
  if b.ended then writeField kernelStruct info .isEndOfMapping (le64 1) else info

/-- The record that the flush is meant to send. -/
def header (b : Batch) (info : MappingInfo) : MappingInfo :=
  { info with
    mappedAddr := b.offsets.getLast?.getD info.mappedAddr
    len := b.dataLen
    isEndOfMapping := if b.ended then 1 else info.isEndOfMapping }

end Batch

theorem Holds.setMappedAddr {mem : Mem} {info : MappingInfo} (h : Holds mem info) (m : UInt64) :
    Holds (writeField kernelStruct mem .mappedAddr (le64 m)) { info with mappedAddr := m } :=
  h.store { info with mappedAddr := m } .mappedAddr fun g hg => by
    cases g with
    | mappedAddr => exact absurd rfl hg
    | _ => rfl

theorem Holds.setIsEndOfMapping {mem : Mem} {info : MappingInfo} (h : Holds mem info)
    (e : UInt64) :
    Holds (writeField kernelStruct mem .isEndOfMapping (le64 e))
      { info with isEndOfMapping := e } :=
  h.store { info with isEndOfMapping := e } .isEndOfMapping fun g hg => by
    cases g with
    | isEndOfMapping => exact absurd rfl hg
    | _ => rfl

theorem Holds.setLen {mem : Mem} {info : MappingInfo} (h : Holds mem info) (n : UInt64) :
    Holds (writeField kernelStruct mem .len (le64 n)) { info with len := n } :=
  h.store { info with len := n } .len fun g hg => by
    cases g with
    | len => exact absurd rfl hg
    | _ => rfl

theorem Holds.setOffsets {mem : Mem} {info : MappingInfo} (h : Holds mem info)
    (offsets : List UInt64) :
    Holds (offsets.foldl (fun mem m => writeField kernelStruct mem .mappedAddr (le64 m)) mem)
      { info with mappedAddr := offsets.getLast?.getD info.mappedAddr } := by
  induction offsets generalizing mem info with
  | nil => exact h
  | cons m offsets ih =>
    rw [List.getLast?_cons, Option.getD_some]
    exact ih (h.setMappedAddr m)

/-- `flush_accumulated_pages` up to the send: the struct is copied into a local, `len` is set, and
the local is copied into the buffer. -/
def flushHeaderMem (info copy buf : Mem) (dataLen : UInt64) : Mem :=
  let copy := CStruct.copy copy info (sizeof kernelStruct)
  let copy := writeField kernelStruct copy .len (le64 dataLen)
  CStruct.copy buf copy (sizeof kernelStruct)

/-- **The buffer of a flush** holds the record with the length set. -/
theorem Holds.flushHeaderMem {mem : Mem} {info : MappingInfo} (h : Holds mem info)
    (copy buf : Mem) (dataLen : UInt64) :
    Holds (flushHeaderMem mem copy buf dataLen) { info with len := dataLen } :=
  ((h.copy copy).setLen dataLen).copy buf

/-- The memory that a header passes through, with its old contents: the caller's `info`, and the
local and the buffer of the flush. -/
structure OldMemory where
  stack : Mem
  copy : Mem
  buf : Mem

/-- The bytes that `flush_accumulated_pages` sends for a header. -/
def flushBytes (old : OldMemory) (i : HeaderInput) (b : Batch) : List UInt8 :=
  read (flushHeaderMem (b.stores (i.fill old.stack)) old.copy old.buf b.dataLen) 0
    (sizeof kernelStruct)

/-- The bytes that `send_bpf_data_tcp` sends for a header. -/
def bpfBytes (stack : Mem) (i : HeaderInput) : List UInt8 :=
  read (i.fill stack) 0 (sizeof kernelStruct)

theorem flushBytes_eq (old : OldMemory) (i : HeaderInput) (b : Batch) :
    flushBytes old i b = (b.header i.header).toBytes := by
  have hstores : Holds (b.stores (i.fill old.stack)) { i.header with
      mappedAddr := b.offsets.getLast?.getD i.header.mappedAddr
      isEndOfMapping := if b.ended then 1 else i.header.isEndOfMapping } := by
    have hoffsets := (i.fill_holds old.stack).setOffsets b.offsets
    rw [Batch.stores]
    cases b.ended with
    | false => exact hoffsets
    | true => exact hoffsets.setIsEndOfMapping 1
  exact (hstores.flushHeaderMem old.copy old.buf b.dataLen).image

theorem bpfBytes_eq (stack : Mem) (i : HeaderInput) : bpfBytes stack i = i.header.toBytes :=
  (i.fill_holds stack).image

/-! ## What the server makes of it -/

/-- A character array of the server's struct. -/
def serverChars (mem : Mem) (f : InfoField) {n : ℕ} (h : fieldSize serverStruct f = n) : Chars n :=
  ⟨readField serverStruct mem f, (readField_length _ _ _).trans h⟩

/-- The server's struct, read as a record. -/
def serverInfo (mem : Mem) : MappingInfo where
  name := serverChars mem .name rfl
  args := serverChars mem .args rfl
  anonName := serverChars mem .anonName rfl
  initAddr := le64Value (readField serverStruct mem .initAddr)
  mappedAddr := le64Value (readField serverStruct mem .mappedAddr)
  mappingLen := le64Value (readField serverStruct mem .mappingLen)
  len := le64Value (readField serverStruct mem .len)
  prot := le64Value (readField serverStruct mem .prot)
  isEndOfMapping := le64Value (readField serverStruct mem .isEndOfMapping)

/-- What each `recv` returns is stored at `(char *)&info + total_read`. -/
def recvInto (mem : Mem) (totalRead : ℕ) : List (List UInt8) → Mem
  | [] => mem
  | chunk :: chunks => recvInto (write mem totalRead chunk) (totalRead + chunk.length) chunks

theorem recvInto_eq (mem : Mem) (totalRead : ℕ) (chunks : List (List UInt8)) :
    recvInto mem totalRead chunks = write mem totalRead chunks.flatten := by
  induction chunks generalizing mem totalRead with
  | nil =>
    funext a
    simp [recvInto, write]
  | cons chunk chunks ih => rw [recvInto, ih, write_append, List.flatten_cons]

theorem holds_write_toBytes (old : Mem) (info : MappingInfo) :
    Holds (write old 0 info.toBytes) info := by
  have hsrc : Holds (writeFields kernelStruct info.member old (kernelStruct.map Prod.fst)) info :=
    holds_writeFields old info mem_kernelStruct
  rw [← hsrc.image]
  exact hsrc.copy old

/-- **The server reads the record** that its memory holds. -/
theorem Holds.serverInfo {mem : Mem} {info : MappingInfo} (h : Holds mem info) :
    serverInfo mem = info := by
  have hchars : ∀ {n : ℕ} (f : InfoField) (hsize : fieldSize serverStruct f = n) (v : Chars n),
      info.member f = v.toList → serverChars mem f hsize = v :=
    fun f hsize v hv => Subtype.ext ((h f).trans hv)
  have hword : ∀ (f : InfoField) (w : UInt64), info.member f = le64 w →
      le64Value (readField serverStruct mem f) = w := by
    intro f w hw
    rw [serverStruct_eq, h f, hw, le64Value_le64]
  obtain ⟨name, args, anonName, initAddr, mappedAddr, mappingLen, len, prot, isEnd⟩ := info
  simp only [LsmFork.serverInfo, MappingInfo.mk.injEq]
  exact ⟨hchars .name rfl name rfl, hchars .args rfl args rfl, hchars .anonName rfl anonName rfl,
    hword .initAddr initAddr rfl, hword .mappedAddr mappedAddr rfl,
    hword .mappingLen mappingLen rfl, hword .len len rfl, hword .prot prot rfl,
    hword .isEndOfMapping isEnd rfl⟩

/-- The receive loop's reading of a header is the reading of the server's struct. -/
theorem serverInfo_write (old : Mem) {image : List UInt8} (h : image.length = MappingInfo.size) :
    serverInfo (write old 0 image) = MappingInfo.ofBytes image := by
  have hholds := holds_write_toBytes old (MappingInfo.ofBytes image)
  rw [MappingInfo.toBytes_ofBytes h] at hholds
  exact hholds.serverInfo

theorem serverInfo_recvInto (server : Mem) {chunks : List (List UInt8)} {info : MappingInfo}
    (h : chunks.flatten = info.toBytes) : serverInfo (recvInto server 0 chunks) = info := by
  rw [recvInto_eq, h]
  exact (holds_write_toBytes server info).serverInfo

/-- **The header survives the wire and carries nothing else.**  Whatever the memory on both sides
held before and however TCP cuts the bytes, the server reads the record that the kernel was given,
with the batch's offset, length and end flag; and the bytes do not depend on the old contents. -/
theorem header_survives_wire (i : HeaderInput) (b : Batch) :
    (∀ (old : OldMemory) (server : Mem) (chunks : List (List UInt8)),
      chunks.flatten = flushBytes old i b → serverInfo (recvInto server 0 chunks) =
        { name := i.name.getD (zeroChars taskCommLen)
          args := i.args.getD (zeroChars maxArgLen)
          anonName := anonField i.anonName
          initAddr := i.initAddr
          mappedAddr := b.offsets.getLast?.getD i.mappedAddr
          mappingLen := i.mappingLen
          len := b.dataLen
          prot := i.prot
          isEndOfMapping := if b.ended then 1 else i.isEndOfMapping }) ∧
    (∀ (stack server : Mem) (chunks : List (List UInt8)),
      chunks.flatten = bpfBytes stack i → serverInfo (recvInto server 0 chunks) = i.header) ∧
    (∀ old old' : OldMemory, flushBytes old i b = flushBytes old' i b) ∧
    (∀ stack stack' : Mem, bpfBytes stack i = bpfBytes stack' i) ∧
    ∀ (old : OldMemory) (stack : Mem), (flushBytes old i b).length = sizeof serverStruct ∧
      (bpfBytes stack i).length = sizeof serverStruct := by
  refine ⟨fun old server chunks h => ?_, fun stack server chunks h => ?_, fun old old' => ?_,
    fun stack stack' => ?_, fun old stack => ⟨read_length _ _ _, read_length _ _ _⟩⟩
  · rw [flushBytes_eq] at h
    exact serverInfo_recvInto server h
  · rw [bpfBytes_eq] at h
    exact serverInfo_recvInto server h
  · rw [flushBytes_eq, flushBytes_eq]
  · rw [bpfBytes_eq, bpfBytes_eq]

/-- The header of a heap mapping of two pages. -/
def sampleHeader : HeaderInput where
  name := some (zeroChars taskCommLen)
  args := none
  anonName := some (ascii "heap")
  initAddr := 4096
  mappedAddr := 0
  mappingLen := 8192
  len := 0
  prot := 3
  isEndOfMapping := 0

/-- Its last flush, with the second page, over memory full of ones. -/
theorem header_survives_sample :
    serverInfo (recvInto (fun _ => 0xff) 0
        [flushBytes ⟨fun _ => 0xff, fun _ => 0xff, fun _ => 0xff⟩ sampleHeader
          ⟨[0, 4096], true, 4096⟩]) =
      { name := zeroChars taskCommLen
        args := zeroChars maxArgLen
        anonName := anonField (some (ascii "heap"))
        initAddr := 4096
        mappedAddr := 4096
        mappingLen := 8192
        len := 4096
        prot := 3
        isEndOfMapping := 1 } :=
  (header_survives_wire sampleHeader ⟨[0, 4096], true, 4096⟩).1 _ _ _ (List.append_nil _)

end LsmFork
