import Mathlib.Data.Vector.Basic
import LsmFork.Lib.LittleEndian
import LsmFork.Lib.CString

/-!
# The mapping header on the wire

Kernel and server each declare a `struct mapping_info`: three character arrays and six unsigned
longs.  The kernel fills one with `set_mapping_info` and sends its memory image; the server receives
that many bytes over its own struct.  `MappingInfo.toBytes` is the image on the kernel's side,
`MappingInfo.ofBytes` the reading on the server's side, member by member at the offsets that the
server's declaration gives.  Both sides are little-endian LP64, and no member needs padding.

* `setMappingInfo`: the kernel function, on top of whatever the struct held before.
* `MappingInfo.ofBytes_toBytes`, `MappingInfo.toBytes_ofBytes`: the two readings are inverse.
* `Frame`: a header with the payload sent behind it.
-/

namespace LsmFork

open LittleEndian CString

/-- A C array of `n` characters. -/
abbrev Chars (n : ℕ) := List.Vector UInt8 n

/-- An array of zeros, as `memset(_, 0, n)` leaves it. -/
def zeroChars (n : ℕ) : Chars n := List.Vector.replicate n 0

/-- `TASK_COMM_LEN`. -/
abbrev taskCommLen : ℕ := 16

/-- `MAX_ARG_LEN`. -/
abbrev maxArgLen : ℕ := 128

/-- `MAX_ANON_NAME`. -/
abbrev maxAnonName : ℕ := 80

/-- `struct mapping_info`. -/
structure MappingInfo where
  name : Chars taskCommLen
  args : Chars maxArgLen
  anonName : Chars maxAnonName
  initAddr : UInt64
  /-- Over TCP, the offset of the payload in the mapping. -/
  mappedAddr : UInt64
  mappingLen : UInt64
  len : UInt64
  prot : UInt64
  isEndOfMapping : UInt64
  deriving DecidableEq

/-- `strncpy(info->anon_name, anon_name, MAX_ANON_NAME - 1)` and the terminator after it. -/
def setAnonName (old : Chars maxAnonName) (anonName : List UInt8) : Chars maxAnonName :=
  ⟨(strncpy old.toList anonName (maxAnonName - 1)).set (maxAnonName - 1) 0, by
    rw [List.length_set, strncpy_length _ (by simp [maxAnonName]), List.Vector.toList_length]⟩

/-- `set_mapping_info`.  The struct's old contents are an argument, since only `strncpy` decides
whether any of them survive; a null pointer is `none`. -/
def setMappingInfo (info : MappingInfo) (name : Option (Chars taskCommLen))
    (args : Option (Chars maxArgLen)) (anonName : Option (List UInt8))
    (initAddr mappedAddr mappingLen len prot isEndOfMapping : UInt64) : MappingInfo where
  initAddr := initAddr
  mappedAddr := mappedAddr
  mappingLen := mappingLen
  len := len
  prot := prot
  isEndOfMapping := isEndOfMapping
  name := name.getD (zeroChars taskCommLen)
  args := args.getD (zeroChars maxArgLen)
  anonName := match anonName with
    | some s => setAnonName info.anonName s
    | none => zeroChars maxAnonName

namespace MappingInfo

/-- `sizeof(struct mapping_info)`. -/
def size : ℕ := taskCommLen + maxArgLen + maxAnonName + 6 * 8

/-- The struct's memory image, member after member. -/
def toBytes (info : MappingInfo) : List UInt8 :=
  info.name.toList ++ info.args.toList ++ info.anonName.toList ++ le64 info.initAddr ++
    le64 info.mappedAddr ++ le64 info.mappingLen ++ le64 info.len ++ le64 info.prot ++
    le64 info.isEndOfMapping

/-- The `n` characters at offset `off` of a memory image. -/
def charsAt (n off : ℕ) (image : List UInt8) : Chars n :=
  ⟨(image.drop off).takeD n 0, List.takeD_length _ _ _⟩

/-- The unsigned long at offset `off` of a memory image. -/
def wordAt (off : ℕ) (image : List UInt8) : UInt64 := le64Value ((image.drop off).take 8)

/-- The server's struct over a received image. -/
def ofBytes (image : List UInt8) : MappingInfo where
  name := charsAt taskCommLen 0 image
  args := charsAt maxArgLen 16 image
  anonName := charsAt maxAnonName 144 image
  initAddr := wordAt 224 image
  mappedAddr := wordAt 232 image
  mappingLen := wordAt 240 image
  len := wordAt 248 image
  prot := wordAt 256 image
  isEndOfMapping := wordAt 264 image

@[simp] theorem toBytes_length (info : MappingInfo) : info.toBytes.length = size := by
  simp [toBytes, size, taskCommLen, maxArgLen, maxAnonName]

/-! ## Reading one member -/

theorem charsAt_append_left {n off : ℕ} {image rest : List UInt8}
    (h : off + n ≤ image.length) : charsAt n off (image ++ rest) = charsAt n off image := by
  apply Subtype.ext
  show ((image ++ rest).drop off).takeD n 0 = (image.drop off).takeD n 0
  have hdrop : n ≤ (image.drop off).length := by rw [List.length_drop]; omega
  rw [List.drop_append_of_le_length (by omega), List.takeD_eq_take _ hdrop,
    List.takeD_eq_take _ (by rw [List.length_append]; omega),
    List.take_append_of_le_length hdrop]

theorem charsAt_append_toList {n off : ℕ} {before : List UInt8} (v : Chars n)
    (h : before.length = off) : charsAt n off (before ++ v.toList) = v := by
  apply Subtype.ext
  show ((before ++ v.toList).drop off).takeD n 0 = v.toList
  rw [← h, List.drop_left, List.takeD_eq_take _ (by simp),
    List.take_of_length_le (by simp)]

theorem wordAt_append_left {off : ℕ} {image rest : List UInt8} (h : off + 8 ≤ image.length) :
    wordAt off (image ++ rest) = wordAt off image := by
  rw [wordAt, wordAt, List.drop_append_of_le_length (by omega),
    List.take_append_of_le_length (by rw [List.length_drop]; omega)]

theorem wordAt_append_le64 {off : ℕ} {before : List UInt8} (w : UInt64)
    (h : before.length = off) : wordAt off (before ++ le64 w) = w := by
  rw [wordAt, ← h, List.drop_left, List.take_of_length_le (by simp), le64Value_le64]

theorem charsAt_toList {n off : ℕ} {image : List UInt8} (h : off + n ≤ image.length) :
    (charsAt n off image).toList = (image.drop off).take n := by
  show (image.drop off).takeD n 0 = (image.drop off).take n
  exact List.takeD_eq_take _ (by rw [List.length_drop]; omega)

theorem le64_wordAt {off : ℕ} {image : List UInt8} (h : off + 8 ≤ image.length) :
    le64 (wordAt off image) = (image.drop off).take 8 :=
  le64_le64Value (by rw [List.length_take, List.length_drop]; omega)

/-- **The server reads what the kernel wrote.** -/
@[simp] theorem ofBytes_toBytes (info : MappingInfo) : ofBytes info.toBytes = info := by
  obtain ⟨name, args, anonName, initAddr, mappedAddr, mappingLen, len, prot, isEnd⟩ := info
  have hname : charsAt taskCommLen 0 ([] ++ name.toList) = name := charsAt_append_toList name rfl
  rw [List.nil_append] at hname
  simp (disch := simp [taskCommLen, maxArgLen, maxAnonName]) only
    [toBytes, ofBytes, charsAt_append_left, wordAt_append_left, hname, charsAt_append_toList,
      wordAt_append_le64]

/-- **Every image is the image of what the server reads in it.** -/
theorem toBytes_ofBytes {image : List UInt8} (h : image.length = size) :
    (ofBytes image).toBytes = image := by
  have hlen : image.length = 272 := h
  have hname : (charsAt taskCommLen 0 image).toList = image.take 16 := by
    rw [charsAt_toList (by simp [taskCommLen, hlen]), List.drop_zero]
  have hargs : (charsAt maxArgLen 16 image).toList = (image.drop 16).take 128 :=
    charsAt_toList (by simp [maxArgLen, hlen])
  have hanon : (charsAt maxAnonName 144 image).toList = (image.drop 144).take 80 :=
    charsAt_toList (by simp [maxAnonName, hlen])
  -- each member extends the part of the image that stands before it
  have hsplit : ∀ off n sum : ℕ, off + n = sum →
      image.take off ++ (image.drop off).take n = image.take sum := by
    rintro off n _ rfl
    exact List.take_add.symm
  simp only [toBytes, ofBytes]
  rw [hname, hargs, hanon, hsplit 16 128 144 rfl, hsplit 144 80 224 rfl,
    le64_wordAt (by rw [hlen]; omega), hsplit 224 8 232 rfl,
    le64_wordAt (by rw [hlen]; omega), hsplit 232 8 240 rfl,
    le64_wordAt (by rw [hlen]; omega), hsplit 240 8 248 rfl,
    le64_wordAt (by rw [hlen]; omega), hsplit 248 8 256 rfl,
    le64_wordAt (by rw [hlen]; omega), hsplit 256 8 264 rfl,
    le64_wordAt (by rw [hlen]), hsplit 264 8 272 rfl]
  exact List.take_of_length_le (by rw [hlen])

end MappingInfo

/-- What one mapping contributes to the socket at a time: a header and the payload behind it. -/
structure Frame where
  header : MappingInfo
  payload : List UInt8
  deriving DecidableEq

namespace Frame

/-- The bytes of a frame. -/
def toBytes (f : Frame) : List UInt8 := f.header.toBytes ++ f.payload

/-- The payload is as long as the header announces. -/
def Complete (f : Frame) : Prop := f.payload.length = f.header.len.toNat

/-- The bound check of the server on a complete frame, without 64-bit wrap: there is a mapping to
write into, and the payload lies inside it. -/
def Accepted (f : Frame) : Prop :=
  f.header.mappingLen ≠ 0 ∧
    (f.header.len = 0 ∨
      f.header.mappedAddr.toNat + f.header.len.toNat ≤ f.header.mappingLen.toNat)

/-- The frame closes its mapping. -/
def IsEnd (f : Frame) : Prop := f.header.isEndOfMapping = 1

instance (f : Frame) : Decidable f.Complete := inferInstanceAs (Decidable (_ = _))

instance (f : Frame) : Decidable f.Accepted := inferInstanceAs (Decidable (_ ∧ _))

instance (f : Frame) : Decidable f.IsEnd := inferInstanceAs (Decidable (_ = _))

theorem toBytes_length (f : Frame) : f.toBytes.length = MappingInfo.size + f.payload.length := by
  rw [toBytes, List.length_append, MappingInfo.toBytes_length]

end Frame
end LsmFork
