import LsmFork.Lib.CStruct
import LsmFork.Lib.Ring

/-!
# The perf ring buffer

The measurements of the hooks go through a ring buffer of `PERFBUF_SIZE` bytes to a character
device.  `perfchar_write` puts a record behind what has not been read and `perfchar_read` takes
bytes from its front, each in two parts where it runs over the end of the buffer.  Both places are
kept below `PERFBUF_SIZE`, and equal places mean that there is nothing to read.

As long as no write fills the buffer, it is a queue.  A write that fills it exactly moves the tail
over the oldest bytes.  A write that goes beyond that moves the head past the tail, where the test
for equal places does not see it, and what is left to read is the end of the record alone.

* `PerfBuffer`, `perfcharRead`, `perfcharWrite`: the buffer, and the two functions.
* `unread`: what has been written and not been read.
* `PerfOp`, `PerfOp.next`: the calls, with the outcomes of the copies to the user.
* `perfBuffer_fifo`: a run in which each write finds room.
* `keepsRecord_iff`: a write into any buffer.
-/

namespace LsmFork

open CStruct RingBlocks Runs

/-- `PERFBUF_SIZE`. -/
def perfbufSize : ℕ := 40960

/-- `-EFAULT`. -/
def eFault : ℤ := -14

/-- `perf_buffer`, `perf_buf_head` and `perf_buf_tail`. -/
structure PerfBuffer where
  buffer : Mem
  head : ℕ
  tail : ℕ

/-- The buffer that `init_char_device` allocates. -/
def PerfBuffer.start : PerfBuffer := ⟨fun _ => 0, 0, 0⟩

/-- A `memcpy` into the buffer or a `copy_to_user` out of it: the offset there, the offset in the
caller's memory, the number of bytes, and how many of them have not been copied. -/
structure PerfCopy where
  off : ℕ
  callerOff : ℕ
  n : ℕ
  notCopied : ℕ
  deriving DecidableEq

/-- The copy stays inside the buffer, and inside the memory of a caller who has `len` bytes. -/
def PerfCopy.Inside (c : PerfCopy) (len : ℕ) : Prop :=
  c.off + c.n ≤ perfbufSize ∧ c.callerOff + c.n ≤ len

/-- `copy_to_user`: the memory of the user after it. -/
def copyToUser (user buffer : Mem) (c : PerfCopy) : Mem :=
  write user c.callerOff ((read buffer c.off c.n).take (c.n - c.notCopied))

/-- What a read returns, what it leaves in the user's memory, and its copies. -/
structure PerfRead where
  ret : ℤ
  user : Mem
  copies : List PerfCopy

/-! ## The functions of the source -/

/-- `perfchar_read`.  `first` and `second` are the numbers of bytes that the copies to the user
leave out, zero for a copy that succeeds. -/
def perfcharRead (len : ℕ) (user : Mem) (first second : ℕ) (s : PerfBuffer) :
    PerfBuffer × PerfRead :=
  if s.head = s.tail then (s, ⟨0, user, []⟩)
  else
    let availableData :=
      if s.tail ≤ s.head then s.head - s.tail else perfbufSize - s.tail + s.head
    let len := if availableData < len then availableData else len
    if s.tail + len ≤ perfbufSize then
      let copy : PerfCopy := ⟨s.tail, 0, len, first⟩
      let user := copyToUser user s.buffer copy
      if first ≠ 0 then (s, ⟨eFault, user, [copy]⟩)
      else ({ s with tail := (s.tail + len) % perfbufSize }, ⟨len, user, [copy]⟩)
    else
      let firstPart := perfbufSize - s.tail
      let secondPart := len - firstPart
      let copy : PerfCopy := ⟨s.tail, 0, firstPart, first⟩
      let user := copyToUser user s.buffer copy
      if first ≠ 0 then (s, ⟨eFault, user, [copy]⟩)
      else
        let copy' : PerfCopy := ⟨0, firstPart, secondPart, second⟩
        let user := copyToUser user s.buffer copy'
        if second ≠ 0 then (s, ⟨eFault, user, [copy, copy']⟩)
        else ({ s with tail := secondPart }, ⟨len, user, [copy, copy']⟩)

/-- The part of `perfchar_write` that stores the data. -/
def storeData (data : List UInt8) (s : PerfBuffer) : PerfBuffer × List PerfCopy :=
  let len := data.length
  if s.head + len ≤ perfbufSize then
    ({ s with buffer := write s.buffer s.head data, head := (s.head + len) % perfbufSize },
      [⟨s.head, 0, len, 0⟩])
  else
    let firstPart := perfbufSize - s.head
    let secondPart := len - firstPart
    ({ s with
        buffer := write (write s.buffer s.head (data.take firstPart)) 0 (data.drop firstPart)
        head := secondPart },
      [⟨s.head, 0, firstPart, 0⟩, ⟨0, firstPart, secondPart, 0⟩])

/-- `perfchar_write`: the data is stored, and old data gives way if the buffer is full. -/
def perfcharWrite (data : List UInt8) (s : PerfBuffer) : PerfBuffer × List PerfCopy :=
  let stored := storeData data s
  (if stored.1.head = stored.1.tail then
      { stored.1 with tail := (stored.1.tail + data.length) % perfbufSize }
    else stored.1,
    stored.2)

/-! ## What the buffer holds -/

namespace PerfBuffer

/-- The bytes that have been written and not been read. -/
def unread (s : PerfBuffer) : List UInt8 :=
  items perfbufSize s.buffer s.tail (ahead perfbufSize s.head s.tail)

/-- Both places are places of the buffer. -/
structure InBounds (s : PerfBuffer) : Prop where
  head : s.head < perfbufSize
  tail : s.tail < perfbufSize

/-- A copy of a read fails: the first one, or the second one of a read over the end of the
buffer. -/
def ReadFails (s : PerfBuffer) (len first second : ℕ) : Prop :=
  s.unread ≠ [] ∧
    (first ≠ 0 ∨ (perfbufSize < s.tail + min len s.unread.length ∧ second ≠ 0))

theorem inBounds_start : InBounds start := ⟨by decide, by decide⟩

@[simp] theorem unread_length (s : PerfBuffer) :
    s.unread.length = ahead perfbufSize s.head s.tail := items_length _ _ _

theorem unread_length_lt {s : PerfBuffer} (h : s.InBounds) : s.unread.length < perfbufSize := by
  rw [unread_length]
  exact ahead_lt h.head h.tail

end PerfBuffer

theorem perfbufSize_pos : 0 < perfbufSize := by decide

open PerfBuffer

variable {s : PerfBuffer} {data : List UInt8}

/-! ## Writing -/

theorem puts_write {mem : Mem} {off : ℕ} {bs : List UInt8} (h : off + bs.length ≤ perfbufSize) :
    Puts perfbufSize mem off bs (write mem off bs) where
  there := by
    rw [items_of_le h]
    exact read_write mem off bs
  elsewhere a ha hne := by
    rw [write]
    split
    · refine List.getD_eq_default _ _ (not_lt.mp fun hlt => ?_)
      refine hne (a - off) hlt ?_
      rw [Nat.mod_eq_of_lt (by omega)]
      omega
    · rfl

/-- **What the data is stored as**: a block of the ring, and the head behind it. -/
theorem storeData_spec (h : s.InBounds) (hlen : data.length ≤ perfbufSize) :
    Puts perfbufSize s.buffer s.head data (storeData data s).1.buffer ∧
      (storeData data s).1.head = (s.head + data.length) % perfbufSize ∧
      (storeData data s).1.tail = s.tail ∧
      ∀ c ∈ (storeData data s).2, c.Inside data.length := by
  have hhead := h.head
  unfold storeData
  by_cases hfits : s.head + data.length ≤ perfbufSize
  · rw [if_pos hfits]
    refine ⟨puts_write hfits, rfl, rfl, fun c hc => ?_⟩
    rw [List.mem_singleton.mp hc]
    exact ⟨hfits, by simp⟩
  · rw [if_neg hfits]
    have hover : perfbufSize < s.head + data.length := not_le.mp hfits
    have htake : (data.take (perfbufSize - s.head)).length = perfbufSize - s.head := by
      rw [List.length_take]
      omega
    have hdrop : (data.drop (perfbufSize - s.head)).length =
        data.length - (perfbufSize - s.head) := List.length_drop
    refine ⟨?_, ?_, rfl, ?_⟩
    · -- the second part begins a whole turn behind the end of the first
      have hfirst : Puts perfbufSize s.buffer s.head (data.take (perfbufSize - s.head))
          (write s.buffer s.head (data.take (perfbufSize - s.head))) := puts_write (by omega)
      have hsecond : Puts perfbufSize (write s.buffer s.head (data.take (perfbufSize - s.head))) 0
          (data.drop (perfbufSize - s.head))
          (write (write s.buffer s.head (data.take (perfbufSize - s.head))) 0
            (data.drop (perfbufSize - s.head))) := puts_write (by omega)
      have hturn : (s.head + (data.take (perfbufSize - s.head)).length) % perfbufSize = 0 := by
        rw [htake, Nat.add_sub_cancel' hhead.le, Nat.mod_self]
      rw [← hturn] at hsecond
      have hboth := hfirst.append perfbufSize_pos (Puts.of_mod hsecond) (by omega)
      rw [List.take_append_drop, hturn] at hboth
      exact hboth
    · rw [Nat.mod_eq_sub_mod hover.le, Nat.mod_eq_of_lt (by omega)]
      show data.length - (perfbufSize - s.head) = _
      omega
    · intro c hc
      rcases List.mem_pair.mp hc with rfl | rfl
      · exact ⟨by show s.head + (perfbufSize - s.head) ≤ _; omega,
          by show 0 + (perfbufSize - s.head) ≤ _; omega⟩
      · exact ⟨by show 0 + (data.length - (perfbufSize - s.head)) ≤ _; omega,
          by show perfbufSize - s.head + (data.length - (perfbufSize - s.head)) ≤ _; omega⟩

theorem storeData_head (h : s.InBounds) (hlen : data.length ≤ perfbufSize) :
    (storeData data s).1.head = (s.tail + (s.unread.length + data.length)) % perfbufSize := by
  rw [(storeData_spec h hlen).2.1, unread_length, ← Nat.add_assoc, ← Nat.mod_add_mod (s.tail + _),
    add_ahead_mod h.head h.tail]

/-- **A write that leaves room** for the record and one byte more. -/
theorem perfcharWrite_of_room (h : s.InBounds)
    (hroom : s.unread.length + data.length < perfbufSize) :
    (perfcharWrite data s).1.InBounds ∧
      (perfcharWrite data s).1.unread = s.unread ++ data := by
  have hlen : data.length ≤ perfbufSize := by omega
  obtain ⟨hputs, -, htail, -⟩ := storeData_spec h hlen
  have hhead := storeData_head h hlen
  have hdist : ahead perfbufSize (storeData data s).1.head s.tail =
      s.unread.length + data.length := by rw [hhead, ahead_add_mod h.tail hroom]
  have hin : (storeData data s).1.InBounds :=
    ⟨by rw [hhead]; exact Nat.mod_lt _ perfbufSize_pos, by rw [htail]; exact h.tail⟩
  have hunread : (storeData data s).1.unread = s.unread ++ data := by
    rw [unread, htail, hdist, unread_length]
    have hput : Puts perfbufSize s.buffer (s.tail + ahead perfbufSize s.head s.tail) data
        (storeData data s).1.buffer :=
      Puts.of_mod (by rw [add_ahead_mod h.head h.tail]; exact hputs)
    rw [hput.items_append perfbufSize_pos (by rw [← unread_length]; exact hroom.le)]
    rfl
  unfold perfcharWrite
  dsimp only
  split
  · -- equal places: there was nothing to read and nothing has been written
    rename_i hequal
    have hzero := (ahead_eq_zero_iff h.tail).mpr (hequal.trans htail)
    rw [hdist] at hzero
    have hnil : data.length = 0 := by omega
    rw [hnil, Nat.add_zero, htail, Nat.mod_eq_of_lt h.tail, ← htail]
    exact ⟨hin, hunread⟩
  · exact ⟨hin, hunread⟩

/-! ## Reading -/

theorem unread_consume (h : s.InBounds) {m : ℕ} (hm : m ≤ s.unread.length) :
    InBounds { s with tail := (s.tail + m) % perfbufSize } ∧
      unread { s with tail := (s.tail + m) % perfbufSize } = s.unread.drop m := by
  have hlt := unread_length_lt h
  refine ⟨⟨h.head, Nat.mod_lt _ perfbufSize_pos⟩, ?_⟩
  rw [unread_length] at hm hlt
  have hdist : ahead perfbufSize s.head ((s.tail + m) % perfbufSize) =
      ahead perfbufSize s.head s.tail - m := by
    have hhead : ((s.tail + m) % perfbufSize + (ahead perfbufSize s.head s.tail - m)) %
        perfbufSize = s.head := by
      rw [Nat.mod_add_mod, Nat.add_assoc, Nat.add_sub_cancel' hm, add_ahead_mod h.head h.tail]
    conv_lhs => rw [← hhead]
    exact ahead_add_mod (Nat.mod_lt _ perfbufSize_pos) (by omega)
  show items perfbufSize s.buffer ((s.tail + m) % perfbufSize)
    (ahead perfbufSize s.head ((s.tail + m) % perfbufSize)) = s.unread.drop m
  rw [hdist, items_mod, unread, items_drop _ _ hm]

theorem copyToUser_whole (user buffer : Mem) (off callerOff n : ℕ) :
    copyToUser user buffer ⟨off, callerOff, n, 0⟩ = write user callerOff (read buffer off n) := by
  rw [copyToUser, Nat.sub_zero, List.take_of_length_le (read_length _ _ _).le]

theorem read_copyToUser (user buffer : Mem) {off n : ℕ} (h : off + n ≤ perfbufSize) :
    read (copyToUser user buffer ⟨off, 0, n, 0⟩) 0 n = items perfbufSize buffer off n := by
  rw [copyToUser_whole, items_of_le h]
  have hread := read_write user 0 (read buffer off n)
  rwa [read_length] at hread

theorem read_copyToUser_twice (user buffer : Mem) {off n : ℕ} (hoff : off < perfbufSize)
    (h : perfbufSize ≤ off + n) (hn : n ≤ perfbufSize) :
    read (copyToUser (copyToUser user buffer ⟨off, 0, perfbufSize - off, 0⟩) buffer
        ⟨0, perfbufSize - off, n - (perfbufSize - off), 0⟩) 0 n =
      items perfbufSize buffer off n := by
  rw [copyToUser_whole, copyToUser_whole, items_of_wrap hoff h, items_of_le (by omega),
    items_of_le (by omega)]
  have hjoin := write_append user 0 (read buffer off (perfbufSize - off))
    (read buffer 0 (n - (perfbufSize - off)))
  rw [read_length, Nat.zero_add] at hjoin
  have hread := read_write user 0
    (read buffer off (perfbufSize - off) ++ read buffer 0 (n - (perfbufSize - off)))
  rw [List.length_append, read_length, read_length, Nat.add_sub_cancel' (by omega)] at hread
  rw [hjoin, hread]
  rfl

/-- **All that a read can do**: a copy fails, and nothing is consumed, or none does, and the bytes
at the front reach the user. -/
theorem perfcharRead_cases (h : s.InBounds) (len : ℕ) (user : Mem) (first second : ℕ) :
    (∀ c ∈ (perfcharRead len user first second s).2.copies, c.Inside len) ∧
      (ReadFails s len first second ∧
          (perfcharRead len user first second s).2.ret = eFault ∧
          (perfcharRead len user first second s).1 = s ∨
        ¬ ReadFails s len first second ∧
          (perfcharRead len user first second s).2.ret = (min len s.unread.length : ℕ) ∧
          read (perfcharRead len user first second s).2.user 0 (min len s.unread.length) =
            s.unread.take (min len s.unread.length) ∧
          (perfcharRead len user first second s).1 =
            { s with tail := (s.tail + min len s.unread.length) % perfbufSize }) := by
  have hlt := unread_length_lt h
  have htail := h.tail
  unfold perfcharRead
  by_cases hempty : s.head = s.tail
  · have hzero : s.unread.length = 0 := by
      rw [unread_length, (ahead_eq_zero_iff htail).mpr hempty]
    rw [if_pos hempty]
    refine ⟨fun c hc => absurd hc List.not_mem_nil,
      Or.inr ⟨fun hfails => hfails.1 (List.length_eq_zero_iff.mp hzero), ?_, ?_, ?_⟩⟩
    · rw [hzero, Nat.min_zero]
      rfl
    · rw [hzero, Nat.min_zero]
      rfl
    · rw [hzero, Nat.min_zero, Nat.add_zero, Nat.mod_eq_of_lt htail]
  · rw [if_neg hempty]
    have hlen : (if (if s.tail ≤ s.head then s.head - s.tail
        else perfbufSize - s.tail + s.head) < len then
          (if s.tail ≤ s.head then s.head - s.tail else perfbufSize - s.tail + s.head)
        else len) = min len s.unread.length := by
      show (if ahead perfbufSize s.head s.tail < len then ahead perfbufSize s.head s.tail
        else len) = _
      rw [unread_length, min_def]
      split <;> split <;> omega
    dsimp only
    rw [hlen]
    have htake : s.unread.take (min len s.unread.length) =
        items perfbufSize s.buffer s.tail (min len s.unread.length) := by
      conv_lhs => rw [unread]
      exact items_take _ _ ((Nat.min_le_right _ _).trans (unread_length s).le)
    have hfails : ReadFails s len first second ↔
        first ≠ 0 ∨ (perfbufSize < s.tail + min len s.unread.length ∧ second ≠ 0) := by
      refine and_iff_right fun hnil => hempty ((ahead_eq_zero_iff htail).mp ?_)
      rw [← unread_length, hnil, List.length_nil]
    rw [htake, hfails]
    have hm : min len s.unread.length ≤ len := Nat.min_le_left _ _
    have hmlt : min len s.unread.length < perfbufSize := (Nat.min_le_right _ _).trans_lt hlt
    generalize min len s.unread.length = m at hm hmlt ⊢
    by_cases hone : s.tail + m ≤ perfbufSize
    · rw [if_pos hone]
      have hinside : PerfCopy.Inside ⟨s.tail, 0, m, first⟩ len :=
        ⟨hone, by show 0 + m ≤ len; omega⟩
      split
      · rename_i hfirst
        exact ⟨fun c hc => List.mem_singleton.mp hc ▸ hinside, Or.inl ⟨Or.inl hfirst, rfl, rfl⟩⟩
      · rename_i hfirst
        obtain rfl := not_not.mp hfirst
        have hnot : ¬ ((0 : ℕ) ≠ 0 ∨ (perfbufSize < s.tail + m ∧ second ≠ 0)) := by omega
        exact ⟨fun c hc => List.mem_singleton.mp hc ▸ hinside,
          Or.inr ⟨hnot, rfl, read_copyToUser user s.buffer hone, rfl⟩⟩
    · rw [if_neg hone]
      have hinside : PerfCopy.Inside ⟨s.tail, 0, perfbufSize - s.tail, first⟩ len :=
        ⟨by show s.tail + (perfbufSize - s.tail) ≤ perfbufSize; omega,
          by show 0 + (perfbufSize - s.tail) ≤ len; omega⟩
      have hinside' : PerfCopy.Inside
          ⟨0, perfbufSize - s.tail, m - (perfbufSize - s.tail), second⟩ len :=
        ⟨by show 0 + (m - (perfbufSize - s.tail)) ≤ perfbufSize; omega,
          by show perfbufSize - s.tail + (m - (perfbufSize - s.tail)) ≤ len; omega⟩
      split
      · rename_i hfirst
        exact ⟨fun c hc => List.mem_singleton.mp hc ▸ hinside, Or.inl ⟨Or.inl hfirst, rfl, rfl⟩⟩
      · rename_i hfirst
        obtain rfl := not_not.mp hfirst
        have hboth : ∀ c ∈ [(⟨s.tail, 0, perfbufSize - s.tail, 0⟩ : PerfCopy),
            ⟨0, perfbufSize - s.tail, m - (perfbufSize - s.tail), second⟩], c.Inside len := by
          intro c hc
          rcases List.mem_pair.mp hc with rfl | rfl
          · exact hinside
          · exact hinside'
        split
        · rename_i hsecond
          exact ⟨hboth, Or.inl ⟨Or.inr ⟨not_le.mp hone, hsecond⟩, rfl, rfl⟩⟩
        · rename_i hsecond
          obtain rfl := not_not.mp hsecond
          refine ⟨hboth, Or.inr ⟨by omega, rfl, ?_, ?_⟩⟩
          · exact read_copyToUser_twice user s.buffer htail (not_le.mp hone).le hmlt.le
          · have hsecondPart : m - (perfbufSize - s.tail) = s.tail + m - perfbufSize := by omega
            rw [Nat.mod_eq_sub_mod (not_le.mp hone).le, Nat.mod_eq_of_lt (by omega), hsecondPart]

/-! ## Runs -/

/-- A call of one of the two functions.  A reader has `len` bytes of memory, and the copies to it
leave out the given numbers of bytes. -/
inductive PerfOp where
  | write (data : List UInt8)
  | read (len : ℕ) (user : Mem) (first second : ℕ)

namespace PerfOp

/-- The buffer after a call. -/
def next (s : PerfBuffer) : PerfOp → PerfBuffer
  | write data => (perfcharWrite data s).1
  | read len user first second => (perfcharRead len user first second s).1

/-- The copies of a call. -/
def copies (s : PerfBuffer) : PerfOp → List PerfCopy
  | write data => (perfcharWrite data s).2
  | read len user first second => (perfcharRead len user first second s).2.copies

/-- The number of bytes in the caller's memory. -/
def callerLen : PerfOp → ℕ
  | write data => data.length
  | read len _ _ _ => len

/-- What a call returns.  A write returns nothing. -/
def ret (s : PerfBuffer) : PerfOp → ℤ
  | write _ => 0
  | read len user first second => (perfcharRead len user first second s).2.ret

/-- The bytes that a call writes. -/
def written : PerfOp → List UInt8
  | write data => data
  | read _ _ _ _ => []

/-- The bytes that a successful read leaves in the user's memory. -/
def returned (s : PerfBuffer) : PerfOp → List UInt8
  | write _ => []
  | read len user first second =>
    let done := (perfcharRead len user first second s).2
    if done.ret < 0 then [] else CStruct.read done.user 0 done.ret.toNat

/-- A copy to the user fails. -/
def CopyFails (s : PerfBuffer) : PerfOp → Prop
  | write _ => False
  | read len _ first second => s.ReadFails len first second

/-- The bytes that a read is to return: as many as there are, or as the user has memory for. -/
def due (s : PerfBuffer) : PerfOp → List UInt8
  | write _ => []
  | read len _ _ _ => s.unread.take len

/-- A write does not fill the buffer. -/
def HasRoom (s : PerfBuffer) : PerfOp → Prop
  | write data => s.unread.length + data.length < perfbufSize
  | read _ _ _ _ => True

instance (s : PerfBuffer) : (o : PerfOp) → Decidable (o.HasRoom s)
  | write _ => inferInstanceAs (Decidable (_ < _))
  | read _ _ _ _ => inferInstanceAs (Decidable True)

/-- A write is no longer than the buffer. -/
def Fits : PerfOp → Prop
  | write data => data.length ≤ perfbufSize
  | read _ _ _ _ => True

theorem copies_inside (h : s.InBounds) {o : PerfOp} (hfits : o.Fits) :
    ∀ c ∈ o.copies s, c.Inside o.callerLen := by
  cases o with
  | write data => exact (storeData_spec h hfits).2.2.2
  | read len user first second => exact (perfcharRead_cases h len user first second).1

/-- **A read that fails** says so and consumes nothing. -/
theorem of_copyFails (h : s.InBounds) {o : PerfOp} (hfails : o.CopyFails s) :
    o.ret s = eFault ∧ next s o = s := by
  cases o with
  | write data => exact hfails.elim
  | read len user first second =>
    rcases (perfcharRead_cases h len user first second).2 with ⟨-, hfault⟩ | ⟨hnot, -⟩
    · exact hfault
    · exact absurd hfails hnot

/-- **A read that does not fail** returns the bytes at the front. -/
theorem of_not_copyFails (h : s.InBounds) {o : PerfOp} (hfails : ¬ o.CopyFails s) :
    o.ret s = (o.due s).length ∧ o.returned s = o.due s := by
  cases o with
  | write data => exact ⟨rfl, rfl⟩
  | read len user first second =>
    rcases (perfcharRead_cases h len user first second).2 with ⟨hyes, -⟩ | ⟨-, hret, hread, -⟩
    · exact absurd hyes hfails
    · rw [ret, returned, due, hret, List.length_take]
      rw [if_neg (not_lt.mpr (Int.natCast_nonneg _)), Int.toNat_natCast, hread]
      exact ⟨rfl, List.take_eq_take_min.symm⟩

/-- **One call** keeps both places in the buffer, and what it adds and what it takes are at the two
ends. -/
theorem next_conserves (h : s.InBounds) {o : PerfOp} (hroom : o.HasRoom s) :
    (next s o).InBounds ∧ s.unread ++ o.written = o.returned s ++ (next s o).unread := by
  cases o with
  | write data =>
    obtain ⟨hin, hunread⟩ := perfcharWrite_of_room h hroom
    exact ⟨hin, hunread.symm⟩
  | read len user first second =>
    rw [written, List.append_nil]
    rcases (perfcharRead_cases h len user first second).2 with
      ⟨-, hret, hsame⟩ | ⟨hnot, hret, hread, hnext⟩
    · have hnone : returned s (read len user first second) = [] := by
        rw [returned, hret]
        rfl
      rw [hnone]
      show (perfcharRead len user first second s).1.InBounds ∧
        s.unread = [] ++ (perfcharRead len user first second s).1.unread
      rw [hsame]
      exact ⟨h, rfl⟩
    · obtain ⟨hin, hunread⟩ := unread_consume h (Nat.min_le_right len s.unread.length)
      rw [(of_not_copyFails (o := .read len user first second) h hnot).2, due,
        List.take_eq_take_min]
      show (perfcharRead len user first second s).1.InBounds ∧
        s.unread = _ ++ (perfcharRead len user first second s).1.unread
      rw [hnext, hunread, List.take_append_drop]
      exact ⟨hin, rfl⟩

/-- A call whose record is no longer than the buffer keeps both places in it. -/
theorem next_inBounds (h : s.InBounds) {o : PerfOp} (hfits : o.Fits) : (next s o).InBounds := by
  cases o with
  | write data =>
    obtain ⟨-, hhead, htail, -⟩ := storeData_spec h hfits
    have hin : (storeData data s).1.InBounds :=
      ⟨by rw [hhead]; exact Nat.mod_lt _ perfbufSize_pos, by rw [htail]; exact h.tail⟩
    rw [next, perfcharWrite]
    dsimp only
    split
    · exact ⟨hin.head, Nat.mod_lt _ perfbufSize_pos⟩
    · exact hin
  | read len user first second =>
    exact (next_conserves (o := .read len user first second) h trivial).1

theorem fits_of_hasRoom {o : PerfOp} (h : o.HasRoom s) : o.Fits := by
  cases o with
  | write data =>
    have hroom : s.unread.length + data.length < perfbufSize := h
    show data.length ≤ perfbufSize
    omega
  | read len user first second => trivial

end PerfOp

/-- **The perf buffer is a queue as long as no write fills it.**  Both places stay in the buffer,
every copy stays in the buffer and in the caller's memory, a read that fails says so and consumes
nothing, one that does not fail returns the bytes at the front, and the bytes of the successful
reads and those still unread are the bytes written, in order. -/
theorem perfBuffer_fifo (ops : List PerfOp)
    (hroom : ∀ x ∈ trace PerfOp.next start ops, x.2.HasRoom x.1) :
    (∀ s ∈ states PerfOp.next start ops, s.head < perfbufSize ∧ s.tail < perfbufSize) ∧
      (∀ x ∈ trace PerfOp.next start ops, ∀ c ∈ x.2.copies x.1, c.Inside x.2.callerLen) ∧
      (∀ x ∈ trace PerfOp.next start ops, x.2.CopyFails x.1 →
        x.2.ret x.1 = eFault ∧ PerfOp.next x.1 x.2 = x.1) ∧
      (∀ x ∈ trace PerfOp.next start ops, ¬ x.2.CopyFails x.1 →
        x.2.ret x.1 = (x.2.due x.1).length ∧ x.2.returned x.1 = x.2.due x.1) ∧
      (trace PerfOp.next start ops).flatMap (fun x => x.2.returned x.1) ++
          (ops.foldl PerfOp.next start).unread =
        ops.flatMap PerfOp.written := by
  have hin : ∀ s ∈ states PerfOp.next start ops, s.InBounds :=
    forall_states_of_trace (I := InBounds) (C := PerfOp.HasRoom)
      (fun _ _ h hC => (PerfOp.next_conserves h hC).1) inBounds_start hroom
  refine ⟨fun s hs => ⟨(hin s hs).head, (hin s hs).tail⟩, fun x hx => ?_, fun x hx hfails => ?_,
    fun x hx hfails => ?_, ?_⟩
  · exact PerfOp.copies_inside (hin _ (fst_mem_states hx)) (PerfOp.fits_of_hasRoom (hroom x hx))
  · exact PerfOp.of_copyFails (hin _ (fst_mem_states hx)) hfails
  · exact PerfOp.of_not_copyFails (hin _ (fst_mem_states hx)) hfails
  · have hqueue := conserved (I := InBounds) (C := PerfOp.HasRoom)
      (fun h hC => PerfOp.next_conserves h hC) inBounds_start hroom
    rw [flatMap_trace_act] at hqueue
    exact hqueue.symm

/-- Two records, and between them a read that fails and one that succeeds. -/
def sampleOps : List PerfOp :=
  [.write [1, 2, 3], .read 2 (fun _ => 0) 1 0, .read 2 (fun _ => 0) 0 0, .write [4]]

/-- The bytes that have been read and the two that are left. -/
theorem perfBuffer_fifo_sample :
    (trace PerfOp.next start sampleOps).flatMap (fun x => x.2.returned x.1) ++
      (sampleOps.foldl PerfOp.next start).unread = [1, 2, 3, 4] :=
  (perfBuffer_fifo sampleOps (by decide)).2.2.2.2

/-! ## A write into any buffer -/

/-- What is unread after a write is the end of what was unread and of the record, and has all of the
record. -/
def KeepsRecord (s : PerfBuffer) (data : List UInt8) : Prop :=
  (perfcharWrite data s).1.unread <:+ s.unread ++ data ∧
    data <:+ (perfcharWrite data s).1.unread

/-- **A write that fills the buffer exactly** moves the tail over as many old bytes as it has
written, which makes the places different again. -/
theorem perfcharWrite_of_full (h : s.InBounds) (hpos : 0 < data.length)
    (hlen : data.length < perfbufSize) (hfull : s.unread.length + data.length = perfbufSize) :
    (perfcharWrite data s).1.unread = (s.unread ++ data).drop data.length := by
  obtain ⟨hputs, -, htail, -⟩ := storeData_spec h hlen.le
  have hhead : (storeData data s).1.head = s.tail := by
    rw [storeData_head h hlen.le, hfull, Nat.add_mod_right, Nat.mod_eq_of_lt h.tail]
  have hwhole : items perfbufSize (storeData data s).1.buffer s.tail perfbufSize =
      s.unread ++ data := by
    have hput : Puts perfbufSize s.buffer (s.tail + s.unread.length) data
        (storeData data s).1.buffer :=
      Puts.of_mod (by rw [unread_length, add_ahead_mod h.head h.tail]; exact hputs)
    have hboth := hput.items_append perfbufSize_pos hfull.le
    rw [hfull, unread_length] at hboth
    exact hboth
  have hback : ((s.tail + data.length) % perfbufSize + (perfbufSize - data.length)) %
      perfbufSize = s.tail := by
    rw [Nat.mod_add_mod, Nat.add_assoc, Nat.add_sub_cancel' hlen.le, Nat.add_mod_right,
      Nat.mod_eq_of_lt h.tail]
  have hahead : ahead perfbufSize s.tail ((s.tail + data.length) % perfbufSize) =
      perfbufSize - data.length := by
    have hgap := ahead_add_mod (Nat.mod_lt (s.tail + data.length) perfbufSize_pos)
      (show perfbufSize - data.length < perfbufSize by omega)
    rwa [hback] at hgap
  unfold perfcharWrite
  dsimp only
  rw [if_pos (hhead.trans htail.symm), htail]
  show items perfbufSize (storeData data s).1.buffer ((s.tail + data.length) % perfbufSize)
    (ahead perfbufSize (storeData data s).1.head ((s.tail + data.length) % perfbufSize)) = _
  rw [hhead, hahead, items_mod, ← hwhole, items_drop _ _ hlen.le]

/-- **A write that goes beyond the end** leaves the tail where it was, and the head past it. -/
theorem perfcharWrite_of_over (h : s.InBounds) (hlen : data.length ≤ perfbufSize)
    (hover : perfbufSize < s.unread.length + data.length) :
    (perfcharWrite data s).1.unread.length = s.unread.length + data.length - perfbufSize := by
  have hlt := unread_length_lt h
  obtain ⟨-, -, htail, -⟩ := storeData_spec h hlen
  have hahead : ahead perfbufSize (storeData data s).1.head (storeData data s).1.tail =
      s.unread.length + data.length - perfbufSize := by
    have hturn : s.tail + (s.unread.length + data.length) =
        s.tail + (s.unread.length + data.length - perfbufSize) + perfbufSize := by omega
    rw [storeData_head h hlen, htail, hturn, Nat.add_mod_right]
    exact ahead_add_mod h.tail (by omega)
  have hne : (storeData data s).1.head ≠ (storeData data s).1.tail := by
    intro hequal
    have hzero := (ahead_eq_zero_iff (htail ▸ h.tail)).mpr hequal
    omega
  unfold perfcharWrite
  dsimp only
  rw [if_neg hne, unread_length, hahead]

/-- **Which writes drop only old bytes**: those that leave at most a full buffer. -/
theorem keepsRecord_iff_of_inBounds (h : s.InBounds) (hpos : 0 < data.length)
    (hlen : data.length < perfbufSize / 2) :
    KeepsRecord s data ↔ s.unread.length + data.length ≤ perfbufSize := by
  have hlt := unread_length_lt h
  constructor
  · rintro ⟨-, hrecord⟩
    by_contra hover
    have hshort := hrecord.length_le
    rw [perfcharWrite_of_over h (by omega) (by omega)] at hshort
    omega
  · intro hle
    rcases Nat.lt_or_eq_of_le hle with hroom | hfull
    · rw [KeepsRecord, (perfcharWrite_of_room h hroom).2]
      exact ⟨List.suffix_refl _, List.suffix_append _ _⟩
    · rw [KeepsRecord, perfcharWrite_of_full h hpos (by omega) hfull]
      refine ⟨List.drop_suffix _ _, ?_⟩
      rw [List.drop_append_of_le_length (by omega)]
      exact List.suffix_append _ _

/-- Calls whose records are no longer than the buffer keep both places in it. -/
theorem foldl_inBounds (h : s.InBounds) {ops : List PerfOp} (hfits : ∀ o ∈ ops, o.Fits) :
    (ops.foldl PerfOp.next s).InBounds :=
  forall_states_of_trace (I := InBounds) (C := fun _ o => PerfOp.Fits o)
    (fun _ _ h hC => PerfOp.next_inBounds h hC) h (forall_trace_act_iff.mpr hfits) _
    (foldl_mem_states s ops)

/-- **Overwriting the perf buffer.**  In any state that calls have led to, the write of a record of
less than half the buffer drops only old bytes exactly when what is unread and the record together
are no longer than the buffer. -/
theorem keepsRecord_iff (ops : List PerfOp) (hfits : ∀ o ∈ ops, o.Fits) (data : List UInt8)
    (hpos : 0 < data.length) (hlen : data.length < perfbufSize / 2) :
    KeepsRecord (ops.foldl PerfOp.next start) data ↔
      (ops.foldl PerfOp.next start).unread.length + data.length ≤ perfbufSize :=
  keepsRecord_iff_of_inBounds (foldl_inBounds inBounds_start hfits) hpos hlen

/-- A record of 127 bytes. -/
def sampleRecord : List UInt8 := List.replicate 127 1

theorem sampleRecord_length : sampleRecord.length = 127 := List.length_replicate

theorem sampleRecord_pos : 0 < sampleRecord.length := by
  rw [sampleRecord_length]
  decide

theorem sampleRecord_lt : sampleRecord.length < perfbufSize / 2 := by
  rw [sampleRecord_length]
  decide

theorem fits_writes (k : ℕ) : ∀ o ∈ List.replicate k (PerfOp.write sampleRecord), o.Fits := by
  intro o ho
  rw [List.eq_of_mem_replicate ho]
  show sampleRecord.length ≤ perfbufSize
  rw [sampleRecord_length]
  decide

theorem keepsRecord_sample_iff :
    KeepsRecord ((List.replicate 2 (.write sampleRecord)).foldl PerfOp.next start) sampleRecord ↔
      ((List.replicate 2 (.write sampleRecord)).foldl PerfOp.next start).unread.length +
        sampleRecord.length ≤ perfbufSize :=
  keepsRecord_iff (List.replicate 2 (.write sampleRecord)) (fits_writes 2) sampleRecord
    sampleRecord_pos sampleRecord_lt

theorem foldl_write_unread (data : List UInt8) (h : s.InBounds) (k : ℕ)
    (hroom : s.unread.length + k * data.length < perfbufSize) :
    let t := (List.replicate k (PerfOp.write data)).foldl PerfOp.next s
    t.InBounds ∧ t.unread.length = s.unread.length + k * data.length := by
  induction k generalizing s with
  | zero => exact ⟨h, by rw [Nat.zero_mul]; rfl⟩
  | succ k ih =>
    rw [Nat.succ_mul] at hroom
    obtain ⟨hin, hunread⟩ : (perfcharWrite data s).1.InBounds ∧
        (perfcharWrite data s).1.unread = s.unread ++ data :=
      perfcharWrite_of_room h (by omega)
    have hlen : (PerfOp.next s (.write data)).unread.length =
        s.unread.length + data.length := by
      rw [PerfOp.next, hunread, List.length_append]
    obtain ⟨hin', hlen'⟩ := ih (s := PerfOp.next s (.write data)) hin (by omega)
    exact ⟨hin', hlen'.trans (by rw [hlen, Nat.succ_mul]; omega)⟩

/-- **A record that is lost.**  The buffer has room for 66 bytes when a record of 127 bytes comes,
and 61 bytes are left to read. -/
theorem sampleRecord_not_kept : ¬ ∀ ops : List PerfOp, (∀ o ∈ ops, o.Fits) →
    ∀ data : List UInt8, 0 < data.length → data.length < perfbufSize / 2 →
      KeepsRecord (ops.foldl PerfOp.next start) data := by
  intro hall
  have hstart : start.unread.length = 0 := rfl
  obtain ⟨hin, hlen⟩ := foldl_write_unread sampleRecord inBounds_start 322 (by
    rw [hstart, sampleRecord_length]
    decide)
  have hkept := hall (List.replicate 322 (.write sampleRecord)) (fits_writes 322) sampleRecord
    sampleRecord_pos sampleRecord_lt
  have hroom := (keepsRecord_iff_of_inBounds hin sampleRecord_pos sampleRecord_lt).mp hkept
  rw [hlen, hstart, sampleRecord_length] at hroom
  exact absurd hroom (by decide)

end LsmFork
