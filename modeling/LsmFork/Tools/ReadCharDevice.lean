import LsmFork.Lib.CString
import LsmFork.Lib.Overwrite

/-!
# The reader of the performance log

`read_char_device.c` reads the device into a buffer of 256 characters, at most 255 at a time,
terminates what it has read and prints it.  The result of `read` is kept in a `size_t`: an error is
the largest number there, which is above 0, and so it is taken for a text of that length.  The
terminator goes one character in front of the buffer, the last text is printed again, and the branch
that ends the loop is never taken.

* `ReadResult`, `Reader.step`, `readLoop`: a result of `read`, one turn, and the loop.
* `Script`: results that the device can give, with an error at the end.
* `readLoop_texts`: up to the error, the texts are copied.
* `step_error`: what the error does.
* `not_copies`: no script is copied as it should be.
-/

namespace LsmFork
namespace ReadCharDevice

open CString

/-! ## The program -/

/-- A result of `read`: characters, none when the device has no data, or an error. -/
inductive ReadResult where
  | data (bytes : List UInt8)
  | error
  deriving DecidableEq

/-- What `read` returns, an `ssize_t`. -/
def ReadResult.ret : ReadResult → Int64
  | .data bytes => Int64.ofNat bytes.length
  | .error => -1

/-- What `read` stores in the buffer. -/
def ReadResult.stored : ReadResult → List UInt8
  | .data bytes => bytes
  | .error => []

/-- The buffer and the output file, the places of the buffer that were stored to, and whether the
loop was left. -/
structure Reader where
  buffer : List UInt8
  output : List UInt8
  stores : List ℕ
  left : Bool

/-- One turn of the loop. -/
def Reader.step (s : Reader) (result : ReadResult) : Reader :=
  let bytesRead : UInt64 := result.ret.toUInt64
  let buffer := overwrite s.buffer 0 result.stored
  let stores := s.stores ++ List.range result.stored.length
  if bytesRead > 0 then
    -- a store outside the buffer leaves it as it is
    let terminated := buffer.set bytesRead.toNat 0
    { s with
      buffer := terminated
      output := s.output ++ cstr terminated
      stores := stores ++ [bytesRead.toNat] }
  else if bytesRead = 0 then { s with buffer, stores }
  else { s with buffer, stores, left := true }

/-- The loop, until it is left or there are no more results. -/
def readLoop : List ReadResult → Reader → Reader
  | [], s => s
  | result :: results, s =>
    if (s.step result).left then s.step result else readLoop results (s.step result)

/-- The start of the loop. -/
def start (buffer : List UInt8) : Reader where
  buffer := buffer
  output := []
  stores := []
  left := false

/-- Results that the device can give: texts that fit into the read, some of them empty, and then an
error. -/
structure Script where
  texts : List (List UInt8)
  fits : ∀ text ∈ texts, text.length ≤ 255
  noNul : ∀ text ∈ texts, (0 : UInt8) ∉ text

/-- The results of a script. -/
def Script.results (script : Script) : List ReadResult := script.texts.map .data ++ [.error]

/-- The program on a script, with what is in the buffer before the first read. -/
def run (script : Script) (buffer : Vector UInt8 256) : Reader :=
  readLoop script.results (start buffer.toList)

/-- **The device is copied**: the loop stores into the buffer only, writes what it has read, and is
left at the error. -/
structure Copies (script : Script) (buffer : Vector UInt8 256) : Prop where
  inside : ∀ i ∈ (run script buffer).stores, i < 256
  output : (run script buffer).output = script.texts.flatten
  left : (run script buffer).left = true

/-! ## Up to the error -/

/-- From `s` to `t`, a text was copied. -/
structure Copied (s t : Reader) (text : List UInt8) : Prop where
  length : t.buffer.length = 256
  output : t.output = s.output ++ text
  inside : ∀ i ∈ t.stores, i ∈ s.stores ∨ i < 256
  left : t.left = s.left

theorem Copied.trans {s t u : Reader} {first second : List UInt8} (h : Copied s t first)
    (h' : Copied t u second) : Copied s u (first ++ second) where
  length := h'.length
  output := by rw [h'.output, h.output, List.append_assoc]
  inside i hi := (h'.inside i hi).elim (h.inside i) Or.inr
  left := h'.left.trans h.left

/-- The length of a text as the loop sees it. -/
theorem toNat_ret {bytes : List UInt8} (h : bytes.length ≤ 255) :
    (ReadResult.data bytes).ret.toUInt64.toNat = bytes.length := by
  unfold ReadResult.ret
  simp
  omega

theorem take_overwrite_zero (buf bytes : List UInt8) :
    (overwrite buf 0 bytes).take bytes.length = bytes := by
  rw [overwrite, List.take_zero, List.nil_append, List.take_left]

theorem length_overwrite_zero {buf bytes : List UInt8} (h : bytes.length ≤ buf.length) :
    (overwrite buf 0 bytes).length = buf.length := by
  rw [overwrite, List.take_zero, List.nil_append, List.length_append, List.length_drop]
  omega

/-- **One read of a text** copies it. -/
theorem step_data {s : Reader} {bytes : List UInt8} (hbuffer : s.buffer.length = 256)
    (hfits : bytes.length ≤ 255) (hzero : (0 : UInt8) ∉ bytes) :
    Copied s (s.step (.data bytes)) bytes := by
  have hret := toNat_ret hfits
  have hlength : (overwrite s.buffer 0 bytes).length = 256 := by
    rw [length_overwrite_zero (by omega), hbuffer]
  unfold Reader.step
  dsimp only [ReadResult.stored]
  by_cases hpos : (ReadResult.data bytes).ret.toUInt64 > 0
  · rw [if_pos hpos, hret]
    refine ⟨by rw [List.length_set, hlength], ?_, fun i hi => ?_, rfl⟩
    · rw [cstr_set_zero (by omega) (take_overwrite_zero s.buffer bytes) hzero]
    · simp only [List.mem_append, List.mem_range, List.mem_singleton] at hi
      rcases hi with (hi | hi) | hi
      · exact Or.inl hi
      · exact Or.inr (by omega)
      · exact Or.inr (by omega)
  · have hnil : (ReadResult.data bytes).ret.toUInt64 = 0 :=
      not_not.mp fun hne => hpos (UInt64.pos_iff_ne_zero.mpr hne)
    rw [if_neg hpos, if_pos hnil]
    rw [hnil] at hret
    have hbytes : bytes = [] := List.length_eq_zero_iff.mp hret.symm
    refine ⟨hlength, by rw [hbytes, List.append_nil], fun i hi => ?_, rfl⟩
    simp only [List.mem_append, List.mem_range] at hi
    rcases hi with hi | hi
    · exact Or.inl hi
    · exact Or.inr (by omega)

/-- **The texts of a script**, and then what comes behind them. -/
theorem readLoop_texts {texts : List (List UInt8)} (hfits : ∀ text ∈ texts, text.length ≤ 255)
    (hzero : ∀ text ∈ texts, (0 : UInt8) ∉ text) (results : List ReadResult) {s : Reader}
    (hbuffer : s.buffer.length = 256) (hleft : s.left = false) :
    ∃ t, readLoop (texts.map .data ++ results) s = readLoop results t ∧
      Copied s t texts.flatten := by
  induction texts generalizing s with
  | nil =>
    exact ⟨s, rfl, hbuffer, (List.append_nil _).symm, fun i hi => Or.inl hi, rfl⟩
  | cons text texts ih =>
    rw [List.forall_mem_cons] at hfits hzero
    have hstep := step_data hbuffer hfits.1 hzero.1
    obtain ⟨t, hrun, hcopied⟩ := ih hfits.2 hzero.2 hstep.length (hstep.left.trans hleft)
    refine ⟨t, ?_, hstep.trans hcopied⟩
    rw [List.map_cons, List.cons_append, readLoop, hstep.left, hleft, ← hrun]
    rfl

/-! ## The error -/

/-- **The error is taken for a text** of the largest length: there is a store outside the buffer,
and the loop goes on. -/
theorem step_error (s : Reader) :
    2 ^ 64 - 1 ∈ (s.step .error).stores ∧ (s.step .error).left = s.left := by
  have hret : ReadResult.error.ret.toUInt64 > 0 := by decide
  have hlast : ReadResult.error.ret.toUInt64.toNat = 2 ^ 64 - 1 := by decide
  unfold Reader.step
  dsimp only
  rw [if_pos hret, hlast]
  exact ⟨List.mem_append_right _ (List.mem_singleton.mpr rfl), rfl⟩

/-- The whole script: the texts are copied, and then the error is taken for one. -/
theorem run_eq (script : Script) (buffer : Vector UInt8 256) :
    ∃ t, run script buffer = t.step .error ∧
      Copied (start buffer.toList) t script.texts.flatten := by
  obtain ⟨t, hrun, hcopied⟩ := readLoop_texts script.fits script.noNul [.error]
    (show (start buffer.toList).buffer.length = 256 from buffer.length_toList) rfl
  refine ⟨t, hrun.trans ?_, hcopied⟩
  rw [readLoop, (step_error t).2, hcopied.left]
  rfl

theorem run_left (script : Script) (buffer : Vector UInt8 256) :
    (run script buffer).left = false := by
  obtain ⟨t, hrun, hcopied⟩ := run_eq script buffer
  rw [hrun, (step_error t).2, hcopied.left]
  rfl

/-- **No script is copied** as it should be. -/
theorem not_copies (script : Script) (buffer : Vector UInt8 256) : ¬ Copies script buffer := by
  intro h
  obtain ⟨t, hrun, -⟩ := run_eq script buffer
  have hstore : 2 ^ 64 - 1 ∈ (run script buffer).stores := by
    rw [hrun]
    exact (step_error t).1
  exact absurd (h.inside _ hstore) (by norm_num)

/-- A device that has `ok` to say before it fails. -/
def okScript : Script where
  texts := [ascii "ok"]
  fits := by decide
  noNul := by decide

theorem ok_not_left : ¬ ∀ script buffer, Copies script buffer := by
  intro h
  have hleft := (h okScript (Vector.replicate 256 0)).left
  rw [run_left] at hleft
  cases hleft

end ReadCharDevice
end LsmFork
