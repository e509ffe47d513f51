import LsmFork.Kernel.PerfBuffer
import LsmFork.Tools.ReadCharDevice

/-!
# The performance log, from the hooks to the file

The hooks write their records to the perf device while `read_char_device.c` reads from it, in any
order.  The file is a copy of the records, as far as they have been read, unless something goes
wrong in one of two ways: a record comes when there is no room for it, or a read fails and the
reader, which takes the error for a text, stores its terminator outside its buffer.

* `World`, `Act`, `next`: the device and the reader, one call or one turn at a time.
* `Keeps`: the acts with which nothing goes wrong.
* `turn_cases`: all that a turn of the reader can do.
* `log_iff`: the log is whole exactly as long as every act is such.
* `log_drained`: once the hooks are silent, some more turns complete the file.
-/

namespace LsmFork
namespace PerfLog

open ReadCharDevice Runs

/-! ## The device and its reader -/

/-- The device, the reader, and all that has been written to the device. -/
structure World where
  device : PerfBuffer
  reader : Reader
  written : List UInt8

/-- An empty device, and a reader in front of its loop. -/
def start (buffer : Vector UInt8 256) : World :=
  ⟨PerfBuffer.start, ReadCharDevice.start buffer.toList, []⟩

/-- A call of `perfchar_write`, or one turn of the reader, with the numbers of bytes that the copies
to its buffer leave out. -/
inductive Act where
  | write (data : List UInt8)
  | turn (first second : ℕ)

/-- The `read` of a turn: at most 255 bytes, into the buffer of the reader. -/
def deviceRead (s : World) (first second : ℕ) : PerfBuffer × PerfRead :=
  perfcharRead 255 (fun i => s.reader.buffer.getD i 0) first second s.device

/-- What the reader gets from it. -/
def readResult (done : PerfRead) : ReadResult :=
  if done.ret < 0 then .error else .data (CStruct.read done.user 0 done.ret.toNat)

/-- The buffer of the reader after the `read`. -/
def bufferAfter (done : PerfRead) : List UInt8 := CStruct.read done.user 0 256

def next (s : World) : Act → World
  | .write data => ⟨(perfcharWrite data s.device).1, s.reader, s.written ++ data⟩
  | .turn first second =>
    let done := deviceRead s first second
    -- the loop is never left, so there is always another turn
    ⟨done.1, { s.reader with buffer := bufferAfter done.2 }.step (readResult done.2), s.written⟩

/-- The bytes that an act writes to the device. -/
def Act.written : Act → List UInt8
  | write data => data
  | turn _ _ => []

/-- A record is a text that the device could hold. -/
def Act.Valid : Act → Prop
  | write data => data.length < perfbufSize ∧ (0 : UInt8) ∉ data
  | turn _ _ => True

/-- Nothing goes wrong: a record finds room, and a read does not fail. -/
def Act.Keeps (s : World) : Act → Prop
  | write data => s.device.unread.length + data.length < perfbufSize
  | turn first second => readResult (deviceRead s first second).2 ≠ .error

instance (s : World) : (a : Act) → Decidable (a.Keeps s)
  | .write _ => inferInstanceAs (Decidable (_ < _))
  | .turn _ _ => inferInstanceAs (Decidable (_ ≠ _))

/-- **The log is whole**: what is in the file and what is unread is what has been written, and the
reader has stored nothing outside its buffer. -/
structure World.Whole (s : World) : Prop where
  log : s.reader.output ++ s.device.unread = s.written
  inside : ∀ i ∈ s.reader.stores, i < 256

/-- A whole log, with all that a turn relies on. -/
structure Inv (s : World) : Prop where
  whole : s.Whole
  inBounds : s.device.InBounds
  noNul : (0 : UInt8) ∉ s.device.unread

theorem inv_start (buffer : Vector UInt8 256) : Inv (start buffer) where
  whole := ⟨rfl, fun _ hi => absurd hi List.not_mem_nil⟩
  inBounds := PerfBuffer.inBounds_start
  noNul := List.not_mem_nil

/-! ## A turn of the reader -/

theorem length_bufferAfter (done : PerfRead) : (bufferAfter done).length = 256 :=
  CStruct.read_length _ _ _

/-- **All that a turn can do**: the `read` fails and a store goes outside the buffer, or the bytes
at the front of the device go into the file. -/
theorem turn_cases {s : World} (h : Inv s) (first second : ℕ) :
    (readResult (deviceRead s first second).2 = .error ∧
        2 ^ 64 - 1 ∈ (next s (.turn first second)).reader.stores) ∨
      (readResult (deviceRead s first second).2 ≠ .error ∧
        (next s (.turn first second)).device.InBounds ∧
        (next s (.turn first second)).device.unread = s.device.unread.drop 255 ∧
        (next s (.turn first second)).reader.output =
          s.reader.output ++ s.device.unread.take 255 ∧
        ∀ i ∈ (next s (.turn first second)).reader.stores, i < 256) := by
  rcases (perfcharRead_cases h.inBounds 255 (fun i => s.reader.buffer.getD i 0) first second).2 with
    ⟨-, hret, -⟩ | ⟨-, hret, hread, hnext⟩
  · have hresult : readResult (deviceRead s first second).2 = .error := by
      rw [readResult, deviceRead, hret]
      rfl
    refine Or.inl ⟨hresult, ?_⟩
    unfold next
    dsimp only
    rw [hresult]
    exact (step_error _).1
  · have htake : s.device.unread.take (min 255 s.device.unread.length) =
        s.device.unread.take 255 := List.take_eq_take_min.symm
    have hdrop : s.device.unread.drop (min 255 s.device.unread.length) =
        s.device.unread.drop 255 := List.drop_eq_drop_min.symm
    have hresult : readResult (deviceRead s first second).2 = .data (s.device.unread.take 255) := by
      rw [readResult, deviceRead, hret, if_neg (not_lt.mpr (Int.natCast_nonneg _)),
        Int.toNat_natCast, hread, htake]
    have hcopied := step_data (s := { s.reader with
      buffer := bufferAfter (deviceRead s first second).2 })
      (length_bufferAfter (deviceRead s first second).2)
      (List.length_take_le 255 s.device.unread) fun hmem => h.noNul (List.mem_of_mem_take hmem)
    obtain ⟨hin, hunread⟩ := unread_consume h.inBounds
      (Nat.min_le_right 255 s.device.unread.length)
    refine Or.inr ⟨by rw [hresult]; exact ReadResult.noConfusion, ?_, ?_, ?_⟩
    · rw [← hnext] at hin
      exact hin
    · rw [← hnext, hdrop] at hunread
      exact hunread
    · unfold next
      dsimp only
      rw [hresult]
      exact ⟨hcopied.output, fun i hi => (hcopied.inside i hi).elim (h.whole.inside i) id⟩

/-! ## The log -/

/-- **One act** with which nothing goes wrong keeps the invariant. -/
theorem Inv.step {s : World} (h : Inv s) {a : Act} (hvalid : a.Valid) (hkeeps : a.Keeps s) :
    Inv (next s a) := by
  have hlog := h.whole.log
  cases a with
  | write data =>
    obtain ⟨hin, hunread⟩ := perfcharWrite_of_room h.inBounds hkeeps
    refine ⟨⟨?_, h.whole.inside⟩, hin, ?_⟩
    · show s.reader.output ++ (perfcharWrite data s.device).1.unread = s.written ++ data
      rw [hunread, ← List.append_assoc, hlog]
    · show (0 : UInt8) ∉ (perfcharWrite data s.device).1.unread
      rw [hunread, List.mem_append, not_or]
      exact ⟨h.noNul, hvalid.2⟩
  | turn first second =>
    obtain ⟨herror, -⟩ | ⟨-, hin, hunread, houtput, hinside⟩ := turn_cases h first second
    · exact absurd herror hkeeps
    · refine ⟨⟨?_, hinside⟩, hin, ?_⟩
      · rw [houtput, hunread, List.append_assoc, List.take_append_drop, hlog]
        rfl
      · rw [hunread]
        exact fun hmem => h.noNul (List.mem_of_mem_drop hmem)

/-- A record without room shortens what is unread. -/
theorem length_perfcharWrite_of_full {s : PerfBuffer} (h : s.InBounds) {data : List UInt8}
    (hlen : data.length < perfbufSize) (hfull : perfbufSize ≤ s.unread.length + data.length) :
    (perfcharWrite data s).1.unread.length < s.unread.length + data.length := by
  have hlt := PerfBuffer.unread_length_lt h
  rcases Nat.eq_or_lt_of_le hfull with hexact | hover
  · rw [perfcharWrite_of_full h (by omega) hlen hexact.symm, List.length_drop, List.length_append]
    omega
  · rw [perfcharWrite_of_over h hlen.le hover]
    omega

/-- **One act with which something goes wrong**: the log is too short, or there is a store outside
the buffer. -/
theorem not_whole_next {s : World} (h : Inv s) {a : Act} (hvalid : a.Valid)
    (hbreaks : ¬ a.Keeps s) : ¬ (next s a).Whole := by
  intro hnext
  cases a with
  | write data =>
    have hshort := length_perfcharWrite_of_full h.inBounds hvalid.1 (not_lt.mp hbreaks)
    have hbefore := congrArg List.length h.whole.log
    have hafter : (s.reader.output ++ (perfcharWrite data s.device).1.unread).length =
        (s.written ++ data).length := congrArg List.length hnext.log
    rw [List.length_append] at hbefore
    rw [List.length_append, List.length_append] at hafter
    omega
  | turn first second =>
    obtain ⟨-, hstore⟩ | ⟨hdata, -⟩ := turn_cases h first second
    · exact absurd (hnext.inside _ hstore) (by norm_num)
    · exact hbreaks hdata

/-- **The log is whole** after every act of a run exactly when each record has found room and no
read has failed. -/
theorem log_iff (buffer : Vector UInt8 256) {acts : List Act} (hvalid : ∀ a ∈ acts, a.Valid) :
    (∀ s ∈ states next (start buffer) acts, s.Whole) ↔
      ∀ x ∈ trace next (start buffer) acts, x.2.Keeps x.1 :=
  Decides.states_iff (A := Act.Valid) (I := Inv) (P := World.Whole) (C := fun s a => a.Keeps s)
    ⟨fun h => h.whole, fun h => h.step, fun h => not_whole_next h⟩ (inv_start buffer) hvalid

/-- Two records, and between them a read that takes the first one and a read of nothing. -/
def sampleActs : List Act := [.write [1, 2, 3], .turn 0 0, .turn 0 0, .write [4]]

theorem sampleActs_valid : ∀ a ∈ sampleActs, a.Valid := by
  simp only [sampleActs, List.forall_mem_cons]
  exact ⟨⟨by decide, by decide⟩, trivial, trivial, ⟨by decide, by decide⟩,
    fun a ha => absurd ha List.not_mem_nil⟩

theorem log_iff_of_sample :
    (∀ s ∈ states next (start (Vector.replicate 256 0)) sampleActs, s.Whole) ↔
      ∀ x ∈ trace next (start (Vector.replicate 256 0)) sampleActs, x.2.Keeps x.1 :=
  log_iff (Vector.replicate 256 0) sampleActs_valid

/-! ## The end of a run -/

theorem written_foldl (s : World) (acts : List Act) :
    (acts.foldl next s).written = s.written ++ acts.flatMap Act.written := by
  induction acts generalizing s with
  | nil => exact (List.append_nil _).symm
  | cons a acts ih =>
    have hnext : (next s a).written = s.written ++ a.written := by
      cases a with
      | write data => rfl
      | turn first second => exact (List.append_nil _).symm
    rw [List.foldl_cons, ih, hnext, List.flatMap_cons, List.append_assoc]

theorem readResult_ne_error (s : World) : readResult (deviceRead s 0 0).2 ≠ .error := by
  have hret : 0 ≤ (deviceRead s 0 0).2.ret := by
    unfold deviceRead perfcharRead
    dsimp only
    split_ifs <;> first | exact le_refl _ | exact Int.natCast_nonneg _ | contradiction
  rw [readResult, if_neg (not_lt.mpr hret)]
  exact ReadResult.noConfusion

/-- Turns with nothing but successful reads take 255 bytes each, or what is left. -/
theorem drain {s : World} (h : Inv s) (k : ℕ) :
    Inv ((List.replicate k (Act.turn 0 0)).foldl next s) ∧
      ((List.replicate k (Act.turn 0 0)).foldl next s).device.unread =
        s.device.unread.drop (255 * k) := by
  induction k generalizing s with
  | zero => exact ⟨h, rfl⟩
  | succ k ih =>
    have hne := readResult_ne_error s
    have hstep : Inv (next s (.turn 0 0)) := h.step trivial hne
    obtain ⟨hinv, hunread⟩ := ih hstep
    rw [List.replicate_succ, List.foldl_cons]
    refine ⟨hinv, ?_⟩
    rcases turn_cases h 0 0 with ⟨herror, -⟩ | ⟨-, -, hdrop, -⟩
    · exact absurd herror hne
    · rw [hunread, hdrop, List.drop_drop, Nat.mul_succ, Nat.add_comm]

/-- **The file is completed.**  After a run with which nothing goes wrong, once no more records
come, as many turns as there are blocks of 255 bytes to read leave exactly the records in the
file. -/
theorem log_drained (buffer : Vector UInt8 256) {acts : List Act} (hvalid : ∀ a ∈ acts, a.Valid)
    (hkeeps : ∀ x ∈ trace next (start buffer) acts, x.2.Keeps x.1) {k : ℕ}
    (hk : (acts.foldl next (start buffer)).device.unread.length ≤ 255 * k) :
    ((acts ++ List.replicate k (Act.turn 0 0)).foldl next (start buffer)).reader.output =
      acts.flatMap Act.written := by
  have hboth : ∀ x ∈ trace next (start buffer) acts, x.2.Valid ∧ x.2.Keeps x.1 := fun x hx =>
    ⟨forall_trace_act_iff.mpr hvalid x hx, hkeeps x hx⟩
  have hinv : Inv (acts.foldl next (start buffer)) :=
    forall_states_of_trace (I := Inv) (C := fun s a => a.Valid ∧ a.Keeps s)
      (fun _ _ h hC => h.step hC.1 hC.2) (inv_start buffer) hboth _ (foldl_mem_states _ acts)
  have hsilent : (List.replicate k (Act.turn 0 0)).flatMap Act.written = [] :=
    List.flatMap_eq_nil_iff.mpr fun a ha => by rw [List.eq_of_mem_replicate ha]; rfl
  obtain ⟨hdone, hempty⟩ := drain hinv k
  rw [← List.foldl_append] at hdone hempty
  have hwhole := hdone.whole.log
  rw [hempty, List.drop_eq_nil_of_le hk, List.append_nil, written_foldl, List.flatMap_append,
    hsilent, List.append_nil] at hwhole
  exact hwhole

theorem log_drained_of_sample :
    ((sampleActs ++ List.replicate 1 (Act.turn 0 0)).foldl next
      (start (Vector.replicate 256 0))).reader.output = [1, 2, 3, 4] :=
  log_drained (Vector.replicate 256 0) sampleActs_valid (by decide +kernel) (by decide +kernel)

end PerfLog
end LsmFork
