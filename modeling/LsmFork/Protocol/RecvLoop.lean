import LsmFork.Protocol.SendLoop

/-!
# Receiving a reply

`_tcp_recv` calls `kernel_recvmsg` and moves its vector over what has come, as long as the receive
queue of the socket is not empty.  It does not look at how much is still wanted.  So a reply that
comes in pieces is cut off where the queue runs empty between two of them, and a queue that holds
more than is wanted never runs empty: a call that wants nothing takes nothing.

* `RecvState`, `RecvState.take`: the vector, the count, the queue and the memory, and one call.
* `RecvRound`, `tcpRecvCalls`: the loop while bytes arrive; `tcpRecv_eq`: the same events.
* `Delivers`: a reply of the wanted length that arrives in any way.
* `receivesAll_iff`: when such a reply is received whole.
* `kernelRecvmsg`, `tcpRecvOn`: the loop on a queue to which nothing is added.
* `settles_iff`: when that comes to an end.
-/

namespace LsmFork

open CStruct

/-- What the loop works on: `vec`, `total_rb`, the receive queue of the socket, and the memory. -/
structure RecvState where
  vec : Kvec
  totalRb : Int64
  queue : List UInt8
  mem : Mem

/-- The start of the loop. -/
def KernelBuf.recvState (b : KernelBuf) (queue : List UInt8) (mem : Mem) : RecvState :=
  ⟨b.vec, 0, queue, mem⟩

namespace RecvState

/-- More bytes are queued. -/
def enqueue (s : RecvState) (bytes : List UInt8) : RecvState := { s with queue := s.queue ++ bytes }

/-- A `kernel_recvmsg` that takes the first `n` bytes of the queue, and the body of the loop after
it, for the value of `rb`. -/
def take (s : RecvState) (rb : UInt64) (n : ℕ) : RecvState :=
  let received := { s with
    queue := s.queue.drop n
    mem := write s.mem s.vec.iovBase.toNat (s.queue.take n) }
  if rb = asSize eRestartSys ∨ rb = asSize eAgain then received
  else { received with
    vec := ⟨s.vec.iovBase + rb, s.vec.iovLen - rb⟩
    totalRb := s.totalRb + rb.toInt64 }

end RecvState

/-- One round of the loop: the bytes that are queued before `kernel_recvmsg` returns, its result,
and the bytes that are queued from there to the test at the end. -/
structure RecvRound where
  before : List UInt8
  result : Int32
  after : List UInt8

/-- `_tcp_recv`: its calls, and once it returns, the value and the state it leaves. -/
def tcpRecvCalls (s : RecvState) : List RecvRound → List SocketCall × Option (Int64 × RecvState)
  | [] => ([⟨s.vec, none⟩], none)
  | r :: rounds =>
    let s := s.enqueue r.before
    let rb := asSize r.result
    let again := rb = asSize eRestartSys ∨ rb = asSize eAgain
    -- the test of an unsigned number for being negative, as the source has it
    if ¬ again ∧ rb < 0 then ([⟨s.vec, some r.result⟩], some (-1, s))
    else
      let next := (s.take rb (acceptedCount r.result)).enqueue r.after
      if next.queue.isEmpty then ([⟨s.vec, some r.result⟩], some (next.totalRb, next))
      else
        let rest := tcpRecvCalls next rounds
        (⟨s.vec, some r.result⟩ :: rest.1, rest.2)

/-! ## One round -/

/-- The state at the end of a round. -/
def RecvState.after (s : RecvState) (r : RecvRound) : RecvState :=
  ((s.enqueue r.before).take (asSize r.result) (acceptedCount r.result)).enqueue r.after

/-- The queue at the end of a round. -/
def queueAfter (queue : List UInt8) (r : RecvRound) : List UInt8 :=
  (queue ++ r.before).drop (acceptedCount r.result) ++ r.after

/-- **What a round does** to the four parts of the state. -/
theorem RecvState.after_eq (s : RecvState) (r : RecvRound) :
    s.after r =
      { vec := s.vec.after r.result
        totalRb := if IsRetry r.result then s.totalRb else s.totalRb + r.result.toInt64
        queue := queueAfter s.queue r
        mem := write s.mem s.vec.iovBase.toNat
          ((s.queue ++ r.before).take (acceptedCount r.result)) } := by
  rw [after, take, Kvec.after]
  by_cases hretry : IsRetry r.result
  · rw [if_pos (asSize_again.mpr hretry), if_pos hretry, if_pos hretry]
    rfl
  · rw [if_neg (fun h => hretry (asSize_again.mp h)), if_neg hretry, if_neg hretry]
    rfl

/-- **One round of the loop.**  No result makes it return an error. -/
theorem tcpRecvCalls_cons (s : RecvState) (r : RecvRound) (rounds : List RecvRound) :
    tcpRecvCalls s (r :: rounds) =
      if queueAfter s.queue r = [] then
        ([⟨s.vec, some r.result⟩], some ((s.after r).totalRb, s.after r))
      else
        (⟨s.vec, some r.result⟩ :: (tcpRecvCalls (s.after r) rounds).1,
          (tcpRecvCalls (s.after r) rounds).2) := by
  have hempty : (s.after r).queue.isEmpty = true ↔ queueAfter s.queue r = [] := by
    rw [List.isEmpty_iff, s.after_eq]
  rw [tcpRecvCalls]
  dsimp only
  rw [if_neg fun h => not_asSize_neg r.result h.2]
  exact if_congr hempty rfl rfl

/-- The tests that end the rounds. -/
def queueTests : List UInt8 → List RecvRound → List (Int32 × Bool)
  | _, [] => []
  | queue, r :: rounds =>
    (r.result, !(queueAfter queue r).isEmpty) :: queueTests (queueAfter queue r) rounds

/-- The loop is the one of the connection, with its vector and its queue. -/
theorem tcpRecv_eq (s : RecvState) (rounds : List RecvRound) :
    (tcpRecvCalls s rounds).1.map (fun c => SocketEvent.recvmsg c.result) =
        (tcpRecv s.totalRb (queueTests s.queue rounds)).1 ∧
      (tcpRecvCalls s rounds).2.map Prod.fst =
        (tcpRecv s.totalRb (queueTests s.queue rounds)).2 := by
  induction rounds generalizing s with
  | nil => exact ⟨rfl, rfl⟩
  | cons r rounds ih =>
    obtain ⟨hevents, hreturned⟩ := ih (s.after r)
    rw [s.after_eq] at hevents hreturned
    rw [tcpRecvCalls_cons, queueTests, tcpRecv]
    dsimp only
    by_cases hempty : queueAfter s.queue r = []
    · rw [if_pos hempty, hempty]
      refine ⟨rfl, ?_⟩
      rw [s.after_eq]
      exact congrArg some (if_congr Iff.rfl rfl rfl)
    · have hmore : (!(queueAfter s.queue r).isEmpty) = true := by
        rw [Bool.not_eq_true', ← Bool.not_eq_true, List.isEmpty_iff]
        exact hempty
      rw [if_neg hempty, if_pos hmore, s.after_eq]
      exact ⟨congrArg _ hevents, hreturned⟩

/-! ## A reply of the wanted length -/

/-- All bytes that are queued. -/
def arrivals (rounds : List RecvRound) : List UInt8 := rounds.flatMap fun r => r.before ++ r.after

/-- The rounds in which exactly `left` bytes, those of the queue included, reach a loop that wants
`left` bytes: a call is interrupted, or takes at least one byte and at most what is wanted and
queued, and the last one takes the last byte. -/
def Delivers : ℕ → List UInt8 → List RecvRound → Prop
  | left, queue, [] => left = 0 ∧ queue = []
  | left, queue, r :: rounds =>
    0 < left ∧
      (IsRetry r.result ∨ 1 ≤ r.result.toInt ∧ r.result.toInt ≤ left ∧
        r.result.toInt ≤ (queue ++ r.before).length) ∧
      Delivers (left - acceptedCount r.result) (queueAfter queue r) rounds

/-- At the end of every round but the last a byte is queued. -/
def NeverDrained : List UInt8 → List RecvRound → Prop
  | _, [] => True
  | queue, r :: rounds =>
    rounds ≠ [] → queueAfter queue r ≠ [] ∧ NeverDrained (queueAfter queue r) rounds

/-- The loop returns the wanted length, the buffer holds all bytes in order, and none is left for
the next call. -/
def ReceivesAll (b : KernelBuf) (mem : Mem) (rounds : List RecvRound) : Prop :=
  ∃ s, (tcpRecvCalls (b.recvState [] mem) rounds).2 = some (b.len.toInt64, s) ∧
    read s.mem b.base.toNat b.len.toNat = arrivals rounds ∧ s.queue = []

theorem count_le_of_delivers {left : ℕ} {queue : List UInt8} {result : Int32}
    (h : IsRetry result ∨ 1 ≤ result.toInt ∧ result.toInt ≤ left ∧
      result.toInt ≤ queue.length) :
    acceptedCount result ≤ left ∧ acceptedCount result ≤ queue.length :=
  ⟨acceptedCount_le (h.imp_right fun hresult => ⟨hresult.1, hresult.2.1⟩),
    acceptedCount_le (h.imp_right fun hresult => ⟨hresult.1, hresult.2.2⟩)⟩

/-- **Exactly the wanted bytes arrive.** -/
theorem Delivers.length {left : ℕ} {queue : List UInt8} {rounds : List RecvRound}
    (h : Delivers left queue rounds) : queue.length + (arrivals rounds).length = left := by
  induction rounds generalizing left queue with
  | nil =>
    obtain ⟨rfl, rfl⟩ := h
    rfl
  | cons r rounds ih =>
    obtain ⟨-, hresult, hrest⟩ := h
    obtain ⟨hwanted, hqueued⟩ := count_le_of_delivers hresult
    have hlen := ih hrest
    have hsplit : arrivals (r :: rounds) = r.before ++ r.after ++ arrivals rounds :=
      List.flatMap_cons
    rw [hsplit]
    simp only [queueAfter, List.length_append, List.length_drop] at hlen hqueued ⊢
    omega

theorem RecvState.after_total (s : RecvState) (r : RecvRound) :
    (s.after r).totalRb + (s.after r).vec.iovLen.toInt64 = s.totalRb + s.vec.iovLen.toInt64 := by
  rw [s.after_eq, Kvec.after]
  dsimp only
  by_cases hretry : IsRetry r.result
  · rw [if_pos hretry, if_pos hretry]
  · rw [if_neg hretry, if_neg hretry, UInt64.toInt64_sub]
    show s.totalRb + r.result.toInt64 + (s.vec.iovLen.toInt64 - r.result.toInt64) = _
    rw [Int64.add_assoc, Int64.add_comm r.result.toInt64, Int64.sub_add_cancel]

/-- **The loop while a reply arrives.**  It returns at the first test that finds the queue empty,
and has got everything by then exactly if that is the last one. -/
theorem tcpRecvCalls_of_delivers {s : RecvState} {rounds : List RecvRound}
    (hfits : s.vec.iovBase.toNat + s.vec.iovLen.toNat ≤ 2 ^ 64) (hpos : 0 < s.vec.iovLen.toNat)
    (h : Delivers s.vec.iovLen.toNat s.queue rounds) :
    ∃ t, (tcpRecvCalls s rounds).2 = some (t.totalRb, t) ∧
      t.totalRb + t.vec.iovLen.toInt64 = s.totalRb + s.vec.iovLen.toInt64 ∧
      (t.vec.iovLen.toNat = 0 ↔ NeverDrained s.queue rounds) ∧
      (NeverDrained s.queue rounds → t.queue = [] ∧
        t.mem = write s.mem s.vec.iovBase.toNat (s.queue ++ arrivals rounds)) := by
  induction rounds generalizing s with
  | nil => exact absurd h.1 hpos.ne'
  | cons r rounds ih =>
    obtain ⟨-, hresult, hrest⟩ := h
    obtain ⟨hwanted, hqueued⟩ := count_le_of_delivers hresult
    have hsplit : arrivals (r :: rounds) = r.before ++ r.after ++ arrivals rounds :=
      List.flatMap_cons
    have htotal := s.after_total r
    have haccepts : IsRetry r.result ∨
        1 ≤ r.result.toInt ∧ r.result.toInt ≤ s.vec.iovLen.toNat :=
      hresult.imp_right fun h => ⟨h.1, h.2.1⟩
    obtain ⟨hlen, hbase⟩ := Kvec.after_of_accepts hfits haccepts
    have hvec : (s.after r).vec = s.vec.after r.result := by rw [s.after_eq]
    have hqueue : (s.after r).queue = queueAfter s.queue r := by rw [s.after_eq]
    have hmem : (s.after r).mem = write s.mem s.vec.iovBase.toNat
        ((s.queue ++ r.before).take (acceptedCount r.result)) := by rw [s.after_eq]
    rw [tcpRecvCalls_cons]
    by_cases hempty : queueAfter s.queue r = []
    · rw [if_pos hempty]
      refine ⟨s.after r, rfl, htotal, ?_, fun hnever => ?_⟩
      · rw [hvec, hlen]
        cases rounds with
        | nil => exact iff_of_true hrest.1 fun hne => absurd rfl hne
        | cons r' rounds =>
          exact iff_of_false hrest.1.ne' fun hnever => (hnever (List.cons_ne_nil _ _)).1 hempty
      · -- the queue is empty at the last test only
        have hnil : rounds = [] := by
          by_contra hne
          exact (hnever hne).1 hempty
        obtain ⟨hdrop, hafter⟩ := List.append_eq_nil_iff.mp hempty
        have hall : (s.queue ++ r.before).take (acceptedCount r.result) =
            s.queue ++ r.before := List.take_of_length_le (List.drop_eq_nil_iff.mp hdrop)
        rw [hqueue, hmem, hall, hsplit, hnil, hafter]
        exact ⟨hempty, by simp [arrivals]⟩
    · rw [if_neg hempty]
      have hne : rounds ≠ [] := by
        rintro rfl
        exact hempty hrest.2
      have hleft : 0 < (s.after r).vec.iovLen.toNat := by
        rw [hvec, hlen]
        cases rounds with
        | nil => exact absurd rfl hne
        | cons r' rounds => exact hrest.1
      have hnext : (s.after r).vec.iovBase.toNat =
          s.vec.iovBase.toNat + acceptedCount r.result := by
        rw [hvec] at hleft ⊢
        exact hbase hleft
      obtain ⟨t, hret, hconserved, hwhole, hgot⟩ := ih (s := s.after r)
        (by rw [hnext, hvec, hlen]; omega) hleft (by rw [hvec, hlen, hqueue]; exact hrest)
      rw [hqueue] at hwhole hgot
      have hnever : NeverDrained s.queue (r :: rounds) ↔
          NeverDrained (queueAfter s.queue r) rounds :=
        ⟨fun h => (h hne).2, fun h _ => ⟨hempty, h⟩⟩
      refine ⟨t, hret, hconserved.trans htotal, hwhole.trans hnever.symm, fun h => ?_⟩
      obtain ⟨hnone, hstored⟩ := hgot (hnever.mp h)
      refine ⟨hnone, ?_⟩
      have hcount : ((s.queue ++ r.before).take (acceptedCount r.result)).length =
          acceptedCount r.result := List.length_take_of_le hqueued
      have hjoin := write_append s.mem s.vec.iovBase.toNat
        ((s.queue ++ r.before).take (acceptedCount r.result))
        (queueAfter s.queue r ++ arrivals rounds)
      rw [hcount] at hjoin
      rw [hstored, hmem, hnext, hjoin, queueAfter, hsplit]
      congr 1
      rw [← List.append_assoc, ← List.append_assoc, List.take_append_drop]
      simp only [List.append_assoc]

/-- **When a reply is received whole**: at the end of every round but the last a byte is queued. -/
theorem receivesAll_iff (b : KernelBuf) (mem : Mem) (rounds : List RecvRound)
    (hpos : 0 < b.len.toNat) (h : Delivers b.len.toNat [] rounds) :
    ReceivesAll b mem rounds ↔ NeverDrained [] rounds := by
  obtain ⟨t, hret, htotal, hwhole, hgot⟩ :=
    tcpRecvCalls_of_delivers (s := b.recvState [] mem) b.fits hpos h
  change t.totalRb + t.vec.iovLen.toInt64 = 0 + b.len.toInt64 at htotal
  rw [Int64.zero_add] at htotal
  constructor
  · rintro ⟨s, hs, -, -⟩
    refine hwhole.mp ?_
    have hlen : t.totalRb = b.len.toInt64 := by
      rw [hret] at hs
      exact congrArg Prod.fst (Option.some.inj hs)
    rw [hlen] at htotal
    have hzero : t.vec.iovLen.toInt64 = 0 := by
      rw [← Int64.add_right_inj b.len.toInt64, htotal, Int64.add_zero]
    rw [← UInt64.toUInt64_toInt64 t.vec.iovLen, hzero]
    rfl
  · intro hnever
    obtain ⟨hqueue, hmem⟩ := hgot hnever
    have hzero : t.vec.iovLen = 0 := UInt64.toNat_inj.mp (hwhole.mpr hnever)
    rw [hzero] at htotal
    have hlen : t.totalRb = b.len.toInt64 := (Int64.add_zero _).symm.trans htotal
    refine ⟨t, by rw [hret, hlen], ?_, hqueue⟩
    have hall := h.length
    rw [List.length_nil, Nat.zero_add] at hall
    rw [hmem, ← hall]
    exact read_write mem b.base.toNat (arrivals rounds)

/-- The four bytes of a reply that are queued two by two. -/
def splitReply : List RecvRound := [⟨[1, 0], 2, []⟩, ⟨[0, 0], 2, []⟩]

/-- The four bytes of a reply that are queued at once, after an interruption. -/
def wholeReply : List RecvRound := [⟨[1, 0], -11, [0, 0]⟩, ⟨[], 4, []⟩]

theorem receivesAll_wholeReply_iff :
    ReceivesAll sampleBuf (fun _ => 0) wholeReply ↔ NeverDrained [] wholeReply :=
  receivesAll_iff sampleBuf (fun _ => 0) wholeReply (by decide)
    ⟨by decide, by decide, by decide, by decide, by decide, by decide⟩

/-- **Half of a reply** is taken for all of it. -/
theorem splitReply_not_received : ¬ ∀ (b : KernelBuf) (mem : Mem) (rounds : List RecvRound),
    0 < b.len.toNat → Delivers b.len.toNat [] rounds → ReceivesAll b mem rounds := by
  intro hall
  obtain ⟨s, hs, -, -⟩ := hall sampleBuf (fun _ => 0) splitReply (by decide)
    ⟨by decide, by decide, by decide, by decide, by decide, by decide⟩
  have hret : ((tcpRecvCalls (sampleBuf.recvState [] fun _ => 0) splitReply).2.map Prod.fst) =
      some 2 := rfl
  rw [hs] at hret
  have hlen : sampleBuf.len.toInt64 = 2 := Option.some.inj hret
  exact absurd hlen (by decide)

/-! ## A queue to which nothing is added -/

/-- `kernel_recvmsg` with a size of `n`: the number of bytes it takes.  On an empty queue it waits,
unless the peer has closed the connection or nothing is asked for. -/
def kernelRecvmsg (closed : Bool) (n : UInt64) (queue : List UInt8) : Option UInt64 :=
  if queue = [] then
    if closed = true ∨ n = 0 then some 0 else none
  else some (UInt64.ofNat (min n.toNat queue.length))

/-- `_tcp_recv` for at most so many rounds: the value and the state it leaves, if it returns. -/
def tcpRecvOn (closed : Bool) : ℕ → RecvState → Option (Int64 × RecvState)
  | 0, _ => none
  | fuel + 1, s =>
    match kernelRecvmsg closed s.vec.iovLen s.queue with
    | none => none
    | some rb =>
      let next := s.take rb rb.toNat
      if next.queue.isEmpty then some (next.totalRb, next) else tcpRecvOn closed fuel next

theorem RecvState.take_of_le (s : RecvState) (rb : UInt64) (h : rb.toNat ≤ 2 ^ 63) :
    s.take rb rb.toNat =
      { vec := ⟨s.vec.iovBase + rb, s.vec.iovLen - rb⟩
        totalRb := s.totalRb + rb.toInt64
        queue := s.queue.drop rb.toNat
        mem := write s.mem s.vec.iovBase.toNat (s.queue.take rb.toNat) } := by
  refine if_neg ?_
  rintro (rfl | rfl)
  · exact absurd h (by decide +kernel)
  · exact absurd h (by decide +kernel)

theorem tcpRecvOn_succ {closed : Bool} {s : RecvState} {rb : UInt64}
    (h : kernelRecvmsg closed s.vec.iovLen s.queue = some rb) (fuel : ℕ) :
    tcpRecvOn closed (fuel + 1) s =
      if (s.take rb rb.toNat).queue = [] then
        some ((s.take rb rb.toNat).totalRb, s.take rb rb.toNat)
      else tcpRecvOn closed fuel (s.take rb rb.toNat) := by
  rw [tcpRecvOn, h]
  exact if_congr List.isEmpty_iff rfl rfl

/-- **The loop does not end** once nothing is wanted and something is queued. -/
theorem tcpRecvOn_of_full (closed : Bool) {s : RecvState} (hfull : s.vec.iovLen = 0)
    (hqueue : s.queue ≠ []) (fuel : ℕ) : tcpRecvOn closed fuel s = none := by
  induction fuel generalizing s with
  | zero => rfl
  | succ fuel ih =>
    have hrb : kernelRecvmsg closed s.vec.iovLen s.queue = some 0 := by
      rw [kernelRecvmsg, if_neg hqueue, hfull]
      exact congrArg (fun n => some (UInt64.ofNat n)) (Nat.zero_min _)
    have hsame := s.take_of_le 0 (by decide)
    have hlen : (s.take 0 (0 : UInt64).toNat).vec.iovLen = 0 := by
      rw [hsame, hfull]
      rfl
    have hleft : (s.take 0 (0 : UInt64).toNat).queue ≠ [] := by
      rw [hsame]
      exact hqueue
    rw [tcpRecvOn_succ hrb, if_neg hleft, ih hlen hleft]

end LsmFork
