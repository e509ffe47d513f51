import LsmFork.Lib.Machine
import LsmFork.Lib.Overwrite
import LsmFork.Lib.Segments
import LsmFork.Wire.MappingInfo

/-!
# The receive loop of the server

For each client the server loops: receive a header, make a buffer of `mapping_len` bytes if it has
none, receive the payload into it at the announced offset, and, when the header ends a mapping, dump
the buffer and reply.  At the end of every round the buffer is unmapped, whether or not the mapping
has ended.  The model reads the client's bytes from the pieces that `recv` cuts them into, and takes
the outcomes of `mmap` and of the reply from the environment.

* `Region`: a live buffer, with `root_buf` pointing to it.
* `LoopHead`: the variables at the head of the loop, and what the client has still to deliver.
* `receiveInfo`, `allocate`, `receivePayload`, `finishMapping`: the parts of one round.
* `iteration`, `receiveLoop`: one round, and the loop as a machine.
* `receiveInfo_eq_some`, `receivePayload_ok`: what has been received, in terms of the uncut stream.
-/

namespace LsmFork

open Segments

/-- Anonymous memory that the server has mapped. -/
structure Region where
  size : UInt64
  bytes : List UInt8
  length_eq : bytes.length = size.toNat

namespace Region

/-- What `mmap` gives: zeros. -/
def fresh (size : UInt64) : Region where
  size := size
  bytes := List.replicate size.toNat 0
  length_eq := List.length_replicate

/-- Store one byte at an index from the start of the region.  An index outside it hits other memory,
and leaves the region as it is. -/
def store (r : Region) (index : UInt64) (b : UInt8) : Region where
  size := r.size
  bytes := r.bytes.set index.toNat b
  length_eq := by rw [List.length_set, r.length_eq]

end Region

/-- Why the server leaves the loop. -/
inductive Disconnect where
  | endOfStream
  | mappingLenZero
  | mmapFailed
  | outOfBounds
  | replyFailed
  deriving DecidableEq

/-- What the server does in the loop.  `frame` marks a header whose payload, if any, has arrived in
full; `store` carries the index from `root_buf` and the size of the region. -/
inductive ServerEvent where
  | mmap (len : UInt64) (ok : Bool)
  | store (index size : UInt64)
  | frame (f : Frame)
  | dump (info : MappingInfo) (buf : List UInt8)
  | reply (buf : List UInt8)
  | munmap (len : UInt64)
  | disconnect (why : Disconnect)
  deriving DecidableEq

/-- The server's system calls: the outcome of `mmap` and of the reply in each round. -/
structure ServerEnv where
  mmap : ℕ → UInt64 → Bool
  reply : ℕ → Bool

/-- The state at the head of the loop: `root_buf`, `current_mapping_size`, the bytes that the client
has still to deliver, and the number of rounds behind it. -/
structure LoopHead where
  rootBuf : Option Region
  currentMappingSize : UInt64
  input : List (List UInt8)
  round : ℕ

/-- A client has connected. -/
def LoopHead.start (input : List (List UInt8)) : LoopHead := ⟨none, 0, input, 0⟩

/-! ## The parts of a round -/

/-- Receive a header, or see the end of the stream. -/
def receiveInfo (input : List (List UInt8)) : Option (MappingInfo × List (List UInt8)) :=
  match recvLoop MappingInfo.size input with
  | (_, none) => none
  | (chunks, some rest) => some (MappingInfo.ofBytes chunks.flatten, rest)

/-- The label `client_disconnected`. -/
def clientDisconnected (why : Disconnect) (rootBuf : Option Region) (currentMappingSize : UInt64) :
    List ServerEvent :=
  (if rootBuf.isSome then [.munmap currentMappingSize] else []) ++ [.disconnect why]

/-- Allocate a buffer for a new mapping, unless there is one.  It gives the region that `root_buf`
points to from then on, and `current_mapping_size`. -/
def allocate (env : ServerEnv) (s : LoopHead) (info : MappingInfo) :
    List ServerEvent × Except Disconnect (Region × UInt64) :=
  match s.rootBuf with
  | some region => ([], .ok (region, s.currentMappingSize))
  | none =>
    if info.mappingLen = 0 then ([], .error .mappingLenZero)
    else if env.mmap s.round info.mappingLen then
      ([.mmap info.mappingLen true], .ok (.fresh info.mappingLen, info.mappingLen))
    else ([.mmap info.mappingLen false], .error .mmapFailed)

/-- The bytes of one `recv` are stored from `buf + total_read` on. -/
def storeBytes (region : Region) (off : UInt64) : List UInt8 → Region × List ServerEvent
  | [] => (region, [])
  | b :: bs =>
    let rest := storeBytes (region.store off b) (off + 1) bs
    (rest.1, .store off region.size :: rest.2)

/-- The chunks of the read loop are stored one after another. -/
def storeChunks (region : Region) (off : UInt64) :
    List (List UInt8) → Region × List ServerEvent
  | [] => (region, [])
  | chunk :: chunks =>
    let stored := storeBytes region off chunk
    let rest := storeChunks stored.1 (off + UInt64.ofNat chunk.length) chunks
    (rest.1, stored.2 ++ rest.2)

/-- Check the bounds and receive the payload.  It leaves the region, and the payload with the rest
of the stream. -/
def receivePayload (region : Region) (currentMappingSize : UInt64) (info : MappingInfo)
    (input : List (List UInt8)) :
    List ServerEvent × Region × Except Disconnect (List UInt8 × List (List UInt8)) :=
  if 0 < info.len then
    if info.mappedAddr + info.len ≤ currentMappingSize then
      let received := recvLoop info.len.toNat input
      let stored := storeChunks region info.mappedAddr received.1
      (stored.2, stored.1,
        match received.2 with
        | none => .error .endOfStream
        | some rest => .ok (received.1.flatten, rest))
    else ([], region, .error .outOfBounds)
  else ([], region, .ok ([], input))

/-- `analyze_nop`'s reply. -/
def analyzeNop : List UInt8 := [0, 0, 0, 0]

/-- Dump the buffer and reply, when the header ends its mapping; the result says whether the loop
goes on. -/
def finishMapping (env : ServerEnv) (round : ℕ) (info : MappingInfo) (region : Region) :
    List ServerEvent × Bool :=
  if info.isEndOfMapping = 1 then
    if env.reply round then ([.dump info region.bytes, .reply analyzeNop], true)
    else ([.dump info region.bytes], false)
  else ([], true)

/-- **One round of the loop.** -/
def iteration (env : ServerEnv) (s : LoopHead) : List ServerEvent × Option LoopHead :=
  match receiveInfo s.input with
  | none => (clientDisconnected .endOfStream s.rootBuf s.currentMappingSize, none)
  | some (info, input) =>
    match allocate env s info with
    | (evs, .error why) => (evs ++ clientDisconnected why none s.currentMappingSize, none)
    | (evs, .ok (region, currentMappingSize)) =>
      match receivePayload region currentMappingSize info input with
      | (stores, region, .error why) =>
        (evs ++ stores ++ clientDisconnected why (some region) currentMappingSize, none)
      | (stores, region, .ok (payload, rest)) =>
        let finished := finishMapping env s.round info region
        let upToReply := evs ++ stores ++ [.frame ⟨info, payload⟩] ++ finished.1
        if finished.2 then
          (upToReply ++ [.munmap currentMappingSize], some ⟨none, 0, rest, s.round + 1⟩)
        else (upToReply ++ clientDisconnected .replyFailed (some region) currentMappingSize, none)

/-! ## What has been received -/

theorem receiveInfo_of_le {input : List (List UInt8)}
    (h : MappingInfo.size ≤ input.flatten.length) :
    ∃ rest, receiveInfo input =
        some (MappingInfo.ofBytes (input.flatten.take MappingInfo.size), rest) ∧
      rest.flatten = input.flatten.drop MappingInfo.size := by
  obtain ⟨chunks, rest, hloop, htake, hdrop⟩ := recvLoop_of_le h
  refine ⟨rest, ?_, hdrop⟩
  rw [receiveInfo, hloop, ← htake]

theorem receiveInfo_of_nil {input : List (List UInt8)} (h : input.flatten = []) :
    receiveInfo input = none := by
  have hshort : input.flatten.length < MappingInfo.size := by
    rw [h]
    decide
  obtain ⟨chunks, hloop, -⟩ := recvLoop_of_lt hshort
  rw [receiveInfo, hloop]

theorem receiveInfo_of_header {input : List (List UInt8)} {info : MappingInfo}
    {bytes : List UInt8} (h : input.flatten = info.toBytes ++ bytes) :
    ∃ rest, receiveInfo input = some (info, rest) ∧ rest.flatten = bytes := by
  have hle : MappingInfo.size ≤ input.flatten.length := by
    rw [h, List.length_append, MappingInfo.toBytes_length]
    exact Nat.le_add_right _ _
  obtain ⟨rest, hinfo, hrest⟩ := receiveInfo_of_le hle
  rw [h, List.drop_left' info.toBytes_length] at hrest
  rw [h, List.take_left' info.toBytes_length, MappingInfo.ofBytes_toBytes] at hinfo
  exact ⟨rest, hinfo, hrest⟩

theorem receiveInfo_eq_some {input rest : List (List UInt8)} {info : MappingInfo}
    (h : receiveInfo input = some (info, rest)) :
    info.toBytes ++ rest.flatten = input.flatten := by
  rcases Nat.lt_or_ge input.flatten.length MappingInfo.size with hlt | hle
  · obtain ⟨chunks, hloop, -⟩ := recvLoop_of_lt hlt
    rw [receiveInfo, hloop] at h
    cases h
  · obtain ⟨rest', hinfo, hdrop⟩ := receiveInfo_of_le hle
    rw [hinfo] at h
    obtain ⟨rfl, rfl⟩ := Prod.mk.inj (Option.some.inj h)
    rw [MappingInfo.toBytes_ofBytes (List.length_take_of_le hle), hdrop, List.take_append_drop]

theorem storeChunks_eq (region : Region) (off : UInt64) (chunks : List (List UInt8)) :
    storeChunks region off chunks = storeBytes region off chunks.flatten := by
  have happend : ∀ (bs bs' : List UInt8) (region : Region) (off : UInt64),
      storeBytes region off (bs ++ bs') =
        ((storeBytes (storeBytes region off bs).1 (off + UInt64.ofNat bs.length) bs').1,
          (storeBytes region off bs).2 ++
            (storeBytes (storeBytes region off bs).1 (off + UInt64.ofNat bs.length) bs').2) := by
    intro bs bs'
    induction bs with
    | nil => intro region off; simp [storeBytes]
    | cons b bs ih =>
      intro region off
      have hoff : off + UInt64.ofNat (bs.length + 1) = off + 1 + UInt64.ofNat bs.length := by
        rw [UInt64.ofNat_add, UInt64.add_assoc, UInt64.add_comm (UInt64.ofNat bs.length)]
        rfl
      rw [List.cons_append, storeBytes, ih, List.length_cons, hoff]
      rfl
  induction chunks generalizing region off with
  | nil => rfl
  | cons chunk chunks ih => rw [storeChunks, List.flatten_cons, happend, ih]

theorem receivePayload_ok {region region' : Region} {size : UInt64} {info : MappingInfo}
    {input rest : List (List UInt8)} {stores : List ServerEvent} {payload : List UInt8}
    (h : receivePayload region size info input = (stores, region', .ok (payload, rest))) :
    payload.length = info.len.toNat ∧ payload ++ rest.flatten = input.flatten := by
  rw [receivePayload] at h
  split at h
  · split at h
    · rcases Nat.lt_or_ge input.flatten.length info.len.toNat with hlt | hle
      · obtain ⟨chunks, hloop, -⟩ := recvLoop_of_lt hlt
        simp [hloop] at h
      · obtain ⟨chunks, rest', hloop, htake, hdrop⟩ := recvLoop_of_le hle
        simp only [hloop, Prod.mk.injEq, Except.ok.injEq] at h
        obtain ⟨-, -, rfl, rfl⟩ := h
        rw [htake, hdrop, List.length_take_of_le hle, List.take_append_drop]
        exact ⟨rfl, rfl⟩
    · simp at h
  · rename_i hlen
    simp only [Prod.mk.injEq, Except.ok.injEq] at h
    obtain ⟨-, -, rfl, rfl⟩ := h
    have hzero : info.len.toNat = 0 := by
      rw [UInt64.lt_iff_toNat_lt] at hlen
      have : (0 : UInt64).toNat = 0 := rfl
      omega
    exact ⟨hzero.symm, rfl⟩

/-- **What a round takes from the stream** is one complete frame, and it leaves no region. -/
theorem iteration_next {env : ServerEnv} {s s' : LoopHead} {evs : List ServerEvent}
    (h : iteration env s = (evs, some s')) :
    ∃ f : Frame, .frame f ∈ evs ∧ f.Complete ∧ f.toBytes ++ s'.input.flatten = s.input.flatten ∧
      s'.rootBuf = none := by
  rw [iteration] at h
  split at h
  · cases h
  · rename_i info input hinfo
    split at h
    · cases h
    · rename_i allocEvs region size halloc
      split at h
      · cases h
      · rename_i stores region' payload rest hpayload
        obtain ⟨hlen, hrest⟩ := receivePayload_ok hpayload
        dsimp only at h
        split at h
        · obtain ⟨rfl, hnext⟩ := Prod.mk.inj h
          obtain rfl := Option.some.inj hnext
          refine ⟨⟨info, payload⟩, by simp, hlen, ?_, rfl⟩
          rw [Frame.toBytes, List.append_assoc, hrest, receiveInfo_eq_some hinfo]
        · cases h

/-- The loop, as a machine that uses up the stream. -/
def receiveLoop (env : ServerEnv) : Machine LoopHead ServerEvent where
  step := iteration env
  fuel s := s.input.flatten.length
  fuel_lt {s s'} h := by
    have hstep : iteration env s = ((iteration env s).1, some s') := Prod.ext rfl h
    obtain ⟨f, -, -, hsplit, -⟩ := iteration_next hstep
    have hlen := congrArg List.length hsplit
    rw [List.length_append, Frame.toBytes_length] at hlen
    have hsize : 0 < MappingInfo.size := by decide
    omega

/-- At the head of the loop there is never a region left over from the round before. -/
theorem rootBuf_eq_none {env : ServerEnv} {input : List (List UInt8)} {evs : List ServerEvent}
    {s : LoopHead} (h : (receiveLoop env).Reaches (.start input) evs s) : s.rootBuf = none :=
  h.invariant (I := fun s => s.rootBuf = none)
    (fun _ hstep => (iteration_next hstep).choose_spec.2.2.2) rfl

end LsmFork
