import LsmFork.Server.ReceiveLoop

/-!
# The receive loop with its pointers

For each client the server keeps a pointer `root_buf` to its buffer, a second pointer `buf` into it,
and `current_mapping_size`.  They are set and cleared on different branches, and several `goto`s
lead to one label that unmaps the buffer if `root_buf` says that there is one.  In the model of
`Server.ReceiveLoop` the buffer is a value; here it is behind these pointers, and the accept loop
goes from one client to the next.  A region is named by the client and the round for which it has
been mapped.

* `Ptr`, `ClientVars`, `LifeEvent`: pointers, the variables, what the server does with them.
* `lifeRound`, `lifeLoop`, `serve`: one round, the loop of one client, and the accept loop.
* `lifeRound_iteration`, `lifeLoop_skeleton`: round by round, the calls are those of the model where
  the buffer is a value.
-/

namespace LsmFork

open Segments

/-- A region: the client that it was mapped for, and the round of its loop. -/
abbrev RegionId := ℕ × ℕ

/-- A pointer of the server: `NULL`, `MAP_FAILED`, or an address in a region. -/
inductive Ptr where
  | null
  | mapFailed
  | into (region : RegionId) (offset : UInt64)
  deriving DecidableEq

/-- `p + n`. -/
def Ptr.add : Ptr → UInt64 → Ptr
  | into region offset, n => into region (offset + n)
  | p, _ => p

/-- The variables of the loop for one client. -/
structure ClientVars where
  buf : Ptr
  rootBuf : Ptr
  currentMappingSize : UInt64
  deriving DecidableEq

/-- What the server does.  `head` and `clientDisconnected` are the head of the loop and the label;
`close` carries the branch that led there. -/
inductive LifeEvent where
  | accept
  | head (vars : ClientVars)
  | mmap (len : UInt64) (result : Ptr)
  | recv (buf : Ptr) (len : UInt64)
  | dumpMapping (info : MappingInfo) (buf : Ptr)
  | reply (buf : List UInt8)
  | munmap (addr : Ptr) (len : UInt64)
  | clientDisconnected (vars : ClientVars)
  | close (why : Disconnect)
  deriving DecidableEq

/-- The state at the head of the loop. -/
structure ClientHead where
  vars : ClientVars
  input : List (List UInt8)
  round : ℕ

/-- A client has connected. -/
def ClientHead.start (input : List (List UInt8)) : ClientHead := ⟨⟨.null, .null, 0⟩, input, 0⟩

/-! ## The source with its pointers -/

/-- The label `client_disconnected`. -/
def disconnectLabel (vars : ClientVars) (why : Disconnect) : List LifeEvent :=
  .clientDisconnected vars ::
    ((if vars.rootBuf ≠ .null then [.munmap vars.rootBuf vars.currentMappingSize] else []) ++
      [.close why])

/-- Allocate a buffer for a new mapping, unless there is one. -/
def allocateBuf (env : ServerEnv) (client : ℕ) (s : ClientHead) (info : MappingInfo) :
    List LifeEvent × ClientVars × Option Disconnect :=
  if s.vars.rootBuf = .null then
    if info.mappingLen = 0 then ([], s.vars, some .mappingLenZero)
    else
      let vars := { s.vars with currentMappingSize := info.mappingLen }
      let result := if env.mmap s.round info.mappingLen then Ptr.into (client, s.round) 0
        else .mapFailed
      let vars := { vars with buf := result }
      if vars.buf = .mapFailed then ([.mmap info.mappingLen result], vars, some .mmapFailed)
      else ([.mmap info.mappingLen result], { vars with rootBuf := vars.buf }, none)
  else ([], s.vars, none)

/-- The calls of `recv` for the payload.  One call returns each chunk, and if the stream has ended
one more call finds that out. -/
def payloadReads (buf : Ptr) (len : UInt64) (ended : Bool) (totalRead : UInt64) :
    List (List UInt8) → List LifeEvent
  | [] => if ended then [.recv (buf.add totalRead) (len - totalRead)] else []
  | chunk :: chunks => .recv (buf.add totalRead) (len - totalRead) ::
      payloadReads buf len ended (totalRead + UInt64.ofNat chunk.length) chunks

/-- Check the bounds and receive the payload. -/
def receiveInto (vars : ClientVars) (info : MappingInfo) (input : List (List UInt8)) :
    List LifeEvent × ClientVars × Except Disconnect (List (List UInt8)) :=
  if 0 < info.len then
    if vars.rootBuf ≠ .null ∧ info.mappedAddr + info.len ≤ vars.currentMappingSize then
      let vars := { vars with buf := vars.rootBuf.add info.mappedAddr }
      let received := recvLoop info.len.toNat input
      (payloadReads vars.buf info.len received.2.isNone 0 received.1, vars,
        match received.2 with
        | none => .error .endOfStream
        | some rest => .ok rest)
    else ([], vars, .error .outOfBounds)
  else ([], vars, .ok input)

/-- Dump the buffer and reply, when the header ends its mapping; the result says whether the loop
goes on. -/
def finishDump (env : ServerEnv) (round : ℕ) (info : MappingInfo) (vars : ClientVars) :
    List LifeEvent × Bool :=
  if info.isEndOfMapping = 1 then
    if env.reply round then ([.dumpMapping info vars.rootBuf, .reply analyzeNop], true)
    else ([.dumpMapping info vars.rootBuf], false)
  else ([], true)

/-- **One round of the loop**, for the given client. -/
def lifeRound (env : ServerEnv) (client : ℕ) (s : ClientHead) :
    List LifeEvent × Option ClientHead :=
  match receiveInfo s.input with
  | none => (.head s.vars :: disconnectLabel s.vars .endOfStream, none)
  | some (info, input) =>
    match allocateBuf env client s info with
    | (evs, vars, some why) => (.head s.vars :: (evs ++ disconnectLabel vars why), none)
    | (evs, vars, none) =>
      match receiveInto vars info input with
      | (reads, vars, .error why) =>
        (.head s.vars :: (evs ++ (reads ++ disconnectLabel vars why)), none)
      | (reads, vars, .ok rest) =>
        let finished := finishDump env s.round info vars
        if finished.2 then
          (.head s.vars :: (evs ++ (reads ++ (finished.1 ++
              [.munmap vars.rootBuf vars.currentMappingSize]))),
            some ⟨{ vars with rootBuf := .null, currentMappingSize := 0 }, rest, s.round + 1⟩)
        else
          (.head s.vars :: (evs ++ (reads ++ (finished.1 ++ disconnectLabel vars .replyFailed))),
            none)

theorem receiveInto_length_le {vars vars' : ClientVars} {info : MappingInfo}
    {input rest : List (List UInt8)} {reads : List LifeEvent}
    (h : receiveInto vars info input = (reads, vars', .ok rest)) :
    rest.flatten.length ≤ input.flatten.length := by
  rw [receiveInto] at h
  split at h
  · split at h
    · rcases Nat.lt_or_ge input.flatten.length info.len.toNat with hlt | hle
      · obtain ⟨chunks, hloop, -⟩ := recvLoop_of_lt hlt
        simp [hloop] at h
      · obtain ⟨chunks, rest', hloop, -, hdrop⟩ := recvLoop_of_le hle
        simp only [hloop, Prod.mk.injEq, Except.ok.injEq] at h
        rw [← h.2.2, hdrop, List.length_drop]
        exact Nat.sub_le _ _
    · simp at h
  · simp only [Prod.mk.injEq, Except.ok.injEq] at h
    rw [h.2.2]

/-- The loop of one client, as a machine that uses up the stream. -/
def lifeLoop (env : ServerEnv) (client : ℕ) : Machine ClientHead LifeEvent where
  step := lifeRound env client
  fuel s := s.input.flatten.length
  fuel_lt {s s'} h := by
    rw [lifeRound] at h
    split at h
    · cases h
    · rename_i info input hinfo
      have hlen := congrArg List.length (receiveInfo_eq_some hinfo)
      rw [List.length_append, MappingInfo.toBytes_length] at hlen
      have hsize : 0 < MappingInfo.size := by decide
      split at h
      · cases h
      · split at h
        · cases h
        · rename_i reads vars rest hreceived
          have hle := receiveInto_length_le hreceived
          dsimp only at h
          split at h
          · obtain rfl := Option.some.inj h
            show rest.flatten.length < s.input.flatten.length
            omega
          · cases h

/-- A client: its bytes, as `recv` delivers them, and the outcomes of `mmap` and of the replies
while it is connected. -/
structure TcpClient where
  input : List (List UInt8)
  env : ServerEnv

/-- The accept loop, from the client with the given number on.  `none` is a call of `accept` that
fails. -/
def serve (client : ℕ) : List (Option TcpClient) → List LifeEvent
  | [] => []
  | none :: clients => serve client clients
  | some c :: clients =>
    .accept :: ((lifeLoop c.env client).run (.start c.input) ++ serve (client + 1) clients)

/-! ## The same calls as without the pointers -/

/-- What an event is in the model where the buffer is a value, but for the content. -/
def LifeEvent.skeleton : LifeEvent → Option ServerEvent
  | .mmap len result => some (.mmap len (result ≠ .mapFailed))
  | .dumpMapping info _ => some (.dump info [])
  | .reply buf => some (.reply buf)
  | .munmap _ len => some (.munmap len)
  | .close why => some (.disconnect why)
  | _ => none

/-- An event without the content of the buffer. -/
def ServerEvent.skeleton : ServerEvent → Option ServerEvent
  | .store _ _ => none
  | .frame _ => none
  | .dump info _ => some (.dump info [])
  | ev => some ev

theorem skeleton_payloadReads (buf : Ptr) (len : UInt64) (ended : Bool) (totalRead : UInt64)
    (chunks : List (List UInt8)) :
    (payloadReads buf len ended totalRead chunks).filterMap LifeEvent.skeleton = [] := by
  induction chunks generalizing totalRead with
  | nil =>
    rw [payloadReads]
    split <;> rfl
  | cons chunk chunks ih => exact ih _

theorem skeleton_storeBytes (region : Region) (off : UInt64) (bs : List UInt8) :
    (storeBytes region off bs).2.filterMap ServerEvent.skeleton = [] := by
  induction bs generalizing region off with
  | nil => rfl
  | cons b bs ih => exact ih _ _

theorem skeleton_storeChunks (region : Region) (off : UInt64) (chunks : List (List UInt8)) :
    (storeChunks region off chunks).2.filterMap ServerEvent.skeleton = [] := by
  rw [storeChunks_eq]
  exact skeleton_storeBytes _ _ _

theorem skeleton_disconnectLabel_null {vars : ClientVars} (hnull : vars.rootBuf = .null)
    (why : Disconnect) (size : UInt64) :
    (disconnectLabel vars why).filterMap LifeEvent.skeleton =
      (clientDisconnected why none size).filterMap ServerEvent.skeleton := by
  rw [disconnectLabel, if_neg (fun hne => hne hnull)]
  rfl

theorem skeleton_disconnectLabel {vars : ClientVars} (hroot : vars.rootBuf ≠ .null)
    (why : Disconnect) (region : Region) :
    (disconnectLabel vars why).filterMap LifeEvent.skeleton =
      (clientDisconnected why (some region) vars.currentMappingSize).filterMap
        ServerEvent.skeleton := by
  rw [disconnectLabel, if_pos hroot]
  rfl

/-- The two heads of the loop belong together: neither has a buffer. -/
structure Points (s : ClientHead) (t : LoopHead) : Prop where
  null : s.vars.rootBuf = .null
  rootBuf : t.rootBuf = none
  input : s.input = t.input
  round : s.round = t.round

/-- **What an allocation can do**, when there is no buffer. -/
theorem allocateBuf_cases (env : ServerEnv) (client : ℕ) {s : ClientHead} {t : LoopHead}
    (h : Points s t) (info : MappingInfo) :
    (allocateBuf env client s info = ([], s.vars, some .mappingLenZero) ∧
      allocate env t info = ([], .error .mappingLenZero)) ∨
    (allocateBuf env client s info = ([.mmap info.mappingLen .mapFailed],
        ⟨.mapFailed, .null, info.mappingLen⟩, some .mmapFailed) ∧
      allocate env t info = ([.mmap info.mappingLen false], .error .mmapFailed)) ∨
    (allocateBuf env client s info = ([.mmap info.mappingLen (.into (client, s.round) 0)],
        ⟨.into (client, s.round) 0, .into (client, s.round) 0, info.mappingLen⟩, none) ∧
      allocate env t info = ([.mmap info.mappingLen true],
        .ok (.fresh info.mappingLen, info.mappingLen))) := by
  rw [allocateBuf, if_pos h.null, allocate, h.rootBuf, ← h.round]
  dsimp only
  by_cases hzero : info.mappingLen = 0
  · rw [if_pos hzero, if_pos hzero]
    exact Or.inl ⟨rfl, rfl⟩
  · rw [if_neg hzero, if_neg hzero]
    cases henv : env.mmap s.round info.mappingLen with
    | false => exact Or.inr (Or.inl ⟨by simp [h.null], by simp⟩)
    | true => exact Or.inr (Or.inr ⟨by simp, by simp⟩)

/-- Receiving a payload through the pointers, and into the region. -/
theorem receiveInto_cases {vars : ClientVars} (hroot : vars.rootBuf ≠ .null) (region : Region)
    (info : MappingInfo) (input : List (List UInt8)) :
    ∃ reads vars' stores region',
      reads.filterMap LifeEvent.skeleton = [] ∧ stores.filterMap ServerEvent.skeleton = [] ∧
      vars'.rootBuf = vars.rootBuf ∧ vars'.currentMappingSize = vars.currentMappingSize ∧
      ((∃ why, receiveInto vars info input = (reads, vars', .error why) ∧
        receivePayload region vars.currentMappingSize info input =
          (stores, region', .error why)) ∨
      ∃ payload rest, receiveInto vars info input = (reads, vars', .ok rest) ∧
        receivePayload region vars.currentMappingSize info input =
          (stores, region', .ok (payload, rest))) := by
  rw [receiveInto, receivePayload]
  by_cases hlen : 0 < info.len
  · rw [if_pos hlen, if_pos hlen]
    by_cases hcheck : info.mappedAddr + info.len ≤ vars.currentMappingSize
    · rw [if_pos ⟨hroot, hcheck⟩, if_pos hcheck]
      obtain ⟨chunks, rest⟩ := recvLoop info.len.toNat input
      refine ⟨payloadReads (vars.rootBuf.add info.mappedAddr) info.len rest.isNone 0 chunks,
        { vars with buf := vars.rootBuf.add info.mappedAddr },
        (storeChunks region info.mappedAddr chunks).2,
        (storeChunks region info.mappedAddr chunks).1,
        skeleton_payloadReads _ _ _ _ _, skeleton_storeChunks _ _ _, rfl, rfl, ?_⟩
      cases rest with
      | none => exact Or.inl ⟨_, rfl, rfl⟩
      | some rest => exact Or.inr ⟨_, _, rfl, rfl⟩
    · rw [if_neg (fun h => hcheck h.2), if_neg hcheck]
      exact ⟨[], vars, [], region, rfl, rfl, rfl, rfl, Or.inl ⟨_, rfl, rfl⟩⟩
  · rw [if_neg hlen, if_neg hlen]
    exact ⟨[], vars, [], region, rfl, rfl, rfl, rfl, Or.inr ⟨_, _, rfl, rfl⟩⟩

theorem skeleton_finishDump (env : ServerEnv) (round : ℕ) (info : MappingInfo) (vars : ClientVars)
    (region : Region) :
    (finishDump env round info vars).1.filterMap LifeEvent.skeleton =
        (finishMapping env round info region).1.filterMap ServerEvent.skeleton ∧
      (finishDump env round info vars).2 = (finishMapping env round info region).2 := by
  rw [finishDump, finishMapping]
  split
  · split <;> exact ⟨rfl, rfl⟩
  · exact ⟨rfl, rfl⟩

/-- **One round makes the same calls** with the pointers and without, and both go on from heads that
belong together, or both stop. -/
theorem lifeRound_iteration (env : ServerEnv) (client : ℕ) {s : ClientHead} {t : LoopHead}
    (h : Points s t) :
    (lifeRound env client s).1.filterMap LifeEvent.skeleton =
        (iteration env t).1.filterMap ServerEvent.skeleton ∧
      Option.Rel Points (lifeRound env client s).2 (iteration env t).2 := by
  rw [lifeRound, iteration, ← h.input]
  cases hinfo : receiveInfo s.input with
  | none =>
    rw [h.rootBuf]
    exact ⟨skeleton_disconnectLabel_null h.null _ _, .none⟩
  | some received =>
    obtain ⟨info, input⟩ := received
    dsimp only
    rcases allocateBuf_cases env client h info with ⟨hptr, hval⟩ | ⟨hptr, hval⟩ | ⟨hptr, hval⟩
    · rw [hptr, hval]
      exact ⟨skeleton_disconnectLabel_null h.null _ t.currentMappingSize, .none⟩
    · rw [hptr, hval]
      exact ⟨congrArg (ServerEvent.mmap info.mappingLen false :: ·)
        (skeleton_disconnectLabel_null rfl _ t.currentMappingSize), .none⟩
    · rw [hptr, hval]
      dsimp only
      have hroot : (⟨.into (client, s.round) 0, .into (client, s.round) 0, info.mappingLen⟩ :
          ClientVars).rootBuf ≠ .null := fun hnull => by cases hnull
      obtain ⟨reads, vars', stores, region', hreads, hstores, hroot', hsize', hcases⟩ :=
        receiveInto_cases hroot (.fresh info.mappingLen) info input
      rw [← hroot'] at hroot
      have hlabel : ∀ why, (disconnectLabel vars' why).filterMap LifeEvent.skeleton =
          (clientDisconnected why (some region') info.mappingLen).filterMap
            ServerEvent.skeleton := by
        intro why
        rw [skeleton_disconnectLabel hroot why region', hsize']
      rcases hcases with ⟨why, hptr, hval⟩ | ⟨payload, rest, hptr, hval⟩
      · rw [hptr, hval]
        refine ⟨?_, .none⟩
        simp [List.filterMap_cons, LifeEvent.skeleton, ServerEvent.skeleton, hreads, hstores,
          hlabel]
      · obtain ⟨hfinish, hgoesOn⟩ := skeleton_finishDump env s.round info vars' region'
        rw [hptr, hval, ← h.round]
        dsimp only
        rw [hgoesOn]
        split
        · refine ⟨?_, .some ⟨rfl, rfl, rfl, rfl⟩⟩
          simp [List.filterMap_cons, LifeEvent.skeleton, ServerEvent.skeleton, hreads, hstores,
            hfinish, hsize']
        · refine ⟨?_, .none⟩
          simp [List.filterMap_cons, LifeEvent.skeleton, ServerEvent.skeleton, hreads, hstores,
            hfinish, hlabel]

/-- **The loop of one client** makes the calls of the receive loop. -/
theorem lifeLoop_skeleton (env : ServerEnv) (client : ℕ) (input : List (List UInt8)) :
    ((lifeLoop env client).run (.start input)).filterMap LifeEvent.skeleton =
      ((receiveLoop env).run (.start input)).filterMap ServerEvent.skeleton :=
  Machine.run_of_simulation (R := Points) (lifeRound_iteration env client) ⟨rfl, rfl, rfl, rfl⟩

end LsmFork
