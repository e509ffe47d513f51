import LsmFork.Server.ReceiveLoop

/-!
# The cuts of the stream make no difference

TCP delivers the client's bytes in pieces of any length, so the receive loop starts its two read
loops at arbitrary places of a piece.  Next to it stands a parser that has the whole stream before
it.  It looks at one header, at what is announced behind it, and decides the round from the number
of bytes that are there.  The receive loop follows that parser round by round, so what the server
does is a function of the bytes alone.

* `Outcome`: what the server does that its client, or the analysis, can see.
* `StreamHead`, `parseRound`, `wholeStream`: the parser of the uncut stream.
* `iteration_parseRound`: one round of the loop follows one round of the parser.
* `outcomes_eq_wholeStream`: the whole run follows it.
* `outcomes_independent_of_cuts`: two ways to cut one stream.
-/

namespace LsmFork

open LittleEndian Segments

/-- A dump, a reply, or the branch by which the server leaves the loop. -/
inductive Outcome where
  | dump (info : MappingInfo) (buf : List UInt8)
  | reply (buf : List UInt8)
  | left (why : Disconnect)
  deriving DecidableEq

/-- The server goes on after this outcome. -/
def Outcome.GoesOn : Outcome → Prop
  | .left _ => False
  | _ => True

/-- The outcome that an event of the loop shows. -/
def ServerEvent.outcome : ServerEvent → Option Outcome
  | .dump info buf => some (.dump info buf)
  | .reply buf => some (.reply buf)
  | .disconnect why => some (.left why)
  | _ => none

/-- The outcomes that the events of a run show. -/
def outcomes (evs : List ServerEvent) : List Outcome := evs.filterMap ServerEvent.outcome

theorem outcomes_append (evs evs' : List ServerEvent) :
    outcomes (evs ++ evs') = outcomes evs ++ outcomes evs' :=
  List.filterMap_append ..

/-! ## The parser of the whole stream -/

/-- The bytes that no round has used yet, and the number of rounds before. -/
structure StreamHead where
  bytes : List UInt8
  round : ℕ

/-- Dump and reply at the end of a mapping. -/
def finishOutcomes (env : ServerEnv) (round : ℕ) (info : MappingInfo) (buf : List UInt8) :
    List Outcome × Bool :=
  if info.isEndOfMapping = 1 then
    if env.reply round then ([.dump info buf, .reply analyzeNop], true)
    else ([.dump info buf], false)
  else ([], true)

/-- **One round of the parser.** -/
def parseRound (env : ServerEnv) (s : StreamHead) : List Outcome × Option StreamHead :=
  if s.bytes.length < MappingInfo.size then ([.left .endOfStream], none)
  else
    let info := MappingInfo.ofBytes (s.bytes.take MappingInfo.size)
    let rest := s.bytes.drop MappingInfo.size
    if info.mappingLen = 0 then ([.left .mappingLenZero], none)
    else if env.mmap s.round info.mappingLen = false then ([.left .mmapFailed], none)
    else if 0 < info.len ∧ ¬ info.mappedAddr + info.len ≤ info.mappingLen then
      ([.left .outOfBounds], none)
    else if rest.length < info.len.toNat then ([.left .endOfStream], none)
    else
      let region := (storeBytes (.fresh info.mappingLen) info.mappedAddr
        (rest.take info.len.toNat)).1
      let finished := finishOutcomes env s.round info region.bytes
      if finished.2 then (finished.1, some ⟨rest.drop info.len.toNat, s.round + 1⟩)
      else (finished.1 ++ [.left .replyFailed], none)

theorem goesOn_of_mem_finishOutcomes {env : ServerEnv} {round : ℕ} {info : MappingInfo}
    {buf : List UInt8} : ∀ o ∈ (finishOutcomes env round info buf).1, o.GoesOn := by
  rw [finishOutcomes]
  split
  · split <;> simp [Outcome.GoesOn]
  · simp

/-- **What a round of the parser can do**: leave, as its last outcome, or use up a header and the
payload behind it. -/
theorem parseRound_cases (env : ServerEnv) (s : StreamHead) :
    (∃ acts why, parseRound env s = (acts ++ [.left why], none) ∧ ∀ o ∈ acts, o.GoesOn) ∨
    (∃ acts n, parseRound env s =
        (acts, some ⟨(s.bytes.drop MappingInfo.size).drop n, s.round + 1⟩) ∧
      MappingInfo.size ≤ s.bytes.length ∧ ∀ o ∈ acts, o.GoesOn) := by
  have hleaves : ∀ why : Disconnect, ∃ acts why',
      (([Outcome.left why], none) : List Outcome × Option StreamHead) =
        (acts ++ [.left why'], none) ∧ ∀ o ∈ acts, o.GoesOn :=
    fun why => ⟨[], why, rfl, fun o ho => absurd ho List.not_mem_nil⟩
  rw [parseRound]
  split
  · exact Or.inl (hleaves _)
  · rename_i hlong
    dsimp only
    split
    · exact Or.inl (hleaves _)
    split
    · exact Or.inl (hleaves _)
    split
    · exact Or.inl (hleaves _)
    split
    · exact Or.inl (hleaves _)
    split
    · exact Or.inr ⟨_, _, rfl, Nat.le_of_not_lt hlong, goesOn_of_mem_finishOutcomes⟩
    · exact Or.inl ⟨_, _, rfl, goesOn_of_mem_finishOutcomes⟩

theorem parseRound_length_lt {env : ServerEnv} {s s' : StreamHead}
    (h : (parseRound env s).2 = some s') : s'.bytes.length < s.bytes.length := by
  obtain ⟨acts, why, hround, -⟩ | ⟨acts, n, hround, hlong, -⟩ := parseRound_cases env s
  · rw [hround] at h
    cases h
  · rw [hround] at h
    obtain rfl := Option.some.inj h
    have hsize : 0 < MappingInfo.size := by decide
    rw [List.length_drop, List.length_drop]
    omega

/-- The parser, as a machine. -/
def wholeStream (env : ServerEnv) : Machine StreamHead Outcome where
  step := parseRound env
  fuel s := s.bytes.length
  fuel_lt := parseRound_length_lt

/-- **The parser dumps and replies, and then leaves**, by one branch. -/
theorem wholeStream_run_eq (env : ServerEnv) (s : StreamHead) :
    ∃ acts why, (wholeStream env).run s = acts ++ [.left why] ∧ ∀ o ∈ acts, o.GoesOn := by
  obtain ⟨before, last, hreach, hnone, hrun⟩ := (wholeStream env).run_eq_append_last s
  have hbefore : ∀ o ∈ before, o.GoesOn := by
    refine hreach.forall_events ?_
    intro s s' evs hstep
    obtain ⟨acts, why, hround, -⟩ | ⟨acts, n, hround, -, hacts⟩ := parseRound_cases env s
    · cases hround.symm.trans hstep
    · cases hround.symm.trans hstep
      exact hacts
  obtain ⟨acts, why, hround, hacts⟩ | ⟨acts, n, hround, -, -⟩ := parseRound_cases env last
  · refine ⟨before ++ acts, why, ?_, ?_⟩
    · rw [hrun, List.append_assoc]
      exact congrArg (before ++ ·) (congrArg Prod.fst hround)
    · intro o ho
      rcases List.mem_append.mp ho with ho | ho
      · exact hbefore o ho
      · exact hacts o ho
  · cases (congrArg Prod.snd hround).symm.trans hnone

/-! ## The loop follows the parser -/

/-- The loop is at the head of a round, with the bytes of the parser still to be delivered. -/
structure Follows (s : LoopHead) (t : StreamHead) : Prop where
  rootBuf : s.rootBuf = none
  input : s.input.flatten = t.bytes
  round : s.round = t.round

theorem outcomes_clientDisconnected (why : Disconnect) (rootBuf : Option Region) (size : UInt64) :
    outcomes (clientDisconnected why rootBuf size) = [.left why] := by
  rw [clientDisconnected]
  split <;> rfl

theorem outcomes_storeBytes (region : Region) (off : UInt64) (bs : List UInt8) :
    outcomes (storeBytes region off bs).2 = [] := by
  induction bs generalizing region off with
  | nil => rfl
  | cons b bs ih => exact ih _ _

theorem outcomes_finishMapping (env : ServerEnv) (round : ℕ) (info : MappingInfo)
    (region : Region) :
    (outcomes (finishMapping env round info region).1, (finishMapping env round info region).2) =
      finishOutcomes env round info region.bytes := by
  rw [finishMapping, finishOutcomes]
  split
  · split <;> rfl
  · rfl

/-- The payload, in terms of the bytes that are there: the check may fail, they may be too few, or
they are stored and the rest of the stream is left. -/
theorem receivePayload_cases (region : Region) (size : UInt64) (info : MappingInfo)
    (input : List (List UInt8)) :
    ∃ stores region' result, receivePayload region size info input = (stores, region', result) ∧
      outcomes stores = [] ∧
      if 0 < info.len ∧ ¬ info.mappedAddr + info.len ≤ size then result = .error .outOfBounds
      else if input.flatten.length < info.len.toNat then result = .error .endOfStream
      else region' = (storeBytes region info.mappedAddr (input.flatten.take info.len.toNat)).1 ∧
        ∃ payload rest, result = .ok (payload, rest) ∧
          rest.flatten = input.flatten.drop info.len.toNat := by
  rw [receivePayload]
  by_cases hpos : 0 < info.len
  · by_cases hcheck : info.mappedAddr + info.len ≤ size
    · rw [if_pos hpos, if_pos hcheck]
      refine ⟨_, _, _, rfl, ?_, ?_⟩
      · rw [storeChunks_eq]
        exact outcomes_storeBytes _ _ _
      · rw [if_neg (fun h => h.2 hcheck)]
        by_cases hfew : input.flatten.length < info.len.toNat
        · obtain ⟨chunks, hloop, -⟩ := recvLoop_of_lt hfew
          rw [if_pos hfew, hloop]
        · obtain ⟨chunks, rest, hloop, htake, hdrop⟩ := recvLoop_of_le (Nat.le_of_not_lt hfew)
          rw [if_neg hfew, hloop, storeChunks_eq, htake]
          exact ⟨rfl, _, rest, rfl, hdrop⟩
    · rw [if_pos hpos, if_neg hcheck]
      refine ⟨_, _, _, rfl, rfl, ?_⟩
      rw [if_pos ⟨hpos, hcheck⟩]
  · have hzero : info.len.toNat = 0 := by
      rw [UInt64.lt_iff_toNat_lt] at hpos
      exact Nat.eq_zero_of_not_pos hpos
    rw [if_neg hpos]
    refine ⟨_, _, _, rfl, rfl, ?_⟩
    rw [if_neg (fun h => hpos h.1), hzero, if_neg (Nat.not_lt_zero _)]
    exact ⟨rfl, [], input, rfl, rfl⟩

/-- **One round of the loop follows one round of the parser**: it shows the same outcomes, and both
go on from states that belong together, or both stop. -/
theorem iteration_parseRound (env : ServerEnv) {s : LoopHead} {t : StreamHead} (h : Follows s t) :
    outcomes (iteration env s).1 = (parseRound env t).1 ∧
      Option.Rel Follows (iteration env s).2 (parseRound env t).2 := by
  rw [parseRound, ← h.input, ← h.round, iteration]
  by_cases hshort : s.input.flatten.length < MappingInfo.size
  · obtain ⟨chunks, hloop, -⟩ := recvLoop_of_lt hshort
    rw [if_pos hshort, receiveInfo, hloop]
    exact ⟨outcomes_clientDisconnected _ _ _, .none⟩
  · obtain ⟨input, hinfo, hrest⟩ := receiveInfo_of_le (Nat.le_of_not_lt hshort)
    rw [if_neg hshort, hinfo, ← hrest]
    dsimp only
    generalize MappingInfo.ofBytes (s.input.flatten.take MappingInfo.size) = info
    by_cases hzero : info.mappingLen = 0
    · have halloc : allocate env s info = ([], .error .mappingLenZero) := by
        simp [allocate, h.rootBuf, hzero]
      rw [if_pos hzero, halloc]
      exact ⟨rfl, .none⟩
    · rw [if_neg hzero]
      by_cases hmmap : env.mmap s.round info.mappingLen = false
      · have halloc : allocate env s info =
            ([.mmap info.mappingLen false], .error .mmapFailed) := by
          simp [allocate, h.rootBuf, hzero, hmmap]
        rw [if_pos hmmap, halloc]
        exact ⟨rfl, .none⟩
      · have halloc : allocate env s info = ([.mmap info.mappingLen true],
            .ok (.fresh info.mappingLen, info.mappingLen)) := by
          simp [allocate, h.rootBuf, hzero, eq_true_of_ne_false hmmap]
        rw [if_neg hmmap, halloc]
        dsimp only
        obtain ⟨stores, region', result, hreceived, hstores, hcases⟩ :=
          receivePayload_cases (.fresh info.mappingLen) info.mappingLen info input
        -- a payload that is refused or cut off ends the run at `client_disconnected`
        have hleaves : ∀ why, outcomes ([.mmap info.mappingLen true] ++ stores ++
            clientDisconnected why (some region') info.mappingLen) = [.left why] := by
          intro why
          rw [outcomes_append, outcomes_append, hstores, outcomes_clientDisconnected]
          rfl
        rw [hreceived]
        split at hcases
        · rename_i hbad
          rw [if_pos hbad, hcases]
          exact ⟨hleaves _, .none⟩
        · rename_i hfits
          rw [if_neg hfits]
          split at hcases
          · rename_i hfew
            rw [if_pos hfew, hcases]
            exact ⟨hleaves _, .none⟩
          · rename_i henough
            obtain ⟨rfl, payload, rest, rfl, hdrop⟩ := hcases
            rw [if_neg henough, ← outcomes_finishMapping]
            dsimp only
            generalize hregion : (storeBytes (.fresh info.mappingLen) info.mappedAddr
              (input.flatten.take info.len.toNat)).1 = region
            have hfinish : outcomes ([.mmap info.mappingLen true] ++ stores ++
                [.frame ⟨info, payload⟩] ++ (finishMapping env s.round info region).1) =
                outcomes (finishMapping env s.round info region).1 := by
              rw [outcomes_append, outcomes_append, outcomes_append, hstores]
              rfl
            split
            · refine ⟨?_, .some ⟨rfl, hdrop, rfl⟩⟩
              rw [outcomes_append, hfinish]
              exact List.append_nil _
            · refine ⟨?_, .none⟩
              rw [outcomes_append, hfinish, outcomes_clientDisconnected]

/-- **The run of the receive loop** shows what the parser of the whole stream shows. -/
theorem outcomes_eq_wholeStream (env : ServerEnv) (input : List (List UInt8)) :
    outcomes ((receiveLoop env).run (.start input)) =
      (wholeStream env).run ⟨input.flatten, 0⟩ := by
  have hfollows : ((receiveLoop env).run (.start input)).filterMap ServerEvent.outcome =
      ((wholeStream env).run ⟨input.flatten, 0⟩).filterMap some := by
    refine Machine.run_of_simulation (R := Follows) (fun h => ?_) ⟨rfl, rfl, rfl⟩
    rw [List.filterMap_some]
    exact iteration_parseRound env h
  rwa [List.filterMap_some] at hfollows

/-- **The server's behaviour depends only on the bytes.**  Whatever the stream, and wherever it is
cut, the server dumps the same buffers under the same headers, sends the same replies in the same
places, and then leaves the loop by the same branch. -/
theorem outcomes_independent_of_cuts (env : ServerEnv) (input input' : List (List UInt8))
    (h : input.flatten = input'.flatten) :
    ∃ acts why, (∀ o ∈ acts, o.GoesOn) ∧
      outcomes ((receiveLoop env).run (.start input)) = acts ++ [.left why] ∧
      outcomes ((receiveLoop env).run (.start input')) = acts ++ [.left why] := by
  obtain ⟨acts, why, hrun, hacts⟩ := wholeStream_run_eq env ⟨input.flatten, 0⟩
  refine ⟨acts, why, hacts, ?_, ?_⟩
  · rw [outcomes_eq_wholeStream, hrun]
  · rw [outcomes_eq_wholeStream, ← h, hrun]

/-- A mapping of four bytes: no name, arguments or addresses, and a header that ends it. -/
def sampleStream : List UInt8 :=
  List.replicate 240 0 ++ le64 4 ++ le64 4 ++ le64 5 ++ le64 1 ++ [0x55, 0x48, 0x89, 0xe5]

/-- The mapping in one piece, and cut inside its header and inside its payload. -/
theorem outcomes_of_sample_cuts :
    ∃ acts why, (∀ o ∈ acts, o.GoesOn) ∧
      outcomes ((receiveLoop ⟨fun _ _ => true, fun _ => true⟩).run (.start [sampleStream])) =
        acts ++ [.left why] ∧
      outcomes ((receiveLoop ⟨fun _ _ => true, fun _ => true⟩).run
        (.start [sampleStream.take 100, (sampleStream.drop 100).take 173,
          (sampleStream.drop 100).drop 173])) = acts ++ [.left why] :=
  outcomes_independent_of_cuts ⟨fun _ _ => true, fun _ => true⟩ _ _ (by
    simp only [List.flatten_cons, List.flatten_nil, List.append_nil, List.take_append_drop])

end LsmFork
