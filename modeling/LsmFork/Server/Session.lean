import LsmFork.Server.Fragments
import LsmFork.Server.FrameContent

/-!
# What the server records of a session

A session is a connection on which hooks run one after another.  Allocations fail inside the hooks,
the server's own calls fail, the stream is cut into pieces by `recv` and may end anywhere: what the
server records is then a prefix of what it should record.  Each record belongs to one hook, in the
order of the hooks; it has the identity of that hook's mapping, and every byte of it is the
mapping's own in its place or a zero.

* `frameOutcomes`, `recordOutcomes`: the dump and the reply that a frame, or a record, stands for.
* `parseRound_of_header`: one round of the parser behind a header of the kernel.
* `wholeStream_run_of_frames`: the parser on a stream that breaks off anywhere.
* `RecordOf`: a record that is true of a hook.
* `exists_records`: the records of some hooks; `session_records`: the session, whatever fails.
* `session_exact_iff`: the session where nothing fails.
-/

namespace LsmFork

open MaximalRuns

/-- The dump of a frame and the reply to it, if it ends its mapping. -/
def frameOutcomes (f : Frame) : List Outcome :=
  if f.IsEnd then [.dump f.header f.dumped, .reply analyzeNop] else []

/-- A record and the reply behind it. -/
def recordOutcomes (d : MappingInfo × List UInt8) : List Outcome :=
  [.dump d.1 d.2, .reply analyzeNop]

/-- The server refuses its client, for what the client has sent. -/
def Disconnect.IsRefusal (why : Disconnect) : Prop := why = .mappingLenZero ∨ why = .outOfBounds

/-! ## The parser on the kernel's frames -/

section Parser

variable (env : ServerEnv)

theorem finishOutcomes_frame (round : ℕ) (f : Frame) :
    ((finishOutcomes env round f.header f.dumped).2 = true ∧
        (finishOutcomes env round f.header f.dumped).1 = frameOutcomes f) ∨
      ((finishOutcomes env round f.header f.dumped).2 = false ∧
        (finishOutcomes env round f.header f.dumped).1 <+: frameOutcomes f) := by
  rw [finishOutcomes, frameOutcomes]
  by_cases hend : f.IsEnd
  · rw [if_pos hend, if_pos (show f.header.isEndOfMapping = 1 from hend)]
    cases env.reply round with
    | true => exact Or.inl ⟨rfl, rfl⟩
    | false => exact Or.inr ⟨rfl, [.reply analyzeNop], rfl⟩
  · rw [if_neg hend, if_neg (show ¬ f.header.isEndOfMapping = 1 from hend)]
    exact Or.inl ⟨rfl, rfl⟩

/-- **Behind a header of the kernel** the parser leaves for want of memory or of bytes, or it has
the payload. -/
theorem parseRound_of_header {f : Frame} (hcomplete : f.Complete) (haccepted : f.Accepted)
    (body : List UInt8) (round : ℕ) :
    (env.mmap round f.header.mappingLen = false ∧
      parseRound env ⟨f.header.toBytes ++ body, round⟩ = ([.left .mmapFailed], none)) ∨
    (body.length < f.payload.length ∧
      parseRound env ⟨f.header.toBytes ++ body, round⟩ = ([.left .endOfStream], none)) ∨
    f.payload.length ≤ body.length ∧ (f.payload <+: body →
      parseRound env ⟨f.header.toBytes ++ body, round⟩ =
        if (finishOutcomes env round f.header f.dumped).2 then
          ((finishOutcomes env round f.header f.dumped).1,
            some ⟨body.drop f.payload.length, round + 1⟩)
        else ((finishOutcomes env round f.header f.dumped).1 ++ [.left .replyFailed], none)) := by
  have hlong : ¬ (f.header.toBytes ++ body).length < MappingInfo.size := by
    rw [List.length_append, MappingInfo.toBytes_length]
    omega
  have hinfo : MappingInfo.ofBytes ((f.header.toBytes ++ body).take MappingInfo.size) =
      f.header := by
    rw [List.take_left' f.header.toBytes_length, MappingInfo.ofBytes_toBytes]
  have hrest : (f.header.toBytes ++ body).drop MappingInfo.size = body :=
    List.drop_left' f.header.toBytes_length
  have hbounds : ¬ (0 < f.header.len ∧
      ¬ f.header.mappedAddr + f.header.len ≤ f.header.mappingLen) := by
    rintro ⟨hpos, hbad⟩
    refine hbad (UInt64.le_iff_toNat_le.mpr ?_)
    rw [UInt64.toNat_add]
    refine (Nat.mod_le _ _).trans (haccepted.2.resolve_left fun hzero => ?_)
    rw [hzero] at hpos
    exact absurd hpos (by decide)
  rw [parseRound]
  simp only [hinfo, hrest]
  rw [if_neg hlong, if_neg haccepted.1]
  by_cases hmmap : env.mmap round f.header.mappingLen = false
  · rw [if_pos hmmap]
    exact Or.inl ⟨hmmap, rfl⟩
  · rw [if_neg hmmap, if_neg hbounds]
    by_cases hfew : body.length < f.header.len.toNat
    · rw [if_pos hfew]
      exact Or.inr (Or.inl ⟨by rw [hcomplete]; exact hfew, rfl⟩)
    · rw [if_neg hfew]
      refine Or.inr (Or.inr ⟨by rw [hcomplete]; exact Nat.le_of_not_lt hfew, ?_⟩)
      rintro ⟨rest, rfl⟩
      have hstored : (storeBytes (.fresh f.header.mappingLen) f.header.mappedAddr
          ((f.payload ++ rest).take f.header.len.toNat)).1.bytes = f.dumped := by
        rw [← hcomplete, List.take_left]
        by_cases hpayload : f.payload = []
        · rw [Frame.dumped, hpayload, overwrite_nil]
          rfl
        · refine storeBytes_bytes ?_
          rw [hcomplete]
          refine haccepted.2.resolve_left fun hzero => hpayload (List.length_eq_zero_iff.mp ?_)
          rw [hcomplete, hzero]
          rfl
      rw [hstored, ← hcomplete]

/-- **The parser on a stream of frames that breaks off anywhere.**  It shows a prefix of what the
frames stand for, and never refuses its client. -/
theorem wholeStream_run_of_frames {fs : List Frame} (hsound : ∀ f ∈ fs, f.Complete ∧ f.Accepted)
    {bytes : List UInt8} (hbytes : bytes <+: fs.flatMap Frame.toBytes) (round : ℕ) :
    ∃ acts why, (wholeStream env).run ⟨bytes, round⟩ = acts ++ [.left why] ∧
      acts <+: fs.flatMap frameOutcomes ∧ ¬ why.IsRefusal := by
  have hstop : ∀ {bytes : List UInt8} {round : ℕ} {why : Disconnect} {os : List Outcome},
      parseRound env ⟨bytes, round⟩ = ([.left why], none) → ¬ why.IsRefusal →
      ∃ acts why, (wholeStream env).run ⟨bytes, round⟩ = acts ++ [.left why] ∧
        acts <+: os ∧ ¬ why.IsRefusal := fun h hwhy =>
    ⟨[], _, (wholeStream env).run_of_none h, List.nil_prefix, hwhy⟩
  have hshort : ∀ {bytes : List UInt8} {round : ℕ}, bytes.length < MappingInfo.size →
      parseRound env ⟨bytes, round⟩ = ([.left .endOfStream], none) := fun h => by
    rw [parseRound, if_pos h]
  induction fs generalizing bytes round with
  | nil =>
    have hnil : bytes = [] := List.prefix_nil.mp hbytes
    exact hstop (hshort (by rw [hnil]; decide)) (by simp [Disconnect.IsRefusal])
  | cons f fs ih =>
    obtain ⟨hcomplete, haccepted⟩ := hsound f (List.mem_cons_self ..)
    rw [List.flatMap_cons] at hbytes ⊢
    rcases Nat.lt_or_ge bytes.length MappingInfo.size with hlt | hge
    · exact hstop (hshort hlt) (by simp [Disconnect.IsRefusal])
    · -- the header is there
      have hheader : f.header.toBytes <+: bytes := by
        refine List.prefix_of_prefix_length_le ?_ hbytes
          (by rw [MappingInfo.toBytes_length]; exact hge)
        exact ⟨f.payload ++ fs.flatMap Frame.toBytes, by rw [Frame.toBytes, List.append_assoc]⟩
      obtain ⟨body, rfl⟩ := hheader
      rw [Frame.toBytes, List.append_assoc, List.prefix_append_right_inj] at hbytes
      obtain ⟨-, hround⟩ | ⟨-, hround⟩ | ⟨henough, hround⟩ :=
        parseRound_of_header env hcomplete haccepted body round
      · exact hstop hround (by simp [Disconnect.IsRefusal])
      · exact hstop hround (by simp [Disconnect.IsRefusal])
      · have hpayload : f.payload <+: body :=
          List.prefix_of_prefix_length_le (List.prefix_append _ _) hbytes henough
        have hnext := hround hpayload
        obtain ⟨rest, rfl⟩ := hpayload
        rw [List.prefix_append_right_inj] at hbytes
        rw [List.drop_left] at hnext
        rcases finishOutcomes_frame env round f with ⟨hgo, hacts⟩ | ⟨hleave, hacts⟩
        · rw [hgo, if_pos rfl, hacts] at hnext
          obtain ⟨acts, why, hrun, hprefixed, hwhy⟩ :=
            ih (fun g hg => hsound g (List.mem_cons_of_mem f hg)) hbytes (round + 1)
          refine ⟨frameOutcomes f ++ acts, why, ?_, ?_, hwhy⟩
          · rw [(wholeStream env).run_of_some hnext, hrun, List.append_assoc]
          · rwa [List.prefix_append_right_inj]
        · rw [hleave, if_neg (by decide)] at hnext
          exact ⟨_, .replyFailed, (wholeStream env).run_of_none hnext,
            hacts.trans (List.prefix_append _ _), by simp [Disconnect.IsRefusal]⟩

end Parser

/-! ## The session -/

section Session

variable (M : PhysMem)

/-- **A record that is true of a hook.**  Its header is that of the hook's mapping, with the end
flag set; it is as long as the mapping; and each byte of it is the mapping's own in its place, or a
zero. -/
structure RecordOf (h : TcpHook) (d : MappingInfo × List UInt8) (info : MappingInfo)
    (image : List UInt8) : Prop where
  mapping : h.mapping M = some (info, image)
  header : SameSource { info with isEndOfMapping := 1 } d.1
  length : d.2.length = d.1.mappingLen.toNat
  bytes : ∀ (k : ℕ) (b : UInt8), d.2[k]? = some b → b = 0 ∨ image[k]? = some b

/-- The hook sends a frame that ends its mapping. -/
def TcpHook.SendsEnd (h : TcpHook) : Prop := h.endFrames M ≠ []

instance (h : TcpHook) : Decidable (h.SendsEnd M) := inferInstanceAs (Decidable (_ ≠ _))

variable {M}

/-- **A hook sends one end frame at most.** -/
theorem TcpHook.endFrames_length_le (h : TcpHook) : (h.endFrames M).length ≤ 1 := by
  cases h with
  | pages c =>
    cases hchecked : c.checked with
    | error value =>
      rw [(PagesCall.idle_of_error hchecked).1]
      exact Nat.zero_le _
    | ok vma =>
      obtain ⟨hone, hnone⟩ := PagesCall.endFrames_length (M := M) hchecked
      by_cases hfinal : c.FinalFlushSends M
      · exact (hone hfinal).le
      · rw [hnone hfinal]
        exact Nat.zero_le _
  | bpf c =>
    rw [TcpHook.endFrames, TcpHook.frames, BpfCall.frames]
    cases c.checked with
    | error value => exact Nat.zero_le _
    | ok image => exact List.length_filter_le _ _

theorem TcpHook.endFrames_eq (h : TcpHook) :
    (¬ h.SendsEnd M ∧ h.endFrames M = []) ∨ ∃ f, h.SendsEnd M ∧ h.endFrames M = [f] := by
  by_cases hnil : h.endFrames M = []
  · exact Or.inl ⟨fun hne => hne hnil, hnil⟩
  · have hone : (h.endFrames M).length = 1 :=
      le_antisymm h.endFrames_length_le (List.length_pos_of_ne_nil hnil)
    obtain ⟨f, hf⟩ := List.length_eq_one_iff.mp hone
    exact Or.inr ⟨f, hnil, hf⟩

theorem RecordOf.of_mem {h : TcpHook} {f : Frame} (hf : f ∈ h.endFrames M) :
    ∃ info image, RecordOf M h (f.header, f.dumped) info image := by
  obtain ⟨hcomplete, haccepted⟩ := h.frames_sound f (mem_endFrames.mp hf).1
  obtain ⟨info, image, hmapping, htrue⟩ := TcpHook.frames_true hf
  exact ⟨info, image, hmapping, htrue.header, Frame.dumped_length hcomplete haccepted,
    fun k b hb => htrue.dumped_getElem? hcomplete haccepted hb⟩

/-- What the frames of a hook stand for is what its end frames stand for. -/
theorem flatMap_frameOutcomes (fs : List Frame) :
    fs.flatMap frameOutcomes = (fs.filter fun f => f.IsEnd).flatMap frameOutcomes := by
  induction fs with
  | nil => rfl
  | cons f fs ih =>
    rw [List.flatMap_cons, ih, List.filter_cons]
    by_cases hend : f.IsEnd
    · rw [if_pos (decide_eq_true hend), List.flatMap_cons]
    · rw [if_neg (by simpa using hend), frameOutcomes, if_neg hend, List.nil_append]

/-- **The records of some hooks**: one for each that sends an end frame, true of it, in the order of
the hooks. -/
theorem exists_records (hooks : List TcpHook) :
    ∃ records, List.Forall₂ (fun h d => ∃ info image, RecordOf M h d info image)
        (hooks.filter fun h => h.SendsEnd M) records ∧
      (hooks.flatMap (TcpHook.frames M)).flatMap frameOutcomes =
        records.flatMap recordOutcomes := by
  induction hooks with
  | nil => exact ⟨[], .nil, rfl⟩
  | cons h hooks ih =>
    obtain ⟨records, hrecords, houtcomes⟩ := ih
    rw [List.flatMap_cons, List.flatMap_append, houtcomes, flatMap_frameOutcomes (h.frames M),
      List.filter_cons]
    obtain ⟨hnone, hends⟩ | ⟨f, hsome, hends⟩ := h.endFrames_eq (M := M)
    · refine ⟨records, by rwa [if_neg (by simpa using hnone)], ?_⟩
      rw [show (h.frames M).filter (fun f => f.IsEnd) = [] from hends]
      rfl
    · have hmem : f ∈ h.endFrames M := by rw [hends]; exact List.mem_singleton_self f
      have hend : f.IsEnd := (mem_endFrames.mp hmem).2
      refine ⟨(f.header, f.dumped) :: records, ?_, ?_⟩
      · rw [if_pos (decide_eq_true hsome)]
        exact .cons (RecordOf.of_mem hmem) hrecords
      · rw [show (h.frames M).filter (fun f => f.IsEnd) = [f] from hends, List.flatMap_singleton,
          frameOutcomes, if_pos hend]
        rfl

theorem TcpHook.flatMap_bytes_eq (hooks : List TcpHook) :
    hooks.flatMap (TcpHook.bytes M) = (hooks.flatMap (TcpHook.frames M)).flatMap Frame.toBytes := by
  rw [List.flatMap_assoc]
  exact List.flatMap_congr fun h _ => h.bytes_eq M

/-- **A session, whatever fails.**  The hooks run on one connection, with any outcome of the
allocations inside them; the server's own calls succeed or fail as they like; the stream breaks off
anywhere, and `recv` cuts it anywhere.  The server then shows a prefix of the records of the hooks,
each with its reply behind it, and leaves the loop, but not because it refuses what it has read. -/
theorem session_records (M : PhysMem) (hooks : List TcpHook) (env : ServerEnv)
    (segments : List (List UInt8))
    (hsent : segments.flatten <+: hooks.flatMap (TcpHook.bytes M)) :
    ∃ records, List.Forall₂ (fun h d => ∃ info image, RecordOf M h d info image)
        (hooks.filter fun h => h.SendsEnd M) records ∧
      ∃ acts why, outcomes ((receiveLoop env).run (.start segments)) = acts ++ [.left why] ∧
        acts <+: records.flatMap recordOutcomes ∧ ¬ why.IsRefusal := by
  have hsound : ∀ f ∈ hooks.flatMap (TcpHook.frames M), f.Complete ∧ f.Accepted := by
    intro f hf
    obtain ⟨h, -, hmem⟩ := List.mem_flatMap.mp hf
    exact h.frames_sound f hmem
  obtain ⟨records, hrecords, houtcomes⟩ := exists_records (M := M) hooks
  rw [TcpHook.flatMap_bytes_eq] at hsent
  obtain ⟨acts, why, hrun, hprefixed, hwhy⟩ :=
    wholeStream_run_of_frames env hsound hsent 0
  rw [houtcomes] at hprefixed
  exact ⟨records, hrecords, acts, why, (outcomes_eq_wholeStream env segments).trans hrun,
    hprefixed, hwhy⟩

/-- A mapping and a program. -/
def sampleHooks : List TcpHook := [.pages sampleCall, .bpf sampleBpf]

/-- The stream breaks off inside the payload of the program, and the server's first reply fails. -/
theorem session_records_of_sample :
    ∃ records, List.Forall₂ (fun h d => ∃ info image, RecordOf sampleMemory h d info image)
        (sampleHooks.filter fun h => h.SendsEnd sampleMemory) records ∧
      ∃ acts why, outcomes ((receiveLoop ⟨fun _ _ => true, fun _ => false⟩).run
          (.start [(sampleHooks.flatMap (TcpHook.bytes sampleMemory)).take 9010])) =
            acts ++ [.left why] ∧
        acts <+: records.flatMap recordOutcomes ∧ ¬ why.IsRefusal :=
  session_records sampleMemory sampleHooks ⟨fun _ _ => true, fun _ => false⟩ _ (by
    rw [List.flatten_cons, List.flatten_nil, List.append_nil]
    exact List.take_prefix _ _)

/-! ## Sessions without failures -/

/-- No allocation of the hook fails. -/
def TcpHook.AllocationsSucceed : TcpHook → Prop
  | .pages c => c.AllocationsSucceed
  | .bpf _ => True

variable (M) in
/-- The hook's mapping is one that the server can reconstruct: the pages before its last run hold
zeros.  A program is sent in one frame. -/
def TcpHook.EarlierPagesZero : TcpHook → Prop
  | .pages c => ∀ vma, c.checked = .ok vma → LsmFork.EarlierPagesZero M (c.row M)
  | .bpf _ => True

/-- A hook without failures takes its own reply. -/
theorem TcpHook.takesOwnReply_of_ok {h : TcpHook} (hok : h.AllocationsSucceed) :
    h.TakesOwnReply M := by
  cases h with
  | pages c =>
    intro _
    refine iff_of_false (not_growthFailsIn_of_forall fun step hstep => ?_) fun hlost => hlost ?_
    · rw [hok.1 step hstep]
      rfl
    · rw [PagesCall.FinalFlushSends, hok.2]
      exact ⟨rfl, fun _ => rfl⟩
  | bpf c => trivial

/-- A hook without failures sends an end frame exactly when it waits for a reply. -/
theorem TcpHook.endFrames_length_of_ok {h : TcpHook} (hok : h.AllocationsSucceed) :
    (h.endFrames M).length = if h.waits M then 1 else 0 :=
  (hookClient_balanced_iff h).mpr (takesOwnReply_of_ok hok)

theorem BpfCall.dumped_eq {c : BpfCall} {image : List UInt8} (hchecked : c.checked = .ok image) :
    (⟨c.info, image⟩ : Frame).dumped = image := by
  have hlength : c.prog.jitedLen.toUInt64.toNat = 0 + image.length := by
    rw [BpfCall.image_length hchecked, Nat.zero_add]
    exact UInt32.toNat_toUInt64 _
  show overwrite (List.replicate c.prog.jitedLen.toUInt64.toNat 0) 0 image = image
  rw [hlength, overwrite_replicate]
  rfl

/-- The dumps of a hook without failures: as many as it has mappings, and the mapping's content
exactly when the server can reconstruct it. -/
theorem TcpHook.frameDumps_of_ok {h : TcpHook} (hok : h.AllocationsSucceed) :
    (frameDumps (h.frames M)).length = (h.mapping M).toList.length ∧
      ((frameDumps (h.frames M)).map Prod.snd = (h.mapping M).toList.map Prod.snd ↔
        h.EarlierPagesZero M) := by
  cases h with
  | pages c =>
    cases hchecked : c.checked with
    | error value =>
      rw [TcpHook.frames, PagesCall.frames, TcpHook.mapping, TcpHook.EarlierPagesZero, hchecked]
      exact ⟨rfl, iff_of_true rfl fun vma h => by cases h⟩
    | ok vma =>
      obtain ⟨before, last, hframes, -, hopen, hend, -, himage⟩ :=
        frames_split (M := M) hchecked hok
      have hdumps : frameDumps (c.frames M) = [(last.header, last.dumped)] := by
        have hnone : before.filter Frame.IsEnd = [] :=
          List.filter_eq_nil_iff.mpr fun f hf => by simpa using hopen f hf
        rw [hframes, frameDumps, List.filter_append, hnone, List.nil_append]
        simp [hend]
      rw [TcpHook.frames, TcpHook.mapping, TcpHook.EarlierPagesZero, hchecked, hdumps]
      refine ⟨rfl, ?_⟩
      rw [show ([(last.header, last.dumped)].map Prod.snd =
        (some (c.info vma, c.image M)).toList.map Prod.snd ↔ last.dumped = c.image M) by simp,
        himage]
      exact ⟨fun h _ _ => h, fun h => h vma rfl⟩
  | bpf c =>
    rw [TcpHook.frames, BpfCall.frames, TcpHook.mapping, TcpHook.EarlierPagesZero]
    cases hchecked : c.checked with
    | error value => exact ⟨rfl, iff_of_true rfl trivial⟩
    | ok image =>
      refine ⟨rfl, iff_of_true ?_ trivial⟩
      show [(⟨c.info, image⟩ : Frame).dumped] = [image]
      rw [BpfCall.dumped_eq hchecked]

/-- Blocks of the same lengths are the same together exactly when each of them is. -/
theorem flatMap_eq_flatMap_iff {α β : Type*} {f g : α → List β} {l : List α}
    (hlen : ∀ a ∈ l, (f a).length = (g a).length) :
    l.flatMap f = l.flatMap g ↔ ∀ a ∈ l, f a = g a := by
  induction l with
  | nil => simp
  | cons a l ih =>
    rw [List.flatMap_cons, List.flatMap_cons, List.forall_mem_cons,
      ← ih fun b hb => hlen b (List.mem_cons_of_mem a hb)]
    constructor
    · intro h
      exact List.append_inj h (hlen a (List.mem_cons_self ..))
    · rintro ⟨ha, hl⟩
      rw [ha, hl]

theorem frameDumps_flatMap (hooks : List TcpHook) :
    frameDumps (hooks.flatMap (TcpHook.frames M)) =
      hooks.flatMap fun h => frameDumps (h.frames M) := by
  rw [frameDumps, List.filter_flatMap, List.map_flatMap]
  rfl

/-- Hooks without failures have dumps with their content exactly when each of them has. -/
theorem map_snd_frameDumps_eq_iff {hooks : List TcpHook} (hok : ∀ h ∈ hooks, h.AllocationsSucceed) :
    (frameDumps (hooks.flatMap (TcpHook.frames M))).map Prod.snd =
        (hooks.filterMap (TcpHook.mapping M)).map Prod.snd ↔
      ∀ h ∈ hooks, h.EarlierPagesZero M := by
  rw [frameDumps_flatMap, List.map_flatMap, List.filterMap_eq_flatMap_toList, List.map_flatMap,
    flatMap_eq_flatMap_iff]
  · exact forall₂_congr fun h hmem => (TcpHook.frameDumps_of_ok (hok h hmem)).2
  · intro h hmem
    rw [List.length_map, List.length_map]
    exact (TcpHook.frameDumps_of_ok (hok h hmem)).1

/-- **A session without failures.**  Every hook that waits gets one reply, and the server records as
many mappings as the hooks were about; it records their content, hook by hook, exactly when in each
mapping the pages before the last run hold zeros. -/
theorem session_exact_iff (M : PhysMem) (hooks : List TcpHook)
    (hok : ∀ h ∈ hooks, h.AllocationsSucceed) (env : ServerEnv)
    (hmmap : ∀ round len, env.mmap round len = true) (hreply : ∀ round, env.reply round = true)
    (segments : List (List UInt8)) (hsent : segments.flatten = hooks.flatMap (TcpHook.bytes M)) :
    (replies ((receiveLoop env).run (.start segments))).length =
        (hooks.filter fun h => h.waits M).length ∧
      ((dumps ((receiveLoop env).run (.start segments))).map Prod.snd =
          (hooks.filterMap (TcpHook.mapping M)).map Prod.snd ↔
        ∀ h ∈ hooks, h.EarlierPagesZero M) := by
  have hsound : ∀ f ∈ hooks.flatMap (TcpHook.frames M), f.Complete ∧ f.Accepted := by
    intro f hf
    obtain ⟨h, -, hmem⟩ := List.mem_flatMap.mp hf
    exact h.frames_sound f hmem
  have hshows := run_shows hmmap hreply hsound (Or.inl rfl)
    (hsent.trans ((TcpHook.flatMap_bytes_eq hooks).trans (List.append_nil _).symm))
  constructor
  · have hcount : ∀ hooks : List TcpHook, (∀ h ∈ hooks, h.AllocationsSucceed) →
        (frameReplies (hooks.flatMap (TcpHook.frames M))).length =
          (hooks.filter fun h => h.waits M).length := by
      intro hooks hok
      induction hooks with
      | nil => rfl
      | cons h hooks ih =>
        have hone := TcpHook.endFrames_length_of_ok (M := M) (hok h (List.mem_cons_self ..))
        have hrest := ih fun g hg => hok g (List.mem_cons_of_mem h hg)
        rw [frameReplies, List.length_map] at hrest ⊢
        rw [List.flatMap_cons, List.filter_append, List.length_append, hrest, List.filter_cons]
        rw [TcpHook.endFrames] at hone
        rw [hone]
        cases h.waits M with
        | true => exact Nat.add_comm _ _
        | false => exact Nat.zero_add _
    rw [hshows.replies]
    exact hcount hooks hok
  · rw [hshows.dumps]
    exact map_snd_frameDumps_eq_iff hok

theorem sampleHooks_allocationsSucceed : ∀ h ∈ sampleHooks, h.AllocationsSucceed :=
  List.forall_mem_cons.mpr ⟨sampleCall_allocationsSucceed, List.forall_mem_singleton.mpr trivial⟩

/-- The two hooks, in one piece. -/
theorem session_exact_of_sample :
    (replies ((receiveLoop ⟨fun _ _ => true, fun _ => true⟩).run (.start
        [sampleHooks.flatMap (TcpHook.bytes sampleMemory)]))).length =
        (sampleHooks.filter fun h => h.waits sampleMemory).length ∧
      ((dumps ((receiveLoop ⟨fun _ _ => true, fun _ => true⟩).run (.start
          [sampleHooks.flatMap (TcpHook.bytes sampleMemory)]))).map Prod.snd =
          (sampleHooks.filterMap (TcpHook.mapping sampleMemory)).map Prod.snd ↔
        ∀ h ∈ sampleHooks, h.EarlierPagesZero sampleMemory) :=
  session_exact_iff sampleMemory sampleHooks sampleHooks_allocationsSucceed
    ⟨fun _ _ => true, fun _ => true⟩ (fun _ _ => rfl) (fun _ => rfl) _
    (by rw [List.flatten_cons, List.flatten_nil, List.append_nil])

end Session

end LsmFork
