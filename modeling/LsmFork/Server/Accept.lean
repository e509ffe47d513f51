import LsmFork.Kernel.FrameBounds
import LsmFork.Server.ReceiveLoop

/-!
# The server on frames it accepts

A frame that is complete and inside its mapping takes the receive loop through exactly one round:
the header and the payload are read where the kernel put them, nothing is stored outside the region,
and the next round finds the stream at the next frame.  Every frame that the kernel sends is of this
kind, so the server keeps the frame boundaries whatever fails inside the kernel.

* `parsedFrames`, `dumps`, `replies`: what the events of a run show of the protocol.
* `Frame.dumped`: the buffer after the payload of a frame alone.
* `iteration_of_accepted`: one round; `reaches_frames`: a sequence of frames.
* `run_shows`: a stream that ends in a header whose payload has not been sent.
* `server_accepts_hooks`: the stream of any sequence of hooks.
-/

namespace LsmFork

open Segments

/-- The frames that the server has read in full. -/
def parsedFrames (evs : List ServerEvent) : List Frame :=
  evs.filterMap fun
    | .frame f => some f
    | _ => none

/-- The buffers handed to `dump_mapping`. -/
def dumps (evs : List ServerEvent) : List (MappingInfo × List UInt8) :=
  evs.filterMap fun
    | .dump info buf => some (info, buf)
    | _ => none

/-- The replies sent. -/
def replies (evs : List ServerEvent) : List (List UInt8) :=
  evs.filterMap fun
    | .reply buf => some buf
    | _ => none

/-- What the events of some rounds show: the frames read, the buffers dumped, the replies sent. -/
structure Shows (evs : List ServerEvent) (fs : List Frame) (ds : List (MappingInfo × List UInt8))
    (rs : List (List UInt8)) : Prop where
  parsedFrames : parsedFrames evs = fs
  dumps : dumps evs = ds
  replies : replies evs = rs

theorem Shows.append {evs evs' : List ServerEvent} {fs fs' : List Frame}
    {ds ds' : List (MappingInfo × List UInt8)} {rs rs' : List (List UInt8)}
    (h : Shows evs fs ds rs) (h' : Shows evs' fs' ds' rs') :
    Shows (evs ++ evs') (fs ++ fs') (ds ++ ds') (rs ++ rs') where
  parsedFrames := by rw [LsmFork.parsedFrames, List.filterMap_append]; rw [← h.1, ← h'.1]; rfl
  dumps := by rw [LsmFork.dumps, List.filterMap_append]; rw [← h.2, ← h'.2]; rfl
  replies := by rw [LsmFork.replies, List.filterMap_append]; rw [← h.3, ← h'.3]; rfl

/-- The region that the server has mapped for a frame, once the payload is in it. -/
def Frame.dumped (f : Frame) : List UInt8 :=
  overwrite (List.replicate f.header.mappingLen.toNat 0) f.header.mappedAddr.toNat f.payload

/-! ## One round -/

theorem storeBytes_bytes {region : Region} {off : UInt64} {bs : List UInt8}
    (h : off.toNat + bs.length ≤ region.size.toNat) :
    (storeBytes region off bs).1.bytes = overwrite region.bytes off.toNat bs := by
  induction bs generalizing region off with
  | nil => exact (overwrite_nil _ _).symm
  | cons b bs ih =>
    rw [List.length_cons] at h
    have hsize : region.size.toNat < 2 ^ 64 := region.size.toNat_lt
    have hnext : (off + 1).toNat = off.toNat + 1 := by
      rw [UInt64.toNat_add]
      exact Nat.mod_eq_of_lt (show off.toNat + 1 < 2 ^ 64 by omega)
    have hfits : (off + 1).toNat + bs.length ≤ (region.store off b).size.toNat := by
      show (off + 1).toNat + bs.length ≤ region.size.toNat
      omega
    rw [storeBytes, ih hfits, hnext]
    exact overwrite_set b bs (by rw [region.length_eq]; omega)

theorem storeBytes_shows (region : Region) (off : UInt64) (bs : List UInt8) :
    Shows (storeBytes region off bs).2 [] [] [] := by
  induction bs generalizing region off with
  | nil => exact ⟨rfl, rfl, rfl⟩
  | cons b bs ih => exact ⟨(ih _ _).1, (ih _ _).2, (ih _ _).3⟩

theorem clientDisconnected_shows (why : Disconnect) (rootBuf : Option Region) (size : UInt64) :
    Shows (clientDisconnected why rootBuf size) [] [] [] := by
  rw [clientDisconnected]
  split <;> exact ⟨rfl, rfl, rfl⟩

/-- The end of a mapping shows the dump, and the reply if it is sent. -/
theorem finishMapping_shows (env : ServerEnv) (round : ℕ) {f : Frame} {region : Region}
    (hbytes : region.bytes = f.dumped) :
    Shows (finishMapping env round f.header region).1 []
        (if f.IsEnd then [(f.header, f.dumped)] else [])
        (if f.IsEnd ∧ env.reply round = true then [analyzeNop] else []) ∧
      ((finishMapping env round f.header region).2 = false ↔
        f.IsEnd ∧ env.reply round = false) := by
  rw [finishMapping, hbytes]
  by_cases hend : f.IsEnd
  · rw [if_pos (show f.header.isEndOfMapping = 1 from hend), if_pos hend]
    cases env.reply round with
    | true =>
      rw [if_pos rfl, if_pos ⟨hend, rfl⟩]
      exact ⟨⟨rfl, rfl, rfl⟩, by simp⟩
    | false =>
      rw [if_neg (by simp), if_neg (fun h => by simp at h)]
      exact ⟨⟨rfl, rfl, rfl⟩, by simp [hend]⟩
  · rw [if_neg (show ¬ f.header.isEndOfMapping = 1 from hend), if_neg hend,
      if_neg (fun h => hend h.1)]
    exact ⟨⟨rfl, rfl, rfl⟩, by simp [hend]⟩

/-- The payload of an accepted frame arrives in full and inside the region. -/
theorem receivePayload_of_accepted {f : Frame} (hcomplete : f.Complete) (haccepted : f.Accepted)
    {input : List (List UInt8)} {rest : List UInt8} (hinput : input.flatten = f.payload ++ rest) :
    ∃ stores region input', receivePayload (.fresh f.header.mappingLen) f.header.mappingLen f.header
        input = (stores, region, .ok (f.payload, input')) ∧ input'.flatten = rest ∧
      region.bytes = f.dumped ∧ Shows stores [] [] [] := by
  by_cases hlen : f.header.len = 0
  · have hnil : f.payload = [] := by
      apply List.length_eq_zero_iff.mp
      rw [hcomplete, hlen]
      rfl
    rw [receivePayload, hlen, if_neg (by decide), Frame.dumped, hnil, overwrite_nil]
    exact ⟨[], _, input, rfl, by rw [hinput, hnil, List.nil_append], rfl, rfl, rfl, rfl⟩
  · have hpos : 0 < f.header.len := by
      rw [UInt64.lt_iff_toNat_lt]
      exact Nat.pos_of_ne_zero fun h => hlen (UInt64.toNat_inj.mp h)
    have hfits := haccepted.2.resolve_left hlen
    have hmapping : f.header.mappingLen.toNat < 2 ^ 64 := f.header.mappingLen.toNat_lt
    have hcheck : f.header.mappedAddr + f.header.len ≤ f.header.mappingLen := by
      rw [UInt64.le_iff_toNat_le, UInt64.toNat_add]
      exact (Nat.mod_le _ _).trans hfits
    have henough : f.header.len.toNat ≤ input.flatten.length := by
      rw [hinput, List.length_append, hcomplete]
      exact Nat.le_add_right _ _
    obtain ⟨chunks, input', hloop, htake, hdrop⟩ := recvLoop_of_le henough
    have hchunks : chunks.flatten = f.payload := by
      rw [htake, hinput, ← hcomplete, List.take_left]
    rw [receivePayload, if_pos hpos, if_pos hcheck]
    simp only [hloop, hchunks, storeChunks_eq]
    refine ⟨_, _, input', rfl, ?_, ?_, storeBytes_shows _ _ _⟩
    · rw [hdrop, hinput, ← hcomplete, List.drop_left]
    · rw [storeBytes_bytes (by rw [hcomplete]; exact hfits)]
      rfl

/-- **One round on an accepted frame.**  The server reads the frame, dumps and replies if it ends
its mapping, and goes on behind it unless the reply fails. -/
theorem iteration_of_accepted {env : ServerEnv} {s : LoopHead} (hs : s.rootBuf = none) {f : Frame}
    (hcomplete : f.Complete) (haccepted : f.Accepted) {rest : List UInt8}
    (hinput : s.input.flatten = f.toBytes ++ rest)
    (hmmap : env.mmap s.round f.header.mappingLen = true) :
    ∃ evs input', iteration env s = (evs, if f.IsEnd ∧ env.reply s.round = false then none
        else some ⟨none, 0, input', s.round + 1⟩) ∧ input'.flatten = rest ∧
      Shows evs [f] (if f.IsEnd then [(f.header, f.dumped)] else [])
        (if f.IsEnd ∧ env.reply s.round = true then [analyzeNop] else []) := by
  rw [Frame.toBytes, List.append_assoc] at hinput
  obtain ⟨input, hinfo, hpayload⟩ := receiveInfo_of_header hinput
  obtain ⟨stores, region, input', hreceived, hrest, hbytes, hstores⟩ :=
    receivePayload_of_accepted hcomplete haccepted hpayload
  obtain ⟨hfinish, hgoes⟩ := finishMapping_shows env s.round (f := f) hbytes
  have halloc : allocate env s f.header = ([.mmap f.header.mappingLen true],
      .ok (.fresh f.header.mappingLen, f.header.mappingLen)) := by
    simp [allocate, hs, haccepted.1, hmmap]
  have hframe : Shows ([.mmap f.header.mappingLen true] ++ stores ++ [.frame f]) [f] [] [] :=
    ((⟨rfl, rfl, rfl⟩ : Shows [.mmap f.header.mappingLen true] [] [] []).append hstores).append
      (⟨rfl, rfl, rfl⟩ : Shows [.frame f] [f] [] [])
  simp only [iteration, hinfo, halloc, hreceived]
  cases hnext : (finishMapping env s.round f.header region).2 with
  | true =>
    have hgo : ¬ (f.IsEnd ∧ env.reply s.round = false) := by
      rw [← hgoes, hnext]
      simp
    simp only [if_true]
    refine ⟨_, input', congrArg (Prod.mk _) (if_neg hgo).symm, hrest, ?_⟩
    have hevs := (hframe.append hfinish).append
      (⟨rfl, rfl, rfl⟩ : Shows [.munmap f.header.mappingLen] [] [] [])
    simpa only [List.append_nil, List.nil_append] using hevs
  | false =>
    simp only [Bool.false_eq_true, if_false]
    refine ⟨_, input', congrArg (Prod.mk _) (if_pos (hgoes.mp hnext)).symm, hrest, ?_⟩
    have hevs := (hframe.append hfinish).append
      (clientDisconnected_shows .replyFailed (some region) f.header.mappingLen)
    simpa only [List.append_nil, List.nil_append] using hevs

/-! ## A sequence of frames -/

/-- The server's own calls succeed in the rounds that read these frames. -/
def Serves (env : ServerEnv) : ℕ → List Frame → Prop
  | _, [] => True
  | round, f :: fs => env.mmap round f.header.mappingLen = true ∧
      (f.IsEnd → env.reply round = true) ∧ Serves env (round + 1) fs

/-- The dumps that frames give rise to: for each frame that ends a mapping, what the server has
mapped for it. -/
def frameDumps (fs : List Frame) : List (MappingInfo × List UInt8) :=
  (fs.filter Frame.IsEnd).map fun f => (f.header, f.dumped)

/-- The replies to frames: one for each that ends a mapping. -/
def frameReplies (fs : List Frame) : List (List UInt8) :=
  (fs.filter Frame.IsEnd).map fun _ => analyzeNop

/-- **The server reads a sequence of accepted frames** one by one, and is then back at the head of
the loop, with the rest of the stream. -/
theorem reaches_frames {env : ServerEnv} {fs : List Frame} {s : LoopHead} (hs : s.rootBuf = none)
    (hsound : ∀ f ∈ fs, f.Complete ∧ f.Accepted) {rest : List UInt8}
    (hinput : s.input.flatten = fs.flatMap Frame.toBytes ++ rest)
    (hserves : Serves env s.round fs) :
    ∃ evs s', (receiveLoop env).Reaches s evs s' ∧ s'.rootBuf = none ∧ s'.input.flatten = rest ∧
      s'.round = s.round + fs.length ∧ Shows evs fs (frameDumps fs) (frameReplies fs) := by
  induction fs generalizing s with
  | nil => exact ⟨[], s, .refl s, hs, hinput, rfl, rfl, rfl, rfl⟩
  | cons f fs ih =>
    rw [List.flatMap_cons, List.append_assoc] at hinput
    obtain ⟨hmmap, hreply, hservesRest⟩ := hserves
    obtain ⟨hcomplete, haccepted⟩ := hsound f (List.mem_cons_self ..)
    obtain ⟨evs, input', hstep, hrest, hshows⟩ :=
      iteration_of_accepted hs hcomplete haccepted hinput hmmap
    have hgo : ¬ (f.IsEnd ∧ env.reply s.round = false) := by
      rintro ⟨hend, hfail⟩
      rw [hreply hend] at hfail
      cases hfail
    rw [if_neg hgo] at hstep
    obtain ⟨evs', s', hreach, hnone, hleft, hround, hshows'⟩ :=
      ih (s := ⟨none, 0, input', s.round + 1⟩) rfl
        (fun g hg => hsound g (List.mem_cons_of_mem f hg)) hrest hservesRest
    refine ⟨evs ++ evs', s', .head hstep hreach, hnone, hleft, ?_, ?_⟩
    · rw [hround, List.length_cons]
      ring
    · have hboth := hshows.append hshows'
      by_cases hend : f.IsEnd
      · rw [if_pos hend, if_pos ⟨hend, hreply hend⟩] at hboth
        simpa [frameDumps, frameReplies, hend] using hboth
      · rw [if_neg hend, if_neg (fun h => hend h.1)] at hboth
        simpa [frameDumps, frameReplies, hend] using hboth

theorem serves_of_forall {env : ServerEnv} (hmmap : ∀ round len, env.mmap round len = true)
    (hreply : ∀ round, env.reply round = true) (round : ℕ) (fs : List Frame) :
    Serves env round fs := by
  induction fs generalizing round with
  | nil => trivial
  | cons f fs ih => exact ⟨hmmap _ _, fun _ => hreply _, ih _⟩

/-! ## Between two sends -/

theorem run_of_nil {env : ServerEnv} {s : LoopHead} (hinput : s.input.flatten = []) :
    Shows ((receiveLoop env).run s) [] [] [] := by
  have hstep : (receiveLoop env).step s =
      (clientDisconnected .endOfStream s.rootBuf s.currentMappingSize, none) := by
    show iteration env s = _
    rw [iteration, receiveInfo_of_nil hinput]
  rw [(receiveLoop env).run_of_none hstep]
  exact clientDisconnected_shows _ _ _

theorem run_of_header {env : ServerEnv} {s : LoopHead} (hs : s.rootBuf = none) {f : Frame}
    (hcomplete : f.Complete) (haccepted : f.Accepted) (hpayload : f.payload ≠ [])
    (hinput : s.input.flatten = f.header.toBytes)
    (hmmap : env.mmap s.round f.header.mappingLen = true) :
    Shows ((receiveLoop env).run s) [] [] [] := by
  have hheader : s.input.flatten = f.header.toBytes ++ [] := by
    rw [hinput, List.append_nil]
  obtain ⟨input, hinfo, hrest⟩ := receiveInfo_of_header hheader
  have halloc : allocate env s f.header = ([.mmap f.header.mappingLen true],
      .ok (.fresh f.header.mappingLen, f.header.mappingLen)) := by
    simp [allocate, hs, haccepted.1, hmmap]
  have hlen : input.flatten.length < f.header.len.toNat := by
    rw [hrest, ← hcomplete]
    exact List.length_pos_of_ne_nil hpayload
  have hpos : 0 < f.header.len := UInt64.lt_iff_toNat_lt.mpr (Nat.zero_lt_of_lt hlen)
  obtain ⟨stores, region, why, hreceived, hstores⟩ : ∃ stores region why,
      receivePayload (.fresh f.header.mappingLen) f.header.mappingLen f.header input =
        (stores, region, .error why) ∧ Shows stores [] [] [] := by
    obtain ⟨chunks, hloop, -⟩ := recvLoop_of_lt hlen
    rw [receivePayload, if_pos hpos]
    split
    · simp only [hloop, storeChunks_eq]
      exact ⟨_, _, _, rfl, storeBytes_shows _ _ _⟩
    · exact ⟨_, _, _, rfl, rfl, rfl, rfl⟩
  have hstep : (receiveLoop env).step s = ([.mmap f.header.mappingLen true] ++ stores ++
      clientDisconnected why (some region) f.header.mappingLen, none) := by
    show iteration env s = _
    simp only [iteration, hinfo, halloc, hreceived]
  rw [(receiveLoop env).run_of_none hstep]
  exact ((⟨rfl, rfl, rfl⟩ : Shows [.mmap f.header.mappingLen true] [] [] []).append hstores).append
    (clientDisconnected_shows _ _ _)

/-- **What the server shows between two sends**: the frames sent in full, and nothing of a header
that waits for its payload. -/
theorem run_shows {env : ServerEnv} (hmmap : ∀ round len, env.mmap round len = true)
    (hreply : ∀ round, env.reply round = true) {fs : List Frame}
    (hsound : ∀ f ∈ fs, f.Complete ∧ f.Accepted) {tail : List UInt8}
    (htail : tail = [] ∨ ∃ f : Frame, f.Complete ∧ f.Accepted ∧ f.payload ≠ [] ∧
      tail = f.header.toBytes)
    {segments : List (List UInt8)}
    (hsegments : segments.flatten = fs.flatMap Frame.toBytes ++ tail) :
    Shows ((receiveLoop env).run (.start segments)) fs (frameDumps fs) (frameReplies fs) := by
  obtain ⟨evs, s, hreach, hnone, hleft, -, hshows⟩ :=
    reaches_frames (s := .start segments) rfl hsound hsegments (serves_of_forall hmmap hreply 0 fs)
  have hrest : Shows ((receiveLoop env).run s) [] [] [] := by
    rcases htail with htail | ⟨f, hcomplete, haccepted, hpayload, htail⟩
    · exact run_of_nil (hleft.trans htail)
    · exact run_of_header hnone hcomplete haccepted hpayload (hleft.trans htail) (hmmap _ _)
  rw [hreach.run_eq]
  simpa only [List.append_nil] using hshows.append hrest

/-! ## The stream of the hooks -/

/-- **The server accepts every stream the kernel sends**, whatever fails inside the hooks and
however the stream is cut.  The bytes are the frames of the hooks, each with a full header and the
payload it announces, each inside its mapping; the server reads exactly these frames, without
leaving the loop, and is then at the head of the loop with whatever follows them. -/
theorem server_accepts_hooks (M : PhysMem) (hooks : List TcpHook) (env : ServerEnv)
    (hmmap : ∀ round len, env.mmap round len = true) (hreply : ∀ round, env.reply round = true)
    (segments : List (List UInt8)) (rest : List UInt8)
    (hsegments : segments.flatten = hooks.flatMap (TcpHook.bytes M) ++ rest) :
    (hooks.flatMap (TcpHook.bytes M) =
        (hooks.flatMap (TcpHook.frames M)).flatMap Frame.toBytes ∧
      ∀ f ∈ hooks.flatMap (TcpHook.frames M), f.Complete ∧ f.Accepted) ∧
    ∃ evs s, (receiveLoop env).Reaches (.start segments) evs s ∧ s.rootBuf = none ∧
      s.input.flatten = rest ∧ parsedFrames evs = hooks.flatMap (TcpHook.frames M) := by
  have hbytes : hooks.flatMap (TcpHook.bytes M) =
      (hooks.flatMap (TcpHook.frames M)).flatMap Frame.toBytes := by
    rw [List.flatMap_assoc]
    exact List.flatMap_congr fun h _ => h.bytes_eq M
  have hsound : ∀ f ∈ hooks.flatMap (TcpHook.frames M), f.Complete ∧ f.Accepted := by
    intro f hf
    obtain ⟨h, -, hmem⟩ := List.mem_flatMap.mp hf
    exact h.frames_sound f hmem
  obtain ⟨evs, s, hreach, hnone, hleft, -, hshows⟩ :=
    reaches_frames (s := .start segments) rfl hsound (by rw [← hbytes]; exact hsegments)
      (serves_of_forall hmmap hreply 0 _)
  exact ⟨⟨hbytes, hsound⟩, evs, s, hreach, hnone, hleft, hshows.parsedFrames⟩

/-- A mapping and a program, in one piece, with a byte of the next header behind them. -/
theorem server_accepts_sample :
    ([.pages sampleCall, .bpf sampleBpf].flatMap (TcpHook.bytes sampleMemory) =
        ([.pages sampleCall, .bpf sampleBpf].flatMap (TcpHook.frames sampleMemory)).flatMap
          Frame.toBytes ∧
      ∀ f ∈ [.pages sampleCall, .bpf sampleBpf].flatMap (TcpHook.frames sampleMemory),
        f.Complete ∧ f.Accepted) ∧
    ∃ evs s, (receiveLoop ⟨fun _ _ => true, fun _ => true⟩).Reaches
        (.start [[.pages sampleCall, .bpf sampleBpf].flatMap (TcpHook.bytes sampleMemory), [0x73]])
        evs s ∧ s.rootBuf = none ∧ s.input.flatten = [0x73] ∧
      parsedFrames evs =
        [.pages sampleCall, .bpf sampleBpf].flatMap (TcpHook.frames sampleMemory) :=
  server_accepts_hooks sampleMemory [.pages sampleCall, .bpf sampleBpf]
    ⟨fun _ _ => true, fun _ => true⟩ (fun _ _ => rfl) (fun _ => rfl) _ [0x73] (by simp)

end LsmFork
