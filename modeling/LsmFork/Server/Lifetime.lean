import LsmFork.Lib.Ledger
import LsmFork.Server.PointerLoop

/-!
# The lifetime of the buffer

A ledger says of each region whether it has been mapped yet, is live, or is gone, and what the
server does to a pointer is checked against it.  At the head of the loop and at the label
`root_buf` and `current_mapping_size` describe the live region, if there is one; a header that gets
a region is read into it, dumped from it and unmapped with its size, on every way out of the round.

* `Tracks`, `Sound`: the invariant of the variables, and what an event needs of the regions.
* `OnlyHeld`: one region is live.
* `lifeRound_passes`, `lifeLoop_passes`, `serve_passes`: a round, a client and a run are sound.
* `lifetime_sound`: the buffers of a whole run.
-/

namespace LsmFork

open Runs

/-- What an event does to the regions. -/
def LifeEvent.access : LifeEvent → Access RegionId UInt64
  | .mmap len (.into region _) => .acquire region len
  | .munmap (.into region _) len => .release region len
  | _ => .other

/-- The regions after an event. -/
def afterEvent (l : Ledger RegionId UInt64) (e : LifeEvent) : Ledger RegionId UInt64 :=
  l.next e.access

/-- **The variables say which region is live**: `root_buf` is not `NULL` exactly when one is, and
then it points to it, and `current_mapping_size` is its size. -/
def Tracks (l : Ledger RegionId UInt64) (vars : ClientVars) : Prop :=
  (vars.rootBuf ≠ .null ↔ ∃ region size, l region = .held size) ∧
    ∀ region size, l region = .held size →
      vars.rootBuf = .into region 0 ∧ vars.currentMappingSize = size

/-- What an event needs of the regions.  A payload read is of a live region, with an end that the
code's own sum puts inside it. -/
def Sound (l : Ledger RegionId UInt64) : LifeEvent → Prop
  | .accept => l.Idle
  | .head vars => Tracks l vars
  | .mmap _ result => ∀ region offset, result = .into region offset → l region = .fresh
  | .recv buf len => ∃ region offset size, buf = .into region offset ∧ l region = .held size ∧
      offset + len ≤ size
  | .dumpMapping info buf => ∃ region, buf = .into region 0 ∧ l region = .held info.mappingLen
  | .reply _ => True
  | .munmap addr len => ∃ region, addr = .into region 0 ∧ l region = .held len
  | .clientDisconnected vars => Tracks l vars
  | .close _ => True

theorem LifeEvent.eq_munmap_of_release {e : LifeEvent} {region : RegionId} {len : UInt64}
    (h : e.access = .release region len) : ∃ offset, e = .munmap (.into region offset) len := by
  cases e with
  | mmap len' result => cases result <;> cases h
  | munmap addr len' =>
    cases addr with
    | into region' offset =>
      obtain ⟨rfl, rfl⟩ := Access.release.inj h
      exact ⟨offset, rfl⟩
    | _ => cases h
  | _ => cases h

theorem Sound.orderly {l : Ledger RegionId UInt64} {e : LifeEvent} (h : Sound l e) :
    l.Orderly e.access := by
  cases e with
  | mmap len result =>
    cases result with
    | into region offset => exact h region offset rfl
    | _ => trivial
  | munmap addr len =>
    obtain ⟨region, rfl, hheld⟩ := h
    exact hheld
  | _ => trivial

/-- One region is live, with this size. -/
def OnlyHeld (l : Ledger RegionId UInt64) (region : RegionId) (size : UInt64) : Prop :=
  l region = .held size ∧ ∀ k t, l k = .held t → k = region

variable {l : Ledger RegionId UInt64} {vars : ClientVars} {region : RegionId} {size : UInt64}

theorem tracks_of_idle (hidle : l.Idle) (hroot : vars.rootBuf = .null) : Tracks l vars :=
  ⟨iff_of_false (fun hne => hne hroot) fun ⟨region, size, hheld⟩ => hidle region size hheld,
    fun region size hheld => absurd hheld (hidle region size)⟩

theorem tracks_of_onlyHeld (h : OnlyHeld l region size) (hroot : vars.rootBuf = .into region 0)
    (hsize : vars.currentMappingSize = size) : Tracks l vars := by
  refine ⟨iff_of_true (by rw [hroot]; exact fun h => by cases h) ⟨region, size, h.1⟩, ?_⟩
  intro k t hheld
  obtain rfl := h.2 k t hheld
  rw [h.1] at hheld
  exact ⟨hroot, hsize.trans (Status.held.inj hheld)⟩

theorem onlyHeld_update (hidle : l.Idle) (region : RegionId) (size : UInt64) :
    OnlyHeld (Function.update l region (.held size)) region size := by
  refine ⟨Function.update_self .., fun k t hheld => ?_⟩
  by_contra hne
  rw [Function.update_of_ne hne] at hheld
  exact hidle k t hheld

theorem OnlyHeld.idle_update (h : OnlyHeld l region size) :
    Ledger.Idle (Function.update l region .gone) := by
  intro k t hheld
  by_cases hk : k = region
  · rw [hk, Function.update_self] at hheld
    cases hheld
  · rw [Function.update_of_ne hk] at hheld
    exact hk (h.2 k t hheld)

/-! ## The parts of a round -/

theorem disconnectLabel_of_idle (hidle : l.Idle) (hroot : vars.rootBuf = .null)
    (why : Disconnect) : Passes afterEvent Sound l (disconnectLabel vars why) l := by
  have hclose : Sound l (.close why) := trivial
  rw [disconnectLabel, if_neg (fun hne => hne hroot)]
  exact .cons (tracks_of_idle hidle hroot) (.cons hclose (.nil l))

theorem munmap_passes (h : OnlyHeld l region size) (hroot : vars.rootBuf = .into region 0)
    (hsize : vars.currentMappingSize = size) :
    Passes afterEvent Sound l [.munmap vars.rootBuf vars.currentMappingSize]
      (Function.update l region .gone) := by
  rw [hroot, hsize]
  exact .cons ⟨region, rfl, h.1⟩ (.nil _)

theorem disconnectLabel_of_onlyHeld (h : OnlyHeld l region size)
    (hroot : vars.rootBuf = .into region 0) (hsize : vars.currentMappingSize = size)
    (why : Disconnect) :
    Passes afterEvent Sound l (disconnectLabel vars why) (Function.update l region .gone) := by
  have hclose : Sound (Function.update l region .gone) (.close why) := trivial
  rw [disconnectLabel, if_pos (by rw [hroot]; exact fun h => by cases h)]
  exact .cons (tracks_of_onlyHeld h hroot hsize)
    ((munmap_passes h hroot hsize).append (.cons hclose (.nil _)))

/-- The payload reads are of the live region, with the end that has been checked. -/
theorem payloadReads_passes (hheld : l region = .held size) {mappedAddr len : UInt64}
    (hcheck : mappedAddr + len ≤ size) (ended : Bool) (totalRead : UInt64)
    (chunks : List (List UInt8)) :
    Passes afterEvent Sound l (payloadReads (.into region mappedAddr) len ended totalRead chunks)
      l := by
  have hread : ∀ totalRead,
      Sound l (.recv ((Ptr.into region mappedAddr).add totalRead) (len - totalRead)) := by
    intro totalRead
    refine ⟨region, mappedAddr + totalRead, size, rfl, hheld, ?_⟩
    rw [UInt64.add_assoc, UInt64.add_comm totalRead, UInt64.sub_add_cancel]
    exact hcheck
  induction chunks generalizing totalRead with
  | nil =>
    rw [payloadReads]
    split
    · exact .cons (hread totalRead) (.nil l)
    · exact .nil l
  | cons chunk chunks ih => exact .cons (hread totalRead) (ih _)

/-- **Receiving a payload** keeps the region and the variables that say so. -/
theorem receiveInto_passes (vars : ClientVars) (hheld : l region = .held size)
    (hroot : vars.rootBuf = .into region 0) (hsize : vars.currentMappingSize = size)
    (info : MappingInfo) (input : List (List UInt8)) :
    Passes afterEvent Sound l (receiveInto vars info input).1 l ∧
      (receiveInto vars info input).2.1.rootBuf = .into region 0 ∧
      (receiveInto vars info input).2.1.currentMappingSize = size := by
  rw [receiveInto]
  split
  · split
    · rename_i hcheck
      refine ⟨?_, hroot, hsize⟩
      have hbuf : vars.rootBuf.add info.mappedAddr = .into region info.mappedAddr := by
        rw [hroot, Ptr.add, UInt64.zero_add]
      rw [hsize] at hcheck
      dsimp only
      rw [hbuf]
      exact payloadReads_passes hheld hcheck.2 _ 0 _
    · exact ⟨.nil l, hroot, hsize⟩
  · exact ⟨.nil l, hroot, hsize⟩

theorem finishDump_passes (env : ServerEnv) (round : ℕ) (info : MappingInfo)
    (hheld : l region = .held info.mappingLen) (hroot : vars.rootBuf = .into region 0) :
    Passes afterEvent Sound l (finishDump env round info vars).1 l := by
  have hdump : Sound l (.dumpMapping info vars.rootBuf) := ⟨region, hroot, hheld⟩
  rw [finishDump]
  split
  · split
    · exact .cons hdump (.cons trivial (.nil l))
    · exact .cons hdump (.nil l)
  · exact .nil l

/-! ## Rounds, clients, runs -/

/-- **One round** is sound, and leaves no region: the one that it has mapped, if any, is gone. -/
theorem lifeRound_passes (env : ServerEnv) (client : ℕ) {s : ClientHead}
    (hroot : s.vars.rootBuf = .null) (hidle : l.Idle) (hfresh : l (client, s.round) = .fresh) :
    ∃ l', Passes afterEvent Sound l (lifeRound env client s).1 l' ∧ l'.Idle ∧
      (∀ k, k ≠ (client, s.round) → l' k = l k) ∧
      ∀ s', (lifeRound env client s).2 = some s' →
        s'.vars.rootBuf = .null ∧ s'.round = s.round + 1 := by
  have hhead : Sound l (.head s.vars) := tracks_of_idle hidle hroot
  rw [lifeRound]
  cases hinfo : receiveInfo s.input with
  | none =>
    exact ⟨l, .cons hhead (disconnectLabel_of_idle hidle hroot _), hidle, fun k _ => rfl,
      fun s' h => by cases h⟩
  | some received =>
    obtain ⟨info, input⟩ := received
    dsimp only
    have hpoints : Points s ⟨none, 0, s.input, s.round⟩ := ⟨hroot, rfl, rfl, rfl⟩
    rcases allocateBuf_cases env client hpoints info with ⟨halloc, -⟩ | ⟨halloc, -⟩ | ⟨halloc, -⟩
    · rw [halloc]
      exact ⟨l, .cons hhead (disconnectLabel_of_idle hidle hroot _), hidle, fun k _ => rfl,
        fun s' h => by cases h⟩
    · rw [halloc]
      have hfailed : Sound l (.mmap info.mappingLen .mapFailed) := fun _ _ h => by cases h
      exact ⟨l, .cons hhead (.cons hfailed (disconnectLabel_of_idle hidle rfl _)), hidle,
        fun k _ => rfl, fun s' h => by cases h⟩
    · rw [halloc]
      dsimp only
      -- from here on the region is live
      have hmmap : Sound l (.mmap info.mappingLen (.into (client, s.round) 0)) := by
        intro region offset hinto
        obtain ⟨rfl, -⟩ := Ptr.into.inj hinto
        exact hfresh
      have honly := onlyHeld_update hidle (client, s.round) info.mappingLen
      have hgone : ∀ k, k ≠ (client, s.round) → Function.update
          (Function.update l (client, s.round) (.held info.mappingLen)) (client, s.round) .gone k =
            l k := by
        intro k hk
        rw [Function.update_of_ne hk, Function.update_of_ne hk]
      obtain ⟨hreads, hroot', hsize'⟩ := receiveInto_passes
        ⟨.into (client, s.round) 0, .into (client, s.round) 0, info.mappingLen⟩ honly.1 rfl rfl
        info input
      generalize receiveInto ⟨.into (client, s.round) 0, .into (client, s.round) 0,
        info.mappingLen⟩ info input = received at hreads hroot' hsize' ⊢
      obtain ⟨reads, vars', why | rest⟩ := received
      · have hlabel := disconnectLabel_of_onlyHeld honly hroot' hsize' why
        exact ⟨_, .cons hhead (.cons hmmap (hreads.append hlabel)), honly.idle_update, hgone,
          fun s' h => by cases h⟩
      · have hfinish := finishDump_passes env s.round info honly.1 hroot'
        dsimp only
        split
        · have hmunmap := munmap_passes honly hroot' hsize'
          refine ⟨_, .cons hhead (.cons hmmap (hreads.append (hfinish.append hmunmap))),
            honly.idle_update, hgone, fun s' h => ?_⟩
          obtain rfl := Option.some.inj h
          exact ⟨rfl, rfl⟩
        · have hlabel := disconnectLabel_of_onlyHeld honly hroot' hsize' .replyFailed
          exact ⟨_, .cons hhead (.cons hmmap (hreads.append (hfinish.append hlabel))),
            honly.idle_update, hgone, fun s' h => by cases h⟩

/-- **The loop of one client** is sound and leaves no region, and touches only regions of its
client. -/
theorem lifeLoop_passes (env : ServerEnv) (client : ℕ) {s : ClientHead}
    (hroot : s.vars.rootBuf = .null) (hidle : l.Idle)
    (hfresh : ∀ round, s.round ≤ round → l (client, round) = .fresh) :
    ∃ l', Passes afterEvent Sound l ((lifeLoop env client).run s) l' ∧ l'.Idle ∧
      ∀ k, k.1 ≠ client → l' k = l k := by
  refine (lifeLoop env client).run_induction (P := fun s run =>
    ∀ l : Ledger RegionId UInt64, s.vars.rootBuf = .null → l.Idle →
      (∀ round, s.round ≤ round → l (client, round) = .fresh) →
      ∃ l', Passes afterEvent Sound l run l' ∧ l'.Idle ∧ ∀ k, k.1 ≠ client → l' k = l k)
    ?_ ?_ s l hroot hidle hfresh
  · intro s evs hstep l hroot hidle hfresh
    obtain ⟨l', hpasses, hidle', hothers, -⟩ :=
      lifeRound_passes env client hroot hidle (hfresh s.round le_rfl)
    have hevs : (lifeRound env client s).1 = evs := congrArg Prod.fst hstep
    rw [hevs] at hpasses
    exact ⟨l', hpasses, hidle', fun k hk => hothers k fun h => hk (congrArg Prod.fst h)⟩
  · intro s s' evs hstep ih l hroot hidle hfresh
    obtain ⟨l', hpasses, hidle', hothers, hnext⟩ :=
      lifeRound_passes env client hroot hidle (hfresh s.round le_rfl)
    have hevs : (lifeRound env client s).1 = evs := congrArg Prod.fst hstep
    obtain ⟨hroot', hround⟩ := hnext s' (congrArg Prod.snd hstep)
    have hfresh' : ∀ round, s'.round ≤ round → l' (client, round) = .fresh := by
      intro round hle
      have hne : (client, round) ≠ (client, s.round) := fun h => by
        have hround' := congrArg Prod.snd h
        dsimp only at hround'
        omega
      rw [hothers _ hne, hfresh round (by omega)]
    obtain ⟨l'', hrest, hidle'', hothers'⟩ := ih l' hroot' hidle' hfresh'
    rw [hevs] at hpasses
    refine ⟨l'', hpasses.append hrest, hidle'', fun k hk => ?_⟩
    rw [hothers' k hk, hothers k fun h => hk (congrArg Prod.fst h)]

/-- **The accept loop** is sound and leaves no region. -/
theorem serve_passes (client : ℕ) (clients : List (Option TcpClient)) (hidle : l.Idle)
    (hfresh : ∀ k : RegionId, client ≤ k.1 → l k = .fresh) :
    ∃ l', Passes afterEvent Sound l (serve client clients) l' ∧ l'.Idle := by
  induction clients generalizing client l with
  | nil => exact ⟨l, .nil l, hidle⟩
  | cons c clients ih =>
    cases c with
    | none => exact ih client hidle hfresh
    | some c =>
      obtain ⟨l', hloop, hidle', hothers⟩ := lifeLoop_passes c.env client
        (s := .start c.input) rfl hidle fun round _ => hfresh (client, round) le_rfl
      have hfresh' : ∀ k : RegionId, client + 1 ≤ k.1 → l' k = .fresh := by
        intro k hk
        rw [hothers k (by omega), hfresh k (by omega)]
      obtain ⟨l'', hrest, hidle''⟩ := ih (client + 1) hidle' hfresh'
      have haccept : Sound l .accept := hidle
      exact ⟨l'', .cons haccept (hloop.append hrest), hidle''⟩

/-- **The lifetime of the buffers.**  Over any sequence of clients, everything the server does is
sound for the regions at that time, at each loop head and at the label too; and every region that it
maps is unmapped once, with its own size, before the next client is accepted. -/
theorem lifetime_sound (clients : List (Option TcpClient)) :
    (∀ x ∈ trace afterEvent Ledger.empty (serve 0 clients), Sound x.1 x.2) ∧
    ∀ pre region offset size post,
      serve 0 clients = pre ++ .mmap size (.into region offset) :: post →
        ∃ mid post', post = mid ++ .munmap (.into region 0) size :: post' ∧ .accept ∉ mid ∧
          ∀ offset' size', .munmap (.into region offset') size' ∉ pre ++ (mid ++ post') := by
  obtain ⟨l', hserve, hidle⟩ := serve_passes 0 clients Ledger.idle_empty fun k _ => rfl
  refine ⟨hserve.meets, fun pre region offset size post hsplit => ?_⟩
  rw [hsplit] at hserve
  obtain ⟨mid, e, post', rfl, hrelease, hmid, hothers⟩ := Ledger.released_exactly_once
    LifeEvent.access (fun l e h => Sound.orderly h) hserve rfl (hidle region size)
  obtain ⟨offset', rfl⟩ := LifeEvent.eq_munmap_of_release hrelease
  have hunmapped : ∃ l, Sound l (.munmap (.into region offset') size) :=
    ⟨_, hserve.of_append.2.of_cons.2.of_append.2.of_cons.1⟩
  obtain ⟨_, region', hinto, -⟩ := hunmapped
  obtain ⟨rfl, rfl⟩ := Ptr.into.inj hinto
  refine ⟨mid, post', rfl, fun haccept => ?_, fun offset' size' hmunmap => ?_⟩
  · -- a client is accepted only while nothing is live
    obtain ⟨l, hidle, hheld⟩ := hmid _ haccept
    exact hidle region size hheld
  · exact hothers _ hmunmap size' rfl

/-- A header that maps a page, sends no payload and ends the mapping. -/
def emptyMapping : MappingInfo where
  name := zeroChars taskCommLen
  args := zeroChars maxArgLen
  anonName := zeroChars maxAnonName
  initAddr := 0
  mappedAddr := 0
  mappingLen := 4096
  len := 0
  prot := 3
  isEndOfMapping := 1

/-- A client that sends it, and disconnects. -/
def emptyClient : TcpClient where
  input := [emptyMapping.toBytes]
  env := ⟨fun _ _ => true, fun _ => true⟩

theorem serve_emptyClient :
    serve 0 [some emptyClient] =
      [.accept, .head ⟨.null, .null, 0⟩] ++ .mmap 4096 (.into (0, 0) 0) ::
        [.dumpMapping emptyMapping (.into (0, 0) 0), .reply analyzeNop,
          .munmap (.into (0, 0) 0) 4096, .head ⟨.into (0, 0) 0, .null, 0⟩,
          .clientDisconnected ⟨.into (0, 0) 0, .null, 0⟩, .close .endOfStream] := by
  have hinput : emptyClient.input.flatten = emptyMapping.toBytes ++ [] := rfl
  obtain ⟨rest, hinfo, hrest⟩ := receiveInfo_of_header hinput
  have hfirst : (lifeLoop emptyClient.env 0).step (.start emptyClient.input) =
      ([.head ⟨.null, .null, 0⟩, .mmap 4096 (.into (0, 0) 0),
        .dumpMapping emptyMapping (.into (0, 0) 0), .reply analyzeNop,
        .munmap (.into (0, 0) 0) 4096], some ⟨⟨.into (0, 0) 0, .null, 0⟩, rest, 1⟩) := by
    show lifeRound emptyClient.env 0 (.start emptyClient.input) = _
    rw [lifeRound]
    dsimp only [ClientHead.start]
    rw [hinfo]
    rfl
  have hlast : (lifeLoop emptyClient.env 0).step ⟨⟨.into (0, 0) 0, .null, 0⟩, rest, 1⟩ =
      ([.head ⟨.into (0, 0) 0, .null, 0⟩, .clientDisconnected ⟨.into (0, 0) 0, .null, 0⟩,
        .close .endOfStream], none) := by
    show lifeRound emptyClient.env 0 ⟨⟨.into (0, 0) 0, .null, 0⟩, rest, 1⟩ = _
    rw [lifeRound, receiveInfo_of_nil hrest]
    rfl
  rw [serve, serve, List.append_nil, Machine.run_of_some _ hfirst, Machine.run_of_none _ hlast]
  rfl

/-- Its page is unmapped once. -/
theorem emptyClient_lifetime :
    ∃ mid post', [.dumpMapping emptyMapping (.into (0, 0) 0), .reply analyzeNop,
        .munmap (.into (0, 0) 0) 4096, .head ⟨.into (0, 0) 0, .null, 0⟩,
        .clientDisconnected ⟨.into (0, 0) 0, .null, 0⟩, .close .endOfStream] =
          mid ++ LifeEvent.munmap (.into (0, 0) 0) 4096 :: post' ∧ .accept ∉ mid ∧
      ∀ offset' size', .munmap (.into (0, 0) offset') size' ∉
        [.accept, .head ⟨.null, .null, 0⟩] ++ (mid ++ post') :=
  (lifetime_sound [some emptyClient]).2 _ _ _ _ _ serve_emptyClient

end LsmFork
