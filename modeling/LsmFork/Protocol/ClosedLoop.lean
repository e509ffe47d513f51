import LsmFork.Lib.Runs
import LsmFork.Protocol.Alignment
import LsmFork.Protocol.RecvLoop
import LsmFork.Server.Session

/-!
# The hooks and the server together

`Alignment` takes a server for granted that answers every frame which ends a mapping, and `Session`
takes the bytes of the hooks for granted.  Here both sides run.  A hook hands its bytes to the
connection piece by piece, the server takes a frame off it as soon as all of it is there and sends
its reply, and a hook that waits takes the next reply when one is there; all of this in any order.
When a call of the server fails it closes the connection.

A hook that has taken a reply returns only if no other is queued: the loop of `_tcp_recv` goes on as
long as the receive queue is not empty, and once nothing more is wanted it takes nothing from it.
So a reply that an earlier hook has left behind can hold a hook for ever.

Otherwise the order makes no difference.  Where nothing changes any more, the hooks have returned
what they return in `Alignment`, and the server has dumped what their frames stand for; unless a
hook goes round in that loop, which happens to no hook as long as all take their own replies, or the
server has closed the connection, which is the subject of `FailOpen`.

* `World`, `Act`, `next`: the two sides and the connection between them.
* `Leaves`, `leave_cases`: the ways in which a hook goes on and returns.
* `Loops`, `Loops.endless`: a hook that has found two replies.
* `Inv`: what is on the connection, in terms of a run of `hookClient`.
* `serve_cases`: all that the server can do with the bytes of the hooks.
* `closedLoop_refines`: where a run ends.
* `moves_length_le`: how long it takes.
* `closedLoop_completes`: hooks that take their own replies.
-/

namespace LsmFork
namespace ClosedLoop

open RequestReply Runs

/-! ## The two sides -/

/-- What the current hook does: it sends its frames; or it is in `lsm_receive_reply_tcp`, where it
waits for a reply, and then stands at the test of the loop with the bytes that it has taken. -/
inductive Phase where
  | idle
  | sending (h : TcpHook) (unsent : List UInt8)
  | receiving (h : TcpHook)
  | testing (h : TcpHook) (buf : List UInt8)

namespace Phase

/-- The hook of a phase. -/
def current : Phase → List TcpHook
  | idle => []
  | sending h _ => [h]
  | receiving h => [h]
  | testing h _ => [h]

/-- The hook that has gone on to its reply. -/
def receiver : Phase → List TcpHook
  | receiving h => [h]
  | testing h _ => [h]
  | _ => []

/-- The bytes that the hook of a phase has still to send. -/
def unsent : Phase → List UInt8
  | sending _ unsent => unsent
  | _ => []

/-- The reply that it has taken. -/
def taken : Phase → List (List UInt8)
  | testing _ buf => [buf]
  | _ => []

end Phase

/-- The hooks, the connection, and the server. -/
structure World where
  todo : List TcpHook
  phase : Phase
  /-- The hooks that have returned, with their values. -/
  log : List (TcpHook × Int32)
  /-- The bytes on their way to the server, and the replies on their way back. -/
  wire : List UInt8
  replies : List (List UInt8)
  /-- The server is in its receive loop, and the number of rounds behind it. -/
  listening : Bool
  round : ℕ
  dumped : List (MappingInfo × List UInt8)

/-- A new connection, and hooks that will run on it. -/
def start (hooks : List TcpHook) : World := ⟨hooks, .idle, [], [], [], true, 0, []⟩

/-- The dumps and the replies among some outcomes. -/
def dumpsOf (acts : List Outcome) : List (MappingInfo × List UInt8) :=
  acts.filterMap fun
    | .dump info buf => some (info, buf)
    | _ => none

def repliesOf (acts : List Outcome) : List (List UInt8) :=
  acts.filterMap fun
    | .reply buf => some buf
    | _ => none

/-- A hook enters, sends some bytes, or leaves, perhaps with a reply; or the server takes a round of
its loop. -/
inductive Act where
  | enter
  | send (n : ℕ)
  | leave
  | serve

section Steps

variable (M : PhysMem) (env : ServerEnv) (s : World)

/-- The next hook starts. -/
def enter : World :=
  match s.phase, s.todo with
  | .idle, h :: hs => { s with phase := .sending h (h.bytes M), todo := hs }
  | _, _ => s

/-- The hook hands bytes to the connection.  The socket may take them when the server has gone, too;
a send that fails changes nothing here. -/
def send (n : ℕ) : World :=
  match s.phase with
  | .sending h unsent =>
    { s with phase := .sending h (unsent.drop n), wire := s.wire ++ unsent.take n }
  | _ => s

/-- A hook that has sent everything returns, or goes on to its reply.  There it takes the first
reply that is queued, or returns with `SKIPPED` when the server has closed the connection behind the
last one.  With a reply it returns if it finds the queue empty now; if another reply has come, the
loop of `_tcp_recv` goes round again, wants nothing, and gets nothing, so nothing changes. -/
def leave : World :=
  match s.phase with
  | .idle => s
  | .sending h unsent =>
    if unsent = [] then
      match (h.run M).2 with
      | .ret value => { s with phase := .idle, log := s.log ++ [(h, value)] }
      | .awaitReply => { s with phase := .receiving h }
    else s
  | .receiving h =>
    match s.replies with
    | [] => if s.listening then s else { s with phase := .idle, log := s.log ++ [(h, skipped)] }
    | buf :: rest => { s with phase := .testing h buf, replies := rest }
  | .testing h buf =>
    if s.replies = [] then
      { s with
        phase := .idle
        log := s.log ++ [(h, hookVerdict buf.length (lsmReceiveReplyTcp buf))] }
    else s

/-- A round of the server.  The connection stays open, so where the bytes end `recv` blocks. -/
def serve : World :=
  if s.listening then
    let done := parseRound env ⟨s.wire, s.round⟩
    if done.1 = [.left .endOfStream] then s
    else
      let s := { s with
        replies := s.replies ++ repliesOf done.1
        dumped := s.dumped ++ dumpsOf done.1 }
      match done.2 with
      | none => { s with listening := false }
      | some head => { s with wire := head.bytes, round := head.round }
  else s

def next : Act → World
  | .enter => enter M s
  | .send n => send s n
  | .leave => leave M s
  | .serve => serve env s

/-- No act changes anything. -/
def Stuck : Prop := ∀ a, next M env s a = s

/-- A hook has taken a reply, and another one is queued. -/
def Loops : Prop := ∃ h buf, s.phase = .testing h buf ∧ s.replies ≠ []

/-- **All that `leave` can do**, with what it needs.  A hook has to go on first, there is nothing to
wait for yet, or it goes round in the loop; it goes on to its reply, or returns on its own; it finds
the end of the stream, or a reply; and it returns with that. -/
inductive Leaves : World → Prop
  | idle (hphase : s.phase = .idle) : Leaves s
  | unsent {h : TcpHook} {unsent : List UInt8} (hphase : s.phase = .sending h unsent)
      (hsome : unsent ≠ []) : Leaves s
  | waits {h : TcpHook} (hphase : s.phase = .receiving h) (hnone : s.replies = [])
      (hlistening : s.listening = true) : Leaves s
  | loops (hloops : Loops s) : Leaves s
  | goesOn {h : TcpHook} (hphase : s.phase = .sending h []) (hresult : (h.run M).2 = .awaitReply) :
      Leaves { s with phase := .receiving h }
  | ret {h : TcpHook} {value : Int32} (hphase : s.phase = .sending h [])
      (hresult : (h.run M).2 = .ret value) :
      Leaves { s with phase := .idle, log := s.log ++ [(h, value)] }
  | endOfStream {h : TcpHook} (hphase : s.phase = .receiving h) (hnone : s.replies = [])
      (hclosed : s.listening = false) :
      Leaves { s with phase := .idle, log := s.log ++ [(h, skipped)] }
  | takes {h : TcpHook} {buf : List UInt8} {rest : List (List UInt8)}
      (hphase : s.phase = .receiving h) (hreplies : s.replies = buf :: rest) :
      Leaves { s with phase := .testing h buf, replies := rest }
  | returns {h : TcpHook} {buf : List UInt8} (hphase : s.phase = .testing h buf)
      (hnone : s.replies = []) :
      Leaves { s with
        phase := .idle
        log := s.log ++ [(h, hookVerdict buf.length (lsmReceiveReplyTcp buf))] }

end Steps

theorem leave_cases (M : PhysMem) (s : World) : Leaves M s (leave M s) := by
  unfold leave
  split
  · exact .idle ‹_›
  · rename_i h unsent hphase
    split
    · rename_i hsent
      rw [hsent] at hphase
      split
      · exact .ret hphase ‹_›
      · exact .goesOn hphase ‹_›
    · exact .unsent hphase ‹_›
  · rename_i h hphase
    split
    · split
      · exact .waits hphase ‹_› ‹_›
      · exact .endOfStream hphase ‹_› (Bool.eq_false_of_not_eq_true ‹_›)
    · exact .takes hphase ‹_›
  · rename_i h buf hphase
    split
    · exact .returns hphase ‹_›
    · exact .loops ⟨h, buf, hphase, ‹_›⟩

/-- **The loop of `_tcp_recv` does not end** on what is queued, when nothing more is wanted. -/
theorem Loops.endless {s : World} (hloops : Loops s) (hnop : ∀ buf ∈ s.replies, buf = analyzeNop)
    (closed : Bool) {r : RecvState} (hfull : r.vec.iovLen = 0)
    (hqueue : r.queue = s.replies.flatten) (fuel : ℕ) : tcpRecvOn closed fuel r = none := by
  obtain ⟨-, -, -, hsome⟩ := hloops
  refine tcpRecvOn_of_full closed hfull (fun hnil => ?_) fuel
  obtain ⟨buf, rest, hreplies⟩ := List.exists_cons_of_ne_nil hsome
  rw [hqueue, hreplies, List.flatten_cons, hnop buf (hreplies ▸ List.mem_cons_self ..)] at hnil
  cases hnil

/-! ## The server on the bytes of the hooks -/

theorem dumpsOf_frameOutcomes (f : Frame) : dumpsOf (frameOutcomes f) = frameDumps [f] := by
  rw [frameOutcomes, frameDumps, List.filter_singleton]
  by_cases hend : f.IsEnd <;> simp [hend, dumpsOf]

theorem repliesOf_frameOutcomes (f : Frame) : repliesOf (frameOutcomes f) = frameReplies [f] := by
  rw [frameOutcomes, frameReplies, List.filter_singleton]
  by_cases hend : f.IsEnd <;> simp [hend, repliesOf]

section Server

variable (env : ServerEnv)

/-- The parser on the bytes of a frame and some more: it blocks inside the frame, or shows what the
frame stands for, or leaves because a call of the server has failed. -/
theorem parseRound_of_frame {f : Frame} (hcomplete : f.Complete) (haccepted : f.Accepted)
    {bytes later : List UInt8} (hbytes : bytes <+: f.toBytes ++ later) (round : ℕ) :
    (bytes.length < f.toBytes.length ∧
        ∃ next, parseRound env ⟨bytes, round⟩ = ([.left .endOfStream], next)) ∨
      (∃ rest, bytes = f.toBytes ++ rest ∧
        parseRound env ⟨bytes, round⟩ = (frameOutcomes f, some ⟨rest, round + 1⟩)) ∨
      (env.mmap round f.header.mappingLen = false ∧
        parseRound env ⟨bytes, round⟩ = ([.left .mmapFailed], none)) ∨
      (env.reply round = false ∧ f.IsEnd ∧
        parseRound env ⟨bytes, round⟩ =
          ([.dump f.header f.dumped, .left .replyFailed], none)) := by
  have hlength : f.toBytes.length = MappingInfo.size + f.payload.length := by
    rw [Frame.toBytes, List.length_append, MappingInfo.toBytes_length]
  rcases Nat.lt_or_ge bytes.length MappingInfo.size with hlt | hge
  · exact Or.inl ⟨by omega, none, by rw [parseRound, if_pos hlt]⟩
  rw [Frame.toBytes, List.append_assoc] at hbytes
  obtain ⟨body, rfl⟩ : f.header.toBytes <+: bytes :=
    List.prefix_of_prefix_length_le (List.prefix_append _ _) hbytes
      (by rw [MappingInfo.toBytes_length]; exact hge)
  rw [List.prefix_append_right_inj] at hbytes
  obtain ⟨hfails, hround⟩ | ⟨hfew, hround⟩ | ⟨henough, hround⟩ :=
    parseRound_of_header env hcomplete haccepted body round
  · exact Or.inr (Or.inr (Or.inl ⟨hfails, hround⟩))
  · refine Or.inl ⟨?_, none, hround⟩
    rw [hlength, List.length_append, MappingInfo.toBytes_length]
    omega
  · have hpayload : f.payload <+: body :=
      List.prefix_of_prefix_length_le (List.prefix_append _ _) hbytes henough
    have hnext := hround hpayload
    obtain ⟨rest, rfl⟩ := hpayload
    rw [List.drop_left, finishOutcomes] at hnext
    refine Or.inr ?_
    by_cases hend : f.IsEnd
    · rw [if_pos (show f.header.isEndOfMapping = 1 from hend)] at hnext
      cases hreply : env.reply round with
      | true =>
        refine Or.inl ⟨rest, by rw [Frame.toBytes, List.append_assoc], ?_⟩
        rw [hnext, hreply, frameOutcomes, if_pos hend]
        rfl
      | false =>
        refine Or.inr (Or.inr ⟨rfl, hend, ?_⟩)
        rw [hnext, hreply]
        rfl
    · rw [if_neg (show ¬ f.header.isEndOfMapping = 1 from hend)] at hnext
      refine Or.inl ⟨rest, by rw [Frame.toBytes, List.append_assoc], ?_⟩
      rw [hnext, frameOutcomes, if_neg hend]
      rfl

/-- **All that the server can do** with the bytes of some frames, of which the last are not there
yet: it blocks, which it does not do when the first frame is there; it takes that frame; or it
closes the connection over a call that has failed, with at most the dump of that frame made. -/
theorem serve_cases {s : World} {unsent : List UInt8} {pending : List Frame}
    (hlistening : s.listening = true) (hsound : ∀ f ∈ pending, f.Complete ∧ f.Accepted)
    (hwire : s.wire ++ unsent = pending.flatMap Frame.toBytes) :
    (serve env s = s ∧ (unsent = [] → pending = [])) ∨
      (∃ f fs rest, pending = f :: fs ∧ rest ++ unsent = fs.flatMap Frame.toBytes ∧
        s.wire = f.toBytes ++ rest ∧
        serve env s = { s with
          wire := rest
          round := s.round + 1
          replies := s.replies ++ frameReplies [f]
          dumped := s.dumped ++ frameDumps [f] }) ∨
      ∃ front, front <+: pending ∧
        ((∃ len, env.mmap s.round len = false) ∨ env.reply s.round = false) ∧
        serve env s = { s with
          listening := false
          dumped := s.dumped ++ frameDumps front } := by
  have hblocked : ∀ next : Option StreamHead,
      parseRound env ⟨s.wire, s.round⟩ = ([.left .endOfStream], next) → serve env s = s := by
    intro next h
    unfold serve
    rw [if_pos hlistening, h]
    exact if_pos rfl
  cases pending with
  | nil =>
    have hempty : s.wire = [] := (List.append_eq_nil_iff.mp hwire).1
    have hshort : s.wire.length < MappingInfo.size := by
      rw [hempty]
      decide
    exact Or.inl ⟨hblocked none (by rw [parseRound, if_pos hshort]), fun _ => rfl⟩
  | cons f fs =>
    obtain ⟨hcomplete, haccepted⟩ := hsound f (List.mem_cons_self ..)
    rw [List.flatMap_cons] at hwire
    rcases parseRound_of_frame env hcomplete haccepted (⟨unsent, hwire⟩ : s.wire <+: _) s.round with
      ⟨hshort, after, hround⟩ | ⟨rest, hrest, hround⟩ | ⟨hfails, hround⟩ | ⟨hfails, hend, hround⟩
    · refine Or.inl ⟨hblocked after hround, fun hnil => ?_⟩
      rw [hnil, List.append_nil] at hwire
      rw [hwire, List.length_append] at hshort
      omega
    · refine Or.inr (Or.inl ⟨f, fs, rest, rfl, ?_, hrest, ?_⟩)
      · rw [hrest, List.append_assoc] at hwire
        exact List.append_cancel_left hwire
      · have hgoes : frameOutcomes f ≠ [.left .endOfStream] := by
          rw [frameOutcomes]
          split <;> simp
        unfold serve
        rw [if_pos hlistening, hround, ← dumpsOf_frameOutcomes, ← repliesOf_frameOutcomes]
        exact if_neg hgoes
    · refine Or.inr (Or.inr ⟨[], List.nil_prefix, Or.inl ⟨_, hfails⟩, ?_⟩)
      unfold serve
      rw [if_pos hlistening, hround]
      simp [dumpsOf, repliesOf, frameDumps]
    · refine Or.inr (Or.inr ⟨[f], ⟨fs, rfl⟩, Or.inr hfails, ?_⟩)
      unfold serve
      rw [if_pos hlistening, hround, ← dumpsOf_frameOutcomes, frameOutcomes, if_pos hend]
      simp [dumpsOf, repliesOf]

end Server

/-! ## The system against the requests -/

section Refinement

variable (M : PhysMem)

/-- `analyze_nop`'s reply, as the server's answer to every frame. -/
def nopReply : Chars 4 := ⟨analyzeNop, rfl⟩

/-- The hooks of some exchanges that have returned, with their values. -/
def observed (es : List (Exchange TcpHook Frame)) : List (TcpHook × Int32) :=
  es.filterMap fun e => (returned M (fun _ _ => nopReply) e).map (Prod.mk e.request)

theorem observed_append (es es' : List (Exchange TcpHook Frame)) :
    observed M (es ++ es') = observed M es ++ observed M es' := List.filterMap_append ..

/-- **What is on the connection**, in terms of a run of `hookClient`: the exchanges that are done,
the replies unread in front of the current hook, and the frames whose bytes are on their way or not
yet sent.  A reply that the hook has taken is counted with those that are queued. -/
structure Inv (hooks : List TcpHook) (s : World) (done : List (Exchange TcpHook Frame))
    (unread : List (Reply Frame)) (pending : List Frame) : Prop where
  listening : s.listening = true
  nop : ∀ buf ∈ s.phase.taken ++ s.replies, buf = analyzeNop
  waits : ∀ h ∈ s.phase.receiver, h.waits M = true
  sound : ∀ f ∈ pending, f.Complete ∧ f.Accepted
  wire : s.wire ++ s.phase.unsent = pending.flatMap Frame.toBytes
  run : runHooks M hooks =
    (done ++ ((hookClient M).run done.length (s.phase.current ++ s.todo) unread).1,
      ((hookClient M).run done.length (s.phase.current ++ s.todo) unread).2)
  requests : s.log.map Prod.fst = done.map Exchange.request
  log : s.log = observed M done
  replies : (s.phase.taken ++ s.replies).length + (frameReplies pending).length =
    unread.length + (s.phase.current.flatMap (TcpHook.endFrames M)).length
  dumped : s.dumped ++ frameDumps pending =
    frameDumps ((done.map Exchange.request ++ s.phase.current).flatMap (TcpHook.frames M))

variable {M} {env : ServerEnv} {hooks : List TcpHook} {s : World}
  {done : List (Exchange TcpHook Frame)} {unread : List (Reply Frame)} {pending : List Frame}

theorem inv_start (M : PhysMem) (hooks : List TcpHook) : Inv M hooks (start hooks) [] [] [] where
  listening := rfl
  nop _ h := absurd h List.not_mem_nil
  waits _ h := absurd h List.not_mem_nil
  sound _ h := absurd h List.not_mem_nil
  wire := rfl
  run := rfl
  requests := rfl
  log := rfl
  replies := rfl
  dumped := rfl

theorem frameReplies_append (fs gs : List Frame) :
    frameReplies (fs ++ gs) = frameReplies fs ++ frameReplies gs := by
  rw [frameReplies, List.filter_append, List.map_append]
  rfl

theorem frameDumps_append (fs gs : List Frame) :
    frameDumps (fs ++ gs) = frameDumps fs ++ frameDumps gs := by
  rw [frameDumps, List.filter_append, List.map_append]
  rfl

theorem length_frameReplies (h : TcpHook) :
    (frameReplies (h.frames M)).length = (h.endFrames M).length := List.length_map _

theorem Inv.enter (h : Inv M hooks s done unread pending) :
    ∃ pending, Inv M hooks (enter M s) done unread pending := by
  unfold ClosedLoop.enter
  split
  · rename_i hk hs hphase htodo
    obtain ⟨hlistening, hnop, -, hsound, hwire, hrun, hall, hlog, hcount, hdumped⟩ := h
    rw [hphase] at hnop hwire hrun hcount hdumped
    have hbytes : s.wire = pending.flatMap Frame.toBytes := (List.append_nil _).symm.trans hwire
    refine ⟨pending ++ hk.frames M, hlistening, hnop, fun g hg => absurd hg List.not_mem_nil, ?_,
      ?_, ?_, hall, hlog, ?_, ?_⟩
    · intro f hf
      exact (List.mem_append.mp hf).elim (hsound f) (hk.frames_sound f)
    · rw [List.flatMap_append, ← hbytes, ← hk.bytes_eq M]
      rfl
    · rw [htodo] at hrun
      exact hrun
    · have hmore : (frameReplies (pending ++ hk.frames M)).length =
          (frameReplies pending).length + (hk.endFrames M).length := by
        rw [frameReplies_append, List.length_append, length_frameReplies]
      rw [hmore, ← Nat.add_assoc]
      refine (congrArg (· + (hk.endFrames M).length) hcount).trans ?_
      simp [Phase.current]
    · rw [frameDumps_append, ← List.append_assoc, hdumped, ← frameDumps_append]
      simp [Phase.current]
  · exact ⟨pending, h⟩

theorem Inv.send (h : Inv M hooks s done unread pending) (n : ℕ) :
    Inv M hooks (send s n) done unread pending := by
  unfold ClosedLoop.send
  split
  · rename_i hk unsent hphase
    obtain ⟨hlistening, hnop, -, hsound, hwire, hrun, hall, hlog, hcount, hdumped⟩ := h
    rw [hphase] at hnop hwire hrun hcount hdumped
    refine ⟨hlistening, hnop, fun g hg => absurd hg List.not_mem_nil, hsound, ?_, hrun, hall, hlog,
      hcount, hdumped⟩
    rw [← hwire]
    show s.wire ++ unsent.take n ++ unsent.drop n = s.wire ++ unsent
    rw [List.append_assoc, List.take_append_drop]
  · exact h

theorem Inv.serve (env : ServerEnv) (h : Inv M hooks s done unread pending) :
    (∃ pending, Inv M hooks (serve env s) done unread pending) ∨
      ∃ front, front <+: pending ∧
        ((∃ len, env.mmap s.round len = false) ∨ env.reply s.round = false) ∧
        ClosedLoop.serve env s =
          { s with listening := false, dumped := s.dumped ++ frameDumps front } := by
  rcases serve_cases env h.listening h.sound h.wire with
    ⟨hsame, -⟩ | ⟨f, fs, rest, rfl, hrest, -, hserve⟩ | hcloses
  · rw [hsame]
    exact Or.inl ⟨pending, h⟩
  · rw [hserve]
    obtain ⟨hlistening, hnop, hwaits, hsound, -, hrun, hall, hlog, hcount, hdumped⟩ := h
    have hsplit : f :: fs = [f] ++ fs := rfl
    refine Or.inl ⟨fs, hlistening, ?_, hwaits, ?_, hrest, hrun, hall, hlog, ?_, ?_⟩
    · intro buf hbuf
      rw [← List.append_assoc] at hbuf
      rcases List.mem_append.mp hbuf with hbuf | hbuf
      · exact hnop buf hbuf
      · obtain ⟨-, -, heq⟩ := List.mem_map.mp hbuf
        exact heq.symm
    · exact fun g hg => hsound g (List.mem_cons_of_mem f hg)
    · rw [← hcount, hsplit, frameReplies_append]
      simp only [List.length_append, Nat.add_assoc]
    · rw [← hdumped, hsplit, frameDumps_append, List.append_assoc]
  · exact Or.inr hcloses

theorem Inv.returns {hk : TcpHook} {taken : Option (Reply Frame)} {left : List (Reply Frame)}
    {value : Int32} (h : Inv M hooks s done unread pending) (hcurrent : s.phase.current = [hk])
    (hunsent : s.phase.unsent = [])
    (hexchange : (hookClient M).run done.length (hk :: s.todo) unread =
      (⟨done.length, hk, unread, taken⟩ :: ((hookClient M).run (done.length + 1) s.todo left).1,
        ((hookClient M).run (done.length + 1) s.todo left).2))
    (hvalue : returned M (fun _ _ => nopReply) ⟨done.length, hk, unread, taken⟩ = some value)
    (hleft : s.replies.length + (frameReplies pending).length = left.length) :
    Inv M hooks { s with phase := .idle, log := s.log ++ [(hk, value)] }
      (done ++ [⟨done.length, hk, unread, taken⟩]) left pending := by
  obtain ⟨hlistening, hnop, -, hsound, hwire, hrun, hall, hlog, -, hdumped⟩ := h
  rw [hcurrent] at hrun hdumped
  rw [hunsent] at hwire
  refine ⟨hlistening, fun buf hbuf => hnop buf (List.mem_append_right _ hbuf),
    fun g hg => absurd hg List.not_mem_nil, hsound, hwire, ?_, ?_, ?_, hleft, ?_⟩
  · rw [List.singleton_append, hexchange] at hrun
    rw [hrun, List.length_append, List.append_assoc]
    rfl
  · rw [List.map_append, List.map_append, ← hall]
    rfl
  · rw [observed_append, ← hlog]
    simp [observed, hvalue]
  · rw [hdumped, List.map_append]
    simp [Phase.current]

/-- A hook that returns with a reply: it is one that the requests know of. -/
theorem Inv.returns_testing {hk : TcpHook} {buf : List UInt8}
    (h : Inv M hooks s done unread pending) (hphase : s.phase = .testing hk buf) :
    ∃ taken left, Inv M hooks
      { s with
        phase := .idle
        log := s.log ++ [(hk, hookVerdict buf.length (lsmReceiveReplyTcp buf))] }
      (done ++ [⟨done.length, hk, unread, taken⟩]) left pending := by
  have hcount := h.replies
  have hwaits : (hookClient M).waits hk = true := h.waits hk (by rw [hphase]; exact .head _)
  have hbuf : buf = analyzeNop := h.nop buf (by rw [hphase]; exact .head _)
  have hlength : (unread ++ ((hookClient M).answered hk).map (Reply.mk done.length)).length =
      unread.length + (hk.endFrames M).length := by
    rw [List.length_append, List.length_map]
    rfl
  rw [hphase] at hcount
  have hone : 1 + s.replies.length + (frameReplies pending).length =
      unread.length + (hk.endFrames M).length := by
    simpa [Phase.taken, Phase.current, Nat.add_comm] using hcount
  obtain ⟨first, left, harrived⟩ : ∃ first left,
      unread ++ ((hookClient M).answered hk).map (Reply.mk done.length) = first :: left := by
    refine List.exists_cons_of_ne_nil fun hnil => ?_
    rw [hnil, List.length_nil] at hlength
    omega
  rw [harrived, List.length_cons] at hlength
  refine ⟨_, left, h.returns (by rw [hphase]; rfl) (by rw [hphase]; rfl)
    (Client.run_of_waits hwaits harrived) ?_ (by omega)⟩
  rw [returned, show (hk.run M).2 = .awaitReply from of_decide_eq_true hwaits, hbuf]
  rfl

theorem Inv.leave (h : Inv M hooks s done unread pending) :
    ∃ done unread, Inv M hooks (leave M s) done unread pending := by
  have hleaves := leave_cases M s
  generalize ClosedLoop.leave M s = t at hleaves ⊢
  cases hleaves with
  | idle hphase => exact ⟨done, unread, h⟩
  | unsent hphase hsome => exact ⟨done, unread, h⟩
  | waits hphase hnone hlistening => exact ⟨done, unread, h⟩
  | loops hloops => exact ⟨done, unread, h⟩
  | @goesOn hk hphase hresult =>
    obtain ⟨hlistening, hnop, -, hsound, hwire, hrun, hall, hlog, hreplies, hdumped⟩ := h
    rw [hphase] at hnop hwire hrun hreplies hdumped
    refine ⟨done, unread, hlistening, hnop, fun g hg => ?_, hsound, hwire, hrun, hall, hlog,
      hreplies, hdumped⟩
    rw [List.mem_singleton.mp hg, TcpHook.waits, hresult]
    rfl
  | @ret hk value hphase hresult =>
    -- the replies to its frames are left for the hooks after it
    have hcount := h.replies
    rw [hphase] at hcount
    have hnot : (hookClient M).waits hk = false := by
      show hk.waits M = false
      rw [TcpHook.waits, hresult]
      rfl
    refine ⟨_, _, h.returns (by rw [hphase]; rfl) (by rw [hphase]; rfl)
      (Client.run_of_not_waits hnot) ?_ ?_⟩
    · rw [returned, hresult]
    · rw [List.length_append, List.length_map]
      exact hcount.trans (by rw [Phase.current, List.flatMap_singleton]; rfl)
  | endOfStream hphase hnone hclosed =>
    exact absurd (h.listening.symm.trans hclosed) Bool.noConfusion
  | @takes hk buf rest hphase hreplies =>
    obtain ⟨hlistening, hnop, hwaits, hsound, hwire, hrun, hall, hlog, hcount, hdumped⟩ := h
    rw [hphase] at hnop hwaits hwire hrun hcount hdumped
    rw [hreplies] at hnop hcount
    exact ⟨done, unread, hlistening, hnop, hwaits, hsound, hwire, hrun, hall, hlog, hcount, hdumped⟩
  | returns hphase hnone =>
    obtain ⟨taken, left, hreturned⟩ := h.returns_testing hphase
    exact ⟨_, left, hreturned⟩

theorem exists_inv_next (hmmap : ∀ round len, env.mmap round len = true)
    (hreply : ∀ round, env.reply round = true)
    (h : ∃ done unread pending, Inv M hooks s done unread pending) (a : Act) :
    ∃ done unread pending, Inv M hooks (next M env s a) done unread pending := by
  obtain ⟨done, unread, pending, h⟩ := h
  cases a with
  | enter => exact ⟨done, unread, h.enter⟩
  | send n => exact ⟨done, unread, pending, h.send n⟩
  | leave =>
    obtain ⟨done, unread, h⟩ := h.leave
    exact ⟨done, unread, pending, h⟩
  | serve =>
    rcases h.serve env with hserves | ⟨-, -, ⟨len, hfails⟩ | hfails, -⟩
    · exact ⟨done, unread, hserves⟩
    · exact absurd ((hmmap s.round len).symm.trans hfails) Bool.noConfusion
    · exact absurd ((hreply s.round).symm.trans hfails) Bool.noConfusion

/-- **Where nothing changes**, no hook is left, or the current one waits for a server that is still
there, or it goes round in the loop. -/
theorem phase_of_stuck (hstuck : Stuck M env s) :
    (s.phase = .idle ∧ s.todo = []) ∨
      (∃ hk, s.phase = .receiving hk ∧ s.replies = [] ∧ s.listening = true) ∨ Loops s := by
  have hleave : ClosedLoop.leave M s = s := hstuck .leave
  -- a hook that leaves comes to another phase
  have hmoves : ∀ {p : Phase}, (ClosedLoop.leave M s).phase = p → s.phase = p := by
    rintro p rfl
    rw [hleave]
  have hleaves := leave_cases M s
  generalize ClosedLoop.leave M s = t at hleaves hmoves
  cases hleaves with
  | idle hidle =>
    refine Or.inl ⟨hidle, List.eq_nil_iff_forall_not_mem.mpr fun hk hmem => ?_⟩
    obtain ⟨g, gs, htodo⟩ := List.exists_cons_of_ne_nil (List.ne_nil_of_mem hmem)
    have henter := congrArg World.phase (hstuck .enter)
    unfold ClosedLoop.next ClosedLoop.enter at henter
    rw [hidle, htodo] at henter
    cases henter
  | @unsent hk unsent hphase hsome =>
    have hsend := congrArg World.phase (hstuck (.send unsent.length))
    unfold ClosedLoop.next ClosedLoop.send at hsend
    rw [hphase] at hsend
    dsimp only at hsend
    rw [List.drop_length, Phase.sending.injEq] at hsend
    exact absurd hsend.2.symm hsome
  | waits hphase hnone hlistening => exact Or.inr (Or.inl ⟨_, hphase, hnone, hlistening⟩)
  | loops hloops => exact Or.inr (Or.inr hloops)
  | goesOn hphase hresult => cases hphase.symm.trans (hmoves rfl)
  | ret hphase hresult => cases hphase.symm.trans (hmoves rfl)
  | endOfStream hphase hnone hclosed => cases hphase.symm.trans (hmoves rfl)
  | takes hphase hreplies => cases hphase.symm.trans (hmoves rfl)
  | returns hphase hnone => cases hphase.symm.trans (hmoves rfl)

/-- There everything sent has been read. -/
theorem Inv.of_stuck (h : Inv M hooks s done unread pending) (hstuck : Stuck M env s) :
    pending = [] := by
  have hunsent : s.phase.unsent = [] := by
    rcases phase_of_stuck hstuck with ⟨hidle, -⟩ | ⟨hk, hreceiving, -⟩ | ⟨hk, buf, htesting, -⟩
    · rw [hidle]
      rfl
    · rw [hreceiving]
      rfl
    · rw [htesting]
      rfl
  have hserve : ClosedLoop.serve env s = s := hstuck .serve
  rcases serve_cases env h.listening h.sound h.wire with
    ⟨-, hpending⟩ | ⟨f, fs, rest, -, -, -, hmoves⟩ | ⟨front, -, -, hcloses⟩
  · exact hpending hunsent
  · have hround := congrArg World.round (hserve.symm.trans hmoves)
    have hone : s.round = s.round + 1 := hround
    omega
  · have hclosed := congrArg World.listening (hserve.symm.trans hcloses)
    exact absurd (h.listening.symm.trans hclosed) Bool.noConfusion

/-- The hooks have returned what the requests of `Alignment` return, as many replies are unread as
there, and the server has read and dumped what the frames of the hooks stand for. -/
structure EndsLike (M : PhysMem) (hooks : List TcpHook) (s : World) : Prop where
  log : s.log = observed M (runHooks M hooks).1
  unread : s.replies.length = (runHooks M hooks).2.length
  wire : s.wire = []
  dumped : s.dumped = frameDumps ((runHooks M hooks).1.flatMap fun e => e.request.frames M)

/-- A hook goes round in the loop of `_tcp_recv`, which does not end on what is queued.  Those
before it have returned what the requests of `Alignment` return, there are as many replies for it as
there, of which it has taken one, and the server has read and dumped what the frames of all of them
stand for. -/
structure LoopsLike (M : PhysMem) (hooks : List TcpHook) (s : World) : Prop where
  loops : Loops s
  endless : ∀ (closed : Bool) (r : RecvState), r.vec.iovLen = 0 → r.queue = s.replies.flatten →
    ∀ fuel, tcpRecvOn closed fuel r = none
  log : s.log = observed M ((runHooks M hooks).1.take s.log.length)
  exchange : ∃ e buf, (runHooks M hooks).1[s.log.length]? = some e ∧
    s.phase = .testing e.request buf ∧
    s.replies.length + 1 = e.unread.length + (e.request.endFrames M).length
  wire : s.wire = []
  dumped : s.dumped = frameDumps
    (((runHooks M hooks).1.take (s.log.length + 1)).flatMap fun e => e.request.frames M)

theorem Inv.endsLike_of_idle (h : Inv M hooks s done unread []) (hidle : s.phase = .idle)
    (htodo : s.todo = []) : EndsLike M hooks s := by
  obtain ⟨-, -, -, -, hwire, hrun, -, hlog, hcount, hdumped⟩ := h
  rw [hidle, htodo] at hrun
  rw [hidle] at hcount hdumped
  have hdone : runHooks M hooks = (done, unread) := by
    rw [hrun]
    show (done ++ [], unread) = (done, unread)
    rw [List.append_nil]
  refine ⟨by rw [hlog, hdone], by rw [hdone]; exact hcount, (List.append_eq_nil_iff.mp hwire).1, ?_⟩
  rw [show frameDumps [] = [] from rfl, List.append_nil, show done.map Exchange.request ++
    Phase.idle.current = done.map Exchange.request from List.append_nil _, List.flatMap_map]
    at hdumped
  rw [hdumped, hdone]

theorem Inv.endsLike_of_receiving {hk : TcpHook} (h : Inv M hooks s done unread [])
    (hreceiving : s.phase = .receiving hk) (hnone : s.replies = []) : EndsLike M hooks s := by
  obtain ⟨-, -, hwaits, -, hwire, hrun, -, hlog, hcount, hdumped⟩ := h
  rw [hreceiving, hnone] at hcount
  rw [hreceiving] at hwaits hrun hdumped
  have hwaits : (hookClient M).waits hk = true := hwaits hk (List.mem_singleton_self hk)
  have hzero : 0 = unread.length + ((hk.endFrames M) ++ []).length := hcount
  rw [List.append_nil] at hzero
  have harrived : unread ++ ((hookClient M).answered hk).map (Reply.mk done.length) = [] := by
    rw [List.eq_nil_iff_length_eq_zero, List.length_append, List.length_map]
    exact hzero.symm
  have hvain : runHooks M hooks = (done ++ [⟨done.length, hk, unread, none⟩], []) := by
    rw [hrun]
    show (done ++ ((hookClient M).run done.length (hk :: s.todo) unread).1,
      ((hookClient M).run done.length (hk :: s.todo) unread).2) = _
    rw [Client.run_of_waits_nil hwaits harrived]
  have hunanswered : observed M [⟨done.length, hk, unread, none⟩] = [] := by
    have hawait : (hk.run M).2 = .awaitReply := of_decide_eq_true hwaits
    simp [observed, returned, hawait]
  refine ⟨?_, by rw [hnone, hvain]; rfl, (List.append_eq_nil_iff.mp hwire).1, ?_⟩
  · rw [hlog, hvain, observed_append, hunanswered, List.append_nil]
  · rw [show frameDumps [] = [] from rfl, List.append_nil] at hdumped
    rw [hdumped, hvain, List.flatMap_append, List.flatMap_append, List.flatMap_map]
    rfl

theorem Inv.loopsLike (h : Inv M hooks s done unread []) (hloops : Loops s) :
    LoopsLike M hooks s := by
  have hendless : ∀ (closed : Bool) (r : RecvState), r.vec.iovLen = 0 →
      r.queue = s.replies.flatten → ∀ fuel, tcpRecvOn closed fuel r = none := fun closed _ =>
    hloops.endless (fun buf hbuf => h.nop buf (List.mem_append_right _ hbuf)) closed
  obtain ⟨hk, buf, hphase, hsome⟩ := hloops
  have hlength : s.log.length = done.length := by
    rw [← List.length_map (f := Prod.fst), h.requests, List.length_map]
  obtain ⟨taken, rest, hhead⟩ := (hookClient M).run_head done.length hk s.todo unread
  have hrun : (runHooks M hooks).1 = (done ++ [⟨done.length, hk, unread, taken⟩]) ++ rest := by
    rw [h.run, hphase, List.append_assoc]
    exact congrArg (done ++ ·) hhead
  have hcount := h.replies
  have hdumped := h.dumped
  have hwire := h.wire
  rw [hphase] at hcount hdumped hwire
  refine ⟨⟨hk, buf, hphase, hsome⟩, hendless, ?_,
    ⟨⟨done.length, hk, unread, taken⟩, buf, ?_, hphase, ?_⟩, ?_, ?_⟩
  · rw [hrun, hlength, List.append_assoc, List.take_left, ← h.log]
  · rw [hrun, hlength, List.append_assoc, List.getElem?_append_right (Nat.le_refl _), Nat.sub_self]
    rfl
  · simpa [Phase.taken, Phase.current, frameReplies, Nat.add_comm] using hcount
  · exact (List.append_eq_nil_iff.mp hwire).1
  · have htake : ((runHooks M hooks).1.take (s.log.length + 1)) =
        done ++ [⟨done.length, hk, unread, taken⟩] := by
      rw [hrun, hlength]
      exact List.take_left' (by rw [List.length_append, List.length_singleton])
    rw [show frameDumps [] = [] from rfl, List.append_nil] at hdumped
    rw [hdumped, htake, List.flatMap_append, List.flatMap_append, List.flatMap_map]
    rfl

variable (M hooks) in
theorem exists_inv_foldl (hmmap : ∀ round len, env.mmap round len = true)
    (hreply : ∀ round, env.reply round = true) (acts : List Act) :
    ∃ done unread pending,
      Inv M hooks (acts.foldl (ClosedLoop.next M env) (start hooks)) done unread pending :=
  forall_states (I := fun s => ∃ done unread pending, Inv M hooks s done unread pending)
    (fun _ a h => exists_inv_next hmmap hreply h a) ⟨[], [], [], inv_start M hooks⟩ acts _
    (foldl_mem_states _ acts)

theorem Inv.ends (h : Inv M hooks s done unread pending) (hstuck : Stuck M env s) :
    EndsLike M hooks s ∨ LoopsLike M hooks s := by
  obtain rfl := h.of_stuck hstuck
  rcases phase_of_stuck hstuck with ⟨hidle, htodo⟩ | ⟨hk, hreceiving, hnone, -⟩ | hloops
  · exact Or.inl (h.endsLike_of_idle hidle htodo)
  · exact Or.inl (h.endsLike_of_receiving hreceiving hnone)
  · exact Or.inr (h.loopsLike hloops)

/-- **Where every run ends.**  Hooks run one after another on a connection, with any outcome of the
allocations inside them, and the server's own calls succeed.  When nothing changes any more, in
whatever order the acts have come, everything has ended as the requests of `Alignment` do; or a hook
for which more than one reply has come goes round in the loop of `_tcp_recv`. -/
theorem closedLoop_refines (M : PhysMem) (hooks : List TcpHook) (env : ServerEnv)
    (hmmap : ∀ round len, env.mmap round len = true) (hreply : ∀ round, env.reply round = true)
    (acts : List Act) (hstuck : Stuck M env (acts.foldl (next M env) (start hooks))) :
    EndsLike M hooks (acts.foldl (next M env) (start hooks)) ∨
      LoopsLike M hooks (acts.foldl (next M env) (start hooks)) := by
  obtain ⟨done, unread, pending, h⟩ := exists_inv_foldl M hooks hmmap hreply acts
  exact h.ends hstuck

end Refinement

/-! ## Every run ends -/

section Termination

variable (M : PhysMem) (env : ServerEnv)

/-- What a phase has still to do. -/
def Phase.rank : Phase → ℕ
  | idle => 0
  | sending _ unsent => 2 * unsent.length + 3
  | receiving _ => 2
  | testing _ _ => 1

/-- What a hook has to do. -/
def hookRank (h : TcpHook) : ℕ := 2 * (h.bytes M).length + 4

/-- What both sides have still to do. -/
def rank (s : World) : ℕ :=
  (s.todo.map (hookRank M)).sum + s.phase.rank + s.wire.length + s.listening.toNat

variable {M env} {s : World}

theorem rank_enter_lt (hmoves : enter M s ≠ s) : rank M (enter M s) < rank M s := by
  unfold enter at hmoves ⊢
  split at hmoves
  · rename_i h hs hphase htodo
    simp only [rank, hphase, htodo, Phase.rank, hookRank, List.map_cons, List.sum_cons]
    omega
  · exact absurd rfl hmoves

theorem rank_send_lt {n : ℕ} (hmoves : send s n ≠ s) : rank M (send s n) < rank M s := by
  unfold send at hmoves ⊢
  split at hmoves
  · rename_i h unsent hphase
    -- a piece without bytes changes nothing
    have hpos : 0 < min n unsent.length := by
      refine Nat.pos_of_ne_zero fun hzero => hmoves ?_
      have htake : unsent.take n = [] := by
        rw [← List.length_eq_zero_iff, List.length_take, hzero]
      have hdrop : unsent.drop n = unsent := by
        have hsplit := List.take_append_drop n unsent
        rwa [htake] at hsplit
      rw [htake, hdrop, List.append_nil, ← hphase]
    simp only [rank, hphase, Phase.rank, List.length_append, List.length_take, List.length_drop]
    omega
  · exact absurd rfl hmoves

theorem rank_leave_lt (hmoves : leave M s ≠ s) : rank M (leave M s) < rank M s := by
  have hleaves := leave_cases M s
  generalize leave M s = t at hmoves hleaves ⊢
  cases hleaves with
  | idle hphase => exact absurd rfl hmoves
  | unsent hphase hsome => exact absurd rfl hmoves
  | waits hphase hnone hlistening => exact absurd rfl hmoves
  | loops hloops => exact absurd rfl hmoves
  | goesOn hphase hresult | ret hphase hresult | endOfStream hphase hnone hclosed
  | takes hphase hreplies | returns hphase hnone =>
    simp only [rank, hphase, Phase.rank, List.length_nil]
    omega

theorem rank_serve_lt (hmoves : serve env s ≠ s) : rank M (serve env s) < rank M s := by
  unfold serve at hmoves ⊢
  by_cases hlistening : s.listening = true
  · rw [if_pos hlistening] at hmoves ⊢
    by_cases hblocks : (parseRound env ⟨s.wire, s.round⟩).1 = [.left .endOfStream]
    · rw [if_pos hblocks] at hmoves
      exact absurd rfl hmoves
    · rw [if_neg hblocks]
      cases hround : (parseRound env ⟨s.wire, s.round⟩).2 with
      | none =>
        simp only [rank, hlistening, Bool.toNat_true, Bool.toNat_false]
        omega
      | some head =>
        have hshorter : head.bytes.length < s.wire.length := parseRound_length_lt hround
        simp only [rank]
        omega
  · rw [if_neg hlistening] at hmoves
    exact absurd rfl hmoves

/-- **An act that changes something** leaves less to do. -/
theorem rank_next_lt (s : World) (a : Act) (hmoves : next M env s a ≠ s) :
    rank M (next M env s a) < rank M s := by
  cases a with
  | enter => exact rank_enter_lt hmoves
  | send n => exact rank_send_lt hmoves
  | leave => exact rank_leave_lt hmoves
  | serve => exact rank_serve_lt hmoves

theorem rank_start (hooks : List TcpHook) : rank M (start hooks) =
    2 * (hooks.flatMap (TcpHook.bytes M)).length + 4 * hooks.length + 1 := by
  have hsum : (hooks.map (hookRank M)).sum =
      2 * (hooks.flatMap (TcpHook.bytes M)).length + 4 * hooks.length := by
    induction hooks with
    | nil => rfl
    | cons h hooks ih =>
      rw [List.map_cons, List.sum_cons, ih, hookRank, List.flatMap_cons, List.length_append,
        List.length_cons]
      omega
  rw [← hsum]
  rfl

/-- **Acts that each change something** are as many as twice the bytes of the hooks, four for each
hook and one at most. -/
theorem moves_length_le (M : PhysMem) (env : ServerEnv) (hooks : List TcpHook) (acts : List Act)
    (hmoves : ∀ x ∈ trace (next M env) (start hooks) acts, next M env x.1 x.2 ≠ x.1) :
    acts.length ≤ 2 * (hooks.flatMap (TcpHook.bytes M)).length + 4 * hooks.length + 1 := by
  have hlength := length_add_rank_le (rank M) (C := fun s a => next M env s a ≠ s)
    (fun s a h => rank_next_lt s a h) hmoves
  rw [rank_start] at hlength
  omega

/-- Any state leads to one where nothing changes. -/
theorem exists_stuck (M : PhysMem) (env : ServerEnv) (s : World) :
    ∃ more : List Act, Stuck M env (more.foldl (next M env) s) :=
  exists_foldl_stuck (rank M) (fun s a h => rank_next_lt s a h) s

end Termination

/-! ## Hooks that take their own replies -/

section Completion

variable {M : PhysMem}

/-- The value of a hook whose reply is the one of `analyze_nop`. -/
def ownValue (M : PhysMem) (h : TcpHook) : Int32 :=
  match (h.run M).2 with
  | .ret value => value
  | .awaitReply => 0

theorem run_of_balanced {hooks : List TcpHook} (hbalanced : ∀ h ∈ hooks, (hookClient M).Balanced h)
    (i : ℕ) :
    observed M ((hookClient M).run i hooks []).1 = hooks.map (fun h => (h, ownValue M h)) ∧
      ((hookClient M).run i hooks []).1.map Exchange.request = hooks ∧
      ((hookClient M).run i hooks []).2 = [] := by
  induction hooks generalizing i with
  | nil => exact ⟨rfl, rfl, rfl⟩
  | cons h hooks ih =>
    rw [List.forall_mem_cons] at hbalanced
    obtain ⟨hlog, hall, hleft⟩ := ih hbalanced.2 (i + 1)
    have hcount : (h.endFrames M).length = if h.waits M then 1 else 0 := hbalanced.1
    have hexchange : ∃ taken, (hookClient M).run i (h :: hooks) [] =
        (⟨i, h, [], taken⟩ :: ((hookClient M).run (i + 1) hooks []).1,
          ((hookClient M).run (i + 1) hooks []).2) ∧
        returned M (fun _ _ => nopReply) ⟨i, h, [], taken⟩ = some (ownValue M h) := by
      cases hwaits : h.waits M with
      | false =>
        rw [hwaits, if_neg Bool.false_ne_true] at hcount
        have hnone : (hookClient M).answered h = [] := List.length_eq_zero_iff.mp hcount
        have hnot : (hookClient M).waits h = false := hwaits
        refine ⟨none, by rw [Client.run_of_not_waits hnot, hnone]; rfl, ?_⟩
        rw [returned, ownValue]
        cases hresult : (h.run M).2 with
        | ret value => rfl
        | awaitReply =>
          rw [TcpHook.waits, hresult] at hwaits
          cases hwaits
      | true =>
        rw [hwaits, if_pos rfl] at hcount
        obtain ⟨f, hf⟩ := List.length_eq_one_iff.mp hcount
        have hone : (hookClient M).answered h = [f] := hf
        have hawait : (h.run M).2 = .awaitReply := of_decide_eq_true hwaits
        refine ⟨some ⟨i, f⟩, Client.run_of_waits hwaits (by rw [hone]; rfl), ?_⟩
        rw [returned, ownValue, hawait]
        rfl
    obtain ⟨taken, hrun, hvalue⟩ := hexchange
    rw [hrun]
    refine ⟨?_, by rw [List.map_cons, hall], hleft⟩
    rw [← List.singleton_append, observed_append, hlog]
    simp [observed, hvalue]

/-- A run that ends like one of hooks that take their own replies. -/
theorem EndsLike.completes {hooks : List TcpHook} {s : World} (hend : EndsLike M hooks s)
    (hown : ∀ h ∈ hooks, h.TakesOwnReply M) :
    s.log = hooks.map (fun h => (h, ownValue M h)) ∧ s.replies = [] ∧ s.wire = [] ∧
      s.dumped = frameDumps (hooks.flatMap (TcpHook.frames M)) := by
  obtain ⟨hlog, hall, hleft⟩ :=
    run_of_balanced (fun h hh => (hookClient_balanced_iff h).mpr (hown h hh)) 0
  refine ⟨hend.log.trans hlog, ?_, hend.wire, ?_⟩
  · have hlength := hend.unread
    rw [runHooks, hleft] at hlength
    exact List.length_eq_zero_iff.mp hlength
  · rw [hend.dumped]
    conv_rhs => rw [← hall, List.flatMap_map]
    rfl

/-- No hook goes round in the loop when all take their own replies. -/
theorem LoopsLike.not_own {hooks : List TcpHook} {s : World} (h : LoopsLike M hooks s) :
    ¬ ∀ hk ∈ hooks, hk.TakesOwnReply M := by
  intro hown
  have hbalanced : ∀ hk ∈ hooks, (hookClient M).Balanced hk := fun hk hhk =>
    (hookClient_balanced_iff hk).mpr (hown hk hhk)
  obtain ⟨hk, buf, -, hsome⟩ := h.loops
  obtain ⟨e, -, hget, -, hcount⟩ := h.exchange
  have hmem : e ∈ (runHooks M hooks).1 := List.mem_of_getElem? hget
  have hunread : e.unread = [] := ((Client.run_aligned_iff.mpr hbalanced).1 e hmem).1
  have hrequest : e.request ∈ hooks := by
    rw [← (run_of_balanced hbalanced 0).2.1]
    exact List.mem_map.mpr ⟨e, hmem, rfl⟩
  have hone : (e.request.endFrames M).length = if e.request.waits M then 1 else 0 :=
    hbalanced e.request hrequest
  have hpos : 0 < s.replies.length := List.length_pos_of_ne_nil hsome
  rw [hunread, List.length_nil] at hcount
  split at hone <;> omega

theorem Inv.completes {hooks : List TcpHook} {s : World} {done : List (Exchange TcpHook Frame)}
    {unread : List (Reply Frame)} {pending : List Frame} {env : ServerEnv}
    (h : Inv M hooks s done unread pending) (hown : ∀ hk ∈ hooks, hk.TakesOwnReply M)
    (hstuck : Stuck M env s) :
    s.log = hooks.map (fun h => (h, ownValue M h)) ∧ s.replies = [] ∧ s.wire = [] ∧
      s.dumped = frameDumps (hooks.flatMap (TcpHook.frames M)) := by
  rcases h.ends hstuck with hend | hloops
  · exact hend.completes hown
  · exact absurd hown hloops.not_own

/-- **Hooks that take their own replies** all return, whatever the order of the acts: one that waits
returns 0, so its system call goes on, and nothing is unread behind them. -/
theorem closedLoop_completes (M : PhysMem) (hooks : List TcpHook)
    (hown : ∀ h ∈ hooks, h.TakesOwnReply M) (env : ServerEnv)
    (hmmap : ∀ round len, env.mmap round len = true) (hreply : ∀ round, env.reply round = true)
    (acts : List Act) (hstuck : Stuck M env (acts.foldl (next M env) (start hooks))) :
    let s := acts.foldl (next M env) (start hooks)
    s.log = hooks.map (fun h => (h, ownValue M h)) ∧ s.replies = [] ∧ s.wire = [] ∧
      s.dumped = frameDumps (hooks.flatMap (TcpHook.frames M)) := by
  intro s
  obtain ⟨done, unread, pending, h⟩ := exists_inv_foldl M hooks hmmap hreply acts
  exact h.completes hown hstuck

/-- A server whose own calls succeed. -/
def willingEnv : ServerEnv := ⟨fun _ _ => true, fun _ => true⟩

/-- A mapping whose last frame is lost, and a program. -/
theorem closedLoop_refines_of_sample : ∃ acts : List Act,
    EndsLike sampleMemory [.pages endlessCall, .bpf sampleBpf]
        (acts.foldl (next sampleMemory willingEnv) (start [.pages endlessCall, .bpf sampleBpf])) ∨
      LoopsLike sampleMemory [.pages endlessCall, .bpf sampleBpf]
        (acts.foldl (next sampleMemory willingEnv)
          (start [.pages endlessCall, .bpf sampleBpf])) := by
  obtain ⟨acts, hstuck⟩ := exists_stuck sampleMemory willingEnv
    (start [.pages endlessCall, .bpf sampleBpf])
  exact ⟨acts, closedLoop_refines sampleMemory [.pages endlessCall, .bpf sampleBpf] willingEnv
    (fun _ _ => rfl) (fun _ => rfl) acts hstuck⟩

/-- A mapping and a program. -/
theorem closedLoop_completes_of_sample : ∃ acts : List Act,
    let s := acts.foldl (next sampleMemory willingEnv) (start sampleHooks)
    s.log = sampleHooks.map (fun h => (h, ownValue sampleMemory h)) ∧ s.replies = [] ∧
      s.wire = [] ∧ s.dumped = frameDumps (sampleHooks.flatMap (TcpHook.frames sampleMemory)) := by
  obtain ⟨acts, hstuck⟩ := exists_stuck sampleMemory willingEnv (start sampleHooks)
  exact ⟨acts, closedLoop_completes sampleMemory sampleHooks
    (fun h hh => TcpHook.takesOwnReply_of_ok (sampleHooks_allocationsSucceed h hh)) willingEnv
    (fun _ _ => rfl) (fun _ => rfl) acts hstuck⟩

end Completion

end ClosedLoop
end LsmFork
