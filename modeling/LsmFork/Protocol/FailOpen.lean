import LsmFork.Protocol.ClosedLoop

/-!
# The connection when the server fails

The server closes the connection when it has no memory for a mapping, and when it cannot send a
reply.  A hook that waits then finds the end of the stream and returns `SKIPPED`.  That is 0, as is
what a hook returns for the reply of `analyze_nop`, so the hooks return the same values whatever
happens on the other side.

What the server does tell is which hooks have been analyzed: as long as it is there, and the hooks
take their own replies, a hook that has returned has been dumped.  Once it has gone, hooks return
without.

* `HooksInv`: the hooks' own side, which does not depend on the server.
* `Few`, `Few.not_loops`: hooks that take their own replies never find two.
* `Closed`: what is left of `Inv` when the connection has been closed.
* `closedLoop_safe`: every state of every run.
* `closedLoop_ends`: how long runs are, and where they end.
* `closedLoop_fails_open`: where the runs of a failing server end.
-/

namespace LsmFork
namespace ClosedLoop

open RequestReply Runs

variable {M : PhysMem} {env : ServerEnv} {hooks : List TcpHook} {s : World}

/-! ## The hooks' own side -/

theorem mem_repliesOf_finishOutcomes {round : ℕ} {info : MappingInfo} {content buf : List UInt8}
    (h : buf ∈ repliesOf (finishOutcomes env round info content).1) : buf = analyzeNop := by
  rw [finishOutcomes] at h
  split at h
  · split at h
    · exact List.mem_singleton.mp h
    · exact absurd h List.not_mem_nil
  · exact absurd h List.not_mem_nil

/-- The replies of the server are those of `analyze_nop`. -/
theorem mem_repliesOf_parseRound (head : StreamHead) {buf : List UInt8}
    (h : buf ∈ repliesOf (parseRound env head).1) : buf = analyzeNop := by
  unfold parseRound at h
  dsimp only at h
  split_ifs at h
  iterate 5 exact absurd h List.not_mem_nil
  · exact mem_repliesOf_finishOutcomes h
  · rw [repliesOf, List.filterMap_append] at h
    exact mem_repliesOf_finishOutcomes ((List.mem_append.mp h).resolve_right List.not_mem_nil)

/-- **The hooks**, whatever the server does: those that have returned, the current one and the
others are the hooks of the run, and what they have returned is their own. -/
structure HooksInv (M : PhysMem) (hooks : List TcpHook) (s : World) : Prop where
  requests : s.log.map Prod.fst ++ (s.phase.current ++ s.todo) = hooks
  values : ∀ x ∈ s.log, x.2 = ownValue M x.1
  nop : ∀ buf ∈ s.phase.taken ++ s.replies, buf = analyzeNop
  waits : ∀ h ∈ s.phase.receiver, h.waits M = true

theorem hooksInv_start (M : PhysMem) (hooks : List TcpHook) : HooksInv M hooks (start hooks) where
  requests := rfl
  values _ h := absurd h List.not_mem_nil
  nop _ h := absurd h List.not_mem_nil
  waits _ h := absurd h List.not_mem_nil

theorem HooksInv.returns {h : TcpHook} {value : Int32} (hinv : HooksInv M hooks s)
    (hcurrent : s.phase.current = [h]) (hvalue : value = ownValue M h) :
    HooksInv M hooks { s with phase := .idle, log := s.log ++ [(h, value)] } := by
  refine ⟨?_, ?_, fun buf hbuf => hinv.nop buf (List.mem_append_right _ hbuf),
    fun g hg => absurd hg List.not_mem_nil⟩
  · have hall := hinv.requests
    rw [hcurrent] at hall
    rw [← hall]
    simp [Phase.current]
  · intro x hx
    rcases List.mem_append.mp hx with hx | hx
    · exact hinv.values x hx
    · rw [List.mem_singleton.mp hx]
      exact hvalue

/-- A hook that waits returns 0 for the reply of `analyze_nop`. -/
theorem ownValue_of_waits {h : TcpHook} (hwaits : h.waits M = true) : ownValue M h = 0 := by
  rw [ownValue, show (h.run M).2 = .awaitReply from of_decide_eq_true hwaits]

theorem HooksInv.leave (hinv : HooksInv M hooks s) : HooksInv M hooks (leave M s) := by
  have hleaves := leave_cases M s
  generalize ClosedLoop.leave M s = t at hleaves ⊢
  cases hleaves with
  | idle hphase => exact hinv
  | unsent hphase hsome => exact hinv
  | waits hphase hnone hlistening => exact hinv
  | loops hloops => exact hinv
  | goesOn hphase hresult =>
    obtain ⟨hall, hvalues, hnop, -⟩ := hinv
    rw [hphase] at hall hnop
    refine ⟨hall, hvalues, hnop, fun g hg => ?_⟩
    rw [List.mem_singleton.mp hg, TcpHook.waits, hresult]
    rfl
  | ret hphase hresult => exact hinv.returns (by rw [hphase]; rfl) (by rw [ownValue, hresult])
  | @endOfStream h hphase hnone hclosed =>
    have hwaits : h.waits M = true := hinv.waits h (by rw [hphase]; exact .head _)
    exact hinv.returns (by rw [hphase]; rfl) (ownValue_of_waits hwaits).symm
  | takes hphase hreplies =>
    obtain ⟨hall, hvalues, hnop, hwaits⟩ := hinv
    rw [hphase] at hall hnop hwaits
    rw [hreplies] at hnop
    exact ⟨hall, hvalues, hnop, hwaits⟩
  | @returns h buf hphase hnone =>
    have hwaits : h.waits M = true := hinv.waits h (by rw [hphase]; exact .head _)
    have hbuf : buf = analyzeNop := hinv.nop buf (by rw [hphase]; exact .head _)
    refine hinv.returns (by rw [hphase]; rfl) ?_
    rw [ownValue_of_waits hwaits, hbuf]
    rfl

theorem HooksInv.next (hinv : HooksInv M hooks s) (a : Act) :
    HooksInv M hooks (next M env s a) := by
  cases a with
  | enter =>
    unfold ClosedLoop.next ClosedLoop.enter
    dsimp only
    split
    · rename_i h hs hphase htodo
      refine ⟨?_, hinv.values, fun buf hbuf => hinv.nop buf (List.mem_append_right _ hbuf),
        fun g hg => absurd hg List.not_mem_nil⟩
      rw [← hinv.requests, hphase, htodo]
      rfl
    · exact hinv
  | send n =>
    unfold ClosedLoop.next ClosedLoop.send
    dsimp only
    split
    · rename_i h unsent hphase
      refine ⟨?_, hinv.values, fun buf hbuf => hinv.nop buf (List.mem_append_right _ hbuf),
        fun g hg => absurd hg List.not_mem_nil⟩
      rw [← hinv.requests, hphase]
      rfl
    · exact hinv
  | leave => exact hinv.leave
  | serve =>
    have hnop : ∀ buf ∈ s.phase.taken ++
        (s.replies ++ repliesOf (parseRound env ⟨s.wire, s.round⟩).1), buf = analyzeNop := by
      intro buf hbuf
      rw [← List.append_assoc] at hbuf
      exact (List.mem_append.mp hbuf).elim (hinv.nop buf) (mem_repliesOf_parseRound _)
    unfold ClosedLoop.next ClosedLoop.serve
    dsimp only
    split
    · split
      · exact hinv
      · split <;> exact ⟨hinv.requests, hinv.values, hnop, hinv.waits⟩
    · exact hinv

/-- The values of the hooks that have returned, in their order. -/
theorem HooksInv.log_eq (hinv : HooksInv M hooks s) :
    s.log = (s.log.map Prod.fst).map fun h => (h, ownValue M h) := by
  rw [List.map_map]
  conv_lhs => rw [← List.map_id s.log]
  exact List.map_congr_left fun x hx => Prod.ext rfl (hinv.values x hx)

theorem HooksInv.log_isPrefix (hinv : HooksInv M hooks s) :
    s.log <+: hooks.map fun h => (h, ownValue M h) := by
  rw [hinv.log_eq]
  exact List.IsPrefix.map _ ⟨_, hinv.requests⟩

theorem HooksInv.log_of_idle (hinv : HooksInv M hooks s) (hidle : s.phase = .idle)
    (htodo : s.todo = []) : s.log = hooks.map fun h => (h, ownValue M h) := by
  have hall := hinv.requests
  rw [hidle, htodo] at hall
  have hlog : s.log.map Prod.fst = hooks := (List.append_nil _).symm.trans hall
  rw [← hlog]
  exact hinv.log_eq

/-! ## The dumps -/

theorem frameDumps_isPrefix {fs gs : List Frame} (h : fs <+: gs) :
    frameDumps fs <+: frameDumps gs := by
  obtain ⟨more, rfl⟩ := h
  rw [frameDumps_append]
  exact List.prefix_append ..

/-- Only the server dumps, and only the server closes the connection. -/
theorem next_of_ne_serve (M : PhysMem) (env : ServerEnv) (s : World) {a : Act} (ha : a ≠ .serve) :
    (next M env s a).dumped = s.dumped ∧ (next M env s a).listening = s.listening := by
  cases a with
  | serve => exact absurd rfl ha
  | enter =>
    unfold next enter
    dsimp only
    split <;> exact ⟨rfl, rfl⟩
  | send n =>
    unfold next send
    dsimp only
    split <;> exact ⟨rfl, rfl⟩
  | leave =>
    have hleaves := leave_cases M s
    rw [next]
    generalize leave M s = t at hleaves ⊢
    cases hleaves <;> exact ⟨rfl, rfl⟩

theorem next_of_closed (M : PhysMem) (env : ServerEnv) (hclosed : s.listening = false) (a : Act) :
    (next M env s a).dumped = s.dumped ∧ (next M env s a).listening = false := by
  by_cases ha : a = .serve
  · rw [ha, next, serve, if_neg (by rw [hclosed]; exact Bool.false_ne_true)]
    exact ⟨rfl, hclosed⟩
  · obtain ⟨hdumped, hlistening⟩ := next_of_ne_serve M env s ha
    exact ⟨hdumped, hlistening.trans hclosed⟩

theorem Inv.dumped_isPrefix {done : List (Exchange TcpHook Frame)} {unread : List (Reply Frame)}
    {pending front : List Frame} (h : Inv M hooks s done unread pending)
    (hinv : HooksInv M hooks s) (hfront : front <+: pending) :
    s.dumped ++ frameDumps front <+: frameDumps (hooks.flatMap (TcpHook.frames M)) := by
  refine ((List.prefix_append_right_inj _).mpr (frameDumps_isPrefix hfront)).trans ?_
  rw [h.dumped, ← h.requests]
  refine frameDumps_isPrefix ⟨s.todo.flatMap (TcpHook.frames M), ?_⟩
  rw [← List.flatMap_append, List.append_assoc, hinv.requests]

/-! ## Hooks that take their own replies -/

/-- **No more replies have come** than the current hook has caused. -/
def Few (M : PhysMem) (s : World) : Prop :=
  (s.phase.taken ++ s.replies).length ≤ (s.phase.current.flatMap (TcpHook.endFrames M)).length

theorem Few.not_loops (h : Few M s) (hown : ∀ hk ∈ s.phase.current, hk.TakesOwnReply M) :
    ¬ Loops s := by
  rintro ⟨hk, buf, hphase, hsome⟩
  have hone : (hk.endFrames M).length = if hk.waits M then 1 else 0 :=
    (hookClient_balanced_iff hk).mpr (hown hk (by rw [hphase]; exact .head _))
  have hpos : 0 < s.replies.length := List.length_pos_of_ne_nil hsome
  rw [Few, hphase] at h
  simp only [Phase.taken, Phase.current, List.flatMap_singleton, List.length_append,
    List.length_singleton] at h
  split at hone <;> omega

/-- Behind a closed connection the hooks take the replies that are there. -/
theorem Few.next_of_closed (h : Few M s) (hclosed : s.listening = false)
    (hown : ∀ hk ∈ s.phase.current, hk.TakesOwnReply M) (a : Act) : Few M (next M env s a) := by
  cases a with
  | enter =>
    unfold next enter
    dsimp only
    split
    · rename_i hk hs hphase htodo
      rw [Few, hphase] at h
      exact h.trans (Nat.zero_le _)
    · exact h
  | send n =>
    unfold next send
    dsimp only
    split
    · rename_i hk unsent hphase
      rw [Few, hphase] at h
      exact h
    · exact h
  | serve =>
    rw [next, serve, if_neg (by rw [hclosed]; exact Bool.false_ne_true)]
    exact h
  | leave =>
    have hleaves := leave_cases M s
    rw [next]
    generalize leave M s = t at hleaves ⊢
    cases hleaves with
    | idle hphase => exact h
    | unsent hphase hsome => exact h
    | waits hphase hnone hlistening => exact h
    | loops hloops => exact h
    | goesOn hphase hresult =>
      rw [Few, hphase] at h
      exact h
    | @ret hk value hphase hresult =>
      -- it has caused no reply, as it takes none
      have hnone : (hk.endFrames M).length = if hk.waits M then 1 else 0 :=
        (hookClient_balanced_iff hk).mpr (hown hk (by rw [hphase]; exact .head _))
      rw [TcpHook.waits, hresult, if_neg (by simp)] at hnone
      rw [Few, hphase, Phase.current, List.flatMap_singleton, hnone] at h
      exact h
    | endOfStream hphase hnone hclosed =>
      rw [Few, hnone]
      exact Nat.zero_le _
    | takes hphase hreplies =>
      rw [Few, hphase, hreplies] at h
      exact h
    | returns hphase hnone =>
      rw [Few, hnone]
      exact Nat.zero_le _

/-- Nothing is unread in front of a hook when each takes its own reply. -/
theorem Inv.unread_eq_nil {done : List (Exchange TcpHook Frame)} {unread : List (Reply Frame)}
    {pending : List Frame} (h : Inv M hooks s done unread pending)
    (hown : ∀ hk ∈ hooks, hk.TakesOwnReply M) : unread = [] := by
  obtain ⟨haligned, hleft⟩ : (hookClient M).RunAligned 0 hooks [] :=
    Client.run_aligned_iff.mpr fun hk hhk => (hookClient_balanced_iff hk).mpr (hown hk hhk)
  have hrun := h.run
  rw [runHooks] at hrun
  rw [hrun] at haligned hleft
  by_contra hne
  exact Client.not_runAligned_of_unread hne
    ⟨fun e he => haligned e (List.mem_append_right _ he), hleft⟩

theorem Inv.few {done : List (Exchange TcpHook Frame)} {unread : List (Reply Frame)}
    {pending : List Frame} (h : Inv M hooks s done unread pending)
    (hown : ∀ hk ∈ hooks, hk.TakesOwnReply M) : Few M s := by
  have hcount := h.replies
  rw [h.unread_eq_nil hown, List.length_nil, Nat.zero_add] at hcount
  exact (Nat.le_add_right _ _).trans hcount.le

/-- **The connection has been closed.** -/
structure Closed (M : PhysMem) (hooks : List TcpHook) (s : World) : Prop where
  closed : s.listening = false
  dumped : s.dumped <+: frameDumps (hooks.flatMap (TcpHook.frames M))
  few : (∀ hk ∈ hooks, hk.TakesOwnReply M) → Few M s

/-- **The two sides**: the connection is as in a run without failures, or it has been closed. -/
structure SafeInv (M : PhysMem) (hooks : List TcpHook) (s : World) : Prop where
  client : HooksInv M hooks s
  server : (∃ done unread pending, Inv M hooks s done unread pending) ∨ Closed M hooks s

theorem safeInv_start (M : PhysMem) (hooks : List TcpHook) : SafeInv M hooks (start hooks) :=
  ⟨hooksInv_start M hooks, Or.inl ⟨[], [], [], inv_start M hooks⟩⟩

theorem HooksInv.current_subset (hinv : HooksInv M hooks s) : s.phase.current ⊆ hooks := by
  intro hk hmem
  rw [← hinv.requests]
  exact List.mem_append_right _ (List.mem_append_left _ hmem)

theorem SafeInv.few (h : SafeInv M hooks s) (hown : ∀ hk ∈ hooks, hk.TakesOwnReply M) :
    Few M s := by
  rcases h.server with ⟨done, unread, pending, hopen⟩ | hclosed
  · exact hopen.few hown
  · exact hclosed.few hown

theorem SafeInv.not_loops (h : SafeInv M hooks s) (hown : ∀ hk ∈ hooks, hk.TakesOwnReply M) :
    ¬ Loops s :=
  (h.few hown).not_loops fun hk hmem => hown hk (h.client.current_subset hmem)

theorem SafeInv.next (h : SafeInv M hooks s) (a : Act) : SafeInv M hooks (next M env s a) := by
  refine ⟨h.client.next a, ?_⟩
  rcases h.server with ⟨done, unread, pending, hopen⟩ | hclosed
  · cases a with
    | enter => exact Or.inl ⟨done, unread, hopen.enter⟩
    | send n => exact Or.inl ⟨done, unread, pending, hopen.send n⟩
    | leave =>
      obtain ⟨done, unread, hleft⟩ := hopen.leave
      exact Or.inl ⟨done, unread, pending, hleft⟩
    | serve =>
      rcases hopen.serve env with hserves | ⟨front, hfront, -, hcloses⟩
      · exact Or.inl ⟨done, unread, hserves⟩
      · refine Or.inr ?_
        rw [show ClosedLoop.next M env s .serve = _ from hcloses]
        exact ⟨rfl, hopen.dumped_isPrefix h.client hfront, fun hown => h.few hown⟩
  · obtain ⟨hsame, hstill⟩ := next_of_closed M env hclosed.closed a
    refine Or.inr ⟨hstill, hsame ▸ hclosed.dumped, fun hown => ?_⟩
    exact (hclosed.few hown).next_of_closed hclosed.closed
      (fun hk hmem => hown hk (h.client.current_subset hmem)) a

theorem safeInv_foldl (M : PhysMem) (hooks : List TcpHook) (env : ServerEnv) (acts : List Act) :
    SafeInv M hooks (acts.foldl (next M env) (start hooks)) :=
  forall_states (I := SafeInv M hooks) (fun _ a h => h.next a) (safeInv_start M hooks) acts _
    (foldl_mem_states _ acts)

/-- **A hook that has returned has been dumped**, as long as the server is there. -/
theorem Inv.dumped_of_returned {done : List (Exchange TcpHook Frame)}
    {unread : List (Reply Frame)} {pending : List Frame} (h : Inv M hooks s done unread pending)
    (hown : ∀ hk ∈ hooks, hk.TakesOwnReply M) :
    frameDumps ((s.log.map Prod.fst).flatMap (TcpHook.frames M)) <+: s.dumped := by
  have hdumped := h.dumped
  have hcount := h.replies
  rw [h.unread_eq_nil hown] at hcount
  rw [← h.requests, List.flatMap_append, frameDumps_append] at hdumped
  -- at most as many dumps are outstanding as the current hook has frames to be dumped
  have hpending : (frameDumps pending).length = (frameReplies pending).length := by
    rw [frameDumps, frameReplies, List.length_map, List.length_map]
  have hcurrent : (frameDumps (s.phase.current.flatMap (TcpHook.frames M))).length =
      (s.phase.current.flatMap (TcpHook.endFrames M)).length := by
    cases s.phase with
    | idle => rfl
    | sending hk unsent =>
      simp [Phase.current, frameDumps, TcpHook.endFrames]
    | receiving hk =>
      simp [Phase.current, frameDumps, TcpHook.endFrames]
    | testing hk buf =>
      simp [Phase.current, frameDumps, TcpHook.endFrames]
  have hlength := congrArg List.length hdumped
  rw [List.length_append, List.length_append] at hlength
  rw [List.length_nil] at hcount
  refine List.prefix_of_prefix_length_le (List.prefix_append _ _) ⟨_, hdumped⟩ ?_
  omega

/-! ## The runs -/

/-- **Every state of every run**, with any failures inside the hooks and on the server.  The hooks
return their own values in their order, and the dumps are of their frames in that order; and as long
as the server is there, hooks that take their own replies have been dumped when they return. -/
theorem closedLoop_safe (M : PhysMem) (hooks : List TcpHook) (env : ServerEnv) (acts : List Act) :
    let s := acts.foldl (next M env) (start hooks)
    s.log <+: hooks.map (fun h => (h, ownValue M h)) ∧
      s.dumped <+: frameDumps (hooks.flatMap (TcpHook.frames M)) ∧
      (s.listening = true → (∀ h ∈ hooks, h.TakesOwnReply M) →
        frameDumps ((s.log.map Prod.fst).flatMap (TcpHook.frames M)) <+: s.dumped) := by
  intro s
  obtain ⟨hclient, ⟨done, unread, pending, hopen⟩ | ⟨hclosed, hdumped, -⟩⟩ :=
    safeInv_foldl M hooks env acts
  · refine ⟨hclient.log_isPrefix, ?_, fun _ hown => hopen.dumped_of_returned hown⟩
    have hprefix := hopen.dumped_isPrefix hclient List.nil_prefix
    rw [show frameDumps [] = [] from rfl, List.append_nil] at hprefix
    exact hprefix
  · refine ⟨hclient.log_isPrefix, hdumped, fun hlistening => ?_⟩
    exact absurd (hlistening.symm.trans hclosed) Bool.noConfusion

/-- **How long runs are, and where they end**, whatever fails on the server.  Acts that each change
something are as many as twice the bytes of the hooks, four for each hook and one at most; and any
run can be continued until nothing changes any more.  There no hook is left, or the current one
waits for a server that is still there, or it goes round in the loop of `_tcp_recv`.  That never
happens when the hooks take their own replies. -/
theorem closedLoop_ends (M : PhysMem) (env : ServerEnv) (hooks : List TcpHook) (acts : List Act) :
    ((∀ x ∈ trace (next M env) (start hooks) acts, next M env x.1 x.2 ≠ x.1) →
        acts.length ≤ 2 * (hooks.flatMap (TcpHook.bytes M)).length + 4 * hooks.length + 1) ∧
      (∃ more, Stuck M env ((acts ++ more).foldl (next M env) (start hooks))) ∧
      let s := acts.foldl (next M env) (start hooks)
      (Stuck M env s → (s.phase = .idle ∧ s.todo = []) ∨
          (∃ hk, s.phase = .receiving hk ∧ s.replies = [] ∧ s.listening = true) ∨ Loops s) ∧
        ((∀ hk ∈ hooks, hk.TakesOwnReply M) → ¬ Loops s) := by
  refine ⟨moves_length_le M env hooks acts, ?_, phase_of_stuck,
    fun hown => (safeInv_foldl M hooks env acts).not_loops hown⟩
  obtain ⟨more, hmore⟩ := exists_stuck M env (acts.foldl (next M env) (start hooks))
  exact ⟨more, by rw [List.foldl_append]; exact hmore⟩

theorem dumpsOf_of_mmap_fails (hfails : ∀ round len, env.mmap round len = false)
    (head : StreamHead) : dumpsOf (parseRound env head).1 = [] := by
  unfold parseRound
  dsimp only
  split
  · rfl
  · split
    · rfl
    · rw [if_pos (hfails _ _)]
      rfl

theorem dumped_of_mmap_fails (hfails : ∀ round len, env.mmap round len = false)
    (h : s.dumped = []) (a : Act) : (next M env s a).dumped = [] := by
  by_cases ha : a = .serve
  · rw [ha, next, serve]
    dsimp only
    split
    · split
      · exact h
      · split <;> rw [h, dumpsOf_of_mmap_fails hfails] <;> rfl
    · exact h
  · exact (next_of_ne_serve M env s ha).1.trans h

/-- **The hooks fail open.**  As long as the socket takes what they send, hooks that take their own
replies all return, and with the values that they return when the server's calls succeed, whichever
of its calls fail; so they do when it has no memory for a mapping and dumps nothing. -/
theorem closedLoop_fails_open (M : PhysMem) (hooks : List TcpHook)
    (hown : ∀ h ∈ hooks, h.TakesOwnReply M) (env : ServerEnv) (acts : List Act)
    (hstuck : Stuck M env (acts.foldl (next M env) (start hooks))) :
    let s := acts.foldl (next M env) (start hooks)
    s.log = hooks.map (fun h => (h, ownValue M h)) ∧
      ((∀ round len, env.mmap round len = false) → s.dumped = []) := by
  intro s
  have hsafe : SafeInv M hooks s := safeInv_foldl M hooks env acts
  constructor
  · rcases hsafe.server with ⟨done, unread, pending, hopen⟩ | ⟨hclosed, -, -⟩
    · exact (hopen.completes hown hstuck).1
    · rcases phase_of_stuck hstuck with ⟨hidle, htodo⟩ | ⟨hk, -, -, hlistening⟩ | hloops
      · exact hsafe.client.log_of_idle hidle htodo
      · exact absurd (hlistening.symm.trans hclosed) Bool.noConfusion
      · exact absurd hloops (hsafe.not_loops hown)
  · intro hfails
    exact forall_states (I := fun s => s.dumped = []) (fun _ a h => dumped_of_mmap_fails hfails h a)
      rfl acts s (foldl_mem_states _ acts)

/-- A server without memory. -/
def poorEnv : ServerEnv := ⟨fun _ _ => false, fun _ => true⟩

/-- A mapping and a program, on a server that has no memory for them. -/
theorem closedLoop_fails_open_of_sample : ∃ acts : List Act,
    let s := acts.foldl (next sampleMemory poorEnv) (start sampleHooks)
    s.log = sampleHooks.map (fun h => (h, ownValue sampleMemory h)) ∧ s.dumped = [] := by
  obtain ⟨acts, hstuck⟩ := exists_stuck sampleMemory poorEnv (start sampleHooks)
  obtain ⟨hlog, hdumped⟩ := closedLoop_fails_open sampleMemory sampleHooks
    (fun h hh => TcpHook.takesOwnReply_of_ok (sampleHooks_allocationsSucceed h hh)) poorEnv acts
    hstuck
  exact ⟨acts, hlog, hdumped fun _ _ => rfl⟩

end ClosedLoop
end LsmFork
