import LsmFork.Kernel.LostPages
import LsmFork.Kernel.Verdict
import LsmFork.Lib.Runs

/-!
# The connection over many hooks

One global pointer, `sock`, is the whole state of the connection.  A hook that finds it null tries
to connect, a hook that finds it set uses it, and nothing ever sets it back.  This file runs any
sequence of hooks over that pointer, with every result that the socket layer can give, and asks two
things of a run: that only the process to be analyzed gets to the socket, and that a socket which
has reported its end is not used again.

The pages of a mapping are kept back unless the process has the right name; the hook for BPF
programs does not look at the name.  And neither loop of `socket.c` sees an error: it keeps the
result of a call in a `size_t`, which is never negative.

* `tcpSend`, `tcpRecv`: `_tcp_send` and `_tcp_recv`, for any results of the calls in them.
* `Invocation`, `Invocation.run`: a hook with all that the socket layer does in it.
* `Conn`, `Conn.after`: the pointer, and whether its socket is known to be dead.
* `quiet_iff`: when a hook of another process leaves the connection alone.
* `recovers_iff`: when a hook that finds a dead socket does not use it.
-/

namespace LsmFork

open CString Runs

/-! ## The loops of socket.c -/

/-- `-ERESTARTSYS`. -/
def eRestartSys : Int32 := -512

/-- `-EAGAIN`. -/
def eAgain : Int32 := -11

/-- What a hook does with the connection.  A call that has not returned has no result yet. -/
inductive SocketEvent where
  | connect (ok : Bool)
  | sendmsg (result : Option Int32)
  | recvmsg (result : Option Int32)
  deriving DecidableEq

namespace SocketEvent

/-- The event opens a connection, hands bytes to the socket, or takes some from it. -/
def Reaches : SocketEvent → Prop
  | connect ok => ok = true
  | sendmsg _ => True
  | recvmsg _ => True

/-- The event hands bytes to the socket. -/
def IsSend : SocketEvent → Prop
  | sendmsg _ => True
  | _ => False

/-- An error other than the two that are tried again. -/
def isHardError (result : Int32) : Bool :=
  result < 0 && result ≠ eRestartSys && result ≠ eAgain

/-- The event reports that the connection is gone: a hard error, or a receive of no bytes. -/
def reportsLoss : SocketEvent → Bool
  | sendmsg (some result) => isHardError result
  | recvmsg (some result) => isHardError result || result = 0
  | _ => false

end SocketEvent

/-- `_tcp_send`, with `vec.iov_len` and the results of `kernel_sendmsg`.  The test `wb < 0` is on an
unsigned number, so there is no branch for it: a negative result makes `iov_len` larger.  It leaves
the results for the next call, unless the loop is still waiting for one. -/
def tcpSend (iovLen : UInt64) : List Int32 → List SocketEvent × Option (List Int32)
  | [] => ([.sendmsg none], none)
  | wb :: results =>
    let iovLen :=
      if wb = eRestartSys ∨ wb = eAgain then iovLen else iovLen - wb.toInt64.toUInt64
    if iovLen = 0 then ([.sendmsg (some wb)], some results)
    else
      let rest := tcpSend iovLen results
      (.sendmsg (some wb) :: rest.1, rest.2)

/-- The buffers of a hook, one `_tcp_send` after another. -/
def tcpSendAll : List (List UInt8) → List Int32 → List SocketEvent × Option (List Int32)
  | [], results => ([], some results)
  | buf :: bufs, results =>
    match tcpSend (UInt64.ofNat buf.length) results with
    | (evs, none) => (evs, none)
    | (evs, some results) =>
      let rest := tcpSendAll bufs results
      (evs ++ rest.1, rest.2)

/-- `_tcp_recv`, with `total_rb` and the results of `kernel_recvmsg`, each with the outcome of
`!skb_queue_empty` after it.  Here too `rb < 0` is never true. -/
def tcpRecv (totalRb : Int64) : List (Int32 × Bool) → List SocketEvent × Option Int64
  | [] => ([.recvmsg none], none)
  | (rb, more) :: results =>
    let totalRb := if rb = eRestartSys ∨ rb = eAgain then totalRb else totalRb + rb.toInt64
    if more then
      let rest := tcpRecv totalRb results
      (.recvmsg (some rb) :: rest.1, rest.2)
    else ([.recvmsg (some rb)], some totalRb)

/-! ## A hook and the pointer -/

namespace TcpHook

/-- `current->comm`. -/
def comm : TcpHook → Chars taskCommLen
  | pages c => c.comm
  | bpf c => c.comm

/-- The tests before `!sock && lsm_init_tcp_connection() != 0` let the hook get to it. -/
def reachesConnect : TcpHook → Bool
  | pages c => strncmpEq c.comm.toList c.targetComm taskCommLen
  | bpf c => c.prog.bpfFunc.isSome && c.prog.jited && c.prog.jitedLen != 0

/-- The hook, with the outcome of that test. -/
def withConnected (connected : Bool) : TcpHook → TcpHook
  | pages c => pages { c with connected := connected }
  | bpf c => bpf { c with connected := connected }

/-- The value of an early return. -/
def leavesWith : TcpHook → Option Int32
  | pages c => match c.checked with
    | .error value => some value
    | .ok _ => none
  | bpf c => match c.checked with
    | .error value => some value
    | .ok _ => none

end TcpHook

/-- A hook of some process in TCP mode, with the results that the socket layer gives it: of
`_tcp_connect`, of each `kernel_sendmsg` and `kernel_recvmsg` that has returned, and the bytes that
are in the buffer of the reply at the end.  The results are arbitrary: that the server stops or
starts again between two calls shows in nothing else. -/
structure Invocation where
  hook : TcpHook
  targetComm : List UInt8
  targetComm_eq : ∀ c, hook = .pages c → c.targetComm = targetComm
  connectOk : Bool
  sendmsg : List Int32
  recvmsg : List (Int32 × Bool)
  buf : Chars 4

/-- `sock`, and whether a call on that socket has reported that the connection is gone. -/
structure Conn where
  sock : Bool
  lost : Bool
  deriving DecidableEq

/-- `static struct socket *sock = NULL`. -/
def Conn.start : Conn := ⟨false, false⟩

/-- What an event leaves of the connection.  A hook connects only when `sock` is null, and stores
what `_tcp_connect` returns. -/
def Conn.see (s : Conn) : SocketEvent → Conn
  | .connect ok => if ok then ⟨true, false⟩ else s
  | e => ⟨s.sock, s.lost || e.reportsLoss⟩

variable (M : PhysMem)

namespace Invocation

/-- The hook, once the test for the connection is made. -/
def atSocket (i : Invocation) (sock : Bool) : TcpHook :=
  i.hook.withConnected (sock || i.connectOk)

/-- The attempt to connect. -/
def connects (i : Invocation) (sock : Bool) : List SocketEvent :=
  if i.hook.reachesConnect && !sock then [.connect i.connectOk] else []

/-- **The hook on the connection**: what it does there, and what it returns once it does. -/
def run (sock : Bool) (i : Invocation) : List SocketEvent × Option Int32 :=
  let ran := (i.atSocket sock).run M
  let sent := tcpSendAll (sends ran.1) i.sendmsg
  match sent.2, ran.2 with
  | none, _ => (i.connects sock ++ sent.1, none)
  | some _, .ret value => (i.connects sock ++ sent.1, some value)
  | some _, .awaitReply =>
    let received := tcpRecv 0 i.recvmsg
    (i.connects sock ++ sent.1 ++ received.1,
      received.2.map fun len => hookVerdict len.toInt (lsmReceiveReplyTcp i.buf.toList))

end Invocation

/-- The connection after a hook. -/
def Conn.after (s : Conn) (i : Invocation) : Conn := (i.run M s.sock).1.foldl Conn.see s

variable {M}

/-! ## One hook -/

theorem exists_sendmsg_mem_tcpSend (iovLen : UInt64) (results : List Int32) :
    ∃ r, .sendmsg r ∈ (tcpSend iovLen results).1 := by
  cases results with
  | nil => exact ⟨none, List.mem_singleton.mpr rfl⟩
  | cons wb results =>
    refine ⟨some wb, ?_⟩
    simp only [tcpSend]
    split <;> split <;> exact List.mem_cons_self

theorem isSend_of_mem_tcpSend {e : SocketEvent} {iovLen : UInt64} {results : List Int32}
    (h : e ∈ (tcpSend iovLen results).1) : e.IsSend := by
  induction results generalizing iovLen with
  | nil =>
    rw [List.mem_singleton.mp h]
    trivial
  | cons wb results ih =>
    rw [tcpSend] at h
    dsimp only at h
    generalize (if wb = eRestartSys ∨ wb = eAgain then iovLen
      else iovLen - wb.toInt64.toUInt64) = left at h
    split at h
    · rw [List.mem_singleton.mp h]
      trivial
    · rcases List.mem_cons.mp h with rfl | h
      · trivial
      · exact ih h

theorem isSend_of_mem_tcpSendAll {e : SocketEvent} {bufs : List (List UInt8)}
    {results : List Int32} (h : e ∈ (tcpSendAll bufs results).1) : e.IsSend := by
  induction bufs generalizing results with
  | nil => cases h
  | cons buf bufs ih =>
    rw [tcpSendAll] at h
    cases hsent : tcpSend (UInt64.ofNat buf.length) results with
    | mk evs left =>
      have hevs : ∀ e ∈ evs, e.IsSend := by
        intro e he
        exact isSend_of_mem_tcpSend (by rw [hsent]; exact he)
      rw [hsent] at h
      cases left with
      | none => exact hevs e h
      | some left =>
        rcases List.mem_append.mp h with h | h
        · exact hevs e h
        · exact ih h

theorem exists_sendmsg_mem_tcpSendAll {bufs : List (List UInt8)} (hne : bufs ≠ [])
    (results : List Int32) : ∃ r, .sendmsg r ∈ (tcpSendAll bufs results).1 := by
  cases bufs with
  | nil => exact absurd rfl hne
  | cons buf bufs =>
    obtain ⟨r, hr⟩ := exists_sendmsg_mem_tcpSend (UInt64.ofNat buf.length) results
    refine ⟨r, ?_⟩
    rw [tcpSendAll]
    split
    · rename_i h
      rw [h] at hr
      exact hr
    · rename_i h
      rw [h] at hr
      exact List.mem_append_left _ hr

theorem eq_recvmsg_of_mem_tcpRecv {e : SocketEvent} {totalRb : Int64}
    {results : List (Int32 × Bool)} (h : e ∈ (tcpRecv totalRb results).1) :
    ∃ r, e = .recvmsg r := by
  induction results generalizing totalRb with
  | nil => exact ⟨none, List.mem_singleton.mp h⟩
  | cons result results ih =>
    obtain ⟨rb, more⟩ := result
    rw [tcpRecv] at h
    cases more with
    | false => exact ⟨some rb, List.mem_singleton.mp h⟩
    | true =>
      rcases List.mem_cons.mp h with rfl | h
      · exact ⟨some rb, rfl⟩
      · exact ih h

namespace TcpHook

theorem run_of_leavesWith {h : TcpHook} {value : Int32} (hleaves : h.leavesWith = some value) :
    h.run M = ([], .ret value) := by
  cases h with
  | pages c =>
    rw [run, sendPagesToUserspaceTcp]
    rw [leavesWith] at hleaves
    cases hchecked : c.checked <;> simp_all
  | bpf c =>
    rw [run, sendBpfDataTcp]
    rw [leavesWith] at hleaves
    cases hchecked : c.checked <;> simp_all

/-- A hook that does not leave early has passed the tests before the connection, and has one. -/
theorem connected_of_leavesWith {h : TcpHook} {connected : Bool}
    (hstays : (h.withConnected connected).leavesWith = none) :
    h.reachesConnect = true ∧ connected = true := by
  cases h with
  | pages c =>
    rw [withConnected, leavesWith, PagesCall.checked] at hstays
    rw [reachesConnect]
    cases hcomm : strncmpEq c.comm.toList c.targetComm taskCommLen <;> cases connected <;>
      simp [hcomm] at hstays ⊢
  | bpf c =>
    rw [withConnected, leavesWith, BpfCall.checked] at hstays
    rw [reachesConnect]
    by_cases hlen : c.prog.jitedLen = 0 <;> cases hfunc : c.prog.bpfFunc <;>
      cases hjit : c.prog.jited <;> cases connected <;> simp_all

theorem bpf_leavesWith {c : BpfCall} (hreaches : (bpf c).reachesConnect = true) :
    ((bpf c).withConnected true).leavesWith = none := by
  rw [withConnected, leavesWith, BpfCall.checked]
  rw [reachesConnect] at hreaches
  cases hfunc : c.prog.bpfFunc <;> simp_all

variable (M) in
/-- The hook passes its checks and makes room for its pages, but all of its flushes fail. -/
def SendsNothing : TcpHook → Prop
  | pages c => ¬ c.GrowthFails M ∧ c.SendsNothing M
  | bpf _ => False

theorem sends_eq_nil_iff (h : TcpHook) : sends (h.run M).1 = [] ↔ h.frames M = [] := by
  rw [sends_run, List.flatMap_eq_nil_iff]
  constructor
  · intro hall
    by_contra hne
    obtain ⟨f, hf⟩ := List.exists_mem_of_ne_nil _ hne
    exact List.cons_ne_nil _ _ (hall f hf)
  · intro hnil f hf
    rw [hnil] at hf
    cases hf

/-- A hook for a program that does not leave early sends its frame. -/
theorem bpf_sends_ne_nil {c : BpfCall} (hstays : (bpf c).leavesWith = none) :
    sends ((bpf c).run M).1 ≠ [] := by
  rw [ne_eq, sends_eq_nil_iff, frames, BpfCall.frames]
  rw [leavesWith] at hstays
  cases hchecked : c.checked <;> simp_all

/-- **A hook that stays** waits for a reply without having sent anything exactly when all its
flushes fail, and it returns a value of its own only for want of memory. -/
theorem silent_iff {h : TcpHook} (hstays : h.leavesWith = none) :
    (((h.run M).2 = .awaitReply ∧ sends (h.run M).1 = []) ↔ h.SendsNothing M) ∧
      ∀ value, (h.run M).2 = .ret value → value = eNoMem := by
  cases h with
  | pages c =>
    rw [leavesWith] at hstays
    cases hchecked : c.checked with
    | error value => simp [hchecked] at hstays
    | ok vma =>
      obtain ⟨hearly, hlate⟩ := PagesCall.sendPages_result (M := M) hchecked
      by_cases hgrowth : c.GrowthFails M
      · have hret : ((pages c).run M).2 = .ret eNoMem := hearly hgrowth
        rw [hret]
        exact ⟨iff_of_false (fun h => by cases h.1) fun h => h.1 hgrowth, fun value h => by
          cases h
          rfl⟩
      · have hret : ((pages c).run M).2 = .awaitReply := hlate hgrowth
        have hframes : (pages c).frames M = [] ↔ c.SendsNothing M :=
          PagesCall.frames_eq_nil_iff hchecked hgrowth
        rw [hret, sends_eq_nil_iff, hframes, SendsNothing]
        exact ⟨⟨fun h => ⟨hgrowth, h.2⟩, fun h => ⟨rfl, h.2⟩⟩, fun value h => by cases h⟩
  | bpf c =>
    refine ⟨iff_of_false (fun h => bpf_sends_ne_nil hstays h.2) fun h => h, fun value h => ?_⟩
    rw [leavesWith] at hstays
    rw [run, sendBpfDataTcp] at h
    cases hchecked : c.checked <;> simp_all

end TcpHook

namespace Invocation

variable {i : Invocation} {sock : Bool}

theorem run_of_leavesWith {value : Int32} (h : (i.atSocket sock).leavesWith = some value) :
    i.run M sock = (i.connects sock, some value) := by
  rw [run, TcpHook.run_of_leavesWith h]
  simp [tcpSendAll]

theorem run_of_not_connected (sock : Bool) (h : (sock || i.connectOk) = false) :
    ∃ value, i.run M sock = (i.connects sock, some value) := by
  cases hleaves : (i.atSocket sock).leavesWith with
  | some value => exact ⟨value, run_of_leavesWith hleaves⟩
  | none =>
    rw [atSocket, h] at hleaves
    cases (TcpHook.connected_of_leavesWith hleaves).2

/-- A hook that is turned away before the connection leaves early. -/
theorem run_of_not_reaches (sock : Bool) (h : i.hook.reachesConnect = false) :
    ∃ value, i.run M sock = ([], some value) := by
  have hconnects : i.connects sock = [] := by
    rw [connects, h]
    rfl
  cases hleaves : (i.atSocket sock).leavesWith with
  | some value => exact ⟨value, hconnects ▸ run_of_leavesWith hleaves⟩
  | none =>
    have hreaches := (TcpHook.connected_of_leavesWith hleaves).1
    rw [h] at hreaches
    cases hreaches

theorem exists_sendmsg_mem_run (h : sends ((i.atSocket sock).run M).1 ≠ []) :
    ∃ r, .sendmsg r ∈ (i.run M sock).1 := by
  obtain ⟨r, hr⟩ := exists_sendmsg_mem_tcpSendAll h i.sendmsg
  refine ⟨r, ?_⟩
  rw [run]
  dsimp only
  split
  · exact List.mem_append_right _ hr
  · exact List.mem_append_right _ hr
  · exact List.mem_append_left _ (List.mem_append_right _ hr)

end Invocation

/-! ## Only the process to be analyzed -/

namespace Invocation

/-- The process has another name than the one to be analyzed. -/
def Foreign (i : Invocation) : Prop :=
  strncmpEq i.hook.comm.toList i.targetComm taskCommLen = false

variable (M) in
/-- The hook opens no connection, hands nothing to the socket and takes nothing from it. -/
def Quiet (s : Conn) (i : Invocation) : Prop := ∀ e ∈ (i.run M s.sock).1, ¬ e.Reaches

/-- A hook for a mapping; or one for a program that has no compiled image, or that comes when there
is no connection and none can be made. -/
def KeptAway (s : Conn) (i : Invocation) : Prop :=
  ∀ c, i.hook = .bpf c → (TcpHook.bpf c).reachesConnect = false ∨
    (s.sock = false ∧ i.connectOk = false)

theorem quiet_of_connects {s : Conn} {i : Invocation} {value : Option Int32}
    (hrun : i.run M s.sock = (i.connects s.sock, value)) (hok : i.connectOk = false) :
    i.Quiet M s := by
  intro e he
  rw [hrun, connects] at he
  split at he
  · rw [List.mem_singleton.mp he, SocketEvent.Reaches, hok]
    exact Bool.false_ne_true
  · cases he

/-- **One hook of another process** stays quiet exactly when something keeps it away from the
socket: its name does for a mapping, and nothing does for a program. -/
theorem quiet_step_iff {s : Conn} {i : Invocation} (hforeign : i.Foreign) :
    i.Quiet M s ↔ i.KeptAway s := by
  have haway : i.hook.reachesConnect = false → i.Quiet M s := by
    intro hno
    obtain ⟨value, hrun⟩ := run_of_not_reaches (M := M) s.sock hno
    intro e he
    rw [hrun] at he
    cases he
  cases hhook : i.hook with
  | pages c =>
    -- the name is the first test
    refine iff_of_true (haway ?_) fun c' h => by rw [hhook] at h; cases h
    rw [Foreign, hhook, ← i.targetComm_eq c hhook] at hforeign
    rw [hhook]
    exact hforeign
  | bpf c =>
    have hkept : i.KeptAway s ↔ i.hook.reachesConnect = false ∨
        (s.sock = false ∧ i.connectOk = false) := by
      rw [KeptAway, hhook]
      exact ⟨fun h => h c rfl, fun h c' heq => TcpHook.bpf.inj heq ▸ h⟩
    rw [hkept]
    constructor
    · intro hquiet
      by_contra hnot
      rw [not_or, Bool.not_eq_false, not_and_or, Bool.not_eq_false, Bool.not_eq_false] at hnot
      obtain ⟨hreaches, hconnected⟩ := hnot
      have htrue : (s.sock || i.connectOk) = true := by rwa [Bool.or_eq_true]
      have hstays : (i.atSocket s.sock).leavesWith = none := by
        rw [atSocket, htrue, hhook]
        exact TcpHook.bpf_leavesWith (hhook ▸ hreaches)
      have hsends : sends ((i.atSocket s.sock).run M).1 ≠ [] := by
        rw [atSocket, hhook] at hstays ⊢
        exact TcpHook.bpf_sends_ne_nil hstays
      obtain ⟨r, hr⟩ := exists_sendmsg_mem_run hsends
      exact hquiet _ hr trivial
    · rintro (hno | ⟨hsock, hok⟩)
      · exact haway hno
      · obtain ⟨value, hrun⟩ := run_of_not_connected (M := M) s.sock
          (show (s.sock || i.connectOk) = false by rw [hsock, hok]; rfl)
        exact quiet_of_connects hrun hok

end Invocation

/-- **Only the process to be analyzed reaches the socket.**  In a run of hooks, from any state of
the connection, all hooks of other processes stay quiet exactly when each of them is for a mapping,
or for a program without a compiled image, or finds no connection and makes none. -/
theorem quiet_iff (M : PhysMem) (s : Conn) (is : List Invocation) :
    (∀ x ∈ trace (Conn.after M) s is, x.2.Foreign → x.2.Quiet M x.1) ↔
      ∀ x ∈ trace (Conn.after M) s is, x.2.Foreign → x.2.KeptAway x.1 :=
  forall_trace_iff (I := fun _ => True) (C := fun s i => i.Foreign → i.Quiet M s)
    (D := fun s i => i.Foreign → i.KeptAway s) (fun _ _ _ => trivial)
    (fun _ _ _ => imp_congr_right fun h => Invocation.quiet_step_iff h) trivial is

/-- A program of four bytes, loaded by another process on the open connection. -/
def foreignBpf : Invocation where
  hook := .bpf { sampleBpf with comm := zeroChars taskCommLen }
  targetComm := sampleComm.toList
  targetComm_eq c h := by cases h
  connectOk := false
  sendmsg := [272, 4]
  recvmsg := [(4, false)]
  buf := zeroChars 4

/-- **A hook of another process sends a program**, and takes the reply to it. -/
theorem foreignBpf_reaches : ¬ ∀ (M : PhysMem) (s : Conn) (is : List Invocation),
    ∀ x ∈ trace (Conn.after M) s is, x.2.Foreign → x.2.Quiet M x.1 := by
  intro hall
  have hforeign : foreignBpf.Foreign := rfl
  have hquiet := hall sampleMemory ⟨true, false⟩ [foreignBpf] (⟨true, false⟩, foreignBpf)
    List.mem_cons_self hforeign
  have hkept := (Invocation.quiet_step_iff hforeign).mp hquiet
  rcases hkept _ rfl with hno | ⟨hsock, -⟩
  · revert hno
    decide
  · cases hsock

/-! ## A socket that is known to be dead -/

namespace Conn

theorem sock_see {s : Conn} (h : s.sock = true) (e : SocketEvent) : (s.see e).sock = true := by
  cases e with
  | connect ok => cases ok <;> simp [see, h]
  | sendmsg r => exact h
  | recvmsg r => exact h

theorem sock_foldl {s : Conn} (h : s.sock = true) (evs : List SocketEvent) :
    (evs.foldl see s).sock = true := by
  induction evs generalizing s with
  | nil => exact h
  | cons e evs ih => exact ih (sock_see h e)

/-- **Only a socket can be known to be dead.** -/
theorem sock_of_lost_after {s : Conn} {i : Invocation} (hs : s.lost = true → s.sock = true)
    (h : (s.after M i).lost = true) : (s.after M i).sock = true := by
  cases hsock : s.sock with
  | true => exact sock_foldl hsock _
  | false =>
    have hlost : s.lost = false := by
      by_contra hne
      rw [hs (Bool.not_eq_false _ ▸ hne)] at hsock
      cases hsock
    rw [after, hsock] at h ⊢
    cases hreaches : i.hook.reachesConnect with
    | false =>
      obtain ⟨value, hrun⟩ := Invocation.run_of_not_reaches (M := M) false hreaches
      rw [hrun] at h
      exact absurd h (by simp [hlost])
    | true =>
      have hconnects : i.connects false = [.connect i.connectOk] := by
        rw [Invocation.connects, hreaches]
        rfl
      cases hok : i.connectOk with
      | false =>
        obtain ⟨value, hrun⟩ := Invocation.run_of_not_connected (M := M) (i := i) false hok
        rw [hrun, hconnects, hok] at h
        exact absurd h (by simp [see, hlost])
      | true =>
        -- the hook connects first, and the rest of its events keep the socket
        obtain ⟨evs, hevs⟩ : ∃ evs, (i.run M false).1 = .connect true :: evs := by
          rw [Invocation.run, hconnects, hok]
          dsimp only
          split <;> exact ⟨_, rfl⟩
        rw [hevs, List.foldl_cons]
        exact sock_foldl rfl evs

end Conn

namespace Invocation

variable (M) in
/-- The hook obtains a new socket before anything else. -/
def Reconnects (sock : Bool) (i : Invocation) : Prop :=
  ∃ evs, (i.run M sock).1 = .connect true :: evs

variable (M) in
/-- The hook returns 0, and hands nothing to the socket. -/
def Skips (sock : Bool) (i : Invocation) : Prop :=
  (i.run M sock).2 = some skipped ∧ ∀ e ∈ (i.run M sock).1, ¬ e.IsSend

variable (M) in
/-- A hook that finds a socket that is known to be dead skips, or gets another one. -/
def Recovers (s : Conn) (i : Invocation) : Prop :=
  s.lost = true → i.Skips M s.sock ∨ i.Reconnects M s.sock

variable (M) in
/-- With a socket, the hook leaves early with 0; or it passes its checks and has room for its pages,
all its flushes fail, and what it then receives makes it return 0. -/
def Spares (i : Invocation) : Prop :=
  (i.atSocket true).leavesWith = some skipped ∨
    ((i.atSocket true).leavesWith = none ∧ (i.atSocket true).SendsNothing M ∧
      ∃ len, (tcpRecv 0 i.recvmsg).2 = some len ∧
        hookVerdict len.toInt (lsmReceiveReplyTcp i.buf.toList) = skipped)

theorem connects_of_sock (i : Invocation) : i.connects true = [] := by
  rw [connects, Bool.not_true, Bool.and_false]
  rfl

/-- A hook that finds a socket uses it, and does not make another. -/
theorem not_reconnects (i : Invocation) : ¬ i.Reconnects M true := by
  rintro ⟨evs, hevs⟩
  have hmem : .connect true ∈ (i.run M true).1 := by
    rw [hevs]
    exact List.mem_cons_self
  rw [run, connects_of_sock] at hmem
  dsimp only at hmem
  split at hmem
  · exact isSend_of_mem_tcpSendAll hmem
  · exact isSend_of_mem_tcpSendAll hmem
  · rcases List.mem_append.mp hmem with hmem | hmem
    · exact isSend_of_mem_tcpSendAll hmem
    · obtain ⟨r, hr⟩ := eq_recvmsg_of_mem_tcpRecv hmem
      cases hr

/-- **One hook on a dead socket** recovers exactly when it leaves early, or fails to send anything
and returns 0 all the same. -/
theorem skips_iff (i : Invocation) : i.Skips M true ↔ i.Spares M := by
  rw [Skips, Spares]
  cases hleaves : (i.atSocket true).leavesWith with
  | some value =>
    rw [run_of_leavesWith hleaves, connects_of_sock]
    simp
  | none =>
    obtain ⟨hsilent, hown⟩ := TcpHook.silent_iff (M := M) hleaves
    rw [← hsilent, or_iff_right (by simp), and_iff_right rfl]
    by_cases hsends : sends ((i.atSocket true).run M).1 = []
    · rw [run, hsends, connects_of_sock]
      cases hresult : ((i.atSocket true).run M).2 with
      | ret value =>
        rw [hown value hresult]
        refine iff_of_false (fun h => ?_) fun h => by cases h.1.1
        have hvalue : eNoMem = skipped := Option.some.inj h.1
        exact absurd hvalue (by decide)
      | awaitReply =>
        have hquiet : ∀ e ∈ (tcpRecv 0 i.recvmsg).1, ¬ e.IsSend := by
          intro e he
          obtain ⟨r, rfl⟩ := eq_recvmsg_of_mem_tcpRecv he
          exact id
        show ((tcpRecv 0 i.recvmsg).2.map _ = some skipped ∧ ∀ e ∈ (tcpRecv 0 i.recvmsg).1, _) ↔ _
        rw [Option.map_eq_some_iff, and_iff_left hquiet, and_iff_right ⟨rfl, rfl⟩]
    · obtain ⟨r, hr⟩ := exists_sendmsg_mem_run hsends
      exact iff_of_false (fun h => h.2 _ hr trivial) fun h => hsends h.1.2

end Invocation

/-- **The connection recovers** in a run of hooks, that is, every hook after a reported loss skips
or gets a new socket first, exactly when every one of them would leave a socket alone: no hook ever
gets a new one. -/
theorem recovers_iff (M : PhysMem) (is : List Invocation) :
    (∀ x ∈ trace (Conn.after M) .start is, x.2.Recovers M x.1) ↔
      ∀ x ∈ trace (Conn.after M) .start is, x.1.lost = true → x.2.Spares M := by
  refine forall_trace_iff (s := .start) (I := fun s => s.lost = true → s.sock = true)
    (C := fun s i => i.Recovers M s) (D := fun s i => s.lost = true → i.Spares M)
    (fun _ _ hs => Conn.sock_of_lost_after hs) (fun s i hs => ?_) (fun h => by cases h) is
  refine imp_congr_right fun hlost => ?_
  rw [hs hlost, or_iff_left i.not_reconnects]
  exact i.skips_iff

/-- A program is sent, and the server is gone before it replies. -/
def unansweredBpf : Invocation where
  hook := .bpf sampleBpf
  targetComm := sampleComm.toList
  targetComm_eq c h := by cases h
  connectOk := true
  sendmsg := [272, 4]
  recvmsg := [(0, false)]
  buf := zeroChars 4

/-- **The next program is sent on the dead socket**, after the end of the stream has been seen. -/
theorem unansweredBpf_not_recovers : ¬ ∀ (M : PhysMem) (is : List Invocation),
    ∀ x ∈ trace (Conn.after M) .start is, x.2.Recovers M x.1 := by
  intro hall
  have hlost : Conn.start.after sampleMemory unansweredBpf = ⟨true, true⟩ := by
    decide +kernel
  have hmem : (⟨true, true⟩, unansweredBpf) ∈
      trace (Conn.after sampleMemory) .start [unansweredBpf, unansweredBpf] := by
    rw [← hlost]
    exact List.mem_cons_of_mem _ List.mem_cons_self
  rcases hall sampleMemory _ _ hmem rfl with hskips | hreconnects
  · rcases unansweredBpf.skips_iff.mp hskips with hleaves | ⟨-, hsends, -⟩
    · cases hleaves
    · exact hsends
  · exact unansweredBpf.not_reconnects hreconnects

end LsmFork
