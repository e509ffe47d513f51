import LsmFork.Filter.WriteExec
import LsmFork.Server.Reassemble
import Mathlib.Logic.Function.Basic

/-!
# The code that runs has been dumped

The filter and the hooks are made for each other.  Under filter-wx a page is not writable and
executable at a time, so code is written first and made executable by a later mprotect; and mprotect
asks the hook before it changes a permission, which sends the pages as they are.  What a program
executes of its anonymous memory should therefore always have been sent.

The dumps here are those that the frames of the hooks stand for: those of a receiver that keeps its
buffer until the end flag.  They are not those of `tcp_server.cpp`, which unmaps its buffer after
every frame and has zeros in place of what the earlier frames of a mapping have brought.

`do_mprotect_pkey` goes through its range mapping by mapping.  For each of them it asks the hook,
about the whole range, and then changes the permissions of the mapping.  Two things break the chain,
and are excluded here: a store between the two, by another thread; and a range that starts in a file
mapping, for which `find_vma` lets the hook skip the anonymous mappings behind it.  And the hook has
to be one that sends: the program is the target, its socket is connected, nothing fails inside the
hook, and no page is swapped out.

* `Page`, `Phase`, `Process`, `Act`, `next`: a program, the system calls that it has under way, and
  what the ideal receiver has of the frames of the hooks.
* `Finds`, `Sound`: what the hooks find, and the acts that the runs here are made of.
* `hook_dumps`: what the receiver has behind a hook.
* `Inv`, `Inv.next`: what every act keeps.
* `code_is_dumped`: the code that runs, in any run.
* `store_after_hook`, `hook_skips_file`: what the two exclusions are for.
-/

namespace LsmFork
namespace ShownCode

open CString MaximalRuns Runs Seccomp WriteExec

/-! ## The program -/

/-- A page of the program: whether it belongs to an anonymous mapping, its permissions, and what it
holds. -/
structure Page where
  anon : Bool
  perms : Perms
  content : Chars pageSize

/-- The system call that holds the lock of the address space. -/
inductive Phase where
  | idle
  /-- `do_mmap` has made its region, and has not asked the hook. -/
  | mapping (first n : ℕ) (prot : UInt64)
  /-- `do_mprotect_pkey` has changed the permissions of `done` pages; the hook has let the next
  mapping of the range pass, or has not been asked about it. -/
  | protecting (first n : ℕ) (prot : UInt64) (done : ℕ) (asked : Bool)

/-- The pages of the program by their numbers, and an ideal receiver at the other end of the hooks'
connection. -/
structure Process where
  page : ℕ → Option Page
  phase : Phase
  receiver : Receiver

/-- The program stores into a page, or calls the kernel; the call asks the hook, which finds what is
in `c` and waits for the verdict `reply` if it waits; `mprotect_fixup` changes the permissions of a
mapping, or fails; or the call leaves the range, which is not mapped any further. -/
inductive Act where
  | store (page : ℕ) (content : Chars pageSize)
  | mmap (first n : ℕ) (prot : UInt64) (file : Option (ℕ → Chars pageSize))
  | brk (first n : ℕ)
  | munmap (first n : ℕ)
  | mprotect (pkey : Bool) (first n : ℕ) (prot : UInt64)
  | hook (M : PhysMem) (c : PagesCall) (reply : Int32)
  | fixup (count : ℕ) (succeeds : Bool)
  | leave

/-- A system call on pages. -/
def pagesCall (nr : Syscall) (first n : ℕ) (prot : UInt64) : Call Syscall where
  nr := nr
  args
    | 0 => UInt64.ofNat (first * pageSize)
    | 1 => UInt64.ofNat (n * pageSize)
    | 2 => prot
    | _ => 0

/-- Put new pages into a range. -/
def install (pages : ℕ → Option Page) (first n : ℕ) (new : ℕ → Option Page) : ℕ → Option Page :=
  fun page => if first ≤ page ∧ page < first + n then new (page - first) else pages page

/-- A page of a new mapping. -/
def newPage (perms : Perms) (file : Option (ℕ → Chars pageSize)) (k : ℕ) : Page where
  anon := file.isNone
  perms := perms
  content := file.elim (zeroChars pageSize) fun contents => contents k

/-- Change the permissions of the pages from `lo` up to `hi`. -/
def protect (pages : ℕ → Option Page) (lo hi : ℕ) (perms : Perms) : ℕ → Option Page :=
  fun page => if lo ≤ page ∧ page < hi then (pages page).map fun p => { p with perms := perms }
    else pages page

/-- The value of a hook that waits for the verdict `reply`, if it waits. -/
def hookValue (M : PhysMem) (c : PagesCall) (reply : Int32) : Int32 :=
  match (sendPagesToUserspaceTcp M c).2 with
  | .ret value => value
  | .awaitReply => reply

section Steps

variable (f : FilterCtx Syscall) (s : Process)

/-- The ideal receiver takes the frames of a hook, as the server is meant to. -/
def receive (M : PhysMem) (c : PagesCall) : Receiver :=
  (c.frames M).foldl Receiver.take s.receiver

def next : Act → Process
  | .store page content =>
    match s.page page with
    | some p =>
      if p.perms.write then
        { s with page := Function.update s.page page (some { p with content := content }) }
      else s
    | none => s
  | .mmap first n prot file =>
    match s.phase with
    | .idle =>
      if f.action (pagesCall .mmap first n prot) = .allow then
        { s with
          page := install s.page first n fun k => some (newPage (.ofProt prot) file k)
          phase := .mapping first n prot }
      else s
    | _ => s
  | .brk first n =>
    match s.phase with
    | .idle =>
      { s with page := install s.page first n fun k => some (newPage ⟨true, true, false⟩ none k) }
    | _ => s
  | .munmap first n =>
    match s.phase with
    | .idle => { s with page := install s.page first n fun _ => none }
    | _ => s
  | .mprotect pkey first n prot =>
    match s.phase with
    | .idle =>
      if f.action (pagesCall (if pkey then .pkeyMprotect else .mprotect) first n prot) = .allow then
        { s with phase := .protecting first n prot 0 false }
      else s
    | _ => s
  | .hook M c reply =>
    match s.phase with
    | .mapping _ _ _ => { s with phase := .idle, receiver := receive s M c }
    | .protecting first n prot done false =>
      { s with
        phase := if hookValue M c reply = 0 then .protecting first n prot done true else .idle
        receiver := receive s M c }
    | _ => s
  | .fixup count succeeds =>
    match s.phase with
    | .protecting first n prot done true =>
      if !succeeds then { s with phase := .idle }
      else
        { s with
          page := protect s.page (first + done) (first + min (done + count) n) (.ofProt prot)
          phase := if done + count < n then .protecting first n prot (done + count) false
            else .idle }
    | _ => s
  | .leave =>
    match s.phase with
    | .protecting _ _ _ _ false => { s with phase := .idle }
    | _ => s

end Steps

/-! ## Conditions on a run -/

/-- **What a hook finds**: the program is the one that is analyzed, and its socket and its page
array are there; the range and the permissions are those of the call; `find_vma` finds the mapping
of the first page; and the page walk shows what the pages hold, none of which is swapped out. -/
structure Finds (s : Process) (first n : ℕ) (prot : UInt64) (M : PhysMem) (c : PagesCall) :
    Prop where
  target : strncmpEq c.comm.toList c.targetComm taskCommLen = true
  connected : c.connected = true
  pageArray : c.pageArray = true
  addr : c.addr.toNat = first * pageSize
  len : c.len.toNat = n * pageSize
  prot : c.prot = prot
  vma : ∀ p, s.page first = some p → ∃ name, c.vma = some ⟨!p.anon, name⟩
  walk : ∀ k < n, ∀ p, s.page (first + k) = some p →
    ∃ slot, c.pageTable[k]? = some slot ∧ pageContent M slot = p.content

/-- A range with anonymous pages in it starts with one. -/
def StartsAnonymous (s : Process) (first n : ℕ) : Prop :=
  (∃ k < n, ∃ p, s.page (first + k) = some p ∧ p.anon = true) →
    ∃ p, s.page first = some p ∧ p.anon = true

/-- No allocation fails inside a hook, and it finds what is there; no range that becomes executable
starts in a file mapping with anonymous pages behind it; and there is no store between the hook and
the change that it has let pass. -/
def Sound (s : Process) : Act → Prop
  | .store _ _ => ∀ first n prot done, s.phase ≠ .protecting first n prot done true
  | .hook M c _ => c.AllocationsSucceed ∧
      ∀ first n prot done, s.phase = .protecting first n prot done false →
        (Perms.ofProt prot).exec = true → Finds s first n prot M c ∧ StartsAnonymous s first n
  | _ => True

/-- A dump shows the content at the address of the page. -/
def Dumped (dumps : List (MappingInfo × List UInt8)) (page : ℕ) (content : Chars pageSize) : Prop :=
  ∃ d ∈ dumps, ∃ k, page * pageSize = d.1.initAddr.toNat + k * pageSize ∧
    (d.2.drop (k * pageSize)).take pageSize = content.toList

/-- The page holds zeros, or what it held as executable memory when the program started. -/
def Harmless (start : Process) (page : ℕ) (content : Chars pageSize) : Prop :=
  content = zeroChars pageSize ∨
    ∃ p, start.page page = some p ∧ p.anon = true ∧ p.perms.exec = true ∧ p.content = content

/-- **The code of the program has been dumped**, by the ideal receiver: each executable page of its
anonymous memory. -/
def CodeDumped (start s : Process) : Prop :=
  ∀ page p, s.page page = some p → p.anon = true → p.perms.exec = true →
    Dumped s.receiver.done page p.content ∨ Harmless start page p.content

/-! ## A hook that nothing goes wrong with -/

theorem image_page {M : PhysMem} {c : PagesCall} {k : ℕ} {slot : Option Pte}
    (h : c.pageTable[k]? = some slot) :
    ((c.image M).drop (k * pageSize)).take pageSize = (pageContent M slot).toList := by
  obtain ⟨hk, hget⟩ := List.getElem?_eq_some_iff.mp h
  have hsplit : c.pageTable = c.pageTable.take k ++ slot :: c.pageTable.drop (k + 1) := by
    rw [← hget, ← List.drop_eq_getElem_cons hk, List.take_append_drop]
  have hfront : ((c.pageTable.take k).flatMap fun slot => (pageContent M slot).toList).length =
      k * pageSize := by
    rw [length_flatMap_content fun slot => List.Vector.toList_length _,
      List.length_take_of_le hk.le]
  rw [PagesCall.image, hsplit, List.flatMap_append, List.flatMap_cons, List.drop_left' hfront,
    List.take_left' (List.Vector.toList_length _)]

theorem Dumped.append {dumps : List (MappingInfo × List UInt8)} {page : ℕ}
    {content : Chars pageSize} (h : Dumped dumps page content)
    (more : List (MappingInfo × List UInt8)) : Dumped (dumps ++ more) page content := by
  obtain ⟨d, hd, hshows⟩ := h
  exact ⟨d, List.mem_append_left _ hd, hshows⟩

variable {s start : Process} {first n : ℕ} {prot : UInt64} {M : PhysMem} {c : PagesCall}

/-- A hook that finds an anonymous page at the start of an executable range passes its checks, or
returns an error. -/
theorem Finds.checked (h : Finds s first n prot M c) {p : Page} (hp : s.page first = some p)
    (hanon : p.anon = true) (hexec : (Perms.ofProt prot).exec = true) {reply : Int32}
    (hvalue : hookValue M c reply = 0) : ∃ name, c.checked = .ok ⟨false, name⟩ := by
  obtain ⟨name, hvma⟩ := h.vma p hp
  rw [hanon] at hvma
  have hprot : ¬ (c.prot &&& protExec = 0 ∧ c.prot &&& protWrite = 0) := fun hnone =>
    of_decide_eq_true hexec (h.prot ▸ hnone.1)
  refine ⟨name, ?_⟩
  by_cases hrange : c.addr = 0 ∨ c.len = 0
  · -- a range without an address is an error
    have hchecked : c.checked = .error eInval := by
      simp [PagesCall.checked, h.target, h.connected, hrange]
    rw [hookValue, sendPagesToUserspaceTcp, hchecked] at hvalue
    exact absurd hvalue (show eInval ≠ 0 by decide)
  · simp [PagesCall.checked, h.target, h.connected, h.pageArray, hrange, hprot, hvma]

/-- A hook leaves no mapping unfinished, and what the receiver had it keeps. -/
theorem receive_eq (hclosed : s.receiver.buf = none) (hok : c.AllocationsSucceed) :
    ∃ dumped, receive s M c = ⟨none, s.receiver.done ++ dumped⟩ ∧
      List.Forall₂ (fun m d => SameSource { m.1 with isEndOfMapping := 1 } d.1 ∧ d.2 = m.2)
        ((TcpHook.pages c).mapping M).toList dumped := by
  have hreceiver : s.receiver = ⟨none, s.receiver.done⟩ := by rw [← hclosed]
  rw [receive, hreceiver]
  exact foldl_take_hook (h := .pages c) hok s.receiver.done

/-- **What the receiver has behind a hook**: each anonymous page of the range, as it is. -/
theorem hook_dumps (hclosed : s.receiver.buf = none) (hok : c.AllocationsSucceed)
    (h : Finds s first n prot M c) (hstarts : StartsAnonymous s first n)
    (hexec : (Perms.ofProt prot).exec = true) {reply : Int32} (hvalue : hookValue M c reply = 0)
    {k : ℕ} (hk : k < n) {p : Page} (hp : s.page (first + k) = some p) (hanon : p.anon = true) :
    Dumped (receive s M c).done (first + k) p.content := by
  obtain ⟨q, hq, hqanon⟩ := hstarts ⟨k, hk, p, hp, hanon⟩
  obtain ⟨name, hchecked⟩ := h.checked hq hqanon hexec hvalue
  obtain ⟨dumped, hreceive, hsame⟩ := receive_eq (M := M) hclosed hok
  rw [TcpHook.mapping, hchecked] at hsame
  obtain ⟨slot, hslot, hcontent⟩ := h.walk k hk p hp
  obtain ⟨d, rest, ⟨⟨m, l, hheader⟩, hbuf⟩, -, rfl⟩ := List.forall₂_cons_left_iff.mp hsame
  rw [hreceive]
  refine ⟨d, List.mem_append_right _ (List.mem_cons_self ..), k, ?_, ?_⟩
  · rw [hheader, Nat.add_mul, ← h.addr]
    rfl
  · rw [hbuf, image_page hslot, hcontent]

/-! ## One act -/

/-- What holds along a run: no page is writable and executable, the code has been dumped, and what
the hook has let pass has been dumped before its permissions change. -/
structure Inv (start s : Process) : Prop where
  closed : s.receiver.buf = none
  noWx : ∀ page p, s.page page = some p → ¬ p.perms.IsWx
  code : CodeDumped start s
  prot : ∀ first n prot done asked, s.phase = .protecting first n prot done asked →
    ¬ (Perms.ofProt prot).IsWx
  asked : ∀ first n prot done, s.phase = .protecting first n prot done true →
    (Perms.ofProt prot).exec = true → ∀ k < n, ∀ p, s.page (first + k) = some p →
      p.anon = true → Dumped s.receiver.done (first + k) p.content

/-- The calls that the filter allows keep write and execute permission apart. -/
theorem not_wx_of_allowed {nr : Syscall} (hruled : nr ∈ ruledCalls)
    (hallow : filterWx.action (pagesCall nr first n prot) = .allow) :
    ¬ (Perms.ofProt prot).IsWx := by
  let step : SyscallStep := ⟨pagesCall nr first n prot, true, fun _ => false, fun _ => none⟩
  have hstep : filterWx.action step.call = .allow := hallow
  exact not_wx_of_allow hstep hruled

/-- The page is not writable and executable, and as code it has been dumped. -/
structure Fine (start s : Process) (page : ℕ) (p : Page) : Prop where
  noWx : ¬ p.perms.IsWx
  code : p.anon = true → p.perms.exec = true →
    Dumped s.receiver.done page p.content ∨ Harmless start page p.content

theorem Inv.fine (h : Inv start s) {page : ℕ} {p : Page} (hp : s.page page = some p) :
    Fine start s page p := ⟨h.noWx page p hp, h.code page p hp⟩

/-- Changed pages, with the hook not asked about what comes next. -/
theorem Inv.change (h : Inv start s) {pages : ℕ → Option Page} {phase : Phase}
    (hpages : ∀ page p, pages page = some p → Fine start s page p)
    (hphase : ∀ first n prot done asked, phase = .protecting first n prot done asked →
      asked = false ∧ ¬ (Perms.ofProt prot).IsWx) :
    Inv start { s with page := pages, phase := phase } where
  closed := h.closed
  noWx page p hp := (hpages page p hp).noWx
  code page p hp := (hpages page p hp).code
  prot first n prot done asked heq := (hphase first n prot done asked heq).2
  asked first n prot done heq := absurd (hphase first n prot done true heq).1 (by decide)

theorem Inv.store (h : Inv start s) {page : ℕ} {content : Chars pageSize}
    (hsound : Sound s (.store page content)) :
    Inv start (next filterWx s (.store page content)) := by
  rw [next]
  split
  · rename_i p hp
    split
    · rename_i hwrite
      refine h.change (fun other q hq => ?_) fun first n prot done asked hphase => ?_
      · by_cases hother : other = page
        · -- a page that is stored into is not executable
          subst hother
          rw [Function.update_self] at hq
          obtain rfl := Option.some.inj hq
          exact ⟨h.noWx other p hp, fun _ hexec => absurd ⟨hwrite, hexec⟩ (h.noWx other p hp)⟩
        · rw [Function.update_of_ne hother] at hq
          exact h.fine hq
      · refine ⟨?_, h.prot first n prot done asked hphase⟩
        cases asked with
        | false => rfl
        | true => exact absurd hphase (hsound first n prot done)
    · exact h
  · exact h

theorem Inv.install (h : Inv start s) {new : ℕ → Option Page} {phase : Phase}
    (hnew : ∀ k p, new k = some p → Fine start s (first + k) p)
    (hphase : ∀ first n prot done asked, phase ≠ .protecting first n prot done asked) :
    Inv start { s with page := install s.page first n new, phase := phase } := by
  refine h.change (fun page p hp => ?_) fun first n prot done asked heq =>
    absurd heq (hphase first n prot done asked)
  rw [ShownCode.install] at hp
  split at hp
  · rename_i hrange
    have hfine := hnew (page - first) p hp
    rwa [Nat.add_sub_cancel' hrange.1] at hfine
  · exact h.fine hp

theorem Inv.mmap (h : Inv start s) {file : Option (ℕ → Chars pageSize)} :
    Inv start (next filterWx s (.mmap first n prot file)) := by
  rw [next]
  split
  · split
    · rename_i hallow
      refine h.install (fun k p hp => ?_) fun _ _ _ _ _ heq => by cases heq
      obtain rfl := Option.some.inj hp
      refine ⟨not_wx_of_allowed (by decide) hallow, fun hanon _ => Or.inr (Or.inl ?_)⟩
      -- new anonymous memory holds zeros
      have hnone : file = none := Option.isNone_iff_eq_none.mp hanon
      rw [hnone]
      rfl
    · exact h
  · exact h

theorem Inv.brk (h : Inv start s) : Inv start (next filterWx s (.brk first n)) := by
  rw [next]
  split
  · rename_i hidle
    refine h.install (fun k p hp => ?_) fun _ _ _ _ _ heq =>
      Phase.noConfusion (hidle.symm.trans heq)
    obtain rfl := Option.some.inj hp
    exact ⟨fun hwx => Bool.false_ne_true hwx.2, fun _ hexec => absurd hexec Bool.false_ne_true⟩
  · exact h

theorem Inv.munmap (h : Inv start s) : Inv start (next filterWx s (.munmap first n)) := by
  rw [next]
  split
  · rename_i hidle
    exact h.install (fun k p hp => by cases hp) fun _ _ _ _ _ heq =>
      Phase.noConfusion (hidle.symm.trans heq)
  · exact h

theorem Inv.mprotect (h : Inv start s) {pkey : Bool} :
    Inv start (next filterWx s (.mprotect pkey first n prot)) := by
  have hruled : (if pkey then Syscall.pkeyMprotect else .mprotect) ∈ ruledCalls := by
    cases pkey <;> decide
  rw [next]
  generalize (if pkey then Syscall.pkeyMprotect else .mprotect) = nr at hruled ⊢
  split
  · split
    · rename_i hallow
      refine h.change (fun _ _ => h.fine) fun first n prot done asked heq => ?_
      cases heq
      exact ⟨rfl, not_wx_of_allowed hruled hallow⟩
    · exact h
  · exact h

theorem Inv.leave (h : Inv start s) : Inv start (next filterWx s .leave) := by
  rw [next]
  split
  · exact h.change (fun _ _ => h.fine) fun _ _ _ _ _ heq => by cases heq
  · exact h

/-- **The hook** sends the range before its permissions change. -/
theorem Inv.hook (h : Inv start s) {reply : Int32} (hsound : Sound s (.hook M c reply)) :
    Inv start (next filterWx s (.hook M c reply)) := by
  obtain ⟨hok, hfinds⟩ := hsound
  obtain ⟨dumped, hreceive, -⟩ := receive_eq (s := s) (M := M) h.closed hok
  have hcode : ∀ page p, s.page page = some p → p.anon = true → p.perms.exec = true →
      Dumped (receive s M c).done page p.content ∨ Harmless start page p.content := by
    intro page p hp hanon hexec
    rw [hreceive]
    exact (h.code page p hp hanon hexec).imp_left fun hdumped => hdumped.append dumped
  have hclosed : (receive s M c).buf = none := by rw [hreceive]
  rw [next]
  split
  · exact ⟨hclosed, h.noWx, hcode, fun _ _ _ _ _ heq => Phase.noConfusion heq,
      fun _ _ _ _ heq => Phase.noConfusion heq⟩
  · rename_i first n prot done hphase
    refine ⟨hclosed, h.noWx, hcode, fun first' n' prot' done' asked' heq => ?_,
      fun first' n' prot' done' heq hexec k hk p hp hanon => ?_⟩
    · dsimp only at heq
      split at heq
      · cases heq
        exact h.prot first n prot done false hphase
      · cases heq
    · dsimp only at heq
      split at heq
      · rename_i hvalue
        cases heq
        obtain ⟨hfound, hstarts⟩ := hfinds first n prot done hphase hexec
        exact hook_dumps h.closed hok hfound hstarts hexec hvalue hk hp hanon
      · cases heq
  · exact h

/-- **`mprotect_fixup`** makes executable what the hook has sent. -/
theorem Inv.fixup (h : Inv start s) {count : ℕ} {succeeds : Bool} :
    Inv start (next filterWx s (.fixup count succeeds)) := by
  rw [next]
  split
  · rename_i first n prot done hphase
    have hprot := h.prot first n prot done true hphase
    split
    · exact h.change (fun _ _ => h.fine) fun _ _ _ _ _ heq => by cases heq
    · refine h.change (fun page p hp => ?_) fun _ _ _ _ _ heq => ?_
      · rw [protect] at hp
        split at hp
        · rename_i hrange
          obtain ⟨q, hq, rfl⟩ := Option.map_eq_some_iff.mp hp
          obtain ⟨k, rfl⟩ := Nat.exists_eq_add_of_le ((Nat.le_add_right first done).trans hrange.1)
          have hk : k < n := by omega
          exact ⟨hprot, fun hanon hexec =>
            Or.inl (h.asked first n prot done hphase hexec k hk q hq hanon)⟩
        · exact h.fine hp
      · split at heq <;> cases heq
        exact ⟨rfl, hprot⟩
  · exact h

/-- **One act** of a sound run keeps the invariant. -/
theorem Inv.next (h : Inv start s) {a : Act} (hsound : Sound s a) :
    Inv start (next filterWx s a) := by
  cases a with
  | store page content => exact h.store hsound
  | mmap first n prot file => exact h.mmap
  | brk first n => exact h.brk
  | munmap first n => exact h.munmap
  | mprotect pkey first n prot => exact h.mprotect
  | hook M c reply => exact h.hook hsound
  | fixup count succeeds => exact h.fixup
  | leave => exact h.leave

/-! ## Runs -/

/-- **The code that runs has been dumped.**  A program is started by filter-wx, with no page that is
writable and executable.  It stores, maps, unmaps and protects as it likes, in any order, and its
hooks and its calls end in any way, as long as the run is sound.  Then in every state of the run
each page of anonymous memory that is executable holds what a dump shows at its address, or zeros,
or what it held as executable memory when the program started. -/
theorem code_is_dumped (o : MainOutcome) (f : FilterCtx Syscall) (hmain : filterWxMain o = some f)
    (start : Process) (hidle : start.phase = .idle) (hclosed : start.receiver.buf = none)
    (hnoWx : ∀ page p, start.page page = some p → ¬ p.perms.IsWx) (acts : List Act)
    (hsound : ∀ x ∈ trace (next f) start acts, Sound x.1 x.2) :
    ∀ s ∈ states (next f) start acts, CodeDumped start s := by
  rw [eq_filterWx_of_main hmain] at hsound ⊢
  have hstart : Inv start start :=
    ⟨hclosed, hnoWx, fun page p hp hanon hexec => Or.inr (Or.inr ⟨p, hp, hanon, hexec, rfl⟩),
      fun _ _ _ _ _ heq => Phase.noConfusion (hidle.symm.trans heq),
      fun _ _ _ _ heq => Phase.noConfusion (hidle.symm.trans heq)⟩
  intro s hs
  exact (forall_states_of_trace (C := Sound) (fun _ _ h hC => Inv.next h hC) hstart hsound s
    hs).code

/-- The sample mapping, made executable. -/
def jitCall : PagesCall := { sampleCall with prot := protRead ||| protExec }

/-- A program that has written into its mapping at pages 1 to 3. -/
def jitProcess : Process where
  page page :=
    if 1 ≤ page ∧ page < 4 then
      some ⟨true, ⟨true, true, false⟩,
        pageContent sampleMemory (jitCall.pageTable.getD (page - 1) none)⟩
    else none
  phase := .idle
  receiver := ⟨none, []⟩

/-- An mprotect of the mapping. -/
def jitActs : List Act :=
  [.mprotect false 1 3 (protRead ||| protExec), .hook sampleMemory jitCall 0, .fixup 3 true]

theorem jitProcess_page {page : ℕ} {p : Page} (hp : jitProcess.page page = some p) :
    1 ≤ page ∧ page < 4 ∧ p = ⟨true, ⟨true, true, false⟩,
      pageContent sampleMemory (jitCall.pageTable.getD (page - 1) none)⟩ := by
  rw [jitProcess] at hp
  dsimp only at hp
  split at hp
  · rename_i hrange
    exact ⟨hrange.1, hrange.2, (Option.some.inj hp).symm⟩
  · cases hp

theorem jitCall_finds :
    Finds { jitProcess with phase := .protecting 1 3 (protRead ||| protExec) 0 false }
      1 3 (protRead ||| protExec) sampleMemory jitCall where
  target := rfl
  connected := rfl
  pageArray := rfl
  addr := rfl
  len := rfl
  prot := rfl
  vma p hp := by
    obtain ⟨-, -, rfl⟩ := jitProcess_page (show jitProcess.page 1 = some p from hp)
    exact ⟨none, rfl⟩
  walk k hk p hp := by
    obtain ⟨-, -, rfl⟩ := jitProcess_page (show jitProcess.page (1 + k) = some p from hp)
    have hlength : k < jitCall.pageTable.length := hk
    refine ⟨jitCall.pageTable[k], List.getElem?_eq_getElem hlength, ?_⟩
    rw [Nat.add_sub_cancel_left, List.getD_eq_getElem _ _ hlength]

/-- The three pages are executable, and dumped. -/
theorem code_is_dumped_of_sample :
    CodeDumped jitProcess (jitActs.foldl (next filterWx) jitProcess) := by
  refine code_is_dumped .ok filterWx rfl jitProcess rfl rfl (fun page p hp => ?_) jitActs ?_ _
    (foldl_mem_states _ _)
  · obtain ⟨-, -, rfl⟩ := jitProcess_page hp
    exact fun hwx => Bool.false_ne_true hwx.2
  · simp only [jitActs, trace, List.forall_mem_cons]
    refine ⟨trivial, ⟨sampleCall_allocationsSucceed, fun first n prot done hphase _ => ?_⟩, trivial,
      fun _ hx => absurd hx List.not_mem_nil⟩
    have hstate : next filterWx jitProcess (.mprotect false 1 3 (protRead ||| protExec)) =
        { jitProcess with phase := .protecting 1 3 (protRead ||| protExec) 0 false } := rfl
    rw [hstate] at hphase ⊢
    cases hphase
    exact ⟨jitCall_finds, fun _ => ⟨_, rfl, rfl⟩⟩

/-! ## What the exclusions are for -/

theorem not_codeDumped_of_fixup {f : FilterCtx Syscall} {done count k : ℕ} {p : Page}
    (hphase : s.phase = .protecting first n prot done true)
    (hexec : (Perms.ofProt prot).exec = true) (hle : done ≤ k) (hlt : k < done + count) (hk : k < n)
    (hp : s.page (first + k) = some p) (hanon : p.anon = true)
    (hdumped : ¬ Dumped s.receiver.done (first + k) p.content)
    (hharmless : ¬ Harmless start (first + k) p.content) :
    ¬ CodeDumped start (next f s (.fixup count true)) := by
  have hnext : (next f s (.fixup count true)).page (first + k) =
      some { p with perms := .ofProt prot } := by
    rw [next, hphase]
    show protect s.page (first + done) (first + min (done + count) n) (.ofProt prot) (first + k) = _
    rw [protect, if_pos (by omega), hp]
    rfl
  have hreceiver : (next f s (.fixup count true)).receiver = s.receiver := by
    rw [next, hphase]
    rfl
  intro hcode
  rcases hcode _ _ hnext hanon hexec with h | h
  · rw [hreceiver] at h
    exact hdumped h
  · exact hharmless h

/-- **A store behind the hook's back.**  Another thread stores into a page that the hook has let
pass, before its permissions change: what it has stored runs. -/
theorem store_after_hook {f : FilterCtx Syscall} {done : ℕ} {p : Page}
    (hphase : s.phase = .protecting first n prot done true)
    (hexec : (Perms.ofProt prot).exec = true) (hdone : done < n)
    (hp : s.page (first + done) = some p) (hanon : p.anon = true) (hwrite : p.perms.write = true)
    {content : Chars pageSize} (hdumped : ¬ Dumped s.receiver.done (first + done) content)
    (hharmless : ¬ Harmless start (first + done) content) :
    ¬ CodeDumped start ([.store (first + done) content, .fixup 1 true].foldl (next f) s) := by
  have hstore : next f s (.store (first + done) content) = { s with
      page := Function.update s.page (first + done) (some { p with content := content }) } := by
    rw [next, hp]
    exact if_pos hwrite
  rw [List.foldl_cons, List.foldl_cons, List.foldl_nil, hstore]
  exact not_codeDumped_of_fixup hphase hexec le_rfl (Nat.lt_succ_self done) hdone
    (Function.update_self ..) hanon hdumped hharmless

/-- **Pages behind a file mapping.**  The range starts in a file mapping: the hook skips all of it,
and what is in the anonymous pages behind it runs. -/
theorem hook_skips_file {f : FilterCtx Syscall} {done count k : ℕ} {p q : Page} {reply : Int32}
    (hphase : s.phase = .protecting first n prot done false) (hfinds : Finds s first n prot M c)
    (hrange : c.addr ≠ 0 ∧ c.len ≠ 0) (hexec : (Perms.ofProt prot).exec = true)
    (hq : s.page first = some q) (hfile : q.anon = false) (hle : done ≤ k) (hlt : k < done + count)
    (hk : k < n) (hp : s.page (first + k) = some p) (hanon : p.anon = true)
    (hdumped : ¬ Dumped s.receiver.done (first + k) p.content)
    (hharmless : ¬ Harmless start (first + k) p.content) :
    ¬ CodeDumped start ([.hook M c reply, .fixup count true].foldl (next f) s) := by
  obtain ⟨name, hvma⟩ := hfinds.vma q hq
  rw [hfile] at hvma
  have hprot : ¬ (c.prot &&& protExec = 0 ∧ c.prot &&& protWrite = 0) := fun hnone =>
    of_decide_eq_true hexec (hfinds.prot ▸ hnone.1)
  have hchecked : c.checked = .error skipped := by
    simp [PagesCall.checked, hfinds.target, hfinds.connected, hrange, hprot, hvma]
  have hvalue : hookValue M c reply = 0 := by
    rw [hookValue, sendPagesToUserspaceTcp, hchecked]
    rfl
  have hreceive : receive s M c = s.receiver := by
    rw [receive, PagesCall.frames, hchecked]
    rfl
  have hhook : next f s (.hook M c reply) =
      { s with phase := .protecting first n prot done true } := by
    rw [next, hphase]
    dsimp only
    rw [if_pos hvalue, hreceive]
  rw [List.foldl_cons, List.foldl_cons, List.foldl_nil, hhook]
  exact not_codeDumped_of_fixup rfl hexec hle hlt hk hp hanon hdumped hharmless

end ShownCode
end LsmFork
