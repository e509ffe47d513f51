import Mathlib.Data.Nat.Bitwise
import LsmFork.Kernel.Hook
import LsmFork.Lib.Runs
import LsmFork.Lib.Seccomp

/-!
# filter-wx

`filter-wx` loads a seccomp filter and starts a program under it.  The filter has three rules: mmap,
mprotect and pkey_mprotect fail when their third argument asks for write and execute permission
together.  What the calls do to the pages is the kernel's, and is modelled as far as permissions go:
the three calls set the pages they cover to their third argument, shmat maps its segment as its
flags say, and any other call leaves each page at most the permissions that some page had.

* `Perms`, `Pages`: the permissions of a page, and of all pages.
* `filterWx`, `filterWxMain`: the rules, and the part of `main` that can fail.
* `SyscallStep`, `next`: a call with its outcome, under a filter.
* `filterWx_decides`: one call under the filter; `noWx_iff`: a program from its start.
-/

namespace LsmFork
namespace WriteExec

open Runs Seccomp

/-! ## The filter -/

/-- The calls that the filter or the model knows by name. -/
inductive Syscall where
  | mmap
  | mprotect
  | pkeyMprotect
  | shmat
  | other (nr : ℕ)
  deriving DecidableEq

/-- `PROT_WX`. -/
def protWx : UInt64 := protWrite ||| protExec

/-- `EPERM`. -/
def ePerm : ℕ := 1

/-- The rule that `main` adds for a call: its third argument has all bits of `PROT_WX`. -/
def wxRule (nr : Syscall) : Rule Syscall where
  action := .errno ePerm
  nr := nr
  cmps := [⟨2, protWx, protWx⟩]

/-- The calls that get a rule, in order. -/
def ruledCalls : List Syscall := [.mmap, .mprotect, .pkeyMprotect]

/-- The filter that `main` builds. -/
def filterWx : FilterCtx Syscall where
  default := .allow
  rules := ruledCalls.map wxRule

/-- The outcome of everything that can fail in `main`. -/
structure MainOutcome where
  argc : Int32
  seccompInit : Bool
  seccompRuleAdd : Syscall → Int32
  seccompLoad : Int32
  calloc : Bool
  execvp : Bool

/-- `main`: the filter under which the program runs, if it is started at all. -/
def filterWxMain (o : MainOutcome) : Option (FilterCtx Syscall) :=
  if o.argc < 2 then none
  else if !o.seccompInit then none
  else if ruledCalls.any fun nr => o.seccompRuleAdd nr < 0 then none
  else if o.seccompLoad < 0 then none
  else if !o.calloc then none
  else if !o.execvp then none
  else some filterWx

/-- A program that is started runs under all three rules. -/
theorem eq_filterWx_of_main {o : MainOutcome} {f : FilterCtx Syscall}
    (h : filterWxMain o = some f) : f = filterWx := by
  rw [filterWxMain] at h
  repeat' (split at h; · cases h)
  exact (Option.some.inj h).symm

/-! ## Pages -/

/-- The permissions of a page.  A page that is not mapped has none. -/
structure Perms where
  read : Bool
  write : Bool
  exec : Bool
  deriving DecidableEq

namespace Perms

/-- No permission. -/
def none : Perms := ⟨false, false, false⟩

/-- The `PROT_` bits of an argument. -/
def ofProt (prot : UInt64) : Perms :=
  ⟨prot &&& protRead ≠ 0, prot &&& protWrite ≠ 0, prot &&& protExec ≠ 0⟩

/-- The permissions that both have. -/
def meet (a b : Perms) : Perms := ⟨a.read && b.read, a.write && b.write, a.exec && b.exec⟩

/-- Writable and executable. -/
def IsWx (p : Perms) : Prop := p.write = true ∧ p.exec = true

instance (p : Perms) : Decidable p.IsWx := inferInstanceAs (Decidable (_ ∧ _))

theorem isWx_of_meet {a b : Perms} (h : (a.meet b).IsWx) : a.IsWx := by
  simp only [IsWx, meet, Bool.and_eq_true] at h
  exact ⟨h.1.1, h.2.1⟩

end Perms

/-- The permissions of every page. -/
abbrev Pages := ℕ → Perms

/-- No page is both writable and executable. -/
def NoWx (pages : Pages) : Prop := ∀ page, ¬ (pages page).IsWx

/-! ## System calls -/

/-- `SHM_RDONLY`. -/
def shmRdonly : UInt64 := 0o10000

/-- `SHM_EXEC`. -/
def shmExec : UInt64 := 0o100000

/-- The `PROT_` bits with which shmat maps a segment. -/
def shmProt (shmflg : UInt64) : UInt64 :=
  (if shmflg &&& shmRdonly ≠ 0 then protRead else protRead ||| protWrite) |||
    (if shmflg &&& shmExec ≠ 0 then protExec else 0)

/-- A call of the program with its outcome: whether the kernel carries it out, the pages that it
covers, and, for a call that is none of the four, where the permissions of each page come from: a
page from before, and what is left of its permissions. -/
structure SyscallStep where
  call : Call Syscall
  succeeds : Bool
  covers : ℕ → Bool
  moved : ℕ → Option (ℕ × Perms)

/-- Set the pages that a call covers. -/
def setPages (pages : Pages) (covers : ℕ → Bool) (prot : UInt64) : Pages :=
  fun page => if covers page then .ofProt prot else pages page

/-- **One call under a filter.** -/
def next (f : FilterCtx Syscall) (pages : Pages) (step : SyscallStep) : Pages :=
  match f.action step.call with
  | .errno _ => pages
  | .allow =>
    if !step.succeeds then pages
    else
      match step.call.nr with
      | .mmap => setPages pages step.covers (step.call.args 2)
      | .mprotect => setPages pages step.covers (step.call.args 2)
      | .pkeyMprotect => setPages pages step.covers (step.call.args 2)
      | .shmat => setPages pages step.covers (shmProt (step.call.args 2))
      | .other _ => fun page =>
        match step.moved page with
        | none => .none
        | some (old, left) => (pages old).meet left

/-- A shmat that maps a segment for execution and not for reading only. -/
def MapsSegmentWx (step : SyscallStep) : Prop :=
  step.call.nr = .shmat ∧ step.call.args 2 &&& shmExec ≠ 0 ∧
    step.call.args 2 &&& shmRdonly = 0 ∧ step.succeeds = true ∧ ∃ page, step.covers page = true

/-! ## Permissions and arguments -/

theorem and_two_pow (x : UInt64) {i : ℕ} (hi : i < 64) :
    x &&& UInt64.ofNat (2 ^ i) = if x.toNat.testBit i then UInt64.ofNat (2 ^ i) else 0 := by
  have hpow : (UInt64.ofNat (2 ^ i)).toNat = 2 ^ i :=
    UInt64.toNat_ofNat_of_lt' (Nat.pow_lt_pow_right (by omega) hi)
  apply UInt64.toNat_inj.mp
  rw [UInt64.toNat_and, hpow, Nat.and_two_pow]
  cases x.toNat.testBit i with
  | true => rw [if_pos rfl, hpow, Bool.toNat_true, Nat.one_mul]
  | false => rw [if_neg Bool.false_ne_true, Bool.toNat_false, Nat.zero_mul]; rfl

theorem isWx_ofProt_iff (prot : UInt64) : (Perms.ofProt prot).IsWx ↔ prot &&& protWx = protWx := by
  have hwrite : prot &&& protWrite = if prot.toNat.testBit 1 then protWrite else 0 :=
    and_two_pow prot (i := 1) (by omega)
  have hexec : prot &&& protExec = if prot.toNat.testBit 2 then protExec else 0 :=
    and_two_pow prot (i := 2) (by omega)
  have hboth : prot &&& protWx = (prot &&& protWrite) ||| (prot &&& protExec) := by
    apply UInt64.toBitVec_inj.mp
    exact BitVec.and_or_distrib_left
  rw [hboth, Perms.IsWx, Perms.ofProt, hwrite, hexec]
  generalize decide (prot &&& protRead ≠ 0) = read
  cases read <;> cases prot.toNat.testBit 1 <;> cases prot.toNat.testBit 2 <;> decide

/-- A segment is mapped writable and executable exactly when the flags ask for execution, and not
for reading only. -/
theorem isWx_shmProt_iff (shmflg : UInt64) : (Perms.ofProt (shmProt shmflg)).IsWx ↔
    shmflg &&& shmExec ≠ 0 ∧ shmflg &&& shmRdonly = 0 := by
  rw [shmProt]
  by_cases hexec : shmflg &&& shmExec = 0 <;> by_cases hread : shmflg &&& shmRdonly = 0 <;>
    simp only [hexec, hread, ne_eq, not_true_eq_false, not_false_eq_true, if_true, if_false] <;>
    decide

/-! ## The calls under the filter -/

variable {pages : Pages} {step : SyscallStep}

theorem noWx_setPages {covers : ℕ → Bool} {prot : UInt64} (h : NoWx pages)
    (hprot : ¬ (Perms.ofProt prot).IsWx) : NoWx (setPages pages covers prot) := by
  intro page
  rw [setPages]
  split
  · exact hprot
  · exact h page

/-- **What the filter allows**: a call of the three keeps write and execute permission apart. -/
theorem not_wx_of_allow (hallow : filterWx.action step.call = .allow)
    (hruled : step.call.nr ∈ ruledCalls) : ¬ (Perms.ofProt (step.call.args 2)).IsWx := by
  have hrules : ∀ r ∈ filterWx.rules, r.action ≠ filterWx.default := by
    intro r hr
    obtain ⟨nr, -, rfl⟩ := List.mem_map.mp hr
    exact fun h => by cases h
  have hnone := (FilterCtx.action_eq_default_iff hrules step.call).mp hallow
  rw [isWx_ofProt_iff]
  intro hwx
  refine hnone _ (List.mem_map_of_mem hruled) ⟨rfl, fun cmp hcmp => ?_⟩
  rw [List.mem_singleton.mp hcmp]
  exact hwx

/-- The filter has no rule for shmat. -/
theorem action_shmat (hnr : step.call.nr = .shmat) : filterWx.action step.call = .allow := by
  refine (FilterCtx.action_eq_default_iff (fun r hr => ?_) step.call).mpr fun r hr hmatches => ?_
  · obtain ⟨nr, -, rfl⟩ := List.mem_map.mp hr
    exact fun h => by cases h
  · obtain ⟨nr, hnr', rfl⟩ := List.mem_map.mp hr
    obtain rfl : Syscall.shmat = nr := hnr.symm.trans hmatches.1
    revert hnr'
    decide

/-- **One call under the filter** keeps write and execute permission apart exactly when it is no
shmat that maps a segment with both. -/
theorem filterWx_decides :
    Decides (next filterWx) (fun _ => True) NoWx NoWx fun _ step => ¬ MapsSegmentWx step where
  safe := id
  keeps {pages step} h _ hC := by
    rw [next]
    split
    · exact h
    · rename_i hallow
      split
      · exact h
      · rename_i hsucceeds
        split
        · rename_i hnr
          exact noWx_setPages h (not_wx_of_allow hallow (by rw [hnr]; decide))
        · rename_i hnr
          exact noWx_setPages h (not_wx_of_allow hallow (by rw [hnr]; decide))
        · rename_i hnr
          exact noWx_setPages h (not_wx_of_allow hallow (by rw [hnr]; decide))
        · -- a segment with both permissions covers no page
          rename_i hnr
          intro page
          rw [setPages]
          split
          · rename_i hpage
            intro hwx
            obtain ⟨hexec, hread⟩ := (isWx_shmProt_iff _).mp hwx
            exact hC ⟨hnr, hexec, hread, by simpa using hsucceeds, page, hpage⟩
          · exact h page
        · intro page
          dsimp only
          split
          · decide
          · exact fun hwx => h _ (Perms.isWx_of_meet hwx)
  breaks {pages step} h _ hC hP := by
    obtain ⟨hnr, hexec, hread, hsucceeds, page, hpage⟩ := not_not.mp hC
    have hnext : next filterWx pages step =
        setPages pages step.covers (shmProt (step.call.args 2)) := by
      rw [next, action_shmat hnr, hsucceeds, hnr]
      rfl
    refine hP page ?_
    rw [hnext, setPages, if_pos hpage]
    exact (isWx_shmProt_iff _).mpr ⟨hexec, hread⟩

/-- **A program under filter-wx** never has a page that is writable and executable, in a run from
its start, exactly when no shmat of the run maps a segment with both permissions. -/
theorem noWx_iff (o : MainOutcome) (f : FilterCtx Syscall) (hmain : filterWxMain o = some f)
    (pages : Pages) (hstart : NoWx pages) (steps : List SyscallStep) :
    (∀ t ∈ states (next f) pages steps, NoWx t) ↔ ∀ step ∈ steps, ¬ MapsSegmentWx step := by
  rw [eq_filterWx_of_main hmain, filterWx_decides.states_iff hstart fun _ _ => trivial]
  exact forall_trace_act_iff (Q := fun step => ¬ MapsSegmentWx step)

/-- Everything that `main` does succeeds. -/
def MainOutcome.ok : MainOutcome := ⟨2, true, fun _ => 0, 0, true, true⟩

/-- A shared memory segment of one page is attached at page 7, for reading, writing and
execution. -/
def attachSegment : SyscallStep where
  call := ⟨.shmat, fun i => if i = 2 then shmExec else 0⟩
  succeeds := true
  covers page := page == 7
  moved _ := none

/-- A program that attaches the segment, from an address space without pages. -/
theorem noWx_attachSegment_iff :
    (∀ t ∈ states (next filterWx) (fun _ => .none) [attachSegment], NoWx t) ↔
      ∀ step ∈ [attachSegment], ¬ MapsSegmentWx step :=
  noWx_iff .ok filterWx rfl (fun _ => .none) (fun _ h => Bool.false_ne_true h.1) [attachSegment]

/-- **A page that is writable and executable**, made by a call that the filter does not look at. -/
theorem attachSegment_wx : ¬ ∀ (o : MainOutcome) (f : FilterCtx Syscall),
    filterWxMain o = some f → ∀ pages : Pages, NoWx pages → ∀ steps : List SyscallStep,
      ∀ t ∈ states (next f) pages steps, NoWx t := by
  intro hall
  have hsafe := hall .ok filterWx rfl (fun _ => .none) (fun _ h => Bool.false_ne_true h.1)
    [attachSegment] _ (foldl_mem_states _ _)
  exact hsafe 7 ⟨rfl, rfl⟩

end WriteExec
end LsmFork
