import LsmFork.Kernel.Hook

/-!
# The second argument

The hook copies at most 1023 bytes of the process's argument area and runs two loops over the copy:
one over the first field, one that copies the second field into `args`.  This file compares them
with the split of the same bytes at their NULs, and says where the loops read and write.

* `secondField`, `paddedArg`: what `args` should hold.
* `ArgAccess`, `secondArgAccesses`: the places that the loops use.
* `skipField_eq`, `copyField_spec`: the two loops.
* `secondArg_spec`: all places are inside, and `args` holds the second field.
-/

namespace LsmFork

open CString

/-! ## What `args` should hold -/

/-- The second NUL-separated field. -/
def secondField (window : List UInt8) : List UInt8 := ((window.splitOn 0)[1]?).getD []

/-- A field in the array: cut to leave room for a terminator, with zeros behind it. -/
def paddedArg (field : List UInt8) : List UInt8 :=
  field.take (maxArgLen - 1) ++ List.replicate (maxArgLen - (field.take (maxArgLen - 1)).length) 0

/-- Without a NUL there is one field only. -/
theorem secondField_of_notMem {window : List UInt8} (h : (0 : UInt8) ∉ window) :
    secondField window = [] := by
  rw [secondField, List.splitOn_eq_singleton h]
  rfl

/-- Behind the first NUL, the second field ends at the next one. -/
theorem secondField_of_append {s rest : List UInt8} (h : (0 : UInt8) ∉ s) :
    secondField (s ++ 0 :: rest) = cstr rest := by
  rw [secondField, List.splitOn_append_cons_self_of_not_mem h]
  by_cases hrest : (cstr rest).length < rest.length
  · obtain ⟨rest', heq⟩ := exists_eq_cstr_append hrest
    conv_lhs => rw [heq]
    rw [List.splitOn_append_cons_self_of_not_mem (zero_notMem_cstr rest)]
    rfl
  · -- there is no second NUL
    have hall : cstr rest = rest :=
      (List.takeWhile_prefix _).eq_of_length_le (Nat.le_of_not_lt hrest)
    have hzero : (0 : UInt8) ∉ rest := hall ▸ zero_notMem_cstr rest
    rw [List.splitOn_eq_singleton hzero, hall]
    rfl

/-! ## Where the loops read and write -/

/-- An index into `temp_buf` or into `args`. -/
inductive ArgAccess where
  | tempBuf (k : ℕ)
  | args (k : ℕ)
  deriving DecidableEq

/-- The index is one of the array. -/
def ArgAccess.Inside : ArgAccess → Prop
  | tempBuf k => k < tempBufLen
  | args k => k < maxArgLen

/-- The places of the first loop. -/
def skipAccesses (tempBuf : List UInt8) (argLen i : ℕ) : List ArgAccess :=
  if i < argLen then
    .tempBuf i :: if tempBuf.getD i 0 ≠ 0 then skipAccesses tempBuf argLen (i + 1) else []
  else []
termination_by argLen - i

/-- The places of the second loop, which reads each character for its test and once more to copy
it. -/
def copyAccesses (tempBuf : List UInt8) (argLen i j : ℕ) : List ArgAccess :=
  if i + j < argLen then
    .tempBuf (i + j) ::
      if tempBuf.getD (i + j) 0 ≠ 0 then
        .tempBuf (i + j) :: .args j ::
          if j + 1 = maxArgLen - 1 then [] else copyAccesses tempBuf argLen i (j + 1)
      else []
  else []
termination_by argLen - (i + j)

/-- The places that the extraction of the second argument uses, once the copy has succeeded. -/
def secondArgAccesses (area : List UInt8) : List ArgAccess :=
  let argLen := if tempBufLen ≤ area.length then tempBufLen - 1 else area.length
  let tempBuf := area.take argLen ++ List.replicate (tempBufLen - argLen) 0
  let i := skipField tempBuf argLen 0 + 1
  skipAccesses tempBuf argLen 0 ++
    if i < argLen then
      .tempBuf i ::
        if tempBuf.getD i 0 ≠ 0 then
          copyAccesses tempBuf argLen i 0 ++
            [.args (copyField tempBuf argLen i (zeroChars maxArgLen) 0).2]
        else [.args 0]
    else [.args 0]

theorem skipAccesses_inside {tempBuf : List UInt8} {argLen : ℕ} (hlen : argLen < tempBufLen)
    (i : ℕ) : ∀ a ∈ skipAccesses tempBuf argLen i, a.Inside := by
  induction hn : argLen - i using Nat.strong_induction_on generalizing i with
  | _ n ih =>
    rw [skipAccesses]
    split
    · rename_i hi
      rw [List.forall_mem_cons]
      refine ⟨lt_trans hi hlen, ?_⟩
      split
      · exact ih (argLen - (i + 1)) (by omega) (i + 1) rfl
      · exact List.forall_mem_nil _
    · exact List.forall_mem_nil _

theorem copyAccesses_inside {tempBuf : List UInt8} {argLen : ℕ} (hlen : argLen < tempBufLen)
    (i j : ℕ) (hj : j < maxArgLen - 1) :
    ∀ a ∈ copyAccesses tempBuf argLen i j, a.Inside := by
  induction hn : argLen - (i + j) using Nat.strong_induction_on generalizing j with
  | _ n ih =>
    rw [copyAccesses]
    split
    · rename_i hij
      rw [List.forall_mem_cons]
      refine ⟨lt_trans hij hlen, ?_⟩
      split
      · rw [List.forall_mem_cons, List.forall_mem_cons]
        refine ⟨lt_trans hij hlen, lt_of_lt_of_le hj (Nat.sub_le _ _), ?_⟩
        split
        · exact List.forall_mem_nil _
        · exact ih (argLen - (i + (j + 1))) (by omega) (j + 1) (by omega) rfl
      · exact List.forall_mem_nil _
    · exact List.forall_mem_nil _

/-! ## What the loops leave -/

theorem getD_of_lt_cstr {s : List UInt8} {j : ℕ} (hj : j < (cstr s).length) :
    s.getD j 0 = (cstr s)[j] := by
  have hprefix : cstr s <+: s := List.takeWhile_prefix _
  rw [List.getD_eq_getElem?_getD, List.getElem?_eq_getElem (hj.trans_le hprefix.length_le),
    hprefix.getElem hj]
  rfl

/-- A place in front of which there is no NUL is inside the string exactly when the loops go on
there. -/
theorem lt_length_cstr_iff {s : List UInt8} {j : ℕ} (hj : j ≤ (cstr s).length) :
    j < (cstr s).length ↔ j < s.length ∧ s.getD j 0 ≠ 0 := by
  constructor
  · intro hlt
    refine ⟨hlt.trans_le (List.takeWhile_prefix _).length_le, fun hzero => ?_⟩
    rw [getD_of_lt_cstr hlt] at hzero
    exact zero_notMem_cstr s (hzero ▸ List.getElem_mem hlt)
  · rintro ⟨hlt, hne⟩
    by_contra hge
    obtain rfl : j = (cstr s).length := le_antisymm hj (Nat.le_of_not_lt hge)
    obtain ⟨rest, hrest⟩ := exists_eq_cstr_append hlt
    have hend : s[(cstr s).length]? = some 0 := by
      rw [← List.head?_drop, drop_length_cstr hrest]
      rfl
    rw [List.getD_eq_getElem?_getD, hend] at hne
    exact hne rfl

theorem set_copied {s : List UInt8} {j : ℕ} (hj : j < s.length) (hmax : j < maxArgLen) :
    (s.take j ++ List.replicate (maxArgLen - j) 0).set j s[j] =
      s.take (j + 1) ++ List.replicate (maxArgLen - (j + 1)) 0 := by
  have htake : (s.take j).length = j := List.length_take_of_le hj.le
  obtain ⟨n, hn⟩ : ∃ n, maxArgLen - j = n + 1 := ⟨maxArgLen - (j + 1), by omega⟩
  rw [List.set_append_right _ _ htake.le, htake, Nat.sub_self, hn, List.replicate_succ,
    List.set_cons_zero, List.take_add_one, List.getElem?_eq_getElem hj, List.append_assoc,
    show maxArgLen - (j + 1) = n by omega]
  rfl

section Loops

variable {window tempBuf : List UInt8} (hbuf : ∀ k, tempBuf.getD k 0 = window.getD k 0)

include hbuf

/-- **The first loop** ends behind the first field. -/
theorem skipField_eq {i : ℕ} (hi : i ≤ (cstr window).length) :
    skipField tempBuf window.length i = (cstr window).length := by
  induction hn : (cstr window).length - i generalizing i with
  | zero =>
    have hstop : ¬ (i < window.length ∧ tempBuf.getD i 0 ≠ 0) := by
      rw [hbuf, ← lt_length_cstr_iff hi]
      omega
    rw [skipField, if_neg hstop]
    omega
  | succ n ih =>
    have hgo : i < window.length ∧ tempBuf.getD i 0 ≠ 0 := by
      rw [hbuf, ← lt_length_cstr_iff hi]
      omega
    rw [skipField, if_pos hgo]
    exact ih (by omega) (by omega)

theorem copyField_goes_on_iff {i j : ℕ} (hj : j ≤ (cstr (window.drop i)).length) :
    (i + j < window.length ∧ tempBuf.getD (i + j) 0 ≠ 0) ↔
      j < (cstr (window.drop i)).length := by
  have hread : tempBuf.getD (i + j) 0 = (window.drop i).getD j 0 := by
    rw [hbuf, List.getD_eq_getElem?_getD, List.getD_eq_getElem?_getD, List.getElem?_drop]
  rw [hread, lt_length_cstr_iff hj, List.length_drop]
  exact and_congr_left fun _ => by omega

/-- **The second loop** copies the field that starts at `i`. -/
theorem copyField_spec {i j : ℕ} {args : Chars maxArgLen}
    (hj : j ≤ (cstr (window.drop i)).length) (hmax : j < maxArgLen - 1)
    (hargs : args.toList =
      (cstr (window.drop i)).take j ++ List.replicate (maxArgLen - j) 0) :
    (copyField tempBuf window.length i args j).1.toList = paddedArg (cstr (window.drop i)) ∧
      (copyField tempBuf window.length i args j).2 =
        min (maxArgLen - 1) (cstr (window.drop i)).length := by
  induction hn : (cstr (window.drop i)).length - j generalizing j args with
  | zero =>
    -- the field ends here
    have hend : (cstr (window.drop i)).length = j := by omega
    rw [copyField, if_neg (fun hgo => absurd ((copyField_goes_on_iff hbuf hj).mp hgo) (by omega)),
      paddedArg, List.take_of_length_le (hend.trans_le hmax.le), hend]
    rw [← hend, List.take_length] at hargs
    exact ⟨hend ▸ hargs, (min_eq_right hmax.le).symm⟩
  | succ n ih =>
    have hlt : j < (cstr (window.drop i)).length := by omega
    have hread : tempBuf.getD (i + j) 0 = (cstr (window.drop i))[j] := by
      rw [← getD_of_lt_cstr hlt, hbuf, List.getD_eq_getElem?_getD, List.getD_eq_getElem?_getD,
        List.getElem?_drop]
    have hput : (putChar args j (tempBuf.getD (i + j) 0)).toList =
        (cstr (window.drop i)).take (j + 1) ++ List.replicate (maxArgLen - (j + 1)) 0 := by
      rw [hread, ← set_copied hlt (hmax.trans_le (Nat.sub_le _ _)), ← hargs]
      rfl
    rw [copyField, if_pos ((copyField_goes_on_iff hbuf hj).mpr hlt)]
    dsimp only
    split
    · -- the array is full
      rename_i hfull
      rw [hfull] at hput
      refine ⟨?_, by rw [min_eq_left (by omega)]; exact hfull⟩
      rw [hput, paddedArg, List.length_take_of_le (by omega)]
    · exact ih hlt (by omega) hput (by omega)

end Loops

/-! ## The extraction -/

/-- The bytes that the hook copies: all of the area, or the first 1023. -/
def argWindow (area : List UInt8) : List UInt8 := area.take (min area.length (tempBufLen - 1))

theorem argWindow_length (area : List UInt8) :
    (argWindow area).length =
      if tempBufLen ≤ area.length then tempBufLen - 1 else area.length := by
  rw [argWindow, List.length_take]
  unfold tempBufLen
  split <;> omega

/-- `temp_buf` behind the copy. -/
theorem getD_argWindow (window : List UInt8) (n k : ℕ) :
    (window ++ List.replicate n 0).getD k 0 = window.getD k 0 := by
  rw [List.getD_eq_getElem?_getD, List.getD_eq_getElem?_getD, List.getElem?_append]
  split
  · rfl
  · rename_i hge
    rw [List.getElem?_eq_none (Nat.le_of_not_lt hge), List.getElem?_replicate]
    split <;> rfl

theorem set_paddedArg (field : List UInt8) :
    (paddedArg field).set (min (maxArgLen - 1) field.length) 0 = paddedArg field := by
  unfold paddedArg
  rw [← List.length_take, List.set_append_right _ _ (le_refl _), Nat.sub_self,
    List.set_replicate_self]

section Window

variable (window : List UInt8)

/-- `temp_buf`, with a window at its front. -/
def argBuf : List UInt8 := window ++ List.replicate (tempBufLen - window.length) 0

theorem getD_argBuf (k : ℕ) : (argBuf window).getD k 0 = window.getD k 0 :=
  getD_argWindow window _ k

theorem skipField_window :
    skipField (argBuf window) window.length 0 = (cstr window).length :=
  skipField_eq (getD_argBuf window) (Nat.zero_le _)

/-- What stands behind the first NUL is the second field, and it is empty when there is none. -/
theorem secondField_eq :
    secondField window = cstr (window.drop ((cstr window).length + 1)) := by
  by_cases hend : (cstr window).length < window.length
  · obtain ⟨rest, hrest⟩ := exists_eq_cstr_append hend
    have hdrop : window.drop ((cstr window).length + 1) = rest := by
      rw [← List.drop_drop, drop_length_cstr hrest]
      rfl
    rw [hdrop, ← secondField_of_append (zero_notMem_cstr window), ← hrest]
  · have hall : cstr window = window :=
      (List.takeWhile_prefix _).eq_of_length_le (Nat.le_of_not_lt hend)
    rw [secondField_of_notMem (hall ▸ zero_notMem_cstr window),
      List.drop_of_length_le (by omega)]
    rfl

theorem secondField_ne_nil_iff :
    ((cstr window).length + 1 < window.length ∧
        (argBuf window).getD ((cstr window).length + 1) 0 ≠ 0) ↔
      secondField window ≠ [] := by
  rw [secondField_eq, ← List.length_pos_iff]
  exact copyField_goes_on_iff (getD_argBuf window) (Nat.zero_le _)

theorem copyField_window :
    (copyField (argBuf window) window.length ((cstr window).length + 1)
        (zeroChars maxArgLen) 0).1.toList = paddedArg (secondField window) ∧
      (copyField (argBuf window) window.length ((cstr window).length + 1)
        (zeroChars maxArgLen) 0).2 = min (maxArgLen - 1) (secondField window).length := by
  rw [secondField_eq]
  exact copyField_spec (getD_argBuf window) (Nat.zero_le _) (by decide) rfl

end Window

/-- The window is what the source copies. -/
theorem take_argWindow (area : List UInt8) :
    area.take (argWindow area).length = argWindow area := by
  rw [argWindow_length]
  unfold argWindow tempBufLen
  split
  · rw [min_eq_right (by omega)]
  · rw [min_eq_left (by omega)]

/-- The extraction, over the bytes that the hook copies. -/
theorem secondArg_eq {area : List UInt8} (harea : area ≠ []) :
    (secondArg area true).toList = paddedArg (secondField (argWindow area)) := by
  have hbuf : argWindow area ++ List.replicate (tempBufLen - (argWindow area).length) 0 =
      argBuf (argWindow area) := rfl
  rw [secondArg, if_neg harea, ← argWindow_length]
  simp only [if_true, take_argWindow, hbuf, skipField_window]
  by_cases hfield : secondField (argWindow area) = []
  · rw [if_neg (fun h => (secondField_ne_nil_iff _).mp h hfield), hfield]
    rfl
  · obtain ⟨hcopied, hcount⟩ := copyField_window (argWindow area)
    rw [if_pos ((secondField_ne_nil_iff _).mpr hfield), putChar, hcount]
    show List.set _ _ _ = _
    rw [hcopied, set_paddedArg]

theorem secondArgAccesses_inside (area : List UInt8) :
    ∀ a ∈ secondArgAccesses area, a.Inside := by
  have hlen : (argWindow area).length < tempBufLen := by
    rw [argWindow_length]
    unfold tempBufLen
    split <;> omega
  have hbuf : argWindow area ++ List.replicate (tempBufLen - (argWindow area).length) 0 =
      argBuf (argWindow area) := rfl
  have hterminator : (copyField (argBuf (argWindow area)) (argWindow area).length
      ((cstr (argWindow area)).length + 1) (zeroChars maxArgLen) 0).2 < maxArgLen := by
    rw [(copyField_window (argWindow area)).2]
    exact lt_of_le_of_lt (min_le_left _ _) (by decide)
  rw [secondArgAccesses, ← argWindow_length]
  simp only [take_argWindow, hbuf, skipField_window]
  rw [List.forall_mem_append]
  refine ⟨skipAccesses_inside hlen 0, ?_⟩
  split
  · rename_i hi
    rw [List.forall_mem_cons]
    refine ⟨lt_trans hi hlen, ?_⟩
    split
    · rw [List.forall_mem_append, List.forall_mem_singleton]
      exact ⟨copyAccesses_inside hlen _ 0 (by decide), hterminator⟩
    · rw [List.forall_mem_singleton]
      exact Nat.zero_lt_succ _
  · rw [List.forall_mem_singleton]
    exact Nat.zero_lt_succ _

/-- **The sent argument** is the process's second argument: the loops stay inside `temp_buf` and
`args`, and `args` holds the second field of what has been copied, cut to 127 characters, with zeros
behind it. -/
theorem secondArg_spec {area : List UInt8} (harea : area ≠ []) :
    (∀ a ∈ secondArgAccesses area, a.Inside) ∧
      (secondArg area true).toList = paddedArg (secondField (argWindow area)) :=
  ⟨secondArgAccesses_inside area, secondArg_eq harea⟩

/-- The arguments of `js -f`. -/
theorem sampleArgs_spec :
    (∀ a ∈ secondArgAccesses [0x6a, 0x73, 0, 0x2d, 0x66, 0], a.Inside) ∧
      (secondArg [0x6a, 0x73, 0, 0x2d, 0x66, 0] true).toList =
        paddedArg (secondField (argWindow [0x6a, 0x73, 0, 0x2d, 0x66, 0])) :=
  secondArg_spec (by decide)

end LsmFork
