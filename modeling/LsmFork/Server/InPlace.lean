import LsmFork.Server.DumpMapping

/-!
# The filter in place

`sanitize_filename` reads and writes the same buffer, with an index for each.  Every `@` leaves the
writing index further behind, and it never gets in front, so what has not been read is still there.
This file takes the stores of a call one by one: none is behind the terminator of the string, and a
call on what a call has left stores what is there.

* `sanitizeStores`, `sanitizeFilename_eq_storeAll`: the stores of a call.
* `sanitizeStores_le`: where they are.
* `sanitizeFilename_clean`: a clean string stays as it is, and so does all of the buffer.
* `sanitizeFilename_inPlace`: the filter, for every buffer.
-/

namespace LsmFork

open CString

/-! ## The stores -/

/-- The stores of `sanitize_filename` from an iteration of its loop on: the index and the character,
the terminator last. -/
def sanitizeStores (maxLen : ℕ) (str : List UInt8) (i j : ℕ) : List (ℕ × UInt8) :=
  if i < maxLen ∧ str.getD i 0 ≠ 0 then
    if str.getD i 0 = slash then
      (j, underscore) :: sanitizeStores maxLen (str.set j underscore) (i + 1) (j + 1)
    else if str.getD i 0 ≠ atSign then
      (j, str.getD i 0) :: sanitizeStores maxLen (str.set j (str.getD i 0)) (i + 1) (j + 1)
    else sanitizeStores maxLen str (i + 1) j
  else [(j, 0)]
termination_by maxLen - i

/-- The buffer after some stores. -/
def storeAll (str : List UInt8) (stores : List (ℕ × UInt8)) : List UInt8 :=
  stores.foldl (fun buf store => buf.set store.1 store.2) str

/-- The stores of the loop and the terminator are what the call does. -/
theorem storeAll_sanitizeStores (maxLen : ℕ) (str : List UInt8) (i j : ℕ) :
    storeAll str (sanitizeStores maxLen str i j) =
      (sanitizeLoop maxLen str i j).1.set (sanitizeLoop maxLen str i j).2 0 := by
  fun_induction sanitizeLoop maxLen str i j with
  | case1 str i j hgo hslash ih =>
    rw [sanitizeStores, if_pos hgo, if_pos hslash]
    exact ih
  | case2 str i j hgo hslash hat ih =>
    rw [sanitizeStores, if_pos hgo, if_neg hslash, if_pos hat]
    exact ih
  | case3 str i j hgo hslash hat ih =>
    rw [sanitizeStores, if_pos hgo, if_neg hslash, if_neg hat]
    exact ih
  | case4 str i j hstop =>
    rw [sanitizeStores, if_neg hstop]
    rfl

/-- **A call is its stores.** -/
theorem sanitizeFilename_eq_storeAll (str : List UInt8) (maxLen : ℕ) :
    sanitizeFilename str maxLen = storeAll str (sanitizeStores maxLen str 0 0) :=
  (storeAll_sanitizeStores maxLen str 0 0).symm

theorem storeAll_length (str : List UInt8) (stores : List (ℕ × UInt8)) :
    (storeAll str stores).length = str.length := by
  induction stores generalizing str with
  | nil => rfl
  | cons store stores ih => exact (ih _).trans (List.length_set ..)

theorem drop_storeAll {stores : List (ℕ × UInt8)} {n : ℕ} (h : ∀ store ∈ stores, store.1 ≤ n)
    (str : List UInt8) : (storeAll str stores).drop (n + 1) = str.drop (n + 1) := by
  induction stores generalizing str with
  | nil => rfl
  | cons store stores ih =>
    rw [List.forall_mem_cons] at h
    exact (ih h.2 _).trans (List.drop_set_of_lt (Nat.lt_succ_of_le h.1))

/-- **No store** is behind the terminator of the string. -/
theorem sanitizeStores_le {maxLen : ℕ} {s str rest : List UInt8} {i j : ℕ}
    (hdrop : str.drop i = s ++ 0 :: rest) (hij : j ≤ i) :
    ∀ store ∈ sanitizeStores maxLen str i j, store.1 ≤ i + s.length := by
  induction s generalizing str i j with
  | nil =>
    have hstop : str.getD i 0 = 0 := getD_of_drop hdrop
    rw [sanitizeStores, if_neg (fun h => h.2 hstop), List.forall_mem_singleton]
    exact hij
  | cons c s ih =>
    have hnext : str.drop (i + 1) = s ++ 0 :: rest := by
      rw [← List.drop_drop, hdrop]
      rfl
    have hset : ∀ b : UInt8, (str.set j b).drop (i + 1) = s ++ 0 :: rest := fun b =>
      (List.drop_set_of_lt (Nat.lt_succ_of_le hij)).trans hnext
    rw [sanitizeStores, show i + (c :: s).length = i + 1 + s.length by rw [List.length_cons]; omega]
    split
    · split
      · rw [List.forall_mem_cons]
        exact ⟨by omega, ih (hset _) (by omega)⟩
      · split
        · rw [List.forall_mem_cons]
          exact ⟨by omega, ih (hset _) (by omega)⟩
        · exact ih hnext (by omega)
    · rw [List.forall_mem_singleton]
      omega

/-! ## A second call -/

theorem set_of_drop {str rest : List UInt8} {i : ℕ} {c : UInt8} (h : str.drop i = c :: rest) :
    str.set i c = str := by
  have hc : str[i]? = some c := by
    rw [← List.head?_drop, h]
    rfl
  obtain ⟨hi, hget⟩ := List.getElem?_eq_some_iff.mp hc
  rw [← hget, List.set_getElem_self]

/-- The loop over a clean string stores every character where it is. -/
theorem sanitizeLoop_clean {maxLen : ℕ} {s str rest : List UInt8} {i : ℕ}
    (hdrop : str.drop i = s ++ 0 :: rest) (hslash : slash ∉ s) (hat : atSign ∉ s)
    (hzero : (0 : UInt8) ∉ s) (hmax : i + s.length < maxLen) :
    sanitizeLoop maxLen str i i = (str, i + s.length) := by
  induction s generalizing i with
  | nil =>
    have hstop : str.getD i 0 = 0 := getD_of_drop hdrop
    rw [sanitizeLoop, if_neg (fun h => h.2 hstop)]
    rfl
  | cons c s ih =>
    rw [List.mem_cons, not_or] at hslash hat hzero
    rw [List.length_cons] at hmax ⊢
    have hc : str.getD i 0 = c := getD_of_drop hdrop
    have hnext : str.drop (i + 1) = s ++ 0 :: rest := by
      rw [← List.drop_drop, hdrop]
      rfl
    have hsame : str.set i c = str := set_of_drop hdrop
    rw [sanitizeLoop, if_pos ⟨by omega, hc ▸ Ne.symm hzero.1⟩, hc, if_neg (Ne.symm hslash.1),
      if_pos (Ne.symm hat.1), hsame, ih hnext hslash.2 hat.2 hzero.2 (by omega)]
    congr 1
    omega

/-- **A clean string** stays as it is, and all of its buffer with it. -/
theorem sanitizeFilename_clean {str : List UInt8} {maxLen : ℕ}
    (hend : (cstr str).length < maxLen) (hbuf : (cstr str).length < str.length)
    (hslash : slash ∉ cstr str) (hat : atSign ∉ cstr str) :
    sanitizeFilename str maxLen = str := by
  obtain ⟨rest, hrest⟩ := exists_eq_cstr_append hbuf
  have hdrop : str.drop 0 = cstr str ++ 0 :: rest := hrest
  have hterminator : str.drop (cstr str).length = 0 :: rest := drop_length_cstr hrest
  rw [sanitizeFilename, sanitizeLoop_clean hdrop hslash hat (zero_notMem_cstr str)
    (by rw [Nat.zero_add]; exact hend)]
  show str.set (0 + (cstr str).length) 0 = str
  rw [Nat.zero_add, set_of_drop hterminator]

/-! ## The filter -/

/-- What a call does to a buffer whose string is the first `n` bytes: it writes no further than the
terminator, leaves the string that the filter makes, and a second call changes nothing. -/
structure FiltersInPlace (str : List UInt8) (maxLen n : ℕ) : Prop where
  stores : ∀ store ∈ sanitizeStores maxLen str 0 0, store.1 ≤ n
  behind : (sanitizeFilename str maxLen).drop (n + 1) = str.drop (n + 1)
  filtered : cstr (sanitizeFilename str maxLen) = sanitized (str.take n)
  noSlash : slash ∉ cstr (sanitizeFilename str maxLen)
  noAt : atSign ∉ cstr (sanitizeFilename str maxLen)
  shorter : (cstr (sanitizeFilename str maxLen)).length ≤ n
  again : sanitizeFilename (sanitizeFilename str maxLen) maxLen = sanitizeFilename str maxLen

theorem atSign_notMem_sanitized (s : List UInt8) : atSign ∉ sanitized s := by
  intro h
  rcases mem_sanitized h with heq | ⟨-, -, hne⟩
  · exact absurd heq (by decide)
  · exact hne rfl

/-- **The filter in place**, for every buffer that holds a string, with its first NUL at `n`, in
front of `max_len`. -/
theorem sanitizeFilename_inPlace {str : List UInt8} {maxLen n : ℕ} (hn : n < maxLen)
    (hnul : str[n]? = some 0) (hfirst : (0 : UInt8) ∉ str.take n) :
    FiltersInPlace str maxLen n := by
  obtain ⟨hlt, hget⟩ := List.getElem?_eq_some_iff.mp hnul
  have hsplit : str = str.take n ++ 0 :: str.drop (n + 1) := by
    rw [← hget, ← List.drop_eq_getElem_cons hlt, List.take_append_drop]
  have hcstr : cstr str = str.take n := by
    conv_lhs => rw [hsplit]
    exact cstr_append_zero hfirst _
  have hlen : (cstr str).length = n := by rw [hcstr, List.length_take_of_le hlt.le]
  have hfiltered : cstr (sanitizeFilename str maxLen) = sanitized (str.take n) := by
    rw [sanitizeFilename_spec (by omega) (by omega), hcstr]
  have hshorter : (cstr (sanitizeFilename str maxLen)).length ≤ n := by
    rw [hfiltered]
    exact (sanitized_length_le _).trans (List.length_take_le _ _)
  have hstores : ∀ store ∈ sanitizeStores maxLen str 0 0, store.1 ≤ n := by
    have hle : ∀ store ∈ sanitizeStores maxLen str 0 0, store.1 ≤ 0 + (str.take n).length :=
      sanitizeStores_le hsplit (le_refl 0)
    rwa [List.length_take_of_le hlt.le, Nat.zero_add] at hle
  have hnoSlash : slash ∉ cstr (sanitizeFilename str maxLen) :=
    hfiltered ▸ slash_notMem_sanitized _
  have hnoAt : atSign ∉ cstr (sanitizeFilename str maxLen) :=
    hfiltered ▸ atSign_notMem_sanitized _
  have hsame : (sanitizeFilename str maxLen).length = str.length := by
    rw [sanitizeFilename_eq_storeAll, storeAll_length]
  exact
    { stores := hstores
      behind := by rw [sanitizeFilename_eq_storeAll, drop_storeAll hstores]
      filtered := hfiltered
      noSlash := hnoSlash
      noAt := hnoAt
      shorter := hshorter
      again := sanitizeFilename_clean (by omega) (by omega) hnoSlash hnoAt }

theorem sampleName_inPlace :
    FiltersInPlace [0x61, 0x2f, 0x40, 0x62, 0, 0x63] 16 4 :=
  sanitizeFilename_inPlace (by decide) rfl (by decide)

end LsmFork
